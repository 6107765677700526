import Invoicing.Fault

/-!
# Arguments

`Parameters` says which arguments a call takes: some by position or by name, others by name only.
`Parameters.bind` gives every argument its name, and refuses arguments that do not fit.
-/

namespace Invoicing

/-- The names of the arguments of a call. -/
structure Parameters where
  /-- Arguments that may be given by position. -/
  ordered : List String
  /-- Arguments that can only be given by name. -/
  named : List String
  /-- Arguments that must be given. -/
  required : List String

namespace Parameters

/-- Names for arguments given by position and by name. There may not be too many, none may be given
twice, and all names must be known. -/
def bindSome (p : Parameters) (values : List Value) (named : List (String × Value)) :
    Except Fault (List (String × Value)) :=
  let byPosition := p.ordered.zip values
  if p.ordered.length < values.length then .error .wrongKind
  else if named.all fun a =>
      (p.ordered ++ p.named).contains a.1 && !byPosition.any (·.1 = a.1) then
    .ok (byPosition ++ named)
  else .error .wrongKind

/-- Like `bindSome`; no required argument may be missing. -/
def bind (p : Parameters) (values : List Value) (named : List (String × Value)) :
    Except Fault (List (String × Value)) :=
  match p.bindSome values named with
  | .error f => .error f
  | .ok arguments =>
    if p.required.all fun n => arguments.any (·.1 = n) then .ok arguments else .error .wrongKind

end Parameters

end Invoicing
