import Invoicing.Text.Quoted

/-!
# Identifiers

An `Id` names an account, a subscription, an item or an invoice. It is either known from outside, a
number of 128 bits, or minted here: minted ids are told apart by their serial numbers and are never
equal to a known one.
-/

namespace Invoicing

inductive Id where
  | known (number : Nat)
  | minted (serial : Nat)
  deriving DecidableEq

namespace Id

/-- A known id in hexadecimal, in groups of 8, 4, 4, 4 and 12 digits; a minted one as its serial
number behind a `#`. -/
def text : Id → String
  | .known n =>
    Text.hexPadded 8 (n >>> 96) ++ "-" ++ Text.hexPadded 4 (n >>> 80) ++ "-" ++
      Text.hexPadded 4 (n >>> 64) ++ "-" ++ Text.hexPadded 4 (n >>> 48) ++ "-" ++
      Text.hexPadded 12 n
  | .minted n => "#" ++ toString n

def hexDigit? (c : Char) : Option Nat :=
  if c.isDigit then some (c.toNat - '0'.toNat)
  else if 'a' ≤ c.toLower ∧ c.toLower ≤ 'f' then some (c.toLower.toNat - 'a'.toNat + 10)
  else none

/-- Reads 32 hexadecimal digits, in braces or not, with hyphens anywhere. -/
def ofText? (s : String) : Option Id :=
  let brace (c : Char) : Bool := c == '{' || c == '}'
  let inner := ((s.toList.dropWhile brace).reverse.dropWhile brace).reverse
  let digits := inner.filter (· ≠ '-')
  if digits.length = 32 then
    (digits.mapM hexDigit?).map fun ds => .known (ds.foldl (fun n d => 16 * n + d) 0)
  else none

end Id

end Invoicing
