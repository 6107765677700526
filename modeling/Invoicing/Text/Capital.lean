/-!
# Capital letters

`capitals` writes a text in capitals as far as these are ASCII letters. Besides the small ASCII
letters a few others have ASCII capitals: the dotless i, the long s, and the ligatures.
-/

namespace Invoicing.Text

/-- Characters outside ASCII whose capital form is ASCII. -/
def foreignCapitals : List (Char × String) :=
  [('ß', "SS"), ('ı', "I"), ('ſ', "S"), ('ﬀ', "FF"), ('ﬁ', "FI"), ('ﬂ', "FL"), ('ﬃ', "FFI"),
   ('ﬄ', "FFL"), ('ﬅ', "ST"), ('ﬆ', "ST")]

/-- Capital form of a character; itself if that form is not ASCII. -/
def capital (c : Char) : List Char :=
  match foreignCapitals.lookup c with
  | some s => s.toList
  | none => [c.toUpper]

def capitals (s : String) : String := String.ofList (s.toList.flatMap capital)

end Invoicing.Text
