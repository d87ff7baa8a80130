import SoundLaw.Text.Blank

/-!
# Cutting and joining texts

A text is cut either at every character of a class, which gives the lines and cells of a table
and the words of a text, or at the leftmost occurrences of a separator that do not overlap. An
empty separator cuts at every gap, the two ends included. Joining the parts with the separator
gives the text back.
-/

namespace SoundLaw.Text

/-- The parts between the characters that satisfy `cuts`; there is one more part than cuts. -/
def splitWhere (cuts : Char → Bool) : List Char → List (List Char)
  | [] => [[]]
  | c :: rest =>
    let parts := splitWhere cuts rest
    if cuts c then [] :: parts
    else
      match parts with
      | [] => [[c]]
      | first :: others => (c :: first) :: others

/-- The parts of a text between the occurrences of a character. -/
def splitAtChar (separator : Char) (text : String) : List String :=
  (splitWhere (· == separator) text.toList).map String.ofList

/-- The maximal runs of a text without a blank. -/
def words (text : String) : List String :=
  ((splitWhere isBlank text.toList).filter (fun part => !part.isEmpty)).map String.ofList

/-- The parts between the leftmost occurrences of a separator that do not overlap, once `skip`
characters of an occurrence already found have been passed. -/
def splitAfter (separator : List Char) : Nat → List Char → List (List Char)
  | _, [] => [[]]
  | skip + 1, _ :: rest => splitAfter separator skip rest
  | 0, c :: rest =>
    if separator.isPrefixOf (c :: rest) then
      [] :: splitAfter separator (separator.length - 1) rest
    else
      match splitAfter separator 0 rest with
      | [] => [[c]]
      | first :: others => (c :: first) :: others

/-- The parts of a list of characters at a separator; an empty separator cuts at every gap. -/
def splitChars (separator text : List Char) : List (List Char) :=
  if separator.isEmpty then [] :: text.map (fun c => [c]) ++ [[]]
  else splitAfter separator 0 text

/-- The parts of a text at a separator. -/
def splitOn (separator text : String) : List String :=
  (splitChars separator.toList text.toList).map String.ofList

/-- Whether one list of characters occurs in another without gaps. -/
def occursIn (part : List Char) : List Char → Bool
  | [] => part.isEmpty
  | c :: rest => part.isPrefixOf (c :: rest) || occursIn part rest

/-- Whether one text occurs in another. -/
def contains (text part : String) : Bool :=
  occursIn part.toList text.toList

end SoundLaw.Text
