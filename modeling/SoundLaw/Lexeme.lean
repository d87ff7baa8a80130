import SoundLaw.Decimal.Reading
import SoundLaw.Fault
import SoundLaw.Number
import SoundLaw.Operator
import SoundLaw.Text.Alphanumeric
import SoundLaw.Text.Blank

/-!
# Lexemes

The first reading of a source text divides it into literals, names, numbers, brackets and
operator spellings, each with its place. Blanks and comments, which run from a number sign to
the end of the line, are skipped. What a lexeme means among its neighbours is decided later.

Literals stand between delimiters and may span lines. A backslash starts an escape: a letter for
a control character, a delimiter or another backslash for itself, or three digits for a code
point.
-/

namespace SoundLaw

/-- The shapes of brackets. -/
inductive Bracket where
  | round
  | square
  | curly
deriving DecidableEq, Repr, Inhabited

namespace Bracket

/-- The opening bracket of a shape. -/
def opening : Bracket → Char
  | round => '('
  | square => '['
  | curly => '\x7b'

/-- The closing bracket of a shape. -/
def closing : Bracket → Char
  | round => ')'
  | square => ']'
  | curly => '\x7d'

/-- All shapes. -/
def all : List Bracket := [round, square, curly]

/-- The shape that a character opens. -/
def ofOpening? (c : Char) : Option Bracket :=
  all.find? (·.opening == c)

/-- The shape that a character closes. -/
def ofClosing? (c : Char) : Option Bracket :=
  all.find? (·.closing == c)

end Bracket

/-- The literals that stand between delimiters. -/
inductive LiteralKind where
  | text
  | phone
  | word
deriving DecidableEq, Repr, Inhabited

namespace LiteralKind

/-- The delimiter at both ends of a literal. -/
def delimiter : LiteralKind → Char
  | text => '\x22'
  | phone => '\x27'
  | word => '\x60'

/-- All kinds of literals. -/
def all : List LiteralKind := [text, phone, word]

/-- The kind of literal that a delimiter starts. -/
def ofDelimiter? (c : Char) : Option LiteralKind :=
  all.find? (·.delimiter == c)

end LiteralKind

/-- The piece of text that a lexeme is. -/
inductive LexemeKind where
  | number (value : Float)
  | literal (kind : LiteralKind) (text : String)
  | name (text : String)
  | symbol (operator : Operator)
  | opening (bracket : Bracket)
  | closing (bracket : Bracket)
  /-- The sign that starts a feature literal. -/
  | featureSign
  /-- The bar between a quality and a feature. -/
  | pipe
  /-- The sign of the wildcard quality. -/
  | tilde
deriving Repr, Inhabited

/-- A piece of text with its place. -/
structure Lexeme where
  /-- What the lexeme is. -/
  kind : LexemeKind
  /-- The place of its first character. -/
  position : Position
deriving Repr, Inhabited

namespace LexemeKind

/-- The text of a lexeme as messages quote it. -/
def text : LexemeKind → String
  | number value => Number.display value
  | literal _ text => text
  | name text => text
  | symbol operator => operator.spelling
  | opening bracket => bracket.opening.toString
  | closing bracket => bracket.closing.toString
  | featureSign => "@"
  | pipe => "|"
  | tilde => "~"

/-- The operator that a lexeme spells, words included. -/
def operator? : LexemeKind → Option Operator
  | symbol operator => some operator
  | name text => Operator.ofSpelling? text
  | _ => none

end LexemeKind

end SoundLaw
