import SoundLaw.Feature
import SoundLaw.Lexeme

/-!
# Tokens

A token is a lexeme whose meaning among its neighbours has been settled. Every token has a
written form that reads back as the same token; literals are written between their delimiters
with escapes for the delimiter, the backslash and the control characters that have a letter.
-/

namespace SoundLaw

/-- What a token is. -/
inductive TokenKind where
  | number (value : Float)
  | literal (kind : LiteralKind) (text : String)
  | feature (feature : Feature)
  | identifier (name : String)
  | operator (operator : Operator)
  | opening (bracket : Bracket)
  | closing (bracket : Bracket)
deriving Repr, Inhabited

/-- A token with its place. -/
structure Token where
  /-- What the token is. -/
  kind : TokenKind
  /-- The place of the token. -/
  position : Position
deriving Repr, Inhabited

/-- How a character is written inside a literal. -/
def quoteChar (delimiter c : Char) : List Char :=
  if c = '\n' then ['\\', 'n']
  else if c = '\t' then ['\\', 't']
  else if c = '\r' then ['\\', 'r']
  else if c = '\\' ∨ c = delimiter then ['\\', c]
  else [c]

/-- A text as a literal between delimiters. -/
def quote (delimiter : Char) (text : String) : String :=
  String.ofList (delimiter :: text.toList.flatMap (quoteChar delimiter) ++ [delimiter])

namespace TokenKind

/-- The written form of a token. -/
def render : TokenKind → String
  | number value => Number.display value
  | literal kind text => quote kind.delimiter text
  | feature f => "@" ++ f.render
  | identifier name => name
  | operator op => op.spelling
  | opening bracket => bracket.opening.toString
  | closing bracket => bracket.closing.toString

/-- Whether an operand may end with the token. -/
def endsOperand : TokenKind → Bool
  | operator _ | opening _ => false
  | _ => true

/-- Whether an operand may start with the token. -/
def startsOperand : TokenKind → Bool
  | operator op => op.isUnary
  | closing _ => false
  | _ => true

/-- Whether the token ends the operand of an operator that may go without one. -/
def endsStatement : TokenKind → Bool
  | closing _ => true
  | operator op => op.isSeparator
  | _ => false

end TokenKind

end SoundLaw
