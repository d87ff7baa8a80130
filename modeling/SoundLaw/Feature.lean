/-!
# Features and their qualities

A feature such as voice is specified as present or absent, left unspecified, or stands in a
pattern as a wildcard or as a variable. The three variables take their value from the matched
phone, the phone before it and the phone after it.
-/

namespace SoundLaw

/-- The value a feature takes. -/
inductive Quality where
  | plus
  | minus
  /-- Not specified; a matrix never stores it. -/
  | unset
  /-- Matches every value in a pattern. -/
  | any
  /-- The value on the matched phone. -/
  | alpha
  /-- The value on the phone before. -/
  | beta
  /-- The value on the phone after. -/
  | gamma
deriving DecidableEq, Repr, Inhabited

namespace Quality

/-- The sign a quality is written with. -/
def symbol : Quality → Char
  | plus => '+'
  | minus => '-'
  | unset => '0'
  | any => '~'
  | alpha => 'α'
  | beta => 'β'
  | gamma => 'γ'

/-- All qualities. -/
def all : List Quality := [plus, minus, unset, any, alpha, beta, gamma]

/-- The quality that a sign writes. -/
def ofSymbol? (c : Char) : Option Quality :=
  all.find? (·.symbol == c)

/-- Whether a quality is a pattern variable. -/
def isVariable : Quality → Bool
  | alpha | beta | gamma => true
  | _ => false

end Quality

/-- A feature together with its quality, such as `+voice`. -/
structure Feature where
  /-- The name of the feature. -/
  name : String
  /-- The quality it takes. -/
  quality : Quality
deriving DecidableEq, Repr, Inhabited

/-- The written form of a feature: the sign and the name. -/
def Feature.render (f : Feature) : String :=
  f.quality.symbol.toString ++ f.name

end SoundLaw
