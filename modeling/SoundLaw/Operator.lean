/-!
# Operators

The operators of the script language with their spelling, binding strength and number of
operands. Some operators have no spelling of their own: calls, indexing and the signs are told
apart by what stands before them, and the focus and the context of a rule only exist inside one.

A precedence is signed. Its size orders the operators by how tightly they bind, and a negative
sign makes an operator associate to the right.
-/

namespace SoundLaw

/-- The operators. -/
inductive Operator where
  | member
  | index
  | call
  | reference
  | fixed
  | create
  | struct
  | static
  | body
  | declare
  | lambda
  | not
  | length
  | stringify
  | numerify
  | vectorize
  | wordify
  | matrixify
  | common
  | typeOf
  | negate
  | affirm
  | power
  | among
  | multiply
  | divide
  | remainder
  | add
  | subtract
  | transform
  | contrast
  | arrow
  | focus
  | ruleContext
  | equal
  | notEqual
  | less
  | greater
  | lessEqual
  | greaterEqual
  | and
  | or
  | rule
  | assign
  | addAssign
  | subtractAssign
  | multiplyAssign
  | divideAssign
  | remainderAssign
  | attempt
  | range
  | inside
  | loop
  | branch
  | rescue
  | otherwise
  | result
  | raise
  | comma
  | semicolon
deriving DecidableEq, Repr, Inhabited

namespace Operator

/-- How an operator is written, or how it is called when it has no spelling of its own. -/
def spelling : Operator → String
  | member => "."
  | index => ".index"
  | call => ".exec"
  | reference => "ref"
  | fixed => "final"
  | create => "new"
  | struct => "struct"
  | static => "static"
  | body => "class"
  | declare => "var"
  | lambda => "=>"
  | not => "!"
  | length => "len"
  | stringify => "str"
  | numerify => "num"
  | vectorize => "vec"
  | wordify => "word"
  | matrixify => "mat"
  | common => "com"
  | typeOf => "type"
  | negate => ".negative"
  | affirm => ".positive"
  | power => "**"
  | among => "from"
  | multiply => "*"
  | divide => "/"
  | remainder => "%"
  | add => "+"
  | subtract => "-"
  | transform => ">>"
  | contrast => "?>"
  | arrow => "->"
  | focus => "_"
  | ruleContext => "/"
  | equal => "=="
  | notEqual => "!="
  | less => "<"
  | greater => ">"
  | lessEqual => "<="
  | greaterEqual => ">="
  | and => "&&"
  | or => "||"
  | rule => "|>"
  | assign => "="
  | addAssign => "+="
  | subtractAssign => "-="
  | multiplyAssign => "*="
  | divideAssign => "/="
  | remainderAssign => "%="
  | attempt => "try"
  | range => "until"
  | inside => "in"
  | loop => "do"
  | branch => "then"
  | rescue => "catch"
  | otherwise => "else"
  | result => "return"
  | raise => "throw"
  | comma => ","
  | semicolon => ";"

/-- The operators that a script spells out. -/
def spelled : List Operator :=
  [member, reference, fixed, create, struct, static, body, declare, lambda, not, length, stringify,
    numerify, vectorize, wordify, matrixify, common, typeOf, power, among, multiply, divide,
    remainder, add, subtract, transform, contrast, arrow, equal, notEqual, less, greater,
    lessEqual, greaterEqual, and, or, rule, assign, addAssign, subtractAssign, multiplyAssign,
    divideAssign, remainderAssign, attempt, range, inside, loop, branch, rescue, otherwise, result,
    raise, comma, semicolon]

/-- The operator that a text spells. -/
def ofSpelling? (text : String) : Option Operator :=
  spelled.find? (·.spelling == text)

/-- Whether some spelling starts with the given characters. -/
def startsSpelling (cs : List Char) : Bool :=
  spelled.any fun operator => cs.isPrefixOf operator.spelling.toList

/-- The signed precedence. -/
def precedence : Operator → Int
  | member | index | call => 15
  | reference | fixed => -15
  | create | struct | static => -14
  | body => 13
  | declare => -13
  | lambda => 12
  | not => -12
  | length | stringify | numerify | vectorize | wordify | matrixify | common | typeOf | negate
  | affirm => -11
  | power => -10
  | among => 10
  | multiply | divide | remainder => 9
  | add | subtract | transform | contrast => 8
  | arrow | focus => 7
  | equal | notEqual | less | greater | lessEqual | greaterEqual | ruleContext => 6
  | and | or | rule => 5
  | range => 4
  | assign | addAssign | subtractAssign | multiplyAssign | divideAssign | remainderAssign
  | attempt => -4
  | inside | loop | branch | rescue => 3
  | otherwise => -3
  | result | raise | comma => 2
  | semicolon => -1

/-- How tightly an operator binds. -/
def strength (operator : Operator) : Nat :=
  operator.precedence.natAbs

/-- Whether an operator associates to the right. -/
def isRightAssociative (operator : Operator) : Bool :=
  operator.precedence < 0

/-- Whether an operator that waits for its right operand is complete when `incoming` follows:
`incoming` binds less tightly, or equally while the waiting operator associates to the left. -/
def yieldsTo (waiting incoming : Operator) : Bool :=
  incoming.strength < waiting.strength ||
    (incoming.strength == waiting.strength && !waiting.isRightAssociative)

/-- Whether an operator divides statements or elements. -/
def isSeparator : Operator → Bool
  | comma | semicolon => true
  | _ => false

/-- Whether an operator stands before its only operand. -/
def isUnary : Operator → Bool
  | reference | fixed | create | struct | static | declare | not | length | stringify | numerify
  | vectorize | wordify | matrixify | common | typeOf | negate | affirm | attempt | result
  | raise => true
  | _ => false

/-- The number of operands. -/
def arity (operator : Operator) : Nat :=
  if operator.isSeparator then 0 else if operator.isUnary then 1 else 2

end Operator

end SoundLaw
