import SoundLaw.Feature
import SoundLaw.Operator
import SoundLaw.Position
import SoundLaw.Rule
import SoundLaw.Word

/-!
# Syntax trees

A unit is a list of statements, and every statement is an expression. A node carries the place
that faults in it are reported at. Leaves are the operands of a script: literals, the words for
special values, and names.
-/

namespace SoundLaw

/-- How an argument is bound to a parameter. -/
inductive ParameterMode where
  /-- A copy in a binding of its own. -/
  | value
  /-- The binding of the caller, if the argument is a bare name. -/
  | reference
  /-- A copy that cannot be assigned to. -/
  | fixed
deriving DecidableEq, Repr, Inhabited

/-- A parameter of a function. -/
structure Parameter where
  /-- The name it is bound to. -/
  name : String
  /-- How the argument is bound. -/
  mode : ParameterMode
deriving DecidableEq, Repr, Inhabited

/-- An operand without parts. -/
inductive Leaf where
  | null
  | bool (value : Bool)
  | number (value : Float)
  | text (value : String)
  | phone (value : Phone)
  | word (value : Word)
  | feature (value : Feature)
  /-- Leaves the innermost loop. -/
  | stop
  | name (name : String)
  /-- Binds a name in the innermost frame. -/
  | declare (name : String)
deriving Repr, Inhabited

/-- What a list of expressions stands for. -/
inductive Form where
  /-- The contents of round brackets before it is known what they are. -/
  | group
  | vector
  /-- Curly brackets: statements in a frame of their own. -/
  | block
  /-- Square brackets: features and matrices to be set in turn. -/
  | matrix
deriving DecidableEq, Repr, Inhabited

/-- A syntax tree. -/
inductive Node where
  | leaf (position : Position) (leaf : Leaf)
  | sequence (position : Position) (form : Form) (elements : List Node)
  | unary (position : Position) (operator : Operator) (operand : Node)
  | binary (position : Position) (operator : Operator) (left right : Node)
  | assign (position : Position) (operator : Operator) (target value : Node)
  | member (position : Position) (object : Node) (name : String)
  | index (position : Position) (target subscript : Node)
  | call (position : Position) (callee : Node) (arguments : List Node)
  | lambda (position : Position) (parameters : List Parameter) (body : Node)
  /-- A condition with one branch. -/
  | branch (position : Position) (condition consequence : Node)
  /-- A condition with two branches. -/
  | choice (position : Position) (condition consequence alternative : Node)
  | repetition (position : Position) (condition body : Node)
  | iteration (position : Position) (variableName : String) (iterable body : Node)
  /-- A statement whose faults are dropped. -/
  | attempt (position : Position) (body : Node)
  /-- A statement whose faults are handled. -/
  | rescue (position : Position) (body handler : Node)
  | define (position : Position) (name : String) (isStatic : Bool) (body : Node)
  | create (position : Position) (template : Node) (arguments : List Node)
  | rule (position : Position) (kind : RuleKind) (search replacement left right : Node)
  | result (position : Position) (value : Node)
  | raise (position : Position) (message : Node)
deriving Repr, Inhabited

namespace Node

/-- The place of a node. -/
def position : Node → Position
  | leaf p _ => p
  | sequence p _ _ => p
  | unary p _ _ => p
  | binary p _ _ _ => p
  | assign p _ _ _ => p
  | member p _ _ => p
  | index p _ _ => p
  | call p _ _ => p
  | lambda p _ _ => p
  | branch p _ _ => p
  | choice p _ _ _ => p
  | repetition p _ _ => p
  | iteration p _ _ _ => p
  | attempt p _ => p
  | rescue p _ _ => p
  | define p _ _ _ => p
  | create p _ _ => p
  | rule p _ _ _ _ _ => p
  | result p _ => p
  | raise p _ => p

/-- The expressions directly below an expression. -/
def parts : Node → List Node
  | leaf .. => []
  | sequence _ _ elements => elements
  | unary _ _ operand => [operand]
  | binary _ _ left right => [left, right]
  | assign _ _ target value => [target, value]
  | member _ object _ => [object]
  | index _ target subscript => [target, subscript]
  | call _ callee arguments => callee :: arguments
  | lambda _ _ body => [body]
  | branch _ condition consequence => [condition, consequence]
  | choice _ condition consequence alternative => [condition, consequence, alternative]
  | repetition _ condition body => [condition, body]
  | iteration _ _ iterable body => [iterable, body]
  | attempt _ body => [body]
  | rescue _ body handler => [body, handler]
  | define _ _ _ body => [body]
  | create _ template arguments => template :: arguments
  | rule _ _ search replacement left right => [search, replacement, left, right]
  | result _ value => [value]
  | raise _ message => [message]

/-- Whether a node is a block. -/
def isBlock : Node → Bool
  | sequence _ .block _ => true
  | _ => false

/-- Replaces bracketed contents by their only expression or by a vector. -/
def ungroup : Node → Node
  | sequence _ .group [element] => element
  | sequence p .group elements => sequence p .vector elements
  | node => node

end Node

end SoundLaw
