import SoundLaw.Node
import SoundLaw.Number

/-!
# Values

What a script computes with. Vectors and dictionaries are copied when they are passed on; a
dictionary keeps its entries sorted by key. Functions, structures and tasks are shared, and two
of them are equal only when they are the same one.

A function written in a script remembers the scope it was made in. A method of an instance
remembers it without keeping it alive: the instance owns its frame.
-/

namespace SoundLaw

/-- The kinds of values. -/
inductive Kind where
  | null
  | bool
  | number
  | text
  | vector
  | dictionary
  | matrix
  | feature
  | phone
  | word
  | rule
  | function
  | struct
  | task
deriving DecidableEq, Repr, Inhabited

namespace Kind

/-- The name of a kind in scripts. -/
def name : Kind → String
  | null => "Null"
  | bool => "Bool"
  | number => "Number"
  | text => "String"
  | vector => "Vector"
  | dictionary => "Dictionary"
  | matrix => "Matrix"
  | feature => "Feature"
  | phone => "Phone"
  | word => "Word"
  | rule => "Rule"
  | function => "Function"
  | struct => "Structure"
  | task => "Pointer"

/-- All kinds. -/
def all : List Kind :=
  [null, bool, number, text, vector, dictionary, matrix, feature, phone, word, rule, function,
    struct, task]

/-- The kind of a given name. -/
def ofName? (name : String) : Option Kind :=
  all.find? (·.name == name)

end Kind

/-- The number of a frame in the heap. -/
abbrev FrameId := Nat

/-- The number of a cell in the heap. -/
abbrev CellId := Nat

/-- The number of a structure in the heap. -/
abbrev StructId := Nat

/-- The number of a task in the heap. -/
abbrev TaskId := Nat

/-- A chain of frames in which names are looked up from the inside out. -/
structure Scope where
  /-- The innermost frame, in which names are declared. -/
  frame : FrameId
  /-- The frames around it, the nearest first. -/
  outer : List FrameId
deriving DecidableEq, Repr, Inhabited

/-- All frames of a scope, the innermost first. -/
def Scope.chain (scope : Scope) : List FrameId :=
  scope.frame :: scope.outer

/-- The scope inside another one with a given frame. -/
def Scope.within (scope : Scope) (frame : FrameId) : Scope :=
  ⟨frame, scope.chain⟩

/-- Parameters and body of a function. -/
structure Definition where
  /-- The parameters in order. -/
  parameters : List Parameter
  /-- What a call evaluates. -/
  body : Node
deriving Repr, Inhabited

/-- Where a function finds its free names. -/
inductive Captured where
  /-- The scope is kept alive by the function. -/
  | held (scope : Scope)
  /-- The scope belongs to an instance, which may be gone when the function is called. -/
  | weak (scope : Scope)
deriving DecidableEq, Repr, Inhabited

/-- A function written in a script. -/
structure Closure where
  /-- Tells functions made at different times apart. -/
  identity : Nat
  /-- What the function does. -/
  definition : Definition
  /-- Where it finds its free names. -/
  captured : Captured
deriving Repr, Inhabited

/-- The commands that are bound to global names in every session. -/
inductive Command where
  | print
  | spawn
  | join
  | dict
  | sqrt
  | floor
  | abs
deriving DecidableEq, Repr, Inhabited

namespace Command

/-- The name a command is bound to. -/
def name : Command → String
  | print => "print"
  | spawn => "spawn"
  | join => "join"
  | dict => "dict"
  | sqrt => "sqrt"
  | floor => "floor"
  | abs => "abs"

/-- All these commands. -/
def all : List Command := [print, spawn, join, dict, sqrt, floor, abs]

end Command

/-- The built-in methods of values. -/
inductive Method where
  | length
  | contains
  | reverse
  | join
  | split
  | upper
  | lower
  | symbol
  | matrix
  | phones
  | apply
  | keys
  | has
deriving DecidableEq, Repr, Inhabited

namespace Method

/-- The name of a method. -/
def name : Method → String
  | length => "length"
  | contains => "contains"
  | reverse => "reverse"
  | join => "join"
  | split => "split"
  | upper => "upper"
  | lower => "lower"
  | symbol => "symbol"
  | matrix => "matrix"
  | phones => "phones"
  | apply => "apply"
  | keys => "keys"
  | has => "has"

/-- The kinds of values that have a method. -/
def kinds : Method → List Kind
  | length => [.text, .vector, .dictionary, .matrix, .word]
  | contains => [.vector, .text, .word, .matrix]
  | reverse => [.vector, .text, .word]
  | join => [.vector]
  | split | upper | lower => [.text]
  | symbol | matrix => [.phone]
  | phones => [.word]
  | apply => [.word, .rule]
  | keys | has => [.dictionary]

/-- All methods. -/
def all : List Method :=
  [length, contains, reverse, join, split, upper, lower, symbol, matrix, phones, apply, keys, has]

end Method

/-- A function that is not written in a script. -/
inductive Native where
  /-- A command of every session. -/
  | command (command : Command)
  /-- The command that a host registered under a name at a position; every registration makes a
  function of its own. -/
  | host (name : String) (index : Nat)
  /-- The method of one kind of values. -/
  | method (kind : Kind) (method : Method)
deriving DecidableEq, Repr, Inhabited

/-- The name of a function that is not written in a script. -/
def Native.name : Native → String
  | command c => c.name
  | host name _ => name
  | method _ m => m.name

/-- A function. -/
inductive Callable where
  | script (closure : Closure)
  | native (native : Native)
deriving Repr, Inhabited

namespace Callable

/-- Whether two functions are one and the same. -/
def same : Callable → Callable → Bool
  | script a, script b => a.identity == b.identity
  | native a, native b => a == b
  | _, _ => false

/-- The written form of a function. -/
def render : Callable → String
  | script closure => "<function/" ++ toString closure.definition.parameters.length ++ ">"
  | native n => "<native " ++ n.name ++ ">"

end Callable

/-- A value. -/
inductive Value where
  | null
  | bool (value : Bool)
  | number (value : Float)
  | text (value : String)
  | vector (elements : List Value)
  | dictionary (entries : List (String × Value))
  | matrix (value : Matrix)
  | feature (value : Feature)
  | phone (value : Phone)
  | word (value : Word)
  | rule (value : Rule)
  | function (value : Callable)
  | struct (id : StructId)
  | task (id : TaskId)
deriving Inhabited

namespace Value

/-- The kind of a value. -/
def kind : Value → Kind
  | null => .null
  | bool _ => .bool
  | number _ => .number
  | text _ => .text
  | vector _ => .vector
  | dictionary _ => .dictionary
  | matrix _ => .matrix
  | feature _ => .feature
  | phone _ => .phone
  | word _ => .word
  | rule _ => .rule
  | function _ => .function
  | struct _ => .struct
  | task _ => .task

/-- A fault about a value of the wrong kind. -/
def unfit (operation : String) (value : Value) : Fault :=
  .mismatch operation value.kind.name

/-- A fault about two values whose kinds do not go together. -/
def unfitPair (operation : String) (a b : Value) : Fault :=
  .mismatch operation (a.kind.name ++ " and " ++ b.kind.name)

/-- The truth value that a value is. -/
def asBool (operation : String) : Value → Except Fault Bool
  | bool value => .ok value
  | other => .error (other.unfit operation)

/-- The number that a value is. -/
def asNumber (operation : String) : Value → Except Fault Float
  | number value => .ok value
  | other => .error (other.unfit operation)

/-- The index into a sized value that a value stands for. -/
def asIndex (length : Nat) (value : Value) : Except Fault Nat := do
  let number ← value.asNumber "index with"
  match Number.index? number length with
  | some index => return index
  | none => throw (.raised (.indexOutOfRange (Number.text number) length))

mutual

/-- Whether two values are equal without asking any instance. -/
def same : Value → Value → Bool
  | null, null => true
  | bool a, bool b => a == b
  | number a, number b => a == b
  | text a, text b => a == b
  | vector a, vector b => sameAll a b
  | dictionary a, dictionary b => sameEntries a b
  | matrix a, matrix b => a == b
  | feature a, feature b => a == b
  | phone a, phone b => a == b
  | word a, word b => a == b
  | rule a, rule b => a == b
  | function a, function b => a.same b
  | struct a, struct b => a == b
  | task a, task b => a == b
  | _, _ => false

/-- Whether two lists hold equal values in the same order. -/
def sameAll : List Value → List Value → Bool
  | [], [] => true
  | a :: as, b :: bs => a.same b && sameAll as bs
  | _, _ => false

/-- Whether two dictionaries hold equal values under the same keys. -/
def sameEntries : List (String × Value) → List (String × Value) → Bool
  | [], [] => true
  | (key, a) :: as, (key', b) :: bs => key == key' && a.same b && sameEntries as bs
  | _, _ => false

end

/-- The text of several values in brackets. -/
def bracketed (parts : List String) : String :=
  "[" ++ ", ".intercalate parts ++ "]"

/-- The text of several entries in braces. -/
def braced (parts : List String) : String :=
  "\x7b" ++ ", ".intercalate parts ++ "\x7d"

mutual

/-- The text of a value without asking any instance; structures are described by name. -/
def render (describe : StructId → String) : Value → String
  | null => "null"
  | bool value => toString value
  | number value => Number.text value
  | text value => value
  | vector elements => bracketed (renderAll describe elements)
  | dictionary entries => braced (renderEntries describe entries)
  | matrix value => value.render
  | feature value => value.render
  | phone value => value.symbol
  | word value => value.render
  | rule value => value.render
  | function value => value.render
  | struct id => describe id
  | task _ => "<pointer>"

/-- The texts of several values. -/
def renderAll (describe : StructId → String) : List Value → List String
  | [] => []
  | value :: rest => value.render describe :: renderAll describe rest

/-- The texts of several entries. -/
def renderEntries (describe : StructId → String) : List (String × Value) → List String
  | [] => []
  | (key, value) :: rest =>
    (key ++ ": " ++ value.render describe) :: renderEntries describe rest

end

/-- The value under a key of a dictionary. -/
def entry? (key : String) (entries : List (String × Value)) : Option Value :=
  entries.lookup key

/-- The entries of a dictionary with another value under a key that they have. -/
def replaceEntry (key : String) (value : Value) : List (String × Value) → List (String × Value)
  | [] => []
  | (key', value') :: rest =>
    if key = key' then (key', value) :: rest else (key', value') :: replaceEntry key value rest

/-- The entries of a dictionary with a value under a new key, before the first greater key. -/
def addEntry (key : String) (value : Value) : List (String × Value) → List (String × Value)
  | [] => [(key, value)]
  | (key', value') :: rest =>
    if key < key' then (key, value) :: (key', value') :: rest
    else (key', value') :: addEntry key value rest

/-- The entries of a dictionary with a value under a key, sorted by key. -/
def insertEntry (key : String) (value : Value) (entries : List (String × Value)) :
    List (String × Value) :=
  match entry? key entries with
  | some _ => replaceEntry key value entries
  | none => addEntry key value entries

end Value

end SoundLaw
