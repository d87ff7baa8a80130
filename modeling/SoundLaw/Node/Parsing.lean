import SoundLaw.Node
import SoundLaw.Table.Transcription
import SoundLaw.Token.Classification
import SoundLaw.Token.Ordering

/-!
# Building syntax trees

Once every operator stands behind its operands, the trees are built on a stack: an operand is
pushed, an operator takes its operands off and pushes the tree made of them, and a closing
bracket collects everything down to its partner. Some constructs look into the trees they take:
a function takes its parameters apart, a handler completes the statement it follows, and a rule
is made of the operators inside it.
-/

namespace SoundLaw

/-- A construct whose operands have the wrong shape. -/
def malformedSyntax (message : String) (position : Position) : Fault :=
  .compilation (.malformedSyntax message) position

/-- A phone or word literal that cannot be read, reported at the literal. -/
def literalFault (position : Position) : Fault → Fault
  | .evaluation cause _ => .compilation (.invalidLiteral cause.text) position
  | other => .compilation (.invalidLiteral other.message) position

/-- A literal as it is read. A tree is built in steps that all come to an end; a literal that is
read without end, for which there is no tree either, counts as one that cannot be read. -/
def readLiteral {α : Type} (token : Token) (reading : Option (Except Fault α)) : Except Fault α :=
  (reading.getD (.error (.failed "read without end"))).mapError (literalFault token.position)

namespace Leaf

/-- What a name stands for as an operand. -/
def ofName (identifier : String) : Leaf :=
  if identifier = "null" then null
  else if identifier = "true" then bool true
  else if identifier = "false" then bool false
  else if identifier = "break" then stop
  else name identifier

/-- The operand that a token is. Literals are read against the phone table. -/
def ofToken (table : Table) (token : Token) : Except Fault Leaf :=
  match token.kind with
  | .number value => .ok (number value)
  | .literal .text value => .ok (text value)
  | .literal .phone value => (readLiteral token (table.readPhone value)).map phone
  | .literal .word value => (readLiteral token (table.readWord value)).map word
  | .feature value => .ok (feature value)
  | .identifier identifier => .ok (ofName identifier)
  | .operator _ | .opening _ | .closing _ =>
    .error (malformedSyntax "unexpected token" token.position)

end Leaf

namespace Node

/-- The tree of an operator before its operand. -/
def ofUnary (operator : Operator) (operand : Node) (p : Position) : Except Fault Node :=
  match operator with
  | .create =>
    match operand.ungroup with
    | call _ template arguments => .ok (create p template arguments)
    | template => .ok (create p template [])
  | .declare =>
    match operand with
    | leaf _ (.name name) => .ok (leaf p (.declare name))
    | _ => .error (malformedSyntax "\x60var\x60 must be followed by a name" p)
  | .result => .ok (result p operand.ungroup)
  | .raise => .ok (raise p operand.ungroup)
  | .attempt => .ok (attempt p operand.ungroup)
  | _ => .ok (unary p operator operand.ungroup)

/-- The parameter that a node in a parameter list writes. -/
def parameter (node : Node) : Except Fault Parameter :=
  match node with
  | leaf _ (.name name) => .ok ⟨name, .value⟩
  | unary _ .reference (leaf _ (.name name)) => .ok ⟨name, .reference⟩
  | unary _ .fixed (leaf _ (.name name)) => .ok ⟨name, .fixed⟩
  | _ => .error (malformedSyntax "lambda parameters must be names" node.position)

/-- A function, or with a name before the parameters the declaration of one. -/
def ofLambda (head body : Node) (p : Position) : Except Fault Node :=
  match head with
  | call _ (leaf namePosition (.name name)) arguments => do
    let parameters ← arguments.mapM parameter
    return assign p .assign (leaf namePosition (.declare name)) (lambda p parameters body.ungroup)
  | call .. => .error (malformedSyntax "a named lambda needs a plain name" p)
  | sequence _ .group elements => do
    let parameters ← elements.mapM parameter
    return lambda p parameters body.ungroup
  | other => do
    let single ← parameter other
    return lambda p [single] body.ungroup

/-- The two sides of the context of a rule; a rule without a context has null on both. -/
def contextSides (context : Option Node) (p : Position) : Except Fault (Node × Node) :=
  match context with
  | some (binary _ .focus left right) => .ok (left, right)
  | some _ => .error (malformedSyntax "a rule context needs \x60_\x60" p)
  | none => .ok (leaf p .null, leaf p .null)

/-- A rule, taken apart into its search, its replacement and the two sides of its context. -/
def ofRule (kind change : Node) (p : Position) : Except Fault Node := do
  let kindName :=
    match kind with
    | leaf _ (.name name) => RuleKind.ofName? name
    | _ => none
  match kindName with
  | none => throw (malformedSyntax "a rule must start with S, Af or Ab" p)
  | some kind =>
    let (change, context) :=
      match change with
      | binary _ .ruleContext change context => (change, some context)
      | other => (other, none)
    match change with
    | binary _ .arrow search replacement =>
      let (left, right) ← contextSides context p
      return rule p kind search replacement left right
    | _ => throw (malformedSyntax "a rule needs \x60search -> replacement\x60" p)

/-- Whether a node can stand on the left of an assignment. -/
def isAssignable : Node → Bool
  | leaf _ (.name _) | leaf _ (.declare _) | index .. | member .. => true
  | _ => false

/-- The tree of an operator between two operands. -/
def ofBinary (operator : Operator) (left right : Node) (p : Position) : Except Fault Node :=
  match operator with
  | .member =>
    match right with
    | leaf _ (.name name) => .ok (member p left.ungroup name)
    | _ => .error (malformedSyntax "\x60.\x60 must be followed by a name" p)
  | .index =>
    match right with
    | sequence _ .matrix [subscript] => .ok (index p left.ungroup subscript)
    | _ => .error (malformedSyntax "an index takes exactly one expression" p)
  | .call =>
    match right with
    | sequence _ .group arguments => .ok (call p left.ungroup arguments)
    | argument => .ok (call p left.ungroup [argument])
  | .lambda => ofLambda left right p
  | .body =>
    match left with
    | unary _ .struct (leaf _ (.name name)) => .ok (define p name false right.ungroup)
    | unary _ .static (leaf _ (.name name)) => .ok (define p name true right.ungroup)
    | unary _ .struct _ | unary _ .static _ =>
      .error (malformedSyntax "a structure needs a name" p)
    | _ =>
      .error (malformedSyntax "\x60class\x60 must follow \x60struct\x60 or \x60static\x60" p)
  | .branch => .ok (branch p left.ungroup right.ungroup)
  | .otherwise =>
    match left with
    | branch _ condition consequence => .ok (choice p condition consequence right.ungroup)
    | _ => .error (malformedSyntax "\x60else\x60 must follow \x60then\x60" p)
  | .rescue =>
    match left with
    | attempt _ body => .ok (rescue p body right.ungroup)
    | _ => .error (malformedSyntax "\x60catch\x60 must follow \x60try\x60" p)
  | .loop =>
    match left.ungroup with
    | binary inPosition .inside variableNode iterable =>
      match variableNode with
      | leaf _ (.name name) | leaf _ (.declare name) =>
        .ok (iteration p name iterable right.ungroup)
      | _ => .error (malformedSyntax "\x60in\x60 must follow a name" inPosition)
    | condition => .ok (repetition p condition right.ungroup)
  | .rule => ofRule left right p
  | .assign | .addAssign | .subtractAssign | .multiplyAssign | .divideAssign
  | .remainderAssign =>
    let target := left.ungroup
    if target.isAssignable then .ok (assign p operator target right.ungroup)
    else .error (malformedSyntax "only names, members and indices can be assigned" p)
  | _ => .ok (binary p operator left.ungroup right.ungroup)

/-- What waits on the stack: an open bracket or a finished tree. -/
inductive Item where
  | opening (position : Position)
  | node (node : Node)
deriving Repr, Inhabited

/-- The form of what a closing bracket collects. -/
def formOf : Bracket → Form
  | .round => .group
  | .square => .matrix
  | .curly => .block

/-- Takes the trees down to the nearest open bracket off the stack, the lowest first, with the
place of the bracket. -/
def collect (bracket : Bracket) (p : Position) (above : List Node) :
    List Item → Except Fault (List Node × Position × List Item)
  | [] => .error (Token.unmatched bracket.closing p)
  | .opening start :: below => .ok (above, start, below)
  | .node node :: below => collect bracket p (node.ungroup :: above) below

/-- Takes one token, given the stack with its top first. -/
def step (table : Table) (stack : List Item) (token : Token) : Except Fault (List Item) :=
  let p := token.position
  match token.kind with
  | .opening _ => .ok (.opening p :: stack)
  | .closing bracket => do
    let (elements, start, below) ← collect bracket p [] stack
    return .node (sequence start (formOf bracket) elements) :: below
  | .operator operator =>
    let missing : Fault := .compilation (.missingOperand operator.spelling) p
    if operator.isSeparator then .ok stack
    else if operator.isUnary then
      match stack with
      | .node operand :: below => return .node (← ofUnary operator operand p) :: below
      | _ => .error missing
    else
      match stack with
      | .node right :: .node left :: below =>
        return .node (← ofBinary operator left right p) :: below
      | _ => .error missing
  | _ => do
    let operand ← Leaf.ofToken table token
    return .node (leaf p operand) :: stack

/-- The tree of an item left at the end; an open bracket is a fault. -/
def statement : Item → Except Fault Node
  | .node node => .ok node.ungroup
  | .opening p => .error (Token.unmatched '(' p)

/-- Builds the trees of tokens with every operator behind its operands. -/
def assemble (table : Table) (tokens : List Token) : Except Fault (List Node) := do
  let stack ← tokens.foldlM (step table) []
  stack.reverse.mapM statement

/-- The statements of a unit. -/
def parse (table : Table) (tokens : List Token) : Except Fault (List Node) := do
  assemble table (← Token.operatorsLast tokens)

end Node

end SoundLaw
