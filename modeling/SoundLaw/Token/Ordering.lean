import SoundLaw.Token

/-!
# Operators behind their operands

Tokens are rearranged so that every operator stands behind its operands, as its precedence
demands. Brackets stay where they are, so that what they enclose can be found again. Operators
wait on a stack for their right operand; a separator releases all that wait inside the innermost
bracket, and an operator releases those that yield to it. An operator that stands before its
operand releases nothing.
-/

namespace SoundLaw.Token

/-- A bracket without its partner. -/
def unmatched (bracket : Char) (position : Position) : Fault :=
  .compilation (.unmatchedBracket bracket) position

/-- Releases the operators above the nearest opening bracket and takes that bracket away; it has
to have the shape that is being closed at `position`. -/
def releaseBracket (bracket : Bracket) (position : Position) :
    List Token → Except Fault (List Token × List Token)
  | [] => .error (unmatched bracket.closing position)
  | top :: below =>
    match top.kind with
    | .opening found =>
      if found = bracket then .ok ([], below) else .error (unmatched found.opening top.position)
    | _ => (releaseBracket bracket position below).map fun (released, left) => (top :: released, left)

/-- Releases the operators at the top of the stack that satisfy a test. -/
def releaseWhile (test : Operator → Bool) : List Token → List Token × List Token
  | [] => ([], [])
  | top :: below =>
    match top.kind with
    | .operator operator =>
      if test operator then
        let (released, left) := releaseWhile test below
        (top :: released, left)
      else ([], top :: below)
    | _ => ([], top :: below)

/-- Releases everything at the end of the tokens; no bracket may be left open. -/
def releaseAll : List Token → Except Fault (List Token)
  | [] => .ok []
  | top :: below =>
    match top.kind with
    | .opening bracket => .error (unmatched bracket.opening top.position)
    | _ => (releaseAll below).map (top :: ·)

/-- Rearranges tokens while a stack of operators and opening brackets is waiting. -/
def arrange : List Token → List Token → Except Fault (List Token)
  | stack, [] => releaseAll stack
  | stack, token :: rest =>
    match token.kind with
    | .opening _ => (arrange (token :: stack) rest).map (token :: ·)
    | .closing bracket =>
      match releaseBracket bracket token.position stack with
      | .error fault => .error fault
      | .ok (released, stack) => (arrange stack rest).map (released ++ token :: ·)
    | .operator operator =>
      if operator.isSeparator then
        let (released, stack) := releaseWhile (fun _ => true) stack
        (arrange stack rest).map (released ++ ·)
      else if operator.isUnary then arrange (token :: stack) rest
      else
        let (released, stack) := releaseWhile (·.yieldsTo operator) stack
        (arrange (token :: stack) rest).map (released ++ ·)
    | _ => (arrange stack rest).map (token :: ·)

/-- The tokens with every operator behind its operands and without separators. -/
def operatorsLast (tokens : List Token) : Except Fault (List Token) :=
  arrange [] tokens

end SoundLaw.Token
