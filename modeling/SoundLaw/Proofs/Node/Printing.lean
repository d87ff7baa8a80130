import SoundLaw.Node.Parsing
import SoundLaw.Proofs.Token.Ordering

/-!
# Expressions are read as they are written

An expression made of operands, operators before a value and operators between two values is
written with round brackets only where the precedences ask for them. Reading it back gives the
tree of the expression.

The first pass leaves the operators of the open right edge waiting on its stack. What is kept
through the pass is that each of them yields to whatever its expression as a whole yields to, so
the next operator, bracket or end releases exactly them and nothing below.
-/

namespace SoundLaw

/-- Whether an operator makes a value of the values on its two sides. -/
def Operator.joinsValues : Operator → Bool
  | power | among | multiply | divide | remainder | add | subtract | transform | contrast
  | equal | notEqual | less | greater | lessEqual | greaterEqual | and | or | range => true
  | _ => false

/-- Whether an operator makes a value of the value after it. -/
def Operator.changesValue : Operator → Bool
  | not | length | stringify | numerify | vectorize | wordify | matrixify | common | typeOf
  | negate | affirm => true
  | _ => false

/-- Whether a token is an operand by itself. -/
def TokenKind.isOperand : TokenKind → Bool
  | number _ | literal _ _ | feature _ | identifier _ => true
  | operator _ | opening _ | closing _ => false

namespace Operator

/-- An operator between values is no separator and stands between two operands. -/
theorem joinsValues_arity {operator : Operator} (hjoins : operator.joinsValues) :
    operator.isSeparator = false ∧ operator.isUnary = false := by
  revert hjoins
  cases operator <;> decide

/-- An operator before a value is no separator and stands before its operand. -/
theorem changesValue_arity {operator : Operator} (hchanges : operator.changesValue) :
    operator.isSeparator = false ∧ operator.isUnary = true := by
  revert hchanges
  cases operator <;> decide

/-- Operators before a value bind more tightly than those between two values. -/
theorem changesValue_yieldsTo {operator incoming : Operator} (hchanges : operator.changesValue)
    (hjoins : incoming.joinsValues) : operator.yieldsTo incoming := by
  have hstrong : 11 ≤ operator.strength := by
    revert hchanges
    cases operator <;> decide
  have hweak : incoming.strength ≤ 10 := by
    revert hjoins
    cases incoming <;> decide
  have hlt : incoming.strength < operator.strength := by omega
  simp [yieldsTo, hlt]

/-- What yields to an operator binds at least as tightly. -/
theorem strength_le_of_yieldsTo {waiting incoming : Operator}
    (h : waiting.yieldsTo incoming) : incoming.strength ≤ waiting.strength := by
  simp only [yieldsTo, Bool.or_eq_true, decide_eq_true_eq, Bool.and_eq_true, beq_iff_eq] at h
  omega

/-- What does not yield to an operator does not yield to one that binds as tightly either. -/
theorem not_yieldsTo_of_le {waiting incoming other : Operator} (h : ¬ waiting.yieldsTo incoming)
    (hle : incoming.strength ≤ other.strength) : ¬ waiting.yieldsTo other := by
  simp only [yieldsTo, Bool.or_eq_true, decide_eq_true_eq, Bool.and_eq_true, beq_iff_eq,
    not_or, not_and] at h ⊢
  refine ⟨by omega, fun heq => h.2 (by omega)⟩

/-- An operator inside the right operand yields to what the operator around it yields to. -/
theorem yieldsTo_of_not_yieldsTo {waiting inner incoming : Operator}
    (hinner : ¬ waiting.yieldsTo inner) (hincoming : waiting.yieldsTo incoming) :
    inner.yieldsTo incoming := by
  have hlt : incoming.strength < inner.strength := by
    simp only [yieldsTo, Bool.or_eq_true, decide_eq_true_eq, Bool.and_eq_true, beq_iff_eq,
      not_or, not_and] at hinner hincoming
    rcases hincoming with hlt | ⟨heq, hassociative⟩
    · omega
    · have hne : inner.strength ≠ waiting.strength := fun h => hinner.2 h hassociative
      omega
  simp [yieldsTo, hlt]

end Operator

/-- An expression made of operands and value operators, with the places of its tokens. -/
inductive Expression where
  | operand (token : Token) (isOperand : token.kind.isOperand)
  | changed (position : Position) (operator : Operator) (changes : operator.changesValue)
    (operand : Expression)
  | joined (position : Position) (operator : Operator) (joins : operator.joinsValues)
    (left right : Expression)

namespace Expression

/-- The syntax tree of an expression. Its operands are read against the phone table. -/
def tree (table : Table) : Expression → Except Fault Node
  | operand token _ => (Leaf.ofToken table token).map (.leaf token.position)
  | changed p operator _ e => (e.tree table).map (.unary p operator)
  | joined p operator _ left right => do
    let leftTree ← left.tree table
    let rightTree ← right.tree table
    return .binary p operator leftTree rightTree

/-- The outermost operator of an expression if it joins two values. -/
def joining? : Expression → Option Operator
  | joined _ operator _ _ _ => some operator
  | _ => none

/-- Puts round brackets around some tokens if they are needed. -/
def enclose (places : Position × Position) (needed : Bool) (tokens : List Token) : List Token :=
  if needed then ⟨.opening .round, places.1⟩ :: (tokens ++ [⟨.closing .round, places.2⟩]) else tokens

/-- The written form of an expression, given the places of the brackets around each part. Brackets
stand around a joined operand of an operator before it, around a left operand that does not yield
to its operator, and around a right operand to which its operator yields. -/
def tokens (places : Expression → Position × Position) : Expression → List Token
  | operand token _ => [token]
  | changed p operator _ e =>
    ⟨.operator operator, p⟩ :: enclose (places e) e.joining?.isSome (e.tokens places)
  | joined p operator _ left right =>
    enclose (places left) (left.joining?.any (!·.yieldsTo operator)) (left.tokens places) ++
      ⟨.operator operator, p⟩ ::
        enclose (places right) (right.joining?.any operator.yieldsTo) (right.tokens places)

/-- The written form with every operator behind its operands. -/
def behind (places : Expression → Position × Position) : Expression → List Token
  | operand token _ => [token]
  | changed p operator _ e =>
    enclose (places e) e.joining?.isSome (e.behind places) ++ [⟨.operator operator, p⟩]
  | joined p operator _ left right =>
    enclose (places left) (left.joining?.any (!·.yieldsTo operator)) (left.behind places) ++
      (enclose (places right) (right.joining?.any operator.yieldsTo) (right.behind places) ++
        [⟨.operator operator, p⟩])

end Expression

namespace Token

/-- Whether the waiting operators stay when an operator comes in. -/
def Stays (stack : List Token) (incoming : Operator) : Prop :=
  releaseWhile (·.yieldsTo incoming) stack = ([], stack)

/-- An opening bracket protects the operators that wait below it. -/
theorem Stays.of_opening (bracket : Bracket) (p : Position) (stack : List Token)
    (incoming : Operator) : Stays (⟨.opening bracket, p⟩ :: stack) incoming := rfl

/-- The stack stays exactly if its top is no operator that yields. -/
theorem stays_operator_iff (waiting incoming : Operator) (p : Position) (stack : List Token) :
    Stays (⟨.operator waiting, p⟩ :: stack) incoming ↔ ¬ waiting.yieldsTo incoming := by
  unfold Stays
  rw [releaseWhile]
  dsimp only
  split
  · next hyields => simp [hyields]
  · next hyields => simp [hyields]

/-- A stack that stays also stays for operators that bind as tightly. -/
theorem Stays.mono {stack : List Token} {incoming other : Operator} (h : Stays stack incoming)
    (hle : incoming.strength ≤ other.strength) : Stays stack other := by
  match stack with
  | [] => rfl
  | ⟨.operator waiting, p⟩ :: below =>
    rw [stays_operator_iff] at h ⊢
    exact Operator.not_yieldsTo_of_le h hle
  | ⟨.number _, _⟩ :: _ => rfl
  | ⟨.literal _ _, _⟩ :: _ => rfl
  | ⟨.feature _, _⟩ :: _ => rfl
  | ⟨.identifier _, _⟩ :: _ => rfl
  | ⟨.opening _, _⟩ :: _ => rfl
  | ⟨.closing _, _⟩ :: _ => rfl

/-- Some tokens are rearranged into `out` and leave `waiting` on the stack, as long as the stack
stays when their outermost operator comes in. Each waiting operator yields to what the outermost
operator yields to. -/
structure Settles (outermost : Option Operator) (tokens out waiting : List Token) : Prop where
  arranged : ∀ stack, (∀ operator ∈ outermost, Stays stack operator) →
    arrangeAll stack tokens = .ok (out, waiting ++ stack)
  yields : ∀ token ∈ waiting, ∃ operator, token.kind = .operator operator ∧
    ∀ incoming, incoming.joinsValues → (∀ outer ∈ outermost, outer.yieldsTo incoming) →
      operator.yieldsTo incoming

/-- What waits is an operator. -/
theorem Settles.waiting {outermost : Option Operator} {tokens out waiting : List Token}
    (h : Settles outermost tokens out waiting) :
    ∀ token ∈ waiting, ∃ operator, token.kind = .operator operator := by
  intro token htoken
  obtain ⟨operator, hkind, -⟩ := h.yields token htoken
  exact ⟨operator, hkind⟩

/-- An operand is passed on at once. -/
theorem Settles.operand {token : Token} (htoken : token.kind.isOperand) :
    Settles none [token] [token] [] := by
  refine ⟨?_, fun _ hmem => absurd hmem List.not_mem_nil⟩
  intro stack _
  obtain ⟨kind, p⟩ := token
  cases kind with
  | number | literal | feature | identifier => rfl
  | operator | opening | closing => cases htoken

/-- Brackets release everything that waits inside them. -/
theorem Settles.brackets {outermost : Option Operator} {tokens out waiting : List Token}
    (h : Settles outermost tokens out waiting) (places : Position × Position) :
    Settles none (Expression.enclose places true tokens)
      (Expression.enclose places true (out ++ waiting)) [] := by
  refine ⟨?_, fun _ hmem => absurd hmem List.not_mem_nil⟩
  intro stack _
  have hinside := h.arranged (⟨.opening .round, places.1⟩ :: stack) fun operator _ =>
    Stays.of_opening _ _ _ operator
  have hclosing : arrangeAll (waiting ++ ⟨.opening .round, places.1⟩ :: stack)
      [⟨.closing .round, places.2⟩] = .ok (waiting ++ [⟨.closing .round, places.2⟩], stack) := by
    rw [arrangeAll, arrangeOne]
    dsimp only
    rw [releaseBracket_append h.waiting]
    simp [bind, Except.bind, Except.map, arrangeAll]
  rw [Expression.enclose, if_pos rfl, arrangeAll]
  change (arrangeAll _ (tokens ++ _)).map _ = _
  rw [arrangeAll_append, hinside]
  change ((arrangeAll _ _).map _).map _ = _
  rw [hclosing]
  simp [Except.map, Expression.enclose]

/-- An expression is passed on as it is, or inside brackets. -/
theorem Settles.enclose {outermost : Option Operator} {tokens out waiting : List Token}
    (h : Settles outermost tokens out waiting) (places : Position × Position) (needed : Bool) :
    ∃ out' waiting', out' ++ waiting' = Expression.enclose places needed (out ++ waiting) ∧
      Settles (if needed then none else outermost) (Expression.enclose places needed tokens)
        out' waiting' := by
  cases needed with
  | true => exact ⟨_, [], List.append_nil _, h.brackets places⟩
  | false => exact ⟨out, waiting, rfl, h⟩

/-- An operator before a value waits below what waits in its operand. -/
theorem Settles.changed {tokens out waiting : List Token} (h : Settles none tokens out waiting)
    {operator : Operator} (hchanges : operator.changesValue) (p : Position) :
    Settles none (⟨.operator operator, p⟩ :: tokens) out
      (waiting ++ [⟨.operator operator, p⟩]) := by
  obtain ⟨hseparator, hunary⟩ := Operator.changesValue_arity hchanges
  refine ⟨?_, ?_⟩
  · intro stack _
    have hinside := h.arranged (⟨.operator operator, p⟩ :: stack) fun _ hmem =>
      absurd hmem (Option.not_mem_none _)
    rw [arrangeAll, arrangeOne]
    simp only [hseparator, hunary, if_true, Bool.false_eq_true, if_false]
    change (arrangeAll _ _).map _ = _
    rw [hinside, List.append_assoc]
    rfl
  · intro token htoken
    rcases List.mem_append.mp htoken with hwaiting | hself
    · exact h.yields token hwaiting
    · rw [List.mem_singleton.mp hself]
      exact ⟨operator, rfl, fun incoming hjoins _ =>
        Operator.changesValue_yieldsTo hchanges hjoins⟩

/-- An operator between two values releases its left operand and waits below its right one. -/
theorem Settles.joined {leftmost rightmost : Option Operator}
    {left leftOut leftWaiting right rightOut rightWaiting : List Token}
    (hleft : Settles leftmost left leftOut leftWaiting)
    (hright : Settles rightmost right rightOut rightWaiting)
    {operator : Operator} (hjoins : operator.joinsValues) (p : Position)
    (hyields : ∀ inner ∈ leftmost, inner.yieldsTo operator)
    (hstays : ∀ inner ∈ rightmost, ¬ operator.yieldsTo inner) :
    Settles (some operator) (left ++ ⟨.operator operator, p⟩ :: right)
      (leftOut ++ (leftWaiting ++ rightOut)) (rightWaiting ++ [⟨.operator operator, p⟩]) := by
  obtain ⟨hseparator, hunary⟩ := Operator.joinsValues_arity hjoins
  refine ⟨?_, ?_⟩
  · intro stack hstack
    have hstack := hstack operator rfl
    have hbelow : ∀ inner ∈ leftmost, Stays stack inner := fun inner hinner =>
      hstack.mono (Operator.strength_le_of_yieldsTo (hyields inner hinner))
    have hrelease : releaseWhile (·.yieldsTo operator) (leftWaiting ++ stack) =
        (leftWaiting, stack) := by
      refine releaseWhile_append ?_ hstack
      intro token htoken
      obtain ⟨waiting, hkind, hall⟩ := hleft.yields token htoken
      exact ⟨waiting, hkind, hall operator hjoins hyields⟩
    have hfocus : arrangeOne (leftWaiting ++ stack) ⟨.operator operator, p⟩ =
        .ok (leftWaiting, ⟨.operator operator, p⟩ :: stack) := by
      rw [arrangeOne]
      simp only [hseparator, hunary, Bool.false_eq_true, if_false, hrelease]
    have hrest := hright.arranged (⟨.operator operator, p⟩ :: stack) fun inner hinner =>
      (stays_operator_iff _ _ _ _).mpr (hstays inner hinner)
    rw [arrangeAll_append, hleft.arranged stack hbelow]
    change (arrangeAll (leftWaiting ++ stack) _).map _ = _
    rw [arrangeAll, hfocus]
    change ((arrangeAll _ right).map _).map _ = _
    rw [hrest, List.append_assoc]
    rfl
  · intro token htoken
    rcases List.mem_append.mp htoken with hwaiting | hself
    · obtain ⟨waiting, hkind, hall⟩ := hright.yields token hwaiting
      refine ⟨waiting, hkind, fun incoming hincoming houter => hall incoming hincoming ?_⟩
      intro inner hinner
      exact Operator.yieldsTo_of_not_yieldsTo (hstays inner hinner) (houter operator rfl)
    · rw [List.mem_singleton.mp hself]
      exact ⟨operator, rfl, fun incoming _ houter => houter operator rfl⟩

end Token

namespace Expression

/-- The first pass puts the operators of an expression behind their operands, except for those
that still wait at its end. -/
theorem exists_settles (places : Expression → Position × Position) (e : Expression) :
    ∃ out waiting, out ++ waiting = e.behind places ∧
      Token.Settles e.joining? (e.tokens places) out waiting := by
  induction e with
  | operand token htoken => exact ⟨[token], [], rfl, Token.Settles.operand htoken⟩
  | changed p operator hchanges e ih =>
    obtain ⟨out, waiting, hbehind, hsettles⟩ := ih
    obtain ⟨out', waiting', hbehind', hsettles'⟩ :=
      hsettles.enclose (places e) e.joining?.isSome
    have hnone : (if e.joining?.isSome then none else e.joining?) = none := by
      cases e.joining? <;> rfl
    rw [hnone] at hsettles'
    refine ⟨out', _, ?_, hsettles'.changed hchanges p⟩
    rw [← List.append_assoc, hbehind', hbehind, behind]
  | joined p operator hjoins left right ihl ihr =>
    obtain ⟨outl, waitingl, hbehindl, hsettlesl⟩ := ihl
    obtain ⟨outr, waitingr, hbehindr, hsettlesr⟩ := ihr
    obtain ⟨outl', waitingl', hbehindl', hsettlesl'⟩ :=
      hsettlesl.enclose (places left) (left.joining?.any (!·.yieldsTo operator))
    obtain ⟨outr', waitingr', hbehindr', hsettlesr'⟩ :=
      hsettlesr.enclose (places right) (right.joining?.any operator.yieldsTo)
    refine ⟨_, _, ?_, hsettlesl'.joined hsettlesr' hjoins p ?_ ?_⟩
    · rw [behind, ← hbehindl, ← hbehindr, ← hbehindl', ← hbehindr']
      simp only [List.append_assoc]
    · intro inner hinner
      cases hroot : left.joining? with
      | none => simp [hroot] at hinner
      | some root =>
        cases hyields : root.yieldsTo operator with
        | false => simp [hroot, hyields] at hinner
        | true =>
          simp only [hroot, Option.any_some, hyields, Bool.not_true, Bool.false_eq_true, if_false,
            Option.mem_def, Option.some.injEq] at hinner
          exact hinner ▸ hyields
    · intro inner hinner
      cases hroot : right.joining? with
      | none => simp [hroot] at hinner
      | some root =>
        cases hyields : operator.yieldsTo root with
        | true => simp [hroot, hyields] at hinner
        | false =>
          simp only [hroot, Option.any_some, hyields, Bool.false_eq_true, if_false,
            Option.mem_def, Option.some.injEq] at hinner
          rw [← hinner, hyields]
          exact Bool.false_ne_true

/-- The first pass puts every operator of an expression behind its operands. -/
theorem operatorsLast_tokens (places : Expression → Position × Position) (e : Expression) :
    Token.operatorsLast (e.tokens places) = .ok (e.behind places) := by
  obtain ⟨out, waiting, hbehind, hsettles⟩ := e.exists_settles places
  have harranged := hsettles.arranged [] fun _ _ => rfl
  rw [List.append_nil] at harranged
  rw [Token.operatorsLast, Token.arrange_eq_releaseAll, harranged, ← hbehind]
  change (Token.releaseAll waiting).map _ = _
  rw [Token.releaseAll_eq_ok hsettles.waiting]
  rfl

/-- The tree of an expression is no bracketed list. -/
theorem ungroup_tree {table : Table} {e : Expression} {node : Node} (h : e.tree table = .ok node) :
    node.ungroup = node := by
  cases e with
  | operand token _ =>
    obtain ⟨leaf, -, rfl⟩ := map_eq_ok_iff.mp h
    rfl
  | changed p operator _ e =>
    obtain ⟨operand, -, rfl⟩ := map_eq_ok_iff.mp h
    rfl
  | joined p operator _ left right =>
    obtain ⟨leftTree, -, hrest⟩ := bind_eq_ok_iff.mp h
    obtain ⟨rightTree, -, heq⟩ := bind_eq_ok_iff.mp hrest
    cases heq
    rfl

/-- The tree that the second pass has on its stack for an expression, inside brackets or not. -/
def enclosedTree (places : Position × Position) (needed : Bool) (node : Node) : Node :=
  if needed then .sequence places.1 .group [node] else node

/-- Brackets around one tree that is no bracketed list itself go away again. -/
theorem ungroup_enclosedTree {places : Position × Position} {needed : Bool} {node : Node}
    (hnode : node.ungroup = node) : (enclosedTree places needed node).ungroup = node := by
  cases needed with
  | true => rfl
  | false => exact hnode

/-- The second pass builds an expression inside brackets as it builds the expression. -/
theorem foldlM_enclose {table : Table} {tokens : List Token} {built : Except Fault Node}
    (hbuilt : ∀ stack, tokens.foldlM (Node.step table) stack = built.map (.node · :: stack))
    (hplain : ∀ node, built = .ok node → node.ungroup = node)
    (places : Position × Position) (needed : Bool) (stack : List Node.Item) :
    (enclose places needed tokens).foldlM (Node.step table) stack =
      built.map fun node => .node (enclosedTree places needed node) :: stack := by
  cases needed with
  | false => exact hbuilt stack
  | true =>
    rw [enclose, if_pos rfl, List.foldlM_cons]
    change (tokens ++ [_]).foldlM (Node.step table) (.opening places.1 :: stack) = _
    rw [List.foldlM_append, hbuilt]
    cases built with
    | error fault => rfl
    | ok node =>
      change Except.ok (Node.Item.node (.sequence places.1 .group [node.ungroup]) :: stack) = _
      rw [hplain node rfl]
      rfl

/-- The second pass puts an operand on its stack. -/
theorem step_operand (table : Table) (stack : List Node.Item) {token : Token}
    (htoken : token.kind.isOperand) :
    Node.step table stack token =
      (Leaf.ofToken table token).map fun leaf => .node (.leaf token.position leaf) :: stack := by
  obtain ⟨kind, p⟩ := token
  cases kind with
  | number | literal | feature | identifier => rfl
  | operator | opening | closing => cases htoken

/-- The second pass puts an operator before a value on top of its operand. -/
theorem step_changed (table : Table) (stack : List Node.Item) (node : Node) {operator : Operator}
    (hchanges : operator.changesValue) (p : Position) :
    Node.step table (.node node :: stack) ⟨.operator operator, p⟩ =
      .ok (.node (.unary p operator node.ungroup) :: stack) := by
  cases operator <;> try cases hchanges
  all_goals rfl

/-- The second pass puts an operator between two values on top of its operands. -/
theorem step_joined (table : Table) (stack : List Node.Item) (left right : Node)
    {operator : Operator} (hjoins : operator.joinsValues) (p : Position) :
    Node.step table (.node right :: .node left :: stack) ⟨.operator operator, p⟩ =
      .ok (.node (.binary p operator left.ungroup right.ungroup) :: stack) := by
  cases operator <;> try cases hjoins
  all_goals rfl

/-- The second pass builds the tree of an expression on top of its stack. -/
theorem foldlM_behind (table : Table) (places : Expression → Position × Position) (e : Expression)
    (stack : List Node.Item) :
    (e.behind places).foldlM (Node.step table) stack =
      (e.tree table).map (.node · :: stack) := by
  induction e generalizing stack with
  | operand token htoken =>
    rw [behind, tree, List.foldlM_cons, step_operand table stack htoken]
    cases Leaf.ofToken table token <;> rfl
  | changed p operator hchanges e ih =>
    rw [behind, tree, List.foldlM_append, foldlM_enclose ih fun _ => ungroup_tree]
    cases htree : e.tree table with
    | error fault => rfl
    | ok node =>
      change Node.step table _ ⟨.operator operator, p⟩ >>= pure = _
      rw [step_changed table _ _ hchanges, ungroup_enclosedTree (ungroup_tree htree)]
      rfl
  | joined p operator hjoins left right ihl ihr =>
    rw [behind, tree, List.foldlM_append, foldlM_enclose ihl fun _ => ungroup_tree]
    cases hleft : left.tree table with
    | error fault => rfl
    | ok leftTree =>
      change List.foldlM (Node.step table) (.node (enclosedTree _ _ leftTree) :: stack) (_ ++ _) = _
      rw [List.foldlM_append, foldlM_enclose ihr fun _ => ungroup_tree]
      cases hright : right.tree table with
      | error fault => rfl
      | ok rightTree =>
        change Node.step table _ ⟨.operator operator, p⟩ >>= pure = _
        rw [step_joined table _ _ _ hjoins, ungroup_enclosedTree (ungroup_tree hleft),
          ungroup_enclosedTree (ungroup_tree hright)]
        rfl

/-- Reading a written expression gives its tree and nothing else, wherever its tokens stand. -/
theorem parse_tokens (table : Table) (places : Expression → Position × Position)
    (e : Expression) :
    Node.parse table (e.tokens places) = (e.tree table).map fun tree => [tree] := by
  rw [Node.parse, e.operatorsLast_tokens places]
  change Node.assemble table (e.behind places) = _
  rw [Node.assemble, e.foldlM_behind table places []]
  cases htree : e.tree table with
  | error fault => rfl
  | ok tree =>
    change Except.ok [tree.ungroup] = Except.ok [tree]
    rw [ungroup_tree htree]

end Expression

end SoundLaw
