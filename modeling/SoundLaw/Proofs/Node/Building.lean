import SoundLaw.Proofs.Node.Leaves

/-!
# What holds of every tree that is built

A tree is built from a token that is an operand, from the contents of brackets, or by an operator
from its operands. A property that each of these ways preserves holds of every tree on the stack,
after any number of tokens, and so of the trees that the statements of a unit are.

Some operators look into their operands and take them apart. Still an operator only adds nodes of
its own: everything else in its tree is in an operand without the brackets around it
(`madeFrom_ofUnary`, `madeFrom_ofBinary`).
-/

namespace SoundLaw.Node

open Token

/-- The expressions in a tree: the tree itself and the expressions in its parts. -/
inductive Within : Node → Node → Prop
  | root (node : Node) : Within node node
  | part {node part whole : Node} : part ∈ whole.parts → Within node part → Within node whole

/-- A property holds throughout a tree exactly when the tree has it and it holds throughout the
parts. -/
theorem forall_within_iff {P : Node → Prop} {whole : Node} :
    (∀ node, node.Within whole → P node) ↔
      P whole ∧ ∀ part ∈ whole.parts, ∀ node, node.Within part → P node := by
  constructor
  · intro h
    exact ⟨h whole (.root whole), fun part hpart node hnode => h node (.part hpart hnode)⟩
  · rintro ⟨hwhole, hparts⟩ node (_ | ⟨hpart, hnode⟩)
    · exact hwhole
    · exact hparts _ hpart node hnode

/-- What is in a tree that is in another is in the other. -/
theorem Within.trans {node part whole : Node} (hnode : node.Within part)
    (hpart : part.Within whole) : node.Within whole := by
  induction hpart with
  | root => exact hnode
  | part hmem _ ih => exact .part hmem ih

/-! ## What an operator builds -/

/-- A tree that is no group is left as it is. -/
theorem ungroup_eq_self {node : Node}
    (h : ∀ p elements, node = sequence p .group elements → False) : node.ungroup = node := by
  unfold ungroup
  split
  · exact (h _ _ rfl).elim
  · exact (h _ _ rfl).elim
  · rfl

/-- Taking off brackets keeps what is directly inside them. -/
theorem within_ungroup_of_mem_parts {part whole : Node} (h : part ∈ whole.parts) :
    part.Within whole.ungroup := by
  unfold ungroup
  split
  · rw [List.mem_singleton.mp h]
    exact .root _
  · exact .part h (.root part)
  · exact .part h (.root part)

/-- Whether an operator can put a node into a tree that is in none of its operands. That is every
construct but brackets, of which a rule is made by its own sign only, and of the leaves a declared
name and the null for an absent part. -/
def isMadeBy (operator : Operator) : Node → Bool
  | leaf _ .null | leaf _ (.declare _) => true
  | leaf .. | sequence .. => false
  | rule .. => operator = .rule
  | _ => true

/-- Everything in a tree is made by an operator or is in one of its operands, apart from the
brackets around the operand. -/
def MadeFrom (operator : Operator) (operands : List Node) (whole : Node) : Prop :=
  ∀ node : Node, node.Within whole →
    node.isMadeBy operator = true ∨ ∃ operand ∈ operands, node.Within operand.ungroup

namespace MadeFrom

variable {operator : Operator} {operands : List Node}

/-- An operand without the brackets around it. -/
theorem ungrouped {operand : Node} (h : operand ∈ operands) :
    MadeFrom operator operands operand.ungroup :=
  fun _ hnode => .inr ⟨operand, h, hnode⟩

/-- A part of an operand. -/
theorem part_of {operand part : Node} (h : operand ∈ operands) (hpart : part ∈ operand.parts) :
    MadeFrom operator operands part :=
  fun _ hnode => .inr ⟨operand, h, hnode.trans (within_ungroup_of_mem_parts hpart)⟩

/-- A part of a tree that is made from operands. -/
theorem part {whole part : Node} (h : MadeFrom operator operands whole)
    (hpart : part ∈ whole.parts) : MadeFrom operator operands part :=
  fun node hnode => h node (.part hpart hnode)

/-- A node that the operator makes around trees made from operands. -/
theorem around {whole : Node} (hwhole : whole.isMadeBy operator = true)
    (hparts : ∀ part ∈ whole.parts, MadeFrom operator operands part) :
    MadeFrom operator operands whole :=
  forall_within_iff.mpr ⟨.inl hwhole, hparts⟩

end MadeFrom

/-- An operator before its operand adds nodes of its own only. -/
theorem madeFrom_ofUnary {operator : Operator} {operand whole : Node} {p : Position}
    (h : ofUnary operator operand p = .ok whole) : MadeFrom operator [operand] whole := by
  have hoperand : MadeFrom operator [operand] operand.ungroup :=
    .ungrouped (List.mem_singleton_self operand)
  unfold ofUnary at h
  split at h
  · split at h
    · next hcall =>
      cases h
      rw [hcall] at hoperand
      exact .around rfl fun part hpart => hoperand.part hpart
    · cases h
      exact .around rfl (by simpa [parts] using hoperand)
  · split at h
    · cases h
      exact .around rfl (by simp [parts])
    · cases h
  all_goals
    cases h
    exact .around rfl (by simpa [parts] using hoperand)

/-- A function, or the declaration of one, is made from its body. -/
theorem madeFrom_ofLambda {operator : Operator} {operands : List Node} {head body whole : Node}
    {p : Position} (hbody : body ∈ operands) (h : ofLambda head body p = .ok whole) :
    MadeFrom operator operands whole := by
  have hlambda (parameters : List Parameter) :
      MadeFrom operator operands (lambda p parameters body.ungroup) :=
    .around rfl (by simpa [parts] using MadeFrom.ungrouped hbody)
  unfold ofLambda at h
  split at h
  · obtain ⟨parameters, -, h⟩ := bind_eq_ok_iff.mp h
    cases h
    have hname (q : Position) (name : String) :
        MadeFrom operator operands (leaf q (.declare name)) :=
      .around rfl (by simp [parts])
    exact .around rfl (by simpa [parts] using ⟨hname _ _, hlambda parameters⟩)
  · cases h
  · obtain ⟨parameters, -, h⟩ := bind_eq_ok_iff.mp h
    cases h
    exact hlambda parameters
  · obtain ⟨single, -, h⟩ := bind_eq_ok_iff.mp h
    cases h
    exact hlambda [single]

/-- A rule is made from the operators inside its change. -/
theorem madeFrom_ofRule {operands : List Node} {kind change whole : Node} {p : Position}
    (hchange : change ∈ operands) (h : ofRule kind change p = .ok whole) :
    MadeFrom .rule operands whole := by
  have hnull : MadeFrom .rule operands (leaf p .null) := .around rfl (by simp [parts])
  have hpart {part : Node} (hmem : part ∈ change.parts) : MadeFrom .rule operands part :=
    .part_of hchange hmem
  unfold ofRule at h
  dsimp only at h
  split at h
  · cases h
  split at h
  · next harrow =>
    obtain ⟨⟨left, right⟩, hsides, h⟩ := bind_eq_ok_iff.mp h
    cases h
    refine .around rfl ?_
    split at harrow
    · -- the change and its context are parts of the operand
      cases harrow
      have hinner := hpart (List.mem_cons_self ..)
      have hcontext := hpart (List.mem_cons_of_mem _ (List.mem_singleton_self _))
      unfold contextSides at hsides
      split at hsides
      · next hfocus =>
        cases hsides
        cases hfocus
        simpa [parts] using ⟨hinner.part (by simp [parts]), hinner.part (by simp [parts]),
          hcontext.part (by simp [parts]), hcontext.part (by simp [parts])⟩
      · cases hsides
      · next hfocus => cases hfocus
    · cases harrow
      cases hsides
      simpa [parts] using ⟨hpart (by simp [parts]), hpart (by simp [parts]), hnull⟩
  · cases h

/-- An operator between two operands adds nodes of its own only. -/
theorem madeFrom_ofBinary {operator : Operator} {left right whole : Node} {p : Position}
    (h : ofBinary operator left right p = .ok whole) :
    MadeFrom operator [left, right] whole := by
  have hleft : MadeFrom operator [left, right] left.ungroup := .ungrouped (by simp)
  have hright : MadeFrom operator [left, right] right.ungroup := .ungrouped (by simp)
  have hinLeft {part : Node} (hpart : part ∈ left.parts) :
      MadeFrom operator [left, right] part := .part_of (by simp) hpart
  have hinRight {part : Node} (hpart : part ∈ right.parts) :
      MadeFrom operator [left, right] part := .part_of (by simp) hpart
  unfold ofBinary at h
  dsimp only at h
  split at h
  case h_1 =>
    split at h
    · cases h
      exact .around rfl (by simpa [parts] using hleft)
    · cases h
  case h_2 =>
    split at h
    · cases h
      exact .around rfl (by simpa [parts] using ⟨hleft, hinRight (by simp [parts])⟩)
    · cases h
  case h_3 =>
    split at h
    · cases h
      exact .around rfl (List.forall_mem_cons.mpr ⟨hleft, fun _ => hinRight⟩)
    · next hother =>
      cases h
      -- an argument without brackets
      rw [ungroup_eq_self hother] at hright
      exact .around rfl (by simpa [parts] using ⟨hleft, hright⟩)
  case h_4 => exact madeFrom_ofLambda (by simp) h
  case h_5 =>
    split at h
    · cases h
      exact .around rfl (by simpa [parts] using hright)
    · cases h
      exact .around rfl (by simpa [parts] using hright)
    all_goals cases h
  case h_7 =>
    split at h
    · cases h
      exact .around rfl (by
        simpa [parts] using ⟨hinLeft (by simp [parts]), hinLeft (by simp [parts]), hright⟩)
    · cases h
  case h_8 =>
    split at h
    · cases h
      exact .around rfl (by simpa [parts] using ⟨hinLeft (by simp [parts]), hright⟩)
    · cases h
  case h_9 =>
    split at h
    · next hinside =>
      rw [hinside] at hleft
      have hiterable := hleft.part (List.mem_cons_of_mem _ (List.mem_singleton_self _))
      split at h
      · cases h
        exact .around rfl (by simpa [parts] using ⟨hiterable, hright⟩)
      · cases h
        exact .around rfl (by simpa [parts] using ⟨hiterable, hright⟩)
      · cases h
    · cases h
      exact .around rfl (by simpa [parts] using ⟨hleft, hright⟩)
  case h_10 => exact madeFrom_ofRule (by simp) h
  case h_6 | h_17 =>
    cases h
    exact .around rfl (by simpa [parts] using ⟨hleft, hright⟩)
  -- the assignments
  all_goals
    split at h
    · cases h
      exact .around rfl (by simpa [parts] using ⟨hleft, hright⟩)
    · cases h

/-! ## What the steps preserve -/

/-- A property that every way of building a tree from some tokens preserves. -/
structure Building (table : Table) (tokens : List Token) (P : Node → Prop) : Prop where
  leaf : ∀ {token operand}, token ∈ tokens → Leaf.ofToken table token = .ok operand →
    P (.leaf token.position operand)
  sequence : ∀ {start bracket} {elements : List Node}, (∀ element ∈ elements, P element) →
    P (.sequence start (formOf bracket) (elements.map ungroup))
  unary : ∀ {operator p operand node}, (⟨.operator operator, p⟩ : Token) ∈ tokens → P operand →
    ofUnary operator operand p = .ok node → P node
  binary : ∀ {operator p left right node}, (⟨.operator operator, p⟩ : Token) ∈ tokens → P left →
    P right → ofBinary operator left right p = .ok node → P node

namespace Building

variable {table : Table} {tokens : List Token} {P : Node → Prop}

/-- One step gives trees with the property from trees with it. -/
theorem step (hP : Building table tokens P) {stack next : List Item} {token : Token}
    (htoken : token ∈ tokens) (hstack : ∀ tree ∈ trees stack, P tree)
    (h : step table stack token = .ok next) : ∀ tree ∈ trees next, P tree := by
  obtain ⟨kind, p⟩ := token
  cases kind with
  | number | literal | feature | identifier =>
    obtain ⟨operand, hoperand, heq⟩ := bind_eq_ok_iff.mp h
    cases heq
    simp only [trees, List.forall_mem_append, List.forall_mem_singleton]
    exact ⟨hstack, hP.leaf htoken hoperand⟩
  | opening bracket =>
    cases h
    exact hstack
  | closing bracket =>
    obtain ⟨⟨elements, start, below⟩, hcollect, heq⟩ := bind_eq_ok_iff.mp h
    cases heq
    obtain ⟨inner, htrees, helements⟩ := trees_of_collect hcollect
    rw [List.append_nil] at helements
    rw [htrees, List.forall_mem_append] at hstack
    simp only [trees, List.forall_mem_append, List.forall_mem_singleton, helements]
    exact ⟨hstack.1, hP.sequence hstack.2⟩
  | operator operator =>
    unfold Node.step at h
    dsimp only at h
    split at h
    · cases h
      exact hstack
    · split at h
      · split at h
        · obtain ⟨node, hnode, heq⟩ := bind_eq_ok_iff.mp h
          cases heq
          simp only [trees, List.forall_mem_append, List.forall_mem_singleton] at hstack ⊢
          exact ⟨hstack.1, hP.unary htoken hstack.2 hnode⟩
        · cases h
      · split at h
        · obtain ⟨node, hnode, heq⟩ := bind_eq_ok_iff.mp h
          cases heq
          simp only [trees, List.forall_mem_append, List.forall_mem_singleton] at hstack ⊢
          exact ⟨hstack.1.1, hP.binary htoken hstack.1.2 hstack.2 hnode⟩
        · cases h

/-- A run gives trees with the property from trees with it. -/
theorem foldlM_step (hP : Building table tokens P) {stack last : List Item} {more : List Token}
    (hmore : ∀ token ∈ more, token ∈ tokens) (hstack : ∀ tree ∈ trees stack, P tree)
    (h : more.foldlM (Node.step table) stack = .ok last) : ∀ tree ∈ trees last, P tree := by
  induction more generalizing stack with
  | nil =>
    cases h
    exact hstack
  | cons token rest ih =>
    rw [List.forall_mem_cons] at hmore
    rw [List.foldlM_cons] at h
    obtain ⟨next, hone, hrest⟩ := bind_eq_ok_iff.mp h
    exact ih hmore.2 (hP.step hmore.1 hstack hone) hrest

/-- The statements of a unit are trees with the property, apart from the brackets around them. -/
theorem parse (hP : Building table tokens P) {nodes : List Node}
    (h : parse table tokens = .ok nodes) :
    ∃ built : List Node, (∀ tree ∈ built, P tree) ∧ nodes = built.map ungroup := by
  obtain ⟨ordered, hordered, hassemble⟩ := bind_eq_ok_iff.mp h
  have hbalanced := (balanced_of_operatorsLast hordered).operatorsLast hordered
  obtain ⟨stack, hrun, -⟩ := bind_eq_ok_iff.mp hassemble
  obtain ⟨built, rfl⟩ := exists_nodes_of_balanced hbalanced hrun
  rw [assemble_eq_ok hrun] at hassemble
  cases hassemble
  have hgiven : ∀ token ∈ ordered, token ∈ tokens := by
    simpa using (operatorsLast_passes hordered).given
  have hbuilt := hP.foldlM_step hgiven (by simp [trees]) hrun
  rw [trees_map_node] at hbuilt
  exact ⟨built.reverse, hbuilt, rfl⟩

end Building

end SoundLaw.Node
