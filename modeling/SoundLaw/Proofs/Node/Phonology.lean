import SoundLaw.Proofs.Node.Building
import SoundLaw.Proofs.Token.Phonology

/-!
# Units without phonology

Where phonological notation is not allowed, the statements of a unit hold no phone, word or feature
literal and no rule, at any depth. Literals are tokens of the notation, and a rule is built by its
sign only; every other construct is made of the trees it takes and of names.
-/

namespace SoundLaw.Node

open Token

/-- Whether a node is a literal of the phonological notation or a rule. -/
def isPhonological : Node → Bool
  | leaf _ (.phone _) | leaf _ (.word _) | leaf _ (.feature _) | rule .. => true
  | _ => false

/-- An operator outside the notation makes no literal of it and no rule. -/
theorem isPhonological_of_isMadeBy {operator : Operator} {node : Node}
    (hoperator : operator.isPhonological = false) (hnode : node.isMadeBy operator = true) :
    node.isPhonological = false := by
  unfold isPhonological
  split
  case h_1 | h_2 | h_3 => cases hnode
  case h_4 =>
    rw [of_decide_eq_true hnode] at hoperator
    cases hoperator
  case h_5 => rfl

/-- No literal of the phonological notation and no rule is in the tree. -/
def LacksPhonology (whole : Node) : Prop :=
  ∀ node : Node, node.Within whole → node.isPhonological = false

/-- A tree lacks phonology exactly when its root and its parts do. -/
theorem lacksPhonology_iff {whole : Node} :
    whole.LacksPhonology ↔
      whole.isPhonological = false ∧ ∀ part ∈ whole.parts, part.LacksPhonology :=
  forall_within_iff

namespace LacksPhonology

/-- The parts of a tree without phonology lack it. -/
theorem parts {whole : Node} (h : whole.LacksPhonology) :
    ∀ part ∈ whole.parts, part.LacksPhonology :=
  (lacksPhonology_iff.mp h).2

/-- The only part of a tree without phonology lacks it. -/
theorem one {whole part : Node} (h : whole.LacksPhonology) (hparts : whole.parts = [part]) :
    part.LacksPhonology :=
  h.parts part (by simp [hparts])

/-- A tree that is no literal and no rule lacks phonology if its parts do. -/
theorem of_parts {whole : Node} (hwhole : whole.isPhonological = false)
    (hparts : ∀ part ∈ whole.parts, part.LacksPhonology) : whole.LacksPhonology :=
  lacksPhonology_iff.mpr ⟨hwhole, hparts⟩

/-- The contents of brackets lack phonology if the brackets do. -/
theorem ungroup {node : Node} (h : node.LacksPhonology) : node.ungroup.LacksPhonology := by
  unfold Node.ungroup
  split
  · exact h.one rfl
  · exact of_parts rfl h.parts
  · exact h

/-- A token outside the notation is an operand that lacks phonology. -/
theorem ofToken {table : Table} {token : Token} {operand : Leaf}
    (htoken : token.kind.isPhonological = false) (h : Leaf.ofToken table token = .ok operand) :
    (leaf token.position operand).LacksPhonology := by
  refine of_parts ?_ (by simp [Node.parts])
  obtain ⟨kind, p⟩ := token
  cases kind with
  | number value =>
    cases h
    rfl
  | literal literalKind text =>
    cases literalKind with
    | text =>
      cases h
      rfl
    | phone | word => cases htoken
  | feature value => cases htoken
  | identifier name =>
    cases h
    unfold Leaf.ofName
    repeat' split
    all_goals rfl
  | operator | opening | closing => cases h

/-- What an operator outside the notation makes from operands without phonology lacks it. -/
theorem madeFrom {operator : Operator} {operands : List Node} {whole : Node}
    (hoperator : operator.isPhonological = false)
    (hoperands : ∀ operand ∈ operands, operand.LacksPhonology)
    (h : MadeFrom operator operands whole) : whole.LacksPhonology := by
  intro node hnode
  obtain hmade | ⟨operand, hoperand, hwithin⟩ := h node hnode
  · exact isPhonological_of_isMadeBy hoperator hmade
  · exact (hoperands operand hoperand).ungroup node hwithin

/-- From tokens outside the notation only trees without phonology are built. -/
theorem building (table : Table) {tokens : List Token}
    (htokens : ∀ token ∈ tokens, token.kind.isPhonological = false) :
    Building table tokens LacksPhonology where
  leaf htoken h := ofToken (htokens _ htoken) h
  sequence helements := by
    refine of_parts rfl (List.forall_mem_map.mpr fun element helement => ?_)
    exact (helements element helement).ungroup
  unary htoken hoperand h :=
    madeFrom (htokens _ htoken) (by simpa using hoperand) (madeFrom_ofUnary h)
  binary htoken hleft hright h :=
    madeFrom (htokens _ htoken) (by simpa using ⟨hleft, hright⟩) (madeFrom_ofBinary h)

end LacksPhonology

/-- Without phonological notation no token of a source belongs to it, and the statements that the
tokens are read as hold no phone, word or feature literal and no rule at any depth. -/
theorem lacksPhonology_of_tokenize {table : Table} {source : String} {tokens : List Token}
    (h : tokenize (.ofTable table false) source = .ok tokens) :
    (∀ token ∈ tokens, token.kind.isPhonological = false) ∧
      ∀ nodes, parse table tokens = .ok nodes → ∀ statement ∈ nodes, statement.LacksPhonology := by
  have htokens := isPhonological_of_tokenize rfl h
  refine ⟨htokens, fun nodes hparse => ?_⟩
  obtain ⟨built, hbuilt, rfl⟩ := (LacksPhonology.building table htokens).parse hparse
  exact List.forall_mem_map.mpr fun tree htree => (hbuilt tree htree).ungroup

/-- In `-voice / _` the sign would start a feature literal. Without the notation it negates a name,
and the slash and the underscore are a division and a name. -/
theorem lacksPhonology_of_tokenize_negation :
    let table : Table := ⟨["voice"], .empty, [], [], []⟩
    ∃ tokens node, tokenize (.ofTable table false) "-voice / _" = .ok tokens ∧
      (∀ token ∈ tokens, token.kind.isPhonological = false) ∧
      parse table tokens = .ok [node] ∧ node.LacksPhonology := by
  intro table
  have htokens : tokenize (.ofTable table false) "-voice / _" =
      .ok [⟨.operator .negate, ⟨1, 1⟩⟩, ⟨.identifier "voice", ⟨1, 2⟩⟩,
        ⟨.operator .divide, ⟨1, 8⟩⟩, ⟨.identifier "_", ⟨1, 10⟩⟩] := by
    with_unfolding_all rfl
  obtain ⟨hlacks, hparsed⟩ := lacksPhonology_of_tokenize htokens
  exact ⟨_, _, htokens, hlacks, rfl, hparsed _ rfl _ (List.mem_singleton_self _)⟩

end SoundLaw.Node
