import SoundLaw.Proofs.Node.Building

/-!
# Statements without groups

What stands in round brackets is a group until it is known what it is: arguments, parameters, a
vector or a single expression. The statements of a unit hold no group, at any depth.

A tree on the stack may still be a group, because a call or a function has to see the brackets of
its operand. The invariant is therefore that a tree holds no group once the brackets around it are
taken off. One level is enough: a bracket takes the brackets off everything that it collects.
-/

namespace SoundLaw.Node

open Token

/-- Whether a node is the contents of round brackets before it is known what they are. -/
def isGroup : Node → Bool
  | sequence _ .group _ => true
  | _ => false

/-- An operator makes no group. -/
theorem isGroup_of_isMadeBy {operator : Operator} {node : Node}
    (h : node.isMadeBy operator = true) : node.isGroup = false := by
  unfold isGroup
  split
  · cases h
  · rfl

/-- No group is in the tree, neither as the tree itself nor at any depth of it. -/
def GroupFree (whole : Node) : Prop :=
  ∀ node : Node, node.Within whole → node.isGroup = false

namespace GroupFree

/-- A tree that is no group holds none if its parts do not. -/
theorem of_parts {whole : Node} (hwhole : whole.isGroup = false)
    (hparts : ∀ part ∈ whole.parts, part.GroupFree) : whole.GroupFree :=
  forall_within_iff.mpr ⟨hwhole, hparts⟩

/-- A tree without groups has no brackets around it. -/
theorem ungroup_eq {whole : Node} (h : whole.GroupFree) : whole.ungroup = whole := by
  refine ungroup_eq_self fun p elements heq => ?_
  have hwhole := h whole (.root whole)
  rw [heq] at hwhole
  cases hwhole

/-- Brackets around trees without groups hold no group once they are taken off. -/
theorem ungroup_sequence {p : Position} {form : Form} {elements : List Node}
    (h : ∀ element ∈ elements, element.GroupFree) :
    (sequence p form elements).ungroup.GroupFree := by
  cases form with
  | group =>
    unfold ungroup
    split
    · next heq =>
      cases heq
      exact h _ (List.mem_singleton_self _)
    · next heq =>
      cases heq
      exact of_parts rfl h
    · next hother => exact (hother _ _ rfl).elim
  | vector | block | matrix => exact of_parts rfl h

/-- What an operator makes holds no group if its operands hold none without their brackets. -/
theorem madeFrom {operator : Operator} {operands : List Node} {whole : Node}
    (hoperands : ∀ operand ∈ operands, operand.ungroup.GroupFree)
    (h : MadeFrom operator operands whole) : whole.GroupFree := by
  intro node hnode
  obtain hmade | ⟨operand, hoperand, hwithin⟩ := h node hnode
  · exact isGroup_of_isMadeBy hmade
  · exact hoperands operand hoperand node hwithin

/-- Every tree on the stack holds no group without the brackets around it. -/
theorem building (table : Table) (tokens : List Token) :
    Building table tokens fun tree => tree.ungroup.GroupFree where
  leaf _ _ := of_parts rfl (by simp [ungroup, parts])
  sequence helements := ungroup_sequence (List.forall_mem_map.mpr helements)
  unary _ hoperand h := by
    have hwhole := madeFrom (by simpa using hoperand) (madeFrom_ofUnary h)
    rwa [hwhole.ungroup_eq]
  binary _ hleft hright h := by
    have hwhole := madeFrom (by simpa using ⟨hleft, hright⟩) (madeFrom_ofBinary h)
    rwa [hwhole.ungroup_eq]

end GroupFree

/-- No group is in the statements that tokens are read as, whichever they are: not as a statement,
and not as or in an operand, an argument, the body of a function, a part of a rule, the body of a
structure, a block or a matrix. -/
theorem groupFree_of_parse {table : Table} {tokens : List Token} {nodes : List Node}
    (h : parse table tokens = .ok nodes) : ∀ statement ∈ nodes, statement.GroupFree := by
  obtain ⟨built, hbuilt, rfl⟩ := (GroupFree.building table tokens).parse h
  exact List.forall_mem_map.mpr hbuilt

/-- In `((a)) => g(((x)), ())` the outer brackets of the head are parameters and those behind `g`
arguments. Of the brackets inside them, those around one expression are gone and the empty ones are
a vector. -/
theorem groupFree_of_parse_nested :
    let table : Table := ⟨[], .empty, [], [], []⟩
    let node := lambda ⟨1, 7⟩ [⟨"a", .value⟩] (call ⟨1, 11⟩ (leaf ⟨1, 10⟩ (.name "g"))
      [leaf ⟨1, 14⟩ (.name "x"), sequence ⟨1, 19⟩ .vector []])
    ∃ tokens, tokenize (.ofTable table true) "((a)) => g(((x)), ())" = .ok tokens ∧
      parse table tokens = .ok [node] ∧ node.GroupFree := by
  intro table node
  obtain ⟨tokens, htokens, hparse⟩ :
      ∃ tokens, tokenize (.ofTable table true) "((a)) => g(((x)), ())" = .ok tokens ∧
        parse table tokens = .ok [node] := by
    refine ⟨[⟨.opening .round, ⟨1, 1⟩⟩, ⟨.opening .round, ⟨1, 2⟩⟩, ⟨.identifier "a", ⟨1, 3⟩⟩,
      ⟨.closing .round, ⟨1, 4⟩⟩, ⟨.closing .round, ⟨1, 5⟩⟩, ⟨.operator .lambda, ⟨1, 7⟩⟩,
      ⟨.identifier "g", ⟨1, 10⟩⟩, ⟨.operator .call, ⟨1, 11⟩⟩, ⟨.opening .round, ⟨1, 11⟩⟩,
      ⟨.opening .round, ⟨1, 12⟩⟩, ⟨.opening .round, ⟨1, 13⟩⟩, ⟨.identifier "x", ⟨1, 14⟩⟩,
      ⟨.closing .round, ⟨1, 15⟩⟩, ⟨.closing .round, ⟨1, 16⟩⟩, ⟨.operator .comma, ⟨1, 17⟩⟩,
      ⟨.opening .round, ⟨1, 19⟩⟩, ⟨.closing .round, ⟨1, 20⟩⟩, ⟨.closing .round, ⟨1, 21⟩⟩], ?_, rfl⟩
    with_unfolding_all rfl
  exact ⟨tokens, htokens, hparse, groupFree_of_parse hparse node (List.mem_singleton_self node)⟩

end SoundLaw.Node
