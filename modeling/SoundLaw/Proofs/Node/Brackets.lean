import SoundLaw.Proofs.Node.Faults
import SoundLaw.Proofs.Node.Separation

/-!
# Brackets without a partner

A unit fails because of a bracket exactly when its brackets are not properly nested, whatever else
is wrong with it. The first pass finds every such bracket. In the second pass the open brackets on
the stack are those of the tokens read so far, so a closing bracket always finds its partner there,
and at the end no bracket is left open.
-/

namespace SoundLaw

open Token

/-- A construct of the wrong shape is not about a bracket. -/
theorem Fault.IsMalformed.not_isUnmatched {fault : Fault} (h : fault.IsMalformed) :
    ¬ fault.IsUnmatched := by
  rintro ⟨bracket, p, rfl⟩
  obtain ⟨message, q, heq⟩ := h
  cases heq

/-- A literal that cannot be read is not about a bracket. -/
theorem not_isUnmatched_literalFault (p : Position) (fault : Fault) :
    ¬ (literalFault p fault).IsUnmatched := by
  rintro ⟨bracket, q, heq⟩
  cases fault <;> cases heq

/-- An operand that cannot be read is not about a bracket. -/
theorem Leaf.not_isUnmatched_ofToken (table : Table) (token : Token) :
    FailsAs (¬ ·.IsUnmatched) (ofToken table token) := by
  have hmalformed (message : String) (p : Position) :
      ¬ (malformedSyntax message p).IsUnmatched :=
    Fault.IsMalformed.not_isUnmatched ⟨message, p, rfl⟩
  unfold ofToken
  split
  case h_3 | h_4 =>
    exact (FailsAs.mapError (not_isUnmatched_literalFault token.position) _).map _
  case h_7 | h_8 | h_9 => exact .error (hmalformed _ _)
  all_goals exact .ok _

namespace Node

/-- A closing bracket finds its partner if there is an open bracket on the stack. -/
theorem exists_collect {stack : List Item} (hstack : (levels stack).2 ≠ []) (bracket : Bracket)
    (p : Position) (above : List Node) :
    ∃ collected, collect bracket p above stack = .ok collected := by
  induction stack generalizing above with
  | nil => exact absurd rfl hstack
  | cons item below ih =>
    cases item with
    | opening start => exact ⟨_, rfl⟩
    | node node => exact ih hstack (node.ungroup :: above)

/-- A closing bracket that fits the open brackets has an open bracket on the stack. -/
theorem levels_ne_nil {stack : List Item} {token : Token} {bracket : Bracket}
    {brackets brackets' : List Bracket} (hkind : token.kind = .closing bracket)
    (hbrackets : bracketsAfter brackets token = some brackets')
    (hlength : (levels stack).2.length = brackets.length) : (levels stack).2 ≠ [] := by
  intro hnil
  rw [hnil] at hlength
  obtain rfl : brackets = [] := List.length_eq_zero_iff.mp hlength.symm
  simp [bracketsAfter, hkind] at hbrackets

/-- A token that fits the open brackets does not fail because of a bracket. -/
theorem not_isUnmatched_step {stack : List Item} {token : Token}
    {brackets brackets' : List Bracket} (hbrackets : bracketsAfter brackets token = some brackets')
    (hlength : (levels stack).2.length = brackets.length) (table : Table) :
    FailsAs (¬ ·.IsUnmatched) (step table stack token) := by
  have hmissing (spelling : String) (p : Position) :
      ¬ (Fault.compilation (.missingOperand spelling) p).IsUnmatched := by
    rintro ⟨bracket, q, heq⟩
    cases heq
  unfold step
  dsimp only
  split
  · exact .ok _
  · next bracket hkind =>
    obtain ⟨collected, hcollected⟩ :=
      exists_collect (levels_ne_nil hkind hbrackets hlength) bracket token.position []
    rw [hcollected]
    exact .ok _
  · split
    · exact .ok _
    · split
      · split
        · exact ((malformed_ofUnary _ _ _).mono fun _ h => h.not_isUnmatched).bind fun _ => .ok _
        · exact .error (hmissing _ _)
      · split
        · exact ((malformed_ofBinary _ _ _ _).mono fun _ h => h.not_isUnmatched).bind
            fun _ => .ok _
        · exact .error (hmissing _ _)
  · exact (Leaf.not_isUnmatched_ofToken table token).bind fun _ => .ok _

/-- A run of tokens that fit the open brackets does not fail because of a bracket. -/
theorem not_isUnmatched_foldlM_step {stack : List Item} {tokens : List Token}
    {brackets brackets' : List Bracket}
    (hbrackets : tokens.foldlM bracketsAfter brackets = some brackets')
    (hlength : (levels stack).2.length = brackets.length) (table : Table) :
    FailsAs (¬ ·.IsUnmatched) (tokens.foldlM (step table) stack) := by
  induction tokens generalizing stack brackets with
  | nil => exact .ok _
  | cons token tokens ih =>
    rw [List.foldlM_cons, Option.bind_eq_bind, Option.bind_eq_some_iff] at hbrackets
    obtain ⟨next, hone, hrest⟩ := hbrackets
    rw [List.foldlM_cons]
    cases hstep : step table stack token with
    | error fault => exact .error (not_isUnmatched_step hone hlength table fault hstep)
    | ok stack' => exact ih hrest (supply_brackets (step_levels hstep) hone hlength)

/-- The second pass does not fail because of a bracket of balanced tokens. -/
theorem not_isUnmatched_assemble {tokens : List Token} (hbalanced : Balanced tokens)
    (table : Table) : FailsAs (¬ ·.IsUnmatched) (assemble table tokens) := by
  cases hrun : tokens.foldlM (step table) [] with
  | error fault =>
    rw [assemble, hrun]
    exact .error (not_isUnmatched_foldlM_step hbalanced rfl table fault hrun)
  | ok stack =>
    obtain ⟨nodes, rfl⟩ := exists_nodes_of_balanced hbalanced hrun
    rw [assemble_eq_ok hrun]
    exact .ok _

/-- In the second pass over balanced tokens a closing bracket finds its partner on the stack. -/
theorem exists_collect_of_balanced {table : Table} {before after : List Token} {token : Token}
    {bracket : Bracket} {stack : List Item} (hbalanced : Balanced (before ++ token :: after))
    (hkind : token.kind = .closing bracket) (hrun : before.foldlM (step table) [] = .ok stack) :
    ∃ collected, collect bracket token.position [] stack = .ok collected := by
  rw [Token.Balanced, List.foldlM_append, Option.bind_eq_bind, Option.bind_eq_some_iff] at hbalanced
  obtain ⟨brackets, hbefore, hrest⟩ := hbalanced
  rw [List.foldlM_cons, Option.bind_eq_bind, Option.bind_eq_some_iff] at hrest
  obtain ⟨next, hone, -⟩ := hrest
  have hlength : (levels stack).2.length = brackets.length :=
    foldlM_supply_brackets (foldlM_step_levels hrun) hbefore rfl
  exact exists_collect (levels_ne_nil hkind hone hlength) bracket token.position []

/-- A unit fails because of a bracket exactly when its brackets are not properly nested. Once the
first pass is over, a closing bracket finds its partner on the stack of the second pass whenever it
is reached, and no open bracket is left there at the end. -/
theorem parse_unmatched_iff (table : Table) (tokens : List Token) :
    ((∃ fault, parse table tokens = .error fault ∧ fault.IsUnmatched) ↔
      ¬ Nested (tokens.filter isBracket)) ∧
    ∀ ordered, operatorsLast tokens = .ok ordered →
      (∀ before token after bracket stack, ordered = before ++ token :: after →
        token.kind = .closing bracket → before.foldlM (step table) [] = .ok stack →
          ∃ collected, collect bracket token.position [] stack = .ok collected) ∧
      ∀ stack, ordered.foldlM (step table) [] = .ok stack → ∀ p, Item.opening p ∉ stack := by
  refine ⟨?_, fun ordered hordered => ?_⟩
  · rw [← balanced_iff_nested, parse]
    rcases operatorsLast_cases tokens with
      ⟨ordered, hordered, hbalanced⟩ | ⟨fault, herror, hunmatched, hnot⟩
    · refine ⟨?_, fun hnot => absurd hbalanced hnot⟩
      rintro ⟨fault, hfault, hunmatched⟩
      rw [hordered] at hfault
      exact absurd hunmatched
        (not_isUnmatched_assemble (hbalanced.operatorsLast hordered) table fault hfault)
    · rw [herror]
      exact ⟨fun _ => hnot, fun _ => ⟨fault, rfl, hunmatched⟩⟩
  · have hbalanced := (balanced_of_operatorsLast hordered).operatorsLast hordered
    refine ⟨?_, fun stack hrun p hmem => ?_⟩
    · rintro before token after bracket stack rfl hkind hrun
      exact exists_collect_of_balanced hbalanced hkind hrun
    · obtain ⟨nodes, rfl⟩ := exists_nodes_of_balanced hbalanced hrun
      simp at hmem

/-- In `* (a)` the operator misses an operand, but no bracket is missing, and the closing bracket
finds its partner. -/
theorem parse_unmatched_iff_missing_operand :
    let tokens : List Token := [⟨.operator .multiply, ⟨1, 1⟩⟩, ⟨.opening .round, ⟨1, 3⟩⟩,
      ⟨.identifier "a", ⟨1, 4⟩⟩, ⟨.closing .round, ⟨1, 5⟩⟩]
    (∃ fault, parse .empty tokens = .error fault) ∧
      (¬ ∃ fault, parse .empty tokens = .error fault ∧ fault.IsUnmatched) ∧
      ∃ collected, collect .round ⟨1, 5⟩ []
        [.node (.leaf ⟨1, 4⟩ (.name "a")), .opening ⟨1, 3⟩] = .ok collected := by
  intro tokens
  obtain ⟨hiff, hpass⟩ := parse_unmatched_iff .empty tokens
  have hnested : Nested (tokens.filter isBracket) := .enclose .nil .nil
  refine ⟨⟨_, rfl⟩, fun h => hiff.mp h hnested, ?_⟩
  exact (hpass _ rfl).1 [⟨.opening .round, ⟨1, 3⟩⟩, ⟨.identifier "a", ⟨1, 4⟩⟩]
    ⟨.closing .round, ⟨1, 5⟩⟩ [⟨.operator .multiply, ⟨1, 1⟩⟩] .round _ rfl rfl rfl

end Node

end SoundLaw
