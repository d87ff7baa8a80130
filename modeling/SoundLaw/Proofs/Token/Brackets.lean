import SoundLaw.Proofs.Token.Ordering

/-!
# Properly nested brackets

Brackets are properly nested when every opening bracket is closed by one of its shape, with
properly nested brackets in between. Tokens are balanced exactly when their brackets are properly
nested, and the first pass accepts exactly the balanced tokens: whatever else is wrong with them,
it fails only because a bracket has no partner.
-/

namespace SoundLaw

/-- The fault of a bracket without its partner. -/
def Fault.IsUnmatched (fault : Fault) : Prop :=
  ∃ bracket p, fault = Token.unmatched bracket p

namespace Token

/-- Whether a token is a bracket. -/
def isBracket (token : Token) : Bool :=
  match token.kind with
  | .opening _ | .closing _ => true
  | _ => false

/-- Brackets that are properly nested: each one is closed by a bracket of its shape, and what stands
between the two is properly nested, and so is what follows. -/
inductive Nested : List Token → Prop
  | nil : Nested []
  | enclose {bracket : Bracket} {start stop : Position} {inner rest : List Token} :
    Nested inner → Nested rest →
      Nested (⟨.opening bracket, start⟩ :: (inner ++ ⟨.closing bracket, stop⟩ :: rest))

/-- Brackets that are properly nested once some open brackets are there, the innermost first. -/
def Closes : List Bracket → List Token → Prop
  | [], tokens => Nested tokens
  | bracket :: outer, tokens => ∃ inner stop rest,
    tokens = inner ++ ⟨.closing bracket, stop⟩ :: rest ∧ Nested inner ∧ Closes outer rest

/-- Properly nested brackets leave the open brackets as they are. -/
theorem Nested.foldlM_bracketsAfter {tokens : List Token} (h : Nested tokens)
    (brackets : List Bracket) : tokens.foldlM bracketsAfter brackets = some brackets := by
  induction h generalizing brackets with
  | nil => rfl
  | @enclose bracket start stop inner rest _ _ ihInner ihRest =>
    have hclose : bracketsAfter (bracket :: brackets) ⟨.closing bracket, stop⟩ =
        some brackets := by simp [bracketsAfter]
    calc (⟨.opening bracket, start⟩ :: (inner ++ ⟨.closing bracket, stop⟩ :: rest)).foldlM
          bracketsAfter brackets
      _ = (inner ++ ⟨.closing bracket, stop⟩ :: rest).foldlM bracketsAfter
          (bracket :: brackets) := rfl
      _ = rest.foldlM bracketsAfter brackets := by
        simp [List.foldlM_append, ihInner, hclose]
      _ = some brackets := ihRest brackets

/-- An opening bracket before brackets that close it. -/
theorem Closes.opening {bracket : Bracket} {brackets : List Bracket} {tokens : List Token}
    (h : Closes (bracket :: brackets) tokens) (start : Position) :
    Closes brackets (⟨.opening bracket, start⟩ :: tokens) := by
  obtain ⟨inner, stop, rest, rfl, hinner, hrest⟩ := h
  cases brackets with
  | nil => exact .enclose hinner hrest
  | cons outer brackets =>
    -- the whole pair stands before the bracket that closes the next open one
    obtain ⟨between, stop', rest', rfl, hbetween, hrest'⟩ := hrest
    refine ⟨⟨.opening bracket, start⟩ :: (inner ++ ⟨.closing bracket, stop⟩ :: between), stop',
      rest', ?_, .enclose hinner hbetween, hrest'⟩
    simp only [List.cons_append, List.append_assoc]

/-- Brackets that close all open ones are properly nested. -/
theorem closes_of_foldlM_bracketsAfter {tokens : List Token} {brackets : List Bracket}
    (htokens : ∀ token ∈ tokens, token.isBracket)
    (h : tokens.foldlM bracketsAfter brackets = some []) : Closes brackets tokens := by
  induction tokens generalizing brackets with
  | nil =>
    cases h
    exact .nil
  | cons token tokens ih =>
    rw [List.forall_mem_cons] at htokens
    rw [List.foldlM_cons, Option.bind_eq_bind, Option.bind_eq_some_iff] at h
    obtain ⟨next, hone, hrest⟩ := h
    have hnext := ih htokens.2 hrest
    obtain ⟨kind, p⟩ := token
    cases kind with
    | opening bracket =>
      cases hone
      exact hnext.opening p
    | closing bracket =>
      cases brackets with
      | nil => cases hone
      | cons innermost outer =>
        simp only [bracketsAfter, Option.ite_none_right_eq_some, Option.some.injEq] at hone
        obtain ⟨rfl, rfl⟩ := hone
        exact ⟨[], p, tokens, rfl, .nil, hnext⟩
    | number | literal | feature | identifier | operator => cases htokens.1

/-- Only brackets count for the open brackets. -/
theorem foldlM_bracketsAfter_filter (tokens : List Token) (brackets : List Bracket) :
    (tokens.filter isBracket).foldlM bracketsAfter brackets =
      tokens.foldlM bracketsAfter brackets := by
  induction tokens generalizing brackets with
  | nil => rfl
  | cons token tokens ih =>
    obtain ⟨kind, p⟩ := token
    cases kind with
    | opening | closing => simp [List.filter_cons, isBracket, ih]
    | number | literal | feature | identifier | operator => simp [isBracket, ih, bracketsAfter]

/-- Tokens are balanced exactly when their brackets are properly nested. -/
theorem balanced_iff_nested (tokens : List Token) :
    Balanced tokens ↔ Nested (tokens.filter isBracket) := by
  rw [Balanced, ← foldlM_bracketsAfter_filter]
  constructor
  · intro h
    exact closes_of_foldlM_bracketsAfter (fun token htoken => (List.mem_filter.mp htoken).2) h
  · intro h
    exact h.foldlM_bracketsAfter []

/-- A bracket fails to be closed only if the innermost open bracket has another shape or there is
none. -/
theorem releaseBracket_eq_error {bracket : Bracket} {p : Position} {stack : List Token}
    {fault : Fault} (hstack : ∀ token ∈ stack, token.waits)
    (h : releaseBracket bracket p stack = .error fault) :
    fault.IsUnmatched ∧
      bracketsAfter (stack.filterMap opening?) ⟨.closing bracket, p⟩ = none := by
  induction stack with
  | nil =>
    cases h
    exact ⟨⟨_, _, rfl⟩, rfl⟩
  | cons top below ih =>
    rw [List.forall_mem_cons] at hstack
    obtain ⟨kind, q⟩ := top
    cases kind with
    | opening found =>
      by_cases hfound : found = bracket
      · simp [releaseBracket, hfound] at h
      · simp only [releaseBracket, hfound, if_false, Except.error.injEq] at h
        exact ⟨⟨_, _, h.symm⟩, by simp [bracketsAfter, opening?, hfound]⟩
    | operator operator =>
      rw [releaseBracket] at h
      cases hbelow : releaseBracket bracket p below with
      | ok pair => simp [hbelow, Except.map] at h
      | error other =>
        simp only [hbelow, Except.map, Except.error.injEq] at h
        subst h
        simpa [List.filterMap_cons, opening?] using ih hstack.2 hbelow
    | number | literal | feature | identifier | closing => cases hstack.1

/-- One token fails only because a bracket does not fit. -/
theorem arrangeOne_eq_error {stack : List Token} {token : Token} {fault : Fault}
    (hstack : ∀ token ∈ stack, token.waits) (h : arrangeOne stack token = .error fault) :
    fault.IsUnmatched ∧ bracketsAfter (stack.filterMap opening?) token = none := by
  obtain ⟨kind, p⟩ := token
  cases kind with
  | number | literal | feature | identifier | opening => cases h
  | closing bracket =>
    cases hrelease : releaseBracket bracket p stack with
    | ok pair => simp [arrangeOne, hrelease, Except.map] at h
    | error other =>
      simp only [arrangeOne, hrelease, Except.map, Except.error.injEq] at h
      subst h
      exact releaseBracket_eq_error hstack hrelease
  | operator operator =>
    simp only [arrangeOne] at h
    split at h
    · cases h
    · split at h <;> cases h

/-- A run through tokens fails only because a bracket does not fit. -/
theorem arrangeAll_eq_error {stack tokens : List Token} {fault : Fault}
    (hstack : ∀ token ∈ stack, token.waits) (h : arrangeAll stack tokens = .error fault) :
    fault.IsUnmatched ∧ tokens.foldlM bracketsAfter (stack.filterMap opening?) = none := by
  induction tokens generalizing stack with
  | nil => cases h
  | cons token tokens ih =>
    rw [List.foldlM_cons]
    cases hone : arrangeOne stack token with
    | error other =>
      obtain ⟨hunmatched, hnone⟩ := arrangeOne_eq_error hstack hone
      rw [arrangeAll, hone] at h
      cases h
      exact ⟨hunmatched, by rw [hnone]; rfl⟩
    | ok first =>
      have haccounts := arrangeOne_accounts hstack hone
      rw [arrangeAll, hone] at h
      cases hrest : arrangeAll first.2 tokens with
      | ok more =>
        change (arrangeAll first.2 tokens).map _ = _ at h
        simp [hrest, Except.map] at h
      | error other =>
        change (arrangeAll first.2 tokens).map _ = _ at h
        simp only [hrest, Except.map, Except.error.injEq] at h
        subst h
        have hopened := haccounts.opened
        simp only [List.foldlM_cons, List.foldlM_nil, bind_pure] at hopened
        rw [hopened]
        exact ih haccounts.waiting hrest

/-- The end releases what is waiting, unless a bracket is left open. -/
theorem releaseAll_cases {stack : List Token} (hstack : ∀ token ∈ stack, token.waits) :
    (releaseAll stack = .ok stack ∧ stack.filterMap opening? = []) ∨
      ∃ fault : Fault, releaseAll stack = .error fault ∧ fault.IsUnmatched ∧
        stack.filterMap opening? ≠ [] := by
  induction stack with
  | nil => exact Or.inl ⟨rfl, rfl⟩
  | cons top below ih =>
    rw [List.forall_mem_cons] at hstack
    obtain ⟨kind, p⟩ := top
    cases kind with
    | opening bracket =>
      exact Or.inr ⟨_, rfl, ⟨_, _, rfl⟩, by simp [opening?]⟩
    | operator operator =>
      rcases ih hstack.2 with ⟨hall, hnone⟩ | ⟨fault, herror, hunmatched, hsome⟩
      · exact Or.inl ⟨by simp [releaseAll, hall, Except.map], by simpa [opening?] using hnone⟩
      · exact Or.inr ⟨fault, by simp [releaseAll, herror, Except.map], hunmatched,
          by simpa [opening?] using hsome⟩
    | number | literal | feature | identifier | closing => cases hstack.1

/-- The first pass accepts the balanced tokens, and otherwise fails because a bracket has no
partner. -/
theorem operatorsLast_cases (tokens : List Token) :
    (∃ ordered, operatorsLast tokens = .ok ordered ∧ Balanced tokens) ∨
      ∃ fault, operatorsLast tokens = .error fault ∧ fault.IsUnmatched ∧ ¬ Balanced tokens := by
  have hnil : ∀ token ∈ ([] : List Token), token.waits := by simp
  rw [operatorsLast, arrange_eq_releaseAll, Balanced]
  cases hrun : arrangeAll [] tokens with
  | error fault =>
    obtain ⟨hunmatched, hnone⟩ := arrangeAll_eq_error hnil hrun
    rw [List.filterMap_nil] at hnone
    exact Or.inr ⟨fault, rfl, hunmatched, by simp [hnone]⟩
  | ok last =>
    obtain ⟨out, left⟩ := last
    have haccounts := arrangeAll_accounts hnil hrun
    have hopened : tokens.foldlM bracketsAfter [] = some (left.filterMap opening?) :=
      haccounts.opened
    rcases releaseAll_cases haccounts.waiting with ⟨hall, hnone⟩ | ⟨fault, herror, hunmatched, hsome⟩
    · exact Or.inl ⟨out ++ left, by simp [bind, Except.bind, hall, Except.map], by
        rw [hopened, hnone]⟩
    · exact Or.inr ⟨fault, by simp [bind, Except.bind, herror, Except.map], hunmatched, by
        simp [hopened, hsome]⟩

/-- Tokens that the first pass accepts are balanced. -/
theorem balanced_of_operatorsLast {tokens ordered : List Token}
    (h : operatorsLast tokens = .ok ordered) : Balanced tokens := by
  rcases operatorsLast_cases tokens with ⟨_, _, hbalanced⟩ | ⟨fault, herror, _⟩
  · exact hbalanced
  · rw [h] at herror
    cases herror

end Token

end SoundLaw
