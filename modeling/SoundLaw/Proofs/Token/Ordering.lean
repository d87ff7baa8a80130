import SoundLaw.Proofs.Outcome
import SoundLaw.Token.Ordering

/-!
# The first pass, token by token

Rearranging is a run of steps: each token passes on some tokens and leaves a stack behind. On the
stack there are only operators and opening brackets. The open brackets among the tokens are those
on the stack, and since brackets are passed on in their order, the rearranged tokens open and
close the same brackets as the given ones.
-/

namespace SoundLaw.Token

/-- What one token passes on, and the stack it leaves behind. -/
def arrangeOne (stack : List Token) (token : Token) : Except Fault (List Token × List Token) :=
  match token.kind with
  | .opening _ => .ok ([token], token :: stack)
  | .closing bracket =>
    (releaseBracket bracket token.position stack).map fun (released, below) =>
      (released ++ [token], below)
  | .operator operator =>
    if operator.isSeparator then .ok (releaseWhile (fun _ => true) stack)
    else if operator.isUnary then .ok ([], token :: stack)
    else
      let (released, below) := releaseWhile (·.yieldsTo operator) stack
      .ok (released, token :: below)
  | _ => .ok ([token], stack)

/-- What some tokens pass on one after another, and the stack they leave behind. -/
def arrangeAll : List Token → List Token → Except Fault (List Token × List Token)
  | stack, [] => .ok ([], stack)
  | stack, token :: rest =>
    arrangeOne stack token >>= fun first =>
      (arrangeAll first.2 rest).map fun more => (first.1 ++ more.1, more.2)

/-- Rearranging takes the first token and goes on with the stack it leaves behind. -/
theorem arrange_cons (stack : List Token) (token : Token) (rest : List Token) :
    arrange stack (token :: rest) =
      arrangeOne stack token >>= fun first => (arrange first.2 rest).map (first.1 ++ ·) := by
  obtain ⟨kind, p⟩ := token
  cases kind with
  | number | literal | feature | identifier | opening => rfl
  | closing bracket =>
    rw [arrange, arrangeOne]
    dsimp only
    cases releaseBracket bracket p stack with
    | error fault => rfl
    | ok pair =>
      change Except.map _ _ = Except.map _ _
      simp only [List.append_assoc, List.singleton_append]
  | operator operator =>
    rw [arrange, arrangeOne]
    dsimp only
    cases operator.isSeparator with
    | true => rfl
    | false =>
      cases operator.isUnary with
      | true =>
        change arrange _ rest = (arrange _ rest).map (fun after => after)
        cases arrange (⟨.operator operator, p⟩ :: stack) rest <;> rfl
      | false => rfl

/-- Rearranging is running through some tokens and rearranging the rest. -/
theorem arrange_append (stack tokens rest : List Token) :
    arrange stack (tokens ++ rest) =
      arrangeAll stack tokens >>= fun first => (arrange first.2 rest).map (first.1 ++ ·) := by
  induction tokens generalizing stack with
  | nil =>
    change arrange stack rest = (arrange stack rest).map (fun after => after)
    cases arrange stack rest <;> rfl
  | cons token tokens ih =>
    rw [List.cons_append, arrange_cons, arrangeAll]
    cases arrangeOne stack token with
    | error fault => rfl
    | ok first =>
      change (arrange first.2 (tokens ++ rest)).map _ = Except.bind (Except.map _ _) _
      rw [ih]
      cases arrangeAll first.2 tokens with
      | error fault => rfl
      | ok second =>
        change (Except.map _ _).map _ = Except.map _ _
        rw [map_map]
        congr 1
        funext after
        exact (List.append_assoc _ _ _).symm

/-- Running through some tokens and then others is running through all of them. -/
theorem arrangeAll_append (stack tokens rest : List Token) :
    arrangeAll stack (tokens ++ rest) =
      arrangeAll stack tokens >>= fun first =>
        (arrangeAll first.2 rest).map fun more => (first.1 ++ more.1, more.2) := by
  induction tokens generalizing stack with
  | nil =>
    change arrangeAll stack rest = (arrangeAll stack rest).map (fun after => after)
    cases arrangeAll stack rest <;> rfl
  | cons token tokens ih =>
    rw [List.cons_append, arrangeAll, arrangeAll]
    cases arrangeOne stack token with
    | error fault => rfl
    | ok first =>
      change (arrangeAll first.2 (tokens ++ rest)).map _ = Except.bind (Except.map _ _) _
      rw [ih]
      cases arrangeAll first.2 tokens with
      | error fault => rfl
      | ok second =>
        change (Except.map _ _).map _ = Except.map _ _
        rw [map_map]
        congr 1
        funext after
        simp

/-- Rearranging is running through all tokens and releasing what is left. -/
theorem arrange_eq_releaseAll (stack tokens : List Token) :
    arrange stack tokens =
      arrangeAll stack tokens >>= fun last => (releaseAll last.2).map (last.1 ++ ·) := by
  have happend := arrange_append stack tokens []
  rw [List.append_nil] at happend
  exact happend

/-- Operators that satisfy a test are released down to the first that does not. -/
theorem releaseWhile_append {test : Operator → Bool} {waiting stack : List Token}
    (hwaiting : ∀ token ∈ waiting, ∃ operator, token.kind = .operator operator ∧ test operator)
    (hstack : releaseWhile test stack = ([], stack)) :
    releaseWhile test (waiting ++ stack) = (waiting, stack) := by
  induction waiting with
  | nil => exact hstack
  | cons top waiting ih =>
    obtain ⟨operator, hkind, htest⟩ := hwaiting top List.mem_cons_self
    have hrest := ih fun token htoken => hwaiting token (List.mem_cons_of_mem _ htoken)
    rw [List.cons_append, releaseWhile]
    simp only [hkind, htest, if_true, hrest]

/-- A closing bracket releases the operators above its partner. -/
theorem releaseBracket_append {waiting : List Token}
    (hwaiting : ∀ token ∈ waiting, ∃ operator, token.kind = .operator operator)
    (bracket : Bracket) (p start : Position) (stack : List Token) :
    releaseBracket bracket p (waiting ++ ⟨.opening bracket, start⟩ :: stack) =
      .ok (waiting, stack) := by
  induction waiting with
  | nil => simp [releaseBracket]
  | cons top waiting ih =>
    obtain ⟨operator, hkind⟩ := hwaiting top List.mem_cons_self
    have hrest := ih fun token htoken => hwaiting token (List.mem_cons_of_mem _ htoken)
    rw [List.cons_append, releaseBracket]
    simp only [hkind, hrest]
    rfl

/-- The end releases all waiting operators. -/
theorem releaseAll_eq_ok {waiting : List Token}
    (hwaiting : ∀ token ∈ waiting, ∃ operator, token.kind = .operator operator) :
    releaseAll waiting = .ok waiting := by
  induction waiting with
  | nil => rfl
  | cons top waiting ih =>
    obtain ⟨operator, hkind⟩ := hwaiting top List.mem_cons_self
    have hrest := ih fun token htoken => hwaiting token (List.mem_cons_of_mem _ htoken)
    rw [releaseAll]
    simp only [hkind, hrest]
    rfl

/-- Whether a token can stand on the stack: an operator or an opening bracket. -/
def waits (token : Token) : Bool :=
  match token.kind with
  | .operator _ | .opening _ => true
  | _ => false

/-- The bracket that a token opens. -/
def opening? (token : Token) : Option Bracket :=
  match token.kind with
  | .opening bracket => some bracket
  | _ => none

/-- The open brackets after one more token, the innermost first. A closing bracket has to fit. -/
def bracketsAfter (brackets : List Bracket) (token : Token) : Option (List Bracket) :=
  match token.kind with
  | .opening bracket => some (bracket :: brackets)
  | .closing bracket =>
    match brackets with
    | innermost :: outer => if innermost = bracket then some outer else none
    | [] => none
  | _ => some brackets

/-- Tokens that close every bracket they open and no other. -/
def Balanced (tokens : List Token) : Prop :=
  tokens.foldlM bracketsAfter [] = some []

/-- What is released while a test holds are operators at the top of the stack that satisfy it. -/
theorem releaseWhile_split (test : Operator → Bool) (stack : List Token) :
    stack = (releaseWhile test stack).1 ++ (releaseWhile test stack).2 ∧
      ∀ token ∈ (releaseWhile test stack).1, ∃ operator, token.kind = .operator operator := by
  induction stack with
  | nil => exact ⟨rfl, fun _ hmem => absurd hmem List.not_mem_nil⟩
  | cons top below ih =>
    rw [releaseWhile]
    split
    · next operator hkind =>
      split
      · refine ⟨by rw [List.cons_append, ← ih.1], ?_⟩
        intro token htoken
        rcases List.mem_cons.mp htoken with rfl | hbelow
        · exact ⟨operator, hkind⟩
        · exact ih.2 token hbelow
      · exact ⟨rfl, fun _ hmem => absurd hmem List.not_mem_nil⟩
    · exact ⟨rfl, fun _ hmem => absurd hmem List.not_mem_nil⟩

/-- What a closing bracket releases are the operators above its partner. -/
theorem releaseBracket_split {bracket : Bracket} {p : Position} {stack released below : List Token}
    (hstack : ∀ token ∈ stack, token.waits)
    (h : releaseBracket bracket p stack = .ok (released, below)) :
    ∃ start, stack = released ++ ⟨.opening bracket, start⟩ :: below ∧
      ∀ token ∈ released, ∃ operator, token.kind = .operator operator := by
  induction stack generalizing released with
  | nil => cases h
  | cons top rest ih =>
    obtain ⟨kind, q⟩ := top
    rw [releaseBracket] at h
    dsimp only at h
    split at h
    · split at h
      · next found hfound =>
        cases h
        exact ⟨q, by rw [hfound]; rfl, fun _ hmem => absurd hmem List.not_mem_nil⟩
      · cases h
    · next hkind =>
      obtain ⟨⟨above, left⟩, hrest, heq⟩ := map_eq_ok_iff.mp h
      cases heq
      obtain ⟨start, hsplit, hoperators⟩ :=
        ih (fun token htoken => hstack token (List.mem_cons_of_mem _ htoken)) hrest
      refine ⟨start, by rw [hsplit, List.cons_append], ?_⟩
      intro token htoken
      rcases List.mem_cons.mp htoken with rfl | habove
      · have hwaits := hstack _ List.mem_cons_self
        cases kind with
        | operator operator => exact ⟨operator, rfl⟩
        | opening found => exact absurd rfl (hkind found)
        | number | literal | feature | identifier | closing => cases hwaits
      · exact hoperators token habove

/-- Operators leave the open brackets alone. -/
theorem foldlM_bracketsAfter_operators {operators : List Token}
    (hoperators : ∀ token ∈ operators, ∃ operator, token.kind = .operator operator)
    (brackets : List Bracket) : operators.foldlM bracketsAfter brackets = some brackets := by
  induction operators with
  | nil => rfl
  | cons token rest ih =>
    obtain ⟨operator, hkind⟩ := hoperators token List.mem_cons_self
    rw [List.foldlM_cons, bracketsAfter, hkind]
    exact ih fun other hother => hoperators other (List.mem_cons_of_mem _ hother)

/-- Operators open no bracket. -/
theorem filterMap_opening?_operators {operators : List Token}
    (hoperators : ∀ token ∈ operators, ∃ operator, token.kind = .operator operator) :
    operators.filterMap opening? = [] := by
  rw [List.filterMap_eq_nil_iff]
  intro token htoken
  obtain ⟨operator, hkind⟩ := hoperators token htoken
  rw [opening?, hkind]

/-- The account of the brackets that a run keeps: operators and opening brackets are waiting, the
waiting brackets are the open ones, and the brackets of the tokens are passed on. -/
structure Accounts (stack tokens out left : List Token) : Prop where
  waiting : ∀ token ∈ left, token.waits
  opened : tokens.foldlM bracketsAfter (stack.filterMap opening?) =
    some (left.filterMap opening?)
  passed : ∀ brackets, out.foldlM bracketsAfter brackets = tokens.foldlM bracketsAfter brackets

/-- A token that is passed on alone leaves the stack as it is. -/
theorem Accounts.of_operand {stack : List Token} {token : Token}
    (hstack : ∀ token ∈ stack, token.waits)
    (htoken : ∀ brackets, bracketsAfter brackets token = some brackets) :
    Accounts stack [token] [token] stack := by
  refine ⟨hstack, ?_, fun _ => rfl⟩
  rw [List.foldlM_cons, htoken]
  rfl

/-- An operator joins the stack and releases operators. -/
theorem Accounts.of_operator {stack released below left : List Token} {token : Token}
    {operator : Operator} (hstack : ∀ token ∈ stack, token.waits)
    (hkind : token.kind = .operator operator) (hsplit : stack = released ++ below)
    (hreleased : ∀ token ∈ released, ∃ operator, token.kind = .operator operator)
    (hleft : left = below ∨ left = token :: below) : Accounts stack [token] released left := by
  have hbelow : ∀ token ∈ below, token.waits := fun other hother =>
    hstack other (hsplit ▸ List.mem_append_right _ hother)
  have hself : ∀ brackets, bracketsAfter brackets token = some brackets := by
    intro brackets
    rw [bracketsAfter, hkind]
  have hopened : stack.filterMap opening? = left.filterMap opening? := by
    rw [hsplit, List.filterMap_append, filterMap_opening?_operators hreleased, List.nil_append]
    rcases hleft with rfl | rfl
    · rfl
    · rw [List.filterMap_cons_none (by rw [opening?, hkind])]
  refine ⟨?_, ?_, ?_⟩
  · rcases hleft with rfl | rfl
    · exact hbelow
    · intro other hother
      rcases List.mem_cons.mp hother with rfl | hrest
      · rw [waits, hkind]
      · exact hbelow other hrest
  · rw [List.foldlM_cons, hself, hopened]
    rfl
  · intro brackets
    rw [foldlM_bracketsAfter_operators hreleased, List.foldlM_cons, hself]
    rfl

/-- One token keeps the account of the brackets. -/
theorem arrangeOne_accounts {stack out left : List Token} {token : Token}
    (hstack : ∀ token ∈ stack, token.waits) (h : arrangeOne stack token = .ok (out, left)) :
    Accounts stack [token] out left := by
  obtain ⟨kind, p⟩ := token
  cases kind with
  | number | literal | feature | identifier =>
    cases h
    exact Accounts.of_operand hstack fun _ => rfl
  | opening bracket =>
    cases h
    refine ⟨?_, rfl, fun _ => rfl⟩
    intro other hother
    rcases List.mem_cons.mp hother with rfl | hrest
    · rfl
    · exact hstack other hrest
  | closing bracket =>
    obtain ⟨⟨released, below⟩, hrelease, heq⟩ := map_eq_ok_iff.mp h
    cases heq
    obtain ⟨start, hsplit, hreleased⟩ := releaseBracket_split hstack hrelease
    refine ⟨?_, ?_, ?_⟩
    · intro other hother
      exact hstack other (hsplit ▸ List.mem_append_right _ (List.mem_cons_of_mem _ hother))
    · rw [hsplit, List.filterMap_append, filterMap_opening?_operators hreleased]
      change (if bracket = bracket then some (left.filterMap opening?) else none) >>= pure = _
      rw [if_pos rfl]
      rfl
    · intro brackets
      rw [List.foldlM_append, foldlM_bracketsAfter_operators hreleased]
      rfl
  | operator operator =>
    rw [arrangeOne] at h
    dsimp only at h
    split at h
    · obtain ⟨hsplit, hreleased⟩ := releaseWhile_split (fun _ => true) stack
      rw [Except.ok.inj h] at hsplit hreleased
      exact Accounts.of_operator hstack rfl hsplit hreleased (Or.inl rfl)
    · split at h
      · cases h
        exact Accounts.of_operator hstack rfl rfl (fun _ hmem => absurd hmem List.not_mem_nil)
          (Or.inr rfl)
      · obtain ⟨hsplit, hreleased⟩ := releaseWhile_split (·.yieldsTo operator) stack
        cases h
        exact Accounts.of_operator hstack rfl hsplit hreleased (Or.inr rfl)

/-- A run through tokens keeps the account of the brackets. -/
theorem arrangeAll_accounts {stack tokens out left : List Token}
    (hstack : ∀ token ∈ stack, token.waits) (h : arrangeAll stack tokens = .ok (out, left)) :
    Accounts stack tokens out left := by
  induction tokens generalizing stack out with
  | nil =>
    cases h
    exact ⟨hstack, rfl, fun _ => rfl⟩
  | cons token tokens ih =>
    obtain ⟨⟨out₁, left₁⟩, hone, hall⟩ := bind_eq_ok_iff.mp h
    obtain ⟨⟨out₂, left₂⟩, hrest, heq⟩ := map_eq_ok_iff.mp hall
    cases heq
    have hfirst := arrangeOne_accounts hstack hone
    have hrest := ih hfirst.waiting hrest
    refine ⟨hrest.waiting, ?_, ?_⟩
    · rw [← List.singleton_append, List.foldlM_append, hfirst.opened]
      exact hrest.opened
    · intro brackets
      rw [← List.singleton_append (x := token), List.foldlM_append, List.foldlM_append,
        hfirst.passed]
      exact bind_congr hrest.passed

/-- Balanced tokens leave nothing but operators waiting. -/
theorem Balanced.waiting {tokens out left : List Token} (hbalanced : Balanced tokens)
    (h : arrangeAll [] tokens = .ok (out, left)) :
    ∀ token ∈ left, ∃ operator, token.kind = .operator operator := by
  have haccounts := arrangeAll_accounts (fun _ hmem => absurd hmem List.not_mem_nil) h
  have hnone : left.filterMap opening? = [] :=
    Option.some.inj (haccounts.opened.symm.trans hbalanced)
  rw [List.filterMap_eq_nil_iff] at hnone
  intro token htoken
  have hwaits := haccounts.waiting token htoken
  have hclosed := hnone token htoken
  obtain ⟨kind, p⟩ := token
  cases kind with
  | operator operator => exact ⟨operator, rfl⟩
  | opening bracket => cases hclosed
  | number | literal | feature | identifier | closing => cases hwaits

/-- Balanced tokens are still balanced when their operators are behind their operands. -/
theorem Balanced.operatorsLast {tokens ordered : List Token} (hbalanced : Balanced tokens)
    (h : operatorsLast tokens = .ok ordered) : Balanced ordered := by
  rw [Token.operatorsLast, arrange_eq_releaseAll] at h
  obtain ⟨⟨out, left⟩, hrun, hrelease⟩ := bind_eq_ok_iff.mp h
  have hwaiting := hbalanced.waiting hrun
  rw [releaseAll_eq_ok hwaiting] at hrelease
  cases hrelease
  have haccounts := arrangeAll_accounts (fun _ hmem => absurd hmem List.not_mem_nil) hrun
  rw [Balanced, List.foldlM_append, haccounts.passed, hbalanced]
  exact foldlM_bracketsAfter_operators hwaiting []

/-- A separator after balanced tokens divides the first pass: what stands before it is rearranged
as it is alone, and what follows as well. -/
theorem operatorsLast_separator {first second : List Token} {separator : Token}
    {operator : Operator} (hkind : separator.kind = .operator operator)
    (hseparator : operator.isSeparator) (hfirst : Balanced first) :
    operatorsLast (first ++ separator :: second) =
      operatorsLast first >>= fun before => (operatorsLast second).map (before ++ ·) := by
  rw [operatorsLast, operatorsLast, arrange_append, arrange_eq_releaseAll [] first]
  cases hrun : arrangeAll [] first with
  | error fault => rfl
  | ok last =>
    obtain ⟨out, left⟩ := last
    have hwaiting := hfirst.waiting hrun
    have hrelease : releaseWhile (fun _ => true) (left ++ []) = (left, []) := by
      refine releaseWhile_append ?_ rfl
      intro token htoken
      obtain ⟨waiting, hwaits⟩ := hwaiting token htoken
      exact ⟨waiting, hwaits, rfl⟩
    rw [List.append_nil] at hrelease
    have hone : arrangeOne left separator = .ok (left, []) := by
      rw [arrangeOne]
      simp only [hkind, hseparator, if_true, hrelease]
    change (arrange left (separator :: second)).map _ = ((releaseAll left).map _ >>= _)
    rw [arrange_cons, hone, releaseAll_eq_ok hwaiting]
    change ((arrange [] second).map _).map _ = (arrange [] second).map _
    rw [map_map]
    congr 1
    funext after
    exact (List.append_assoc _ _ _).symm

end SoundLaw.Token
