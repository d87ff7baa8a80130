import SoundLaw.Proofs.Node.Faults
import SoundLaw.Proofs.Outcome

/-!
# Reading without phonological notation

Where phonological notation is not allowed, no token of it is read. Quotes of phones and words, the
signs of feature literals and the sign of a rule are refused where they stand. A sign, a zero or a
Greek letter before a feature is read as what it is elsewhere. The slash and the underscore belong
to a rule inside one only, and no rule is ever open.
-/

namespace SoundLaw

/-- Whether an operator belongs to a sound change rule. -/
def Operator.isPhonological : Operator → Bool
  | rule | ruleContext | focus => true
  | _ => false

/-- Whether a token belongs to the phonological notation. -/
def TokenKind.isPhonological : TokenKind → Bool
  | literal .phone _ | literal .word _ | feature _ => true
  | operator op => op.isPhonological
  | _ => false

namespace Operator

/-- The only operator of rules with a spelling of its own is the sign of a rule. -/
theorem isPhonological_of_mem_spelled :
    ∀ operator ∈ spelled, operator ≠ rule → operator.isPhonological = false := by
  decide

/-- An operator that is spelled out is among those that can be. -/
theorem mem_spelled_of_ofSpelling? {text : String} {operator : Operator}
    (h : ofSpelling? text = some operator) : operator ∈ spelled :=
  List.mem_of_find?_eq_some h

end Operator

namespace Lexeme

/-! ## What scanning gives -/

/-- What the lexemes of a text have in common: signs are operators with a spelling, and no name is
the sign of a rule. -/
def IsSpelled (lexeme : Lexeme) : Prop :=
  match lexeme.kind with
  | .symbol operator => operator ∈ Operator.spelled
  | .name text => Operator.ofSpelling? text ≠ some .rule
  | _ => True

/-- The longest operator is spelled out, or it is the best so far. -/
theorem longestOperator_spelled {run cs : List Char} {best : Option (Operator × Nat)}
    {operator : Operator} {length : Nat}
    (h : longestOperator run best cs = some (operator, length)) :
    operator ∈ Operator.spelled ∨ best = some (operator, length) := by
  induction cs generalizing run best with
  | nil => exact .inr h
  | cons c rest ih =>
    rw [longestOperator] at h
    split at h
    · rcases ih h with hspelled | hbest
      · exact .inl hspelled
      · split at hbest
        · next hfound =>
          cases hbest
          exact .inl (Operator.mem_spelled_of_ofSpelling? hfound)
        · exact .inr hbest
    · exact .inr h

/-- A run starts with the first character that it was given. -/
theorem head?_takeRun {c : Char} (rest : List Char) (h : isNameChar c = true) :
    (takeRun (c :: rest)).1.head? = some c := by
  simp only [takeRun, List.takeWhile_cons, if_pos h]
  repeat' split
  all_goals rfl

/-- A text that starts with a character of names does not spell the sign of a rule. -/
theorem ofSpelling?_ne_rule {c : Char} {run : List Char} (hc : isNameChar c = true)
    (hrun : run.head? = some c) : Operator.ofSpelling? (String.ofList run) ≠ some .rule := by
  intro hrule
  have hspelling := List.find?_some hrule
  rw [beq_iff_eq, ← String.toList_inj, String.toList_ofList] at hspelling
  rw [← hspelling] at hrun
  cases hrun
  revert hc
  decide

/-- A run that starts with a character of names is a well spelled lexeme. -/
theorem isSpelled_of_ofRun {p q : Position} {c : Char} {run : List Char} {kind : LexemeKind}
    (hrun : run.head? = some c) (hc : isNameChar c = true) (h : ofRun p run = .ok kind) :
    IsSpelled ⟨kind, q⟩ := by
  unfold ofRun at h
  dsimp only at h
  split at h
  · split at h
    · cases h
      trivial
    · cases h
  · cases h
    exact ofSpelling?_ne_rule hc hrun

/-- A lexeme that is taken is well spelled. -/
theorem isSpelled_of_takeLexeme {p place q : Position} {c : Char} {rest after : List Char}
    {kind : LexemeKind} (h : takeLexeme p c rest = .ok (kind, place, after)) :
    IsSpelled ⟨kind, q⟩ := by
  unfold takeLexeme at h
  split at h
  · obtain ⟨_, -, heq⟩ := map_eq_ok_iff.mp h
    cases heq
    trivial
  · split at h
    · cases h
      trivial
    · cases h
      trivial
    · split at h
      · next hc =>
        obtain ⟨found, hfound, heq⟩ := map_eq_ok_iff.mp h
        cases heq
        exact isSpelled_of_ofRun (head?_takeRun rest hc) hc hfound
      · split at h
        · next hlongest =>
          cases h
          exact (longestOperator_spelled hlongest).resolve_right nofun
        · split at h
          · next hmark =>
            cases h
            unfold mark? at hmark
            split at hmark
            case h_4 => cases hmark
            all_goals
              cases hmark
              trivial
          · cases h

/-- The lexemes of a text are well spelled. -/
theorem isSpelled_of_scanFrom {p : Position} {cs : List Char} {lexemes : List Lexeme}
    (h : scanFrom p cs = .ok lexemes) : ∀ lexeme ∈ lexemes, lexeme.IsSpelled := by
  fun_induction scanFrom p cs generalizing lexemes with
  | case1 =>
    cases h
    simp
  | case2 p c rest hblank ih => exact ih h
  | case3 p rest hblank ih => exact ih h
  | case4 => cases h
  | case5 p c rest hblank hcomment kind place after hlexeme hshorter ih =>
    obtain ⟨others, hothers, rfl⟩ := map_eq_ok_iff.mp h
    exact List.forall_mem_cons.mpr ⟨isSpelled_of_takeLexeme hlexeme, ih hothers⟩

/-! ## What the lexemes are read as -/

variable {dialect : Dialect}

/-- Without phonological notation nothing starts a feature literal. -/
theorem featureOr_of_not_phonology (hoff : dialect.phonology = false) (quality : Option Quality)
    (needsPipe : Bool) (rest : List Lexeme) (other : TokenKind) :
    dialect.featureOr quality needsPipe rest other = (other, rest) := by
  have hstitch : quality.bind (dialect.stitch? · needsPipe rest) = none := by
    simp [Dialect.stitch?, hoff]
  simp [Dialect.featureOr, hstitch]

/-- Without phonological notation what requires it is refused. -/
theorem requirePhonology_ne_ok (hoff : dialect.phonology = false) (p : Position) (done : Unit) :
    dialect.requirePhonology p ≠ .ok done := by
  simp [Dialect.requirePhonology, hoff]

/-- Outside rules a name is read as itself or as an operator that no rule has. -/
theorem isPhonological_readName {s : Surroundings} {name : String} (hs : s.ruleDepth = none)
    (hname : Operator.ofSpelling? name ≠ some .rule) :
    (readName s name).isPhonological = false := by
  unfold readName
  rw [hs]
  dsimp only [Option.isSome_none, Bool.false_and]
  split
  · contradiction
  · split
    · next operator hfound =>
      refine Operator.isPhonological_of_mem_spelled operator
        (Operator.mem_spelled_of_ofSpelling? hfound) fun hrule => ?_
      exact hname (hrule ▸ hfound)
    · rfl

/-- Without phonological notation, and with no rule open, a lexeme is read as a token outside the
notation, and no more than the lexeme is taken. -/
theorem readToken_of_not_phonology (hoff : dialect.phonology = false) {s : Surroundings}
    (hs : s.ruleDepth = none) {lexeme : Lexeme} (hlexeme : lexeme.IsSpelled)
    {rest after : List Lexeme} {kind : TokenKind}
    (h : readToken dialect s lexeme rest = .ok (kind, after)) :
    kind.isPhonological = false ∧ after = rest := by
  obtain ⟨lexemeKind, p⟩ := lexeme
  unfold readToken at h
  split at h
  case h_3 | h_11 =>
    obtain ⟨done, hdone, -⟩ := map_eq_ok_iff.mp h
    exact absurd hdone (requirePhonology_ne_ok hoff _ done)
  case h_4 | h_5 =>
    obtain ⟨done, hdone, -⟩ := bind_eq_ok_iff.mp h
    exact absurd hdone (requirePhonology_ne_ok hoff _ done)
  case h_6 => cases h
  case h_7 name hname =>
    rw [featureOr_of_not_phonology hoff] at h
    cases h
    obtain rfl : lexemeKind = .name name := hname
    exact ⟨isPhonological_readName hs hlexeme, rfl⟩
  case h_8 | h_9 =>
    -- a sign before an operand would start a feature literal
    split at h
    · rw [featureOr_of_not_phonology hoff] at h
      cases h
      exact ⟨rfl, rfl⟩
    · cases h
      exact ⟨rfl, rfl⟩
  case h_10 =>
    rw [hs] at h
    cases h
    exact ⟨rfl, rfl⟩
  case h_12 operator hadd hsubtract hdivide hrule hoperator =>
    cases h
    obtain rfl : lexemeKind = .symbol operator := hoperator
    refine ⟨Operator.isPhonological_of_mem_spelled operator hlexeme ?_, rfl⟩
    rintro rfl
    exact hrule rfl
  case h_1 =>
    rw [featureOr_of_not_phonology hoff] at h
    cases h
    exact ⟨rfl, rfl⟩
  all_goals
    cases h
    exact ⟨rfl, rfl⟩

/-- A token outside the notation opens no rule. -/
theorem ruleDepth_afterToken {s : Surroundings} {kind : TokenKind} (hs : s.ruleDepth = none)
    (hkind : kind.isPhonological = false) : (s.afterToken kind).ruleDepth = none := by
  unfold Surroundings.afterToken
  dsimp only
  split
  · cases hkind
  · simp [hs]
  · simp [hs]
  · exact hs

/-- A closing bracket opens no rule. -/
theorem ruleDepth_readClosing {s : Surroundings} {bracket : Bracket} {p : Position}
    {rest : List Lexeme} (hs : s.ruleDepth = none) :
    (readClosing s bracket p rest).2.ruleDepth = none := by
  have hclosed : (s.afterClosing bracket).ruleDepth = none := by
    simp [Surroundings.afterClosing, hs]
  unfold readClosing
  dsimp only
  split
  · exact ruleDepth_afterToken hclosed rfl
  · exact hclosed

/-- The tokens of a bracket are outside the notation. -/
theorem isPhonological_readOpening {s : Surroundings} {bracket : Bracket} {p : Position} :
    ∀ token ∈ (readOpening s bracket p).1, token.kind.isPhonological = false := by
  have himplied : ∀ operator ∈ (s.implied? bracket).toList, operator.isPhonological = false := by
    unfold Surroundings.implied?
    split
    all_goals simp [Operator.isPhonological]
  simp only [readOpening, List.forall_mem_append, List.forall_mem_map, List.forall_mem_singleton]
  exact ⟨himplied, rfl⟩

/-- The tokens of a closing bracket are outside the notation. -/
theorem isPhonological_readClosing {s : Surroundings} {bracket : Bracket} {p : Position}
    {rest : List Lexeme} :
    ∀ token ∈ (readClosing s bracket p rest).1, token.kind.isPhonological = false := by
  unfold readClosing
  dsimp only
  split
  · simp [TokenKind.isPhonological, Operator.isPhonological]
  · simp [TokenKind.isPhonological]

/-- Without phonological notation, and with no rule open, lexemes are read as tokens outside it. -/
theorem isPhonological_of_classifyFrom (hoff : dialect.phonology = false) {s : Surroundings}
    (hs : s.ruleDepth = none) {lexemes : List Lexeme}
    (hlexemes : ∀ lexeme ∈ lexemes, lexeme.IsSpelled) {tokens : List Token}
    (h : classifyFrom dialect s lexemes = .ok tokens) :
    ∀ token ∈ tokens, token.kind.isPhonological = false := by
  fun_induction classifyFrom dialect s lexemes generalizing tokens with
  | case1 =>
    cases h
    simp
  | case2 s lexeme rest bracket hkind opened s' hopening ih =>
    obtain ⟨others, hothers, rfl⟩ := map_eq_ok_iff.mp h
    obtain rfl : (readOpening s bracket lexeme.position).1 = opened := by rw [hopening]
    obtain rfl : (readOpening s bracket lexeme.position).2 = s' := by rw [hopening]
    exact List.forall_mem_append.mpr
      ⟨isPhonological_readOpening, ih hs (List.forall_mem_cons.mp hlexemes).2 hothers⟩
  | case3 s lexeme rest bracket hkind closed s' hclosing ih =>
    obtain ⟨others, hothers, rfl⟩ := map_eq_ok_iff.mp h
    obtain rfl : (readClosing s bracket lexeme.position rest).1 = closed := by rw [hclosing]
    obtain rfl : (readClosing s bracket lexeme.position rest).2 = s' := by rw [hclosing]
    exact List.forall_mem_append.mpr ⟨isPhonological_readClosing,
      ih (ruleDepth_readClosing hs) (List.forall_mem_cons.mp hlexemes).2 hothers⟩
  | case4 => cases h
  | case5 s lexeme rest kind after hread hshorter hopening hclosing ih =>
    obtain ⟨others, hothers, rfl⟩ := map_eq_ok_iff.mp h
    rw [List.forall_mem_cons] at hlexemes
    obtain ⟨hkind, rfl⟩ := readToken_of_not_phonology hoff hs hlexemes.1 hread
    exact List.forall_mem_cons.mpr
      ⟨hkind, ih (ruleDepth_afterToken hs hkind) hlexemes.2 hothers⟩

end Lexeme

namespace Token

/-- Supplying operands adds tokens outside the notation only. -/
theorem isPhonological_fillFrom {previous : Option TokenKind} {tokens : List Token}
    (h : ∀ token ∈ tokens, token.kind.isPhonological = false) :
    ∀ token ∈ fillFrom previous tokens, token.kind.isPhonological = false := by
  induction tokens generalizing previous with
  | nil => simp [fillFrom]
  | cons token rest ih =>
    obtain ⟨htoken, hrest⟩ := List.forall_mem_cons.mp h
    have hnull (p : Position) : (null p).kind.isPhonological = false := rfl
    have hbefore : ∀ added ∈ (if lacksLeft token.kind previous then [null token.position] else []),
        added.kind.isPhonological = false := by
      split
      · simp [hnull]
      · simp
    unfold fillFrom
    dsimp only
    split
    · simp only [List.forall_mem_append, List.forall_mem_cons]
      exact ⟨hbefore, htoken, hnull _, ih hrest⟩
    · simp only [List.forall_mem_append, List.forall_mem_cons]
      exact ⟨hbefore, htoken, ih hrest⟩

/-- Without phonological notation no token of it is read. -/
theorem isPhonological_of_tokenize {dialect : Dialect} (hoff : dialect.phonology = false)
    {source : String} {tokens : List Token} (h : tokenize dialect source = .ok tokens) :
    ∀ token ∈ tokens, token.kind.isPhonological = false := by
  obtain ⟨lexemes, hscan, h⟩ := bind_eq_ok_iff.mp h
  obtain ⟨classified, hclassified, h⟩ := bind_eq_ok_iff.mp h
  cases h
  refine isPhonological_fillFrom ?_
  exact Lexeme.isPhonological_of_classifyFrom hoff rfl (Lexeme.isSpelled_of_scanFrom hscan)
    hclassified

end Token

end SoundLaw
