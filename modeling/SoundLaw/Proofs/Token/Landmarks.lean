import SoundLaw.Proofs.Token.Features
import SoundLaw.Proofs.Token.Phonology

/-!
# Tokens as they are written

A token is read from one lexeme, or it is a feature literal that takes several. Brackets, signs of
rules, commas and slashes have no part in feature literals, so each of them is a token of its own,
in the order and at the places of the source. Operators and operands that are implied add none of
them.
-/

namespace SoundLaw

/-! ## The lexemes of a token -/

namespace Lexeme

variable {dialect : Dialect}

/-- The parts of feature literals: what starts one or is its quality, the bar, and the names of
features. -/
def InLiteral (dialect : Dialect) (kind : LexemeKind) : Prop :=
  kind = .featureSign ∨ kind.quality?.isSome = true ∨ kind = .pipe ∨
    ∃ name, kind = .name name ∧ dialect.features.contains name = true

/-- What a lexeme on its own is read as. -/
inductive ReadAs (s : Surroundings) : LexemeKind → TokenKind → Prop
  | number (value : Float) : ReadAs s (.number value) (.number value)
  | literal (kind : LiteralKind) (text : String) :
    ReadAs s (.literal kind text) (.literal kind text)
  | name (text : String) : ReadAs s (.name text) (readName s text)
  | affirm : ReadAs s (.symbol .add) (.operator .affirm)
  | negate : ReadAs s (.symbol .subtract) (.operator .negate)
  | slash :
    ReadAs s (.symbol .divide) (.operator (if s.ruleDepth.isSome then .ruleContext else .divide))
  | symbol {op : Operator} (hop : op ≠ .divide) : ReadAs s (.symbol op) (.operator op)
  | opening (bracket : Bracket) : ReadAs s (.opening bracket) (.opening bracket)
  | closing (bracket : Bracket) : ReadAs s (.closing bracket) (.closing bracket)

/-- A feature literal is read: it takes the lexemes up to those that are left. -/
def TakesLiteral (dialect : Dialect) (lexemes : List Lexeme) (kind : TokenKind)
    (after : List Lexeme) : Prop :=
  (∃ f, kind = .feature f) ∧
    ∃ taken, lexemes = taken ++ after ∧ ∀ part ∈ taken, InLiteral dialect part.kind

/-- What is stitched to a quality behind some parts of a feature literal completes the literal. -/
theorem takesLiteral_of_stitch? {quality : Quality} {needsPipe : Bool} (f : Feature)
    {parts lexemes after : List Lexeme} (hparts : ∀ part ∈ parts, InLiteral dialect part.kind)
    (h : dialect.stitch? quality needsPipe lexemes = some (f, after)) :
    TakesLiteral dialect (parts ++ lexemes) (.feature f) after := by
  refine ⟨⟨f, rfl⟩, ?_⟩
  unfold Dialect.stitch? at h
  split at h
  · cases h
  · split at h
    · next p name q rest =>
      split at h
      · next hknown =>
        cases h
        refine ⟨parts ++ [⟨.pipe, p⟩, ⟨.name name, q⟩], by simp, ?_⟩
        refine List.forall_mem_append.mpr ⟨hparts, List.forall_mem_cons.mpr ⟨?_, ?_⟩⟩
        · exact .inr (.inr (.inl rfl))
        · exact List.forall_mem_singleton.mpr (.inr (.inr (.inr ⟨name, rfl, hknown⟩)))
      · cases h
    · next name q rest =>
      split at h
      · next hknown =>
        cases h
        refine ⟨parts ++ [⟨.name name, q⟩], by simp, ?_⟩
        refine List.forall_mem_append.mpr ⟨hparts, List.forall_mem_singleton.mpr ?_⟩
        exact .inr (.inr (.inr ⟨name, rfl, (Bool.and_eq_true_iff.mp hknown).2⟩))
      · cases h
    · cases h

/-- A lexeme that may be a quality starts a feature literal, or something else is read. -/
theorem featureOr_cases (lexeme : Lexeme) {needsPipe : Bool} {rest after : List Lexeme}
    {other kind : TokenKind}
    (h : dialect.featureOr lexeme.kind.quality? needsPipe rest other = (kind, after)) :
    TakesLiteral dialect (lexeme :: rest) kind after ∨ kind = other ∧ after = rest := by
  unfold Dialect.featureOr at h
  split at h
  · next f left hfound =>
    cases h
    obtain ⟨quality, hquality, hstitch⟩ := Option.bind_eq_some_iff.mp hfound
    have hlexeme : InLiteral dialect lexeme.kind := .inr (.inl (Option.isSome_of_eq_some hquality))
    exact .inl (takesLiteral_of_stitch? f (List.forall_mem_singleton.mpr hlexeme) hstitch)
  · cases h
    exact .inr ⟨rfl, rfl⟩

/-- A lexeme is read together with others as a feature literal, or on its own. -/
theorem readToken_cases {s : Surroundings} {lexeme : Lexeme} {rest after : List Lexeme}
    {kind : TokenKind} (h : readToken dialect s lexeme rest = .ok (kind, after)) :
    TakesLiteral dialect (lexeme :: rest) kind after ∨
      ReadAs s lexeme.kind kind ∧ after = rest := by
  obtain ⟨lexemeKind, p⟩ := lexeme
  have halone {other : TokenKind} (hother : ReadAs s lexemeKind other)
      (hread : (.ok (other, rest) : Except Fault _) = .ok (kind, after)) :
      ReadAs s lexemeKind kind ∧ after = rest := by
    cases hread
    exact ⟨hother, rfl⟩
  have hfeature {needsPipe : Bool} {other : TokenKind} (hother : ReadAs s lexemeKind other)
      (hread : (.ok (dialect.featureOr lexemeKind.quality? needsPipe rest other) : Except Fault _) =
        .ok (kind, after)) :
      TakesLiteral dialect (⟨lexemeKind, p⟩ :: rest) kind after ∨
        ReadAs s lexemeKind kind ∧ after = rest := by
    rcases featureOr_cases ⟨lexemeKind, p⟩ (Except.ok.inj hread) with hliteral | ⟨rfl, rfl⟩
    · exact .inl hliteral
    · exact .inr ⟨hother, rfl⟩
  unfold readToken at h
  split at h
  case h_1 value hkind =>
    obtain rfl : lexemeKind = .number value := hkind
    exact hfeature (.number value) h
  case h_2 text hkind =>
    obtain rfl : lexemeKind = .literal .text text := hkind
    exact .inr (halone (.literal .text text) h)
  case h_3 literalKind text _ hkind =>
    obtain rfl : lexemeKind = .literal literalKind text := hkind
    obtain ⟨_, -, heq⟩ := map_eq_ok_iff.mp h
    exact .inr (halone (.literal literalKind text) (congrArg Except.ok heq))
  case h_4 hkind =>
    obtain rfl : lexemeKind = .featureSign := hkind
    obtain ⟨_, -, h⟩ := bind_eq_ok_iff.mp h
    split at h
    · next f left hfound =>
      cases h
      obtain ⟨next, hhead, hfound⟩ := Option.bind_eq_some_iff.mp hfound
      obtain ⟨quality, hquality, hstitch⟩ := Option.bind_eq_some_iff.mp hfound
      obtain ⟨rest, rfl⟩ := List.head?_eq_some_iff.mp hhead
      refine .inl (takesLiteral_of_stitch? f (List.forall_mem_cons.mpr
        ⟨.inl rfl, List.forall_mem_singleton.mpr ?_⟩) hstitch)
      exact .inr (.inl (Option.isSome_of_eq_some hquality))
    · cases h
  case h_5 hkind =>
    obtain rfl : lexemeKind = .tilde := hkind
    obtain ⟨_, -, h⟩ := bind_eq_ok_iff.mp h
    split at h
    · next f left hstitch =>
      cases h
      refine .inl (takesLiteral_of_stitch? f (List.forall_mem_singleton.mpr ?_) hstitch)
      exact .inr (.inl rfl)
    · cases h
  case h_6 => cases h
  case h_7 name hkind =>
    obtain rfl : lexemeKind = .name name := hkind
    exact hfeature (.name name) h
  case h_8 hkind =>
    obtain rfl : lexemeKind = .symbol .add := hkind
    split at h
    · exact hfeature .affirm h
    · exact .inr (halone (.symbol (by decide)) h)
  case h_9 hkind =>
    obtain rfl : lexemeKind = .symbol .subtract := hkind
    split at h
    · exact hfeature .negate h
    · exact .inr (halone (.symbol (by decide)) h)
  case h_10 hkind =>
    obtain rfl : lexemeKind = .symbol .divide := hkind
    exact .inr (halone .slash h)
  case h_11 hkind =>
    obtain rfl : lexemeKind = .symbol .rule := hkind
    obtain ⟨_, -, heq⟩ := map_eq_ok_iff.mp h
    exact .inr (halone (.symbol (by decide)) (congrArg Except.ok heq))
  case h_12 op _ _ hdivide _ hkind =>
    obtain rfl : lexemeKind = .symbol op := hkind
    exact .inr (halone (.symbol fun heq => hdivide heq) h)
  case h_13 bracket hkind =>
    obtain rfl : lexemeKind = .opening bracket := hkind
    exact .inr (halone (.opening bracket) h)
  case h_14 bracket hkind =>
    obtain rfl : lexemeKind = .closing bracket := hkind
    exact .inr (halone (.closing bracket) h)

/-- A name that spells an operator spells one that has no part in a rule and is no separator. -/
theorem isPlain_of_ofSpelling? {text : String} (htext : IsName text) {op : Operator}
    (h : Operator.ofSpelling? text = some op) :
    op ≠ .divide ∧ op ≠ .rule ∧ op ≠ .comma ∧ op.isPhonological = false := by
  obtain ⟨c, rest, hchars, hall, -, -⟩ := htext
  have hc : isNameChar c = true := List.all_eq_true.mp hall c List.mem_cons_self
  have hspelling := List.find?_some h
  rw [beq_iff_eq, ← String.toList_inj, hchars] at hspelling
  have hne (sign : Char) (hsign : isNameChar sign = false) {other : Operator}
      (hother : other.spelling.toList.head? = some sign) : op ≠ other := by
    rintro rfl
    rw [hspelling] at hother
    cases hother
    rw [hc] at hsign
    cases hsign
  have hrule : op ≠ .rule := hne '|' (by decide) rfl
  exact ⟨hne '/' (by decide) rfl, hrule, hne ',' (by decide) rfl,
    Operator.isPhonological_of_mem_spelled op (Operator.mem_spelled_of_ofSpelling? h) hrule⟩

/-- What the lexemes of a source have in common: signs are operators with a spelling, and names can
be names. -/
structure Scanned (kind : LexemeKind) : Prop where
  spelled : ∀ op, kind = .symbol op → op ∈ Operator.spelled
  name : ∀ text, kind = .name text → IsName text

theorem scanned_of_mem_scan {source : String} {lexemes : List Lexeme}
    (h : scan source = .ok lexemes) : ∀ lexeme ∈ lexemes, Scanned lexeme.kind := by
  intro lexeme hlexeme
  refine ⟨fun op hop => ?_, fun text htext => isName_of_mem_scan h hlexeme htext⟩
  have hspelled := isSpelled_of_scanFrom h lexeme hlexeme
  rwa [IsSpelled, hop] at hspelled

end Lexeme

/-! ## Landmarks -/

/-- The lexemes that are read one by one as tokens of their own: brackets, signs of rules, commas
and slashes, and underscores where they cannot be the names of features. -/
def LexemeKind.isLandmark (dialect : Dialect) : LexemeKind → Bool
  | opening _ | closing _ | symbol .rule | symbol .comma | symbol .divide => true
  | name text => text == "_" && !dialect.features.contains "_"
  | _ => false

/-- The landmark that a token is read from. -/
def TokenKind.landmark? (dialect : Dialect) : TokenKind → Option LexemeKind
  | opening bracket => some (.opening bracket)
  | closing bracket => some (.closing bracket)
  | operator .rule => some (.symbol .rule)
  | operator .comma => some (.symbol .comma)
  | operator .divide | operator .ruleContext => some (.symbol .divide)
  | operator .focus => if dialect.features.contains "_" then none else some (.name "_")
  | identifier text =>
    if text == "_" && !dialect.features.contains "_" then some (.name "_") else none
  | _ => none

/-- The landmark that a token is read from, at its place. -/
def Token.landmark? (dialect : Dialect) (token : Token) : Option Lexeme :=
  (token.kind.landmark? dialect).map fun kind => ⟨kind, token.position⟩

namespace Lexeme

variable {dialect : Dialect}

/-- A part of a feature literal is no landmark. -/
theorem InLiteral.isLandmark {kind : LexemeKind} (h : InLiteral dialect kind) :
    kind.isLandmark dialect = false := by
  rcases h with rfl | hquality | rfl | ⟨name, rfl, hname⟩
  · rfl
  · cases kind with
    | opening | closing => cases hquality
    | symbol op =>
      cases op with
      | rule | comma | divide => cases hquality
      | _ => rfl
    | name text =>
      have hne : text ≠ "_" := by
        rintro rfl
        revert hquality
        decide
      simp [LexemeKind.isLandmark, hne]
    | _ => rfl
  · rfl
  · by_cases hunderscore : name = "_"
    · subst hunderscore
      simpa [LexemeKind.isLandmark] using hname
    · simp [LexemeKind.isLandmark, hunderscore]

/-- A landmark is read as a token that comes from it, and other lexemes as tokens without one. -/
theorem ReadAs.landmark? (dialect : Dialect) {s : Surroundings} {kind : LexemeKind}
    {token : TokenKind} (h : ReadAs s kind token) (hkind : Scanned kind) :
    token.landmark? dialect = if kind.isLandmark dialect then some kind else none := by
  cases h with
  | name text =>
    unfold readName
    split
    · next hfocus =>
      obtain rfl : text = "_" := beq_iff_eq.mp (Bool.and_eq_true_iff.mp hfocus).2
      simp [TokenKind.landmark?, LexemeKind.isLandmark]
    · split
      · next op hfound =>
        have hnot : Operator.ofSpelling? "_" = none := by decide
        have hne : text ≠ "_" := by
          rintro rfl
          rw [hnot] at hfound
          cases hfound
        obtain ⟨hdivide, hrule, hcomma, hplain⟩ :=
          isPlain_of_ofSpelling? (hkind.name text rfl) hfound
        have hnone : (LexemeKind.name text).isLandmark dialect = false := by
          simp [LexemeKind.isLandmark, hne]
        rw [hnone]
        cases op with
        | divide => exact absurd rfl hdivide
        | rule => exact absurd rfl hrule
        | comma => exact absurd rfl hcomma
        | ruleContext | focus => cases hplain
        | _ => rfl
      · by_cases hunderscore : text = "_"
        · subst hunderscore
          rfl
        · simp [TokenKind.landmark?, LexemeKind.isLandmark, hunderscore]
  | slash => cases s.ruleDepth.isSome <;> rfl
  | @symbol op hop =>
    have hspelled := hkind.spelled op rfl
    cases op with
    | divide => exact absurd rfl hop
    | ruleContext | focus => exact absurd hspelled (by decide)
    | _ => rfl
  | number | literal | affirm | negate | opening | closing => rfl

/-- An opening bracket is the only landmark of its tokens. -/
theorem landmarks_readOpening (dialect : Dialect) (s : Surroundings) (bracket : Bracket)
    (p : Position) :
    (readOpening s bracket p).1.filterMap (Token.landmark? dialect) = [⟨.opening bracket, p⟩] := by
  unfold readOpening Surroundings.implied?
  split
  all_goals rfl

/-- A closing bracket is the only landmark of its tokens. -/
theorem landmarks_readClosing (dialect : Dialect) (s : Surroundings) (bracket : Bracket)
    (p : Position) (rest : List Lexeme) :
    (readClosing s bracket p rest).1.filterMap (Token.landmark? dialect) =
      [⟨.closing bracket, p⟩] := by
  unfold readClosing
  dsimp only
  split
  · rfl
  · rfl

/-- Classification keeps the landmarks, their order and their places. -/
theorem landmarks_of_classifyFrom {s : Surroundings} {lexemes : List Lexeme} {tokens : List Token}
    (hlexemes : ∀ lexeme ∈ lexemes, Scanned lexeme.kind)
    (h : classifyFrom dialect s lexemes = .ok tokens) :
    tokens.filterMap (Token.landmark? dialect) =
      lexemes.filter (·.kind.isLandmark dialect) := by
  fun_induction classifyFrom dialect s lexemes generalizing tokens with
  | case1 =>
    cases h
    rfl
  | case2 s lexeme rest bracket hkind opened s' hopening ih =>
    obtain ⟨others, hothers, rfl⟩ := map_eq_ok_iff.mp h
    obtain ⟨kind, p⟩ := lexeme
    obtain rfl : kind = .opening bracket := hkind
    have hmarks := landmarks_readOpening dialect s bracket p
    rw [hopening] at hmarks
    rw [List.filterMap_append, hmarks, ih (List.forall_mem_cons.mp hlexemes).2 hothers]
    rfl
  | case3 s lexeme rest bracket hkind closed s' hclosing ih =>
    obtain ⟨others, hothers, rfl⟩ := map_eq_ok_iff.mp h
    obtain ⟨kind, p⟩ := lexeme
    obtain rfl : kind = .closing bracket := hkind
    have hmarks := landmarks_readClosing dialect s bracket p rest
    rw [hclosing] at hmarks
    rw [List.filterMap_append, hmarks, ih (List.forall_mem_cons.mp hlexemes).2 hothers]
    rfl
  | case4 => cases h
  | case5 s lexeme rest kind after hread hshorter hopening hclosing ih =>
    obtain ⟨others, hothers, rfl⟩ := map_eq_ok_iff.mp h
    rcases readToken_cases hread with ⟨⟨f, rfl⟩, taken, hsplit, htaken⟩ | ⟨hreadAs, rfl⟩
    · rw [hsplit] at hlexemes ⊢
      have hnone : taken.filter (·.kind.isLandmark dialect) = [] := by
        rw [List.filter_eq_nil_iff]
        intro part hpart
        rw [(htaken part hpart).isLandmark]
        exact Bool.false_ne_true
      rw [List.filterMap_cons_none rfl, List.filter_append, hnone, List.nil_append]
      exact ih (List.forall_mem_append.mp hlexemes).2 hothers
    · obtain ⟨hlexeme, hrest⟩ := List.forall_mem_cons.mp hlexemes
      have hmark := hreadAs.landmark? dialect hlexeme
      by_cases hlandmark : lexeme.kind.isLandmark dialect = true
      · have htoken : Token.landmark? dialect ⟨kind, lexeme.position⟩ = some lexeme := by
          rw [Token.landmark?, hmark, if_pos hlandmark]
          rfl
        rw [List.filterMap_cons_some htoken, ih hrest hothers,
          List.filter_cons_of_pos (p := fun l : Lexeme => l.kind.isLandmark dialect) hlandmark]
      · have htoken : Token.landmark? dialect ⟨kind, lexeme.position⟩ = none := by
          rw [Token.landmark?, hmark, if_neg hlandmark]
          rfl
        rw [List.filterMap_cons_none htoken, ih hrest hothers,
          List.filter_cons_of_neg (p := fun l : Lexeme => l.kind.isLandmark dialect) hlandmark]

end Lexeme

namespace Token

/-- Operands that are supplied are no landmarks. -/
theorem landmarks_fillFrom (dialect : Dialect) (previous : Option TokenKind)
    (tokens : List Token) :
    (fillFrom previous tokens).filterMap (landmark? dialect) =
      tokens.filterMap (landmark? dialect) := by
  induction tokens generalizing previous with
  | nil => rfl
  | cons token rest ih =>
    have hbefore : (if lacksLeft token.kind previous then [null token.position] else []).filterMap
        (landmark? dialect) = [] := by
      split
      · rfl
      · rfl
    unfold fillFrom
    dsimp only
    split
    · rw [List.filterMap_append, hbefore, List.nil_append, List.filterMap_cons,
        List.filterMap_cons_none rfl, ih, List.filterMap_cons]
    · rw [List.filterMap_append, hbefore, List.nil_append, List.filterMap_cons, ih,
        List.filterMap_cons]

end Token

end SoundLaw
