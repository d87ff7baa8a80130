import SoundLaw.Proofs.Token.Landmarks

/-!
# Slashes and underscores of a rule

A slash is the context of a rule, and an underscore its focus, where classification takes a rule to
be open. It remembers the depth of one rule only. A rule in brackets takes the place of the rule
around it, and when the brackets close no rule is left. So a rule keeps what belongs to it up to the
separator at its depth, or the bracket that closes around it, with one exception: once a rule has
been written in brackets inside it, slashes and underscores lose their meaning until the next sign
of a rule.
-/

namespace SoundLaw

namespace TokenKind

/-- The bracket depth behind a token. -/
def depthAfter (depth : Nat) : TokenKind → Nat
  | opening _ => depth + 1
  | closing _ => depth - 1
  | _ => depth

/-- Whether a token is the sign of a rule. -/
def isRuleSign : TokenKind → Bool
  | operator .rule => true
  | _ => false

/-- Whether a token divides statements or elements. -/
def isSeparator : TokenKind → Bool
  | operator op => op.isSeparator
  | _ => false

/-- Whether the rules of a depth go on behind a token: it closes no bracket below that depth, and it
is no separator at that depth. -/
def continuesRule (d depth : Nat) (kind : TokenKind) : Bool :=
  decide (d ≤ kind.depthAfter depth) && !(kind.isSeparator && depth == d)

theorem continuesRule_iff {d depth : Nat} {kind : TokenKind} :
    kind.continuesRule d depth = true ↔
      d ≤ kind.depthAfter depth ∧ (kind.isSeparator = true → depth ≠ d) := by
  cases hseparator : kind.isSeparator <;> simp [continuesRule, hseparator]

/-- Whether a slash or an underscore has its meaning in a rule. Other tokens have no such
meaning. -/
def inRule? : TokenKind → Option Bool
  | operator .ruleContext | operator .focus => some true
  | operator .divide => some false
  | identifier name => if name = "_" then some false else none
  | _ => none

end TokenKind

namespace Token

/-- The bracket depth behind some tokens. -/
def depthFrom (depth : Nat) (tokens : List Token) : Nat :=
  tokens.foldl (fun depth token => token.kind.depthAfter depth) depth

/-- Whether the rules of a depth go on behind some tokens. -/
def reaches (d : Nat) : Nat → List Token → Bool
  | _, [] => true
  | depth, token :: rest =>
    token.kind.continuesRule d depth && reaches d (token.kind.depthAfter depth) rest

/-- The depth of the last sign of a rule, which is that of an earlier one if some tokens have
none. -/
def lastSign (sign depth : Nat) : List Token → Nat
  | [] => sign
  | token :: rest =>
    lastSign (if token.kind.isRuleSign then depth else sign) (token.kind.depthAfter depth) rest

end Token

/-! ## The rule that is open -/

/-- What is open at a place among tokens: how many brackets, and the rule of which depth. -/
structure Enclosure where
  depth : Nat
  rule : Option Nat

namespace Enclosure

/-- What is open behind a token. -/
def after (around : Enclosure) (kind : TokenKind) : Enclosure where
  depth := kind.depthAfter around.depth
  rule :=
    match kind with
    | .operator .rule => some around.depth
    | .operator .comma | .operator .semicolon =>
      if around.rule = some around.depth then none else around.rule
    | .closing _ => around.rule.filter (· ≤ around.depth - 1)
    | _ => around.rule

/-- What is open behind some tokens. -/
def afterAll (around : Enclosure) (tokens : List Token) : Enclosure :=
  tokens.foldl (fun around token => around.after token.kind) around

theorem afterAll_append (around : Enclosure) (tokens others : List Token) :
    around.afterAll (tokens ++ others) = (around.afterAll tokens).afterAll others :=
  List.foldl_append

/-- The depth of brackets does not depend on rules. -/
theorem depth_afterAll (around : Enclosure) (tokens : List Token) :
    (around.afterAll tokens).depth = Token.depthFrom around.depth tokens := by
  induction tokens generalizing around with
  | nil => rfl
  | cons token rest ih => exact ih (around.after token.kind)

/-- What a token does: it starts a rule, or it is a separator, or a closing bracket, which may both
end a rule, or it leaves the rule as it is and closes no bracket. -/
theorem after_cases (around : Enclosure) (kind : TokenKind) :
    (kind.isRuleSign = true ∧ around.after kind = ⟨around.depth, some around.depth⟩) ∨
    (kind.isRuleSign = false ∧ kind.isSeparator = true ∧ around.after kind =
      ⟨around.depth, if around.rule = some around.depth then none else around.rule⟩) ∨
    (kind.isRuleSign = false ∧ around.after kind =
      ⟨around.depth - 1, around.rule.filter (· ≤ around.depth - 1)⟩) ∨
    (kind.isRuleSign = false ∧ around.depth ≤ (around.after kind).depth ∧
      (around.after kind).rule = around.rule) := by
  cases kind with
  | operator op =>
    cases op with
    | rule => exact .inl ⟨rfl, rfl⟩
    | comma | semicolon => exact .inr (.inl ⟨rfl, rfl, rfl⟩)
    | _ => exact .inr (.inr (.inr ⟨rfl, Nat.le_refl _, rfl⟩))
  | closing bracket => exact .inr (.inr (.inl ⟨rfl, rfl⟩))
  | opening bracket => exact .inr (.inr (.inr ⟨rfl, Nat.le_succ _, rfl⟩))
  | number | literal | feature | identifier => exact .inr (.inr (.inr ⟨rfl, Nat.le_refl _, rfl⟩))

/-- Within the reach of a rule at depth `d` the rule that is open is the last one that was started.
It can only be closed if it stands deeper. -/
structure Tracks (d sign : Nat) (around : Enclosure) : Prop where
  within : d ≤ around.depth
  outer : d ≤ sign
  rule : around.rule = some sign ∧ sign ≤ around.depth ∨ around.rule = none ∧ d < sign

/-- A token behind which the rules of a depth go on keeps track of the last one. -/
theorem Tracks.after {d sign : Nat} {around : Enclosure} (h : Tracks d sign around)
    {kind : TokenKind} (hkind : kind.continuesRule d around.depth = true) :
    Tracks d (if kind.isRuleSign then around.depth else sign) (around.after kind) := by
  obtain ⟨hwithin, houter, hrule⟩ := h
  obtain ⟨hafter, hseparator⟩ : d ≤ (around.after kind).depth ∧
      (kind.isSeparator = true → around.depth ≠ d) := TokenKind.continuesRule_iff.mp hkind
  rcases around.after_cases kind with ⟨hsign, heq⟩ | ⟨hsign, hseparates, heq⟩ | ⟨hsign, heq⟩ |
    ⟨hsign, hdepth, heq⟩
  · rw [hsign, if_pos rfl, heq]
    exact ⟨hwithin, hwithin, .inl ⟨rfl, Nat.le_refl _⟩⟩
  · rw [hsign, if_neg Bool.false_ne_true, heq]
    refine ⟨hwithin, houter, ?_⟩
    rcases hrule with ⟨hrule, hle⟩ | ⟨hrule, hlt⟩
    · -- a separator at the depth of the rule ends it, and that depth is not `d`
      have hne := hseparator hseparates
      by_cases hends : sign = around.depth
      · exact .inr ⟨by simp [hrule, hends], by omega⟩
      · exact .inl ⟨by simp [hrule, hends], hle⟩
    · exact .inr ⟨by simp [hrule], hlt⟩
  · rw [hsign, if_neg Bool.false_ne_true, heq]
    have hafter : d ≤ around.depth - 1 := by rwa [heq] at hafter
    refine ⟨hafter, houter, ?_⟩
    rcases hrule with ⟨hrule, hle⟩ | ⟨hrule, hlt⟩
    · -- only a rule inside the bracket ends with it
      by_cases hstays : sign ≤ around.depth - 1
      · exact .inl ⟨by simp [hrule, hstays], hstays⟩
      · exact .inr ⟨by simpa [hrule] using hstays, by omega⟩
    · exact .inr ⟨by simp [hrule], hlt⟩
  · rw [hsign, if_neg Bool.false_ne_true]
    refine ⟨hafter, houter, ?_⟩
    rw [heq]
    exact hrule.imp_left fun ⟨hrule, hle⟩ => ⟨hrule, Nat.le_trans hle hdepth⟩

/-- Tokens behind which the rules of a depth go on keep track of the last one. -/
theorem Tracks.afterAll {d sign : Nat} {around : Enclosure} (h : Tracks d sign around)
    {tokens : List Token} (htokens : Token.reaches d around.depth tokens = true) :
    Tracks d (Token.lastSign sign around.depth tokens) (around.afterAll tokens) := by
  induction tokens generalizing sign around with
  | nil => exact h
  | cons token rest ih =>
    rw [Token.reaches, Bool.and_eq_true] at htokens
    exact ih (h.after htokens.1) htokens.2

/-- Back at the depth of a rule, a rule is open exactly when the last one that was started stands at
that depth. -/
theorem Tracks.isSome_rule_iff {d sign : Nat} {around : Enclosure} (h : Tracks d sign around)
    (hdepth : around.depth = d) : around.rule.isSome = true ↔ sign = d := by
  rcases h.rule with ⟨hrule, hle⟩ | ⟨hrule, hlt⟩
  · have hsign : sign = d := Nat.le_antisymm (hdepth ▸ hle) h.outer
    simp [hrule, hsign]
  · have hsign : sign ≠ d := Nat.ne_of_gt hlt
    simp [hrule, hsign]

/-- Behind the sign of a rule, and back at its depth within its reach, a rule is open exactly when
the last sign stands at that depth. -/
theorem isSome_rule_iff_lastSign {around : Enclosure} {d : Nat} (hdepth : around.depth = d)
    {sign : Token} (hsign : sign.kind = .operator .rule) {between : List Token}
    (hreach : Token.reaches d d between = true) (hback : Token.depthFrom d between = d) :
    (around.afterAll (sign :: between)).rule.isSome = true ↔ Token.lastSign d d between = d := by
  have hopened : around.after sign.kind = ⟨d, some d⟩ := by
    rw [hsign, ← hdepth]
    rfl
  have htracks : Tracks d d ⟨d, some d⟩ :=
    ⟨Nat.le_refl d, Nat.le_refl d, .inl ⟨rfl, Nat.le_refl d⟩⟩
  have hafter : around.afterAll (sign :: between) = afterAll ⟨d, some d⟩ between := by
    rw [← hopened]
    rfl
  rw [hafter]
  exact (htracks.afterAll hreach).isSome_rule_iff ((depth_afterAll _ between).trans hback)

/-! ## Tokens and the open rule -/

/-- A slash or an underscore has its meaning in a rule exactly when a rule is open. -/
def Fits (around : Enclosure) (kind : TokenKind) : Prop :=
  ∀ meaning, kind.inRule? = some meaning → around.rule.isSome = meaning

/-- All slashes and underscores among some tokens have the meaning that fits. -/
def FitsAll (around : Enclosure) : List Token → Prop
  | [] => True
  | token :: rest => around.Fits token.kind ∧ (around.after token.kind).FitsAll rest

/-- A token without a meaning in rules fits everywhere. -/
theorem Fits.of_none {around : Enclosure} {kind : TokenKind} (h : kind.inRule? = none) :
    around.Fits kind := by
  intro meaning hmeaning
  rw [h] at hmeaning
  cases hmeaning

/-- Of the two tokens that may stand for a slash or an underscore, the one with a meaning in rules
is there exactly when a rule is open. -/
theorem Fits.eq_iff {around : Enclosure} {kind inside outside : TokenKind} (h : around.Fits kind)
    (hinside : inside.inRule? = some true) (houtside : outside.inRule? = some false)
    (hkind : kind = inside ∨ kind = outside) : kind = inside ↔ around.rule.isSome = true := by
  rcases hkind with rfl | rfl
  · exact iff_of_true rfl (h true hinside)
  · refine iff_of_false ?_ ?_
    · rintro rfl
      cases hinside.symm.trans houtside
    · rw [h false houtside]
      exact Bool.false_ne_true

/-- Tokens fit if the first of them do, and the others fit behind these. -/
theorem FitsAll.append {around : Enclosure} {tokens others : List Token}
    (htokens : around.FitsAll tokens) (hothers : (around.afterAll tokens).FitsAll others) :
    around.FitsAll (tokens ++ others) := by
  induction tokens generalizing around with
  | nil => exact hothers
  | cons token rest ih => exact ⟨htokens.1, ih htokens.2 hothers⟩

/-- Each token fits where it stands. -/
theorem FitsAll.fits {around : Enclosure} {before after : List Token} {token : Token}
    (h : around.FitsAll (before ++ token :: after)) :
    (around.afterAll before).Fits token.kind := by
  induction before generalizing around with
  | nil => exact h.1
  | cons first rest ih => exact ih h.2

end Enclosure

/-- What is open around the next lexeme. -/
def Surroundings.enclosure (s : Surroundings) : Enclosure :=
  ⟨s.depth, s.ruleDepth⟩

namespace Lexeme

open Enclosure

variable {dialect : Dialect}

/-- A token that is no bracket changes what is open as it is remembered. -/
theorem enclosure_afterToken (s : Surroundings) {kind : TokenKind}
    (hopening : ∀ bracket, kind ≠ .opening bracket)
    (hclosing : ∀ bracket, kind ≠ .closing bracket) :
    (s.afterToken kind).enclosure = s.enclosure.after kind := by
  cases kind with
  | operator op => cases op <;> rfl
  | opening bracket => exact absurd rfl (hopening bracket)
  | closing bracket => exact absurd rfl (hclosing bracket)
  | number | literal | feature | identifier => rfl

/-- The tokens of an opening bracket fit, and they open what is remembered. -/
theorem fitsAll_readOpening (s : Surroundings) (bracket : Bracket) (p : Position) :
    s.enclosure.FitsAll (readOpening s bracket p).1 ∧
      s.enclosure.afterAll (readOpening s bracket p).1 =
        (readOpening s bracket p).2.enclosure := by
  unfold readOpening Surroundings.implied?
  split
  all_goals
    refine ⟨?_, rfl⟩
    simp only [Option.toList, List.map_cons, List.map_nil, List.cons_append, List.nil_append,
      FitsAll, and_true]
    repeat' apply And.intro
    all_goals exact .of_none rfl

/-- The tokens of a closing bracket fit, and they close what is remembered. -/
theorem fitsAll_readClosing (s : Surroundings) (bracket : Bracket) (p : Position)
    (rest : List Lexeme) :
    s.enclosure.FitsAll (readClosing s bracket p rest).1 ∧
      s.enclosure.afterAll (readClosing s bracket p rest).1 =
        (readClosing s bracket p rest).2.enclosure := by
  unfold readClosing
  dsimp only
  split
  · exact ⟨⟨.of_none rfl, .of_none rfl, trivial⟩, rfl⟩
  · exact ⟨⟨.of_none rfl, trivial⟩, rfl⟩

/-- An operator that is neither a slash nor part of a rule has no meaning in rules. -/
theorem inRule?_operator {op : Operator} (hdivide : op ≠ .divide)
    (hcontext : op ≠ .ruleContext) (hfocus : op ≠ .focus) :
    (TokenKind.operator op).inRule? = none := by
  cases op with
  | divide => exact absurd rfl hdivide
  | ruleContext => exact absurd rfl hcontext
  | focus => exact absurd rfl hfocus
  | _ => rfl

/-- What a lexeme on its own is read as fits what is open. -/
theorem ReadAs.fits {s : Surroundings} {kind : LexemeKind} {token : TokenKind}
    (h : ReadAs s kind token) (hkind : Scanned kind) : s.enclosure.Fits token := by
  cases h with
  | name text =>
    unfold readName
    split
    · next hfocus =>
      intro meaning hmeaning
      cases hmeaning
      exact (Bool.and_eq_true_iff.mp hfocus).1
    · next hfocus =>
      split
      · next op hfound =>
        obtain ⟨hdivide, -, -, hplain⟩ := isPlain_of_ofSpelling? (hkind.name text rfl) hfound
        refine .of_none (inRule?_operator hdivide ?_ ?_)
        · rintro rfl
          cases hplain
        · rintro rfl
          cases hplain
      · intro meaning hmeaning
        rw [TokenKind.inRule?] at hmeaning
        split at hmeaning
        · next hunderscore =>
          cases hmeaning
          change s.ruleDepth.isSome = false
          simpa [hunderscore] using hfocus
        · cases hmeaning
  | slash =>
    intro meaning hmeaning
    change s.ruleDepth.isSome = meaning
    cases hrule : s.ruleDepth.isSome <;> simpa [hrule, TokenKind.inRule?] using hmeaning
  | @symbol op hop =>
    have hspelled := hkind.spelled op rfl
    refine .of_none (inRule?_operator hop ?_ ?_)
    · rintro rfl
      exact absurd hspelled (by decide)
    · rintro rfl
      exact absurd hspelled (by decide)
  | number | literal | affirm | negate | opening | closing => exact .of_none rfl

/-- What a lexeme on its own is read as is a bracket only if the lexeme is one. -/
theorem ReadAs.ne_bracket {s : Surroundings} {kind : LexemeKind} {token : TokenKind}
    (h : ReadAs s kind token) (hopening : ∀ bracket, kind ≠ .opening bracket)
    (hclosing : ∀ bracket, kind ≠ .closing bracket) (bracket : Bracket) :
    token ≠ .opening bracket ∧ token ≠ .closing bracket := by
  cases h with
  | name text =>
    unfold readName
    split
    · simp
    · split
      · simp
      · simp
  | opening bracket => exact absurd rfl (hopening bracket)
  | closing bracket => exact absurd rfl (hclosing bracket)
  | number | literal | affirm | negate | slash | symbol => simp

/-- The tokens of a source fit what is open where they stand. -/
theorem fitsAll_of_classifyFrom {s : Surroundings} {lexemes : List Lexeme} {tokens : List Token}
    (hlexemes : ∀ lexeme ∈ lexemes, Scanned lexeme.kind)
    (h : classifyFrom dialect s lexemes = .ok tokens) : s.enclosure.FitsAll tokens := by
  fun_induction classifyFrom dialect s lexemes generalizing tokens with
  | case1 =>
    cases h
    trivial
  | case2 s lexeme rest bracket hkind opened s' hopening ih =>
    obtain ⟨others, hothers, rfl⟩ := map_eq_ok_iff.mp h
    obtain ⟨hfits, hafter⟩ := fitsAll_readOpening s bracket lexeme.position
    rw [hopening] at hfits hafter
    exact hfits.append (hafter ▸ ih (List.forall_mem_cons.mp hlexemes).2 hothers)
  | case3 s lexeme rest bracket hkind closed s' hclosing ih =>
    obtain ⟨others, hothers, rfl⟩ := map_eq_ok_iff.mp h
    obtain ⟨hfits, hafter⟩ := fitsAll_readClosing s bracket lexeme.position rest
    rw [hclosing] at hfits hafter
    exact hfits.append (hafter ▸ ih (List.forall_mem_cons.mp hlexemes).2 hothers)
  | case4 => cases h
  | case5 s lexeme rest kind after hread hshorter hopening hclosing ih =>
    obtain ⟨others, hothers, rfl⟩ := map_eq_ok_iff.mp h
    rcases readToken_cases hread with ⟨⟨f, rfl⟩, taken, hsplit, -⟩ | ⟨hreadAs, rfl⟩
    · have hafter : ∀ lexeme ∈ after, Scanned lexeme.kind := fun part hpart =>
        hlexemes part (hsplit ▸ List.mem_append_right taken hpart)
      exact ⟨.of_none rfl, ih hafter hothers⟩
    · obtain ⟨hlexeme, hrest⟩ := List.forall_mem_cons.mp hlexemes
      have hbracket := hreadAs.ne_bracket hopening hclosing
      refine ⟨hreadAs.fits hlexeme, ?_⟩
      rw [← enclosure_afterToken s (fun b => (hbracket b).1) (fun b => (hbracket b).2)]
      exact ih hrest hothers

end Lexeme

namespace Token

/-- Operands that are supplied have no meaning in rules, and they open and close nothing. -/
theorem fitsAll_fillFrom {around : Enclosure} {tokens : List Token} (h : around.FitsAll tokens)
    (previous : Option TokenKind) : around.FitsAll (fillFrom previous tokens) := by
  induction tokens generalizing around previous with
  | nil => trivial
  | cons token rest ih =>
    have hnull {around : Enclosure} {others : List Token} (h : around.FitsAll others)
        (p : Position) : around.FitsAll (null p :: others) := ⟨.of_none rfl, h⟩
    have hbefore {others : List Token} (h : around.FitsAll others) :
        around.FitsAll
          ((if lacksLeft token.kind previous then [null token.position] else []) ++ others) := by
      split
      · exact hnull h token.position
      · exact h
    unfold fillFrom
    dsimp only
    split
    · exact hbefore ⟨h.1, hnull (ih h.2 _) token.position⟩
    · exact hbefore ⟨h.1, ih h.2 _⟩

/-- Within the reach of a rule a slash is its context, and an underscore its focus, exactly as long
as the last sign of a rule before them stands at the depth of the rule; once a rule has been started
deeper in brackets they are a division and a name, until a rule is started at this depth again. A
rule reaches up to a separator at its depth or a bracket that closes below it. Brackets, signs of
rules, commas, slashes and lone underscores are tokens as they are written in the source. -/
theorem inRule_iff_lastSign {dialect : Dialect} {source : String} {tokens : List Token}
    (htokens : tokenize dialect source = .ok tokens) :
    (∀ lexemes, Lexeme.scan source = .ok lexemes →
      tokens.filterMap (landmark? dialect) = lexemes.filter (·.kind.isLandmark dialect)) ∧
    ∀ before sign between token after d,
      tokens = before ++ sign :: (between ++ token :: after) →
      sign.kind = .operator .rule → depthFrom 0 before = d →
      reaches d d between = true → depthFrom d between = d →
      (token.kind = .operator .ruleContext ∨ token.kind = .operator .divide →
        (token.kind = .operator .ruleContext ↔ lastSign d d between = d)) ∧
      (token.kind = .operator .focus ∨ token.kind = .identifier "_" →
        (token.kind = .operator .focus ↔ lastSign d d between = d)) := by
  obtain ⟨lexemes, hscan, h⟩ := bind_eq_ok_iff.mp htokens
  obtain ⟨classified, hclassified, h⟩ := bind_eq_ok_iff.mp h
  cases h
  have hscanned := Lexeme.scanned_of_mem_scan hscan
  constructor
  · intro lexemes' hscan'
    cases hscan.symm.trans hscan'
    rw [landmarks_fillFrom, Lexeme.landmarks_of_classifyFrom hscanned hclassified]
  · intro before sign between token after d hsplit hsign hdepth hreach hback
    have hfits := fitsAll_fillFrom (Lexeme.fitsAll_of_classifyFrom hscanned hclassified) none
    rw [hsplit, ← List.cons_append, ← List.append_assoc] at hfits
    have htoken := hfits.fits
    rw [Enclosure.afterAll_append] at htoken
    have hopen := Enclosure.isSome_rule_iff_lastSign
      ((Enclosure.depth_afterAll Surroundings.start.enclosure before).trans hdepth) hsign hreach
      hback
    exact ⟨fun hkind => (htoken.eq_iff rfl rfl hkind).trans hopen,
      fun hkind => (htoken.eq_iff rfl rfl hkind).trans hopen⟩

/-- Brackets without a rule in them leave the slash and the underscore behind them to the rule. -/
theorem inRule_iff_lastSign_brackets :
    ∃ before sign between slash focus after,
      tokenize ⟨[], true⟩ "a |> [b / c] / _ d" =
        .ok (before ++ sign :: (between ++ slash :: null ⟨1, 16⟩ :: focus :: after)) ∧
      sign.kind = .operator .rule ∧ depthFrom 0 before = 0 ∧
      reaches 0 0 between = true ∧ depthFrom 0 between = 0 ∧ lastSign 0 0 between = 0 ∧
      slash.kind = .operator .ruleContext ∧ focus.kind = .operator .focus := by
  have htokenize : tokenize ⟨[], true⟩ "a |> [b / c] / _ d" =
      .ok ([⟨.identifier "a", ⟨1, 1⟩⟩] ++ ⟨.operator .rule, ⟨1, 3⟩⟩ ::
        ([⟨.opening .square, ⟨1, 6⟩⟩, ⟨.identifier "b", ⟨1, 7⟩⟩, ⟨.operator .ruleContext, ⟨1, 9⟩⟩,
          ⟨.identifier "c", ⟨1, 11⟩⟩, ⟨.closing .square, ⟨1, 12⟩⟩] ++
        ⟨.operator .ruleContext, ⟨1, 14⟩⟩ :: null ⟨1, 16⟩ :: ⟨.operator .focus, ⟨1, 16⟩⟩ ::
          [⟨.identifier "d", ⟨1, 18⟩⟩])) := by
    with_unfolding_all rfl
  have hrule := (inRule_iff_lastSign htokenize).2
  have hslash := (hrule _ _ _ _ _ 0 rfl rfl rfl rfl rfl).1 (.inl rfl)
  have hfocus := (hrule [⟨.identifier "a", ⟨1, 1⟩⟩] ⟨.operator .rule, ⟨1, 3⟩⟩
    [⟨.opening .square, ⟨1, 6⟩⟩, ⟨.identifier "b", ⟨1, 7⟩⟩, ⟨.operator .ruleContext, ⟨1, 9⟩⟩,
      ⟨.identifier "c", ⟨1, 11⟩⟩, ⟨.closing .square, ⟨1, 12⟩⟩,
      ⟨.operator .ruleContext, ⟨1, 14⟩⟩, null ⟨1, 16⟩] _ _ 0 rfl rfl rfl rfl rfl).2 (.inl rfl)
  exact ⟨_, _, _, _, _, _, htokenize, rfl, rfl, rfl, rfl, hslash.mp rfl, hslash.mpr rfl,
    hfocus.mpr rfl⟩

/-- A rule in brackets takes the slash and the underscore behind the brackets away from the rule
around them. -/
theorem divide_after_nested_rule :
    ∃ before sign between slash underscore,
      tokenize ⟨[], true⟩ "a |> (b |> c) / _" =
        .ok (before ++ sign :: (between ++ [slash, underscore])) ∧
      sign.kind = .operator .rule ∧ depthFrom 0 before = 0 ∧
      reaches 0 0 between = true ∧ depthFrom 0 between = 0 ∧
      slash.kind = .operator .divide ∧ underscore.kind = .identifier "_" := by
  have htokenize : tokenize ⟨[], true⟩ "a |> (b |> c) / _" =
      .ok ([⟨.identifier "a", ⟨1, 1⟩⟩] ++ ⟨.operator .rule, ⟨1, 3⟩⟩ ::
        ([⟨.opening .round, ⟨1, 6⟩⟩, ⟨.identifier "b", ⟨1, 7⟩⟩, ⟨.operator .rule, ⟨1, 9⟩⟩,
          ⟨.identifier "c", ⟨1, 12⟩⟩, ⟨.closing .round, ⟨1, 13⟩⟩] ++
        [⟨.operator .divide, ⟨1, 15⟩⟩, ⟨.identifier "_", ⟨1, 17⟩⟩])) := by
    with_unfolding_all rfl
  exact ⟨_, _, _, _, _, htokenize, rfl, rfl, rfl, rfl, rfl, rfl⟩

end Token

end SoundLaw
