import SoundLaw.Proofs.Node.Faults
import SoundLaw.Proofs.Outcome

/-!
# Where tokens come from

Classification goes through the lexemes from the first to the last. It reads a lexeme as a token at
its place, or as two where a call, an index or the end of a statement is implied, and it passes over
the lexemes that a feature literal takes. Supplying operands adds tokens at the place of an
operator. So the tokens of a source can be traced to its lexemes in their order.
-/

namespace SoundLaw

/-- A feature that can be named: phonological notation is allowed, the table has the feature, and
its name is written among the lexemes. -/
structure Dialect.Names (dialect : Dialect) (f : Feature) (lexemes : List Lexeme) : Prop where
  phonology : dialect.phonology = true
  known : dialect.features.contains f.name = true
  written : ∃ lexeme ∈ lexemes, lexeme.kind = .name f.name

namespace Dialect

variable {dialect : Dialect} {f : Feature} {lexemes rest : List Lexeme}

/-- A feature can be named among more lexemes. -/
theorem Names.of_suffix (h : dialect.Names f rest) (hsuffix : rest <:+ lexemes) :
    dialect.Names f lexemes := by
  obtain ⟨lexeme, hmem, hname⟩ := h.written
  exact ⟨h.phonology, h.known, lexeme, hsuffix.subset hmem, hname⟩

/-- A feature literal names its feature, and what is left is the end of the lexemes. -/
theorem names_of_stitch? {quality : Quality} {needsPipe : Bool}
    (h : dialect.stitch? quality needsPipe lexemes = some (f, rest)) :
    dialect.Names f lexemes ∧ rest <:+ lexemes := by
  unfold stitch? at h
  split at h
  · cases h
  · next hphonology =>
    have hon : dialect.phonology = true := by simpa using hphonology
    split at h
    · split at h
      · next hknown =>
        cases h
        refine ⟨⟨hon, hknown, _, List.mem_cons_of_mem _ List.mem_cons_self, rfl⟩, ?_⟩
        exact (List.suffix_cons _ _).trans (List.suffix_cons _ _)
      · cases h
    · split at h
      · next hknown =>
        cases h
        rw [Bool.and_eq_true] at hknown
        exact ⟨⟨hon, hknown.2, _, List.mem_cons_self, rfl⟩, List.suffix_cons _ _⟩
      · cases h
    · cases h

/-- A feature literal or something else is read, and only a feature literal takes more lexemes. -/
theorem names_of_featureOr {quality : Option Quality} {needsPipe : Bool} {other kind : TokenKind}
    (h : dialect.featureOr quality needsPipe lexemes other = (kind, rest))
    (hother : ∀ f, other ≠ .feature f) :
    rest <:+ lexemes ∧ ∀ f, kind = .feature f → dialect.Names f lexemes := by
  unfold featureOr at h
  split at h
  · next f after hfound =>
    cases h
    obtain ⟨quality, -, hstitch⟩ := Option.bind_eq_some_iff.mp hfound
    obtain ⟨hnames, hsuffix⟩ := names_of_stitch? hstitch
    refine ⟨hsuffix, ?_⟩
    rintro f ⟨⟩
    exact hnames
  · cases h
    exact ⟨List.suffix_refl _, fun f hf => absurd hf (hother f)⟩

end Dialect

/-- Tokens that are traced to lexemes. They stand at the places of the lexemes and in their order. A
lexeme may have several tokens or none, and a feature literal has its name behind its place. -/
inductive Traced (dialect : Dialect) : List Token → List Lexeme → Prop
  | nil : Traced dialect [] []
  | skip (lexeme : Lexeme) {tokens : List Token} {lexemes : List Lexeme} :
    Traced dialect tokens lexemes → Traced dialect tokens (lexeme :: lexemes)
  | token {token : Token} {tokens : List Token} {lexeme : Lexeme} {lexemes : List Lexeme}
    (hplace : token.position = lexeme.position)
    (hnames : ∀ f, token.kind = .feature f → dialect.Names f lexemes) :
    Traced dialect tokens (lexeme :: lexemes) → Traced dialect (token :: tokens) (lexeme :: lexemes)

namespace Traced

variable {dialect : Dialect} {tokens : List Token} {lexemes : List Lexeme}

/-- Tokens that are traced to the end of the lexemes are traced to the lexemes. -/
theorem of_suffix {rest : List Lexeme} (h : Traced dialect tokens rest)
    (hsuffix : rest <:+ lexemes) : Traced dialect tokens lexemes := by
  obtain ⟨before, rfl⟩ := hsuffix
  induction before with
  | nil => exact h
  | cons lexeme before ih => exact ih.skip lexeme

/-- Further tokens at the place of the first lexeme may be written first, if they are no feature
literals. -/
theorem append {block : List Token} {lexeme : Lexeme}
    (hblock : ∀ token ∈ block, token.position = lexeme.position ∧ ∀ f, token.kind ≠ .feature f)
    (h : Traced dialect tokens (lexeme :: lexemes)) :
    Traced dialect (block ++ tokens) (lexeme :: lexemes) := by
  induction block with
  | nil => exact h
  | cons token block ih =>
    obtain ⟨⟨hplace, hkind⟩, hblock⟩ := List.forall_mem_cons.mp hblock
    exact .token hplace (fun f hf => absurd hf (hkind f)) (ih hblock)

/-- Every token stands at the place of a lexeme. -/
theorem exists_position_eq (h : Traced dialect tokens lexemes) :
    ∀ token ∈ tokens, ∃ lexeme ∈ lexemes, token.position = lexeme.position := by
  induction h with
  | nil => exact fun _ htoken => absurd htoken List.not_mem_nil
  | skip lexeme _ ih =>
    intro token htoken
    obtain ⟨found, hfound, hplace⟩ := ih token htoken
    exact ⟨found, List.mem_cons_of_mem lexeme hfound, hplace⟩
  | token hplace _ _ ih =>
    exact List.forall_mem_cons.mpr ⟨⟨_, List.mem_cons_self, hplace⟩, ih⟩

/-- Every feature literal names its feature. -/
theorem names (h : Traced dialect tokens lexemes) :
    ∀ token ∈ tokens, ∀ f, token.kind = .feature f → dialect.Names f lexemes := by
  induction h with
  | nil => exact fun _ htoken => absurd htoken List.not_mem_nil
  | skip lexeme _ ih =>
    exact fun token htoken f hf => (ih token htoken f hf).of_suffix (List.suffix_cons lexeme _)
  | token _ hnames _ ih =>
    exact List.forall_mem_cons.mpr
      ⟨fun f hf => (hnames f hf).of_suffix (List.suffix_cons _ _), ih⟩

end Traced

namespace Lexeme

variable {dialect : Dialect}

/-- A name is not read as a feature literal. -/
theorem readName_ne_feature (s : Surroundings) (name : String) (f : Feature) :
    readName s name ≠ .feature f := by
  unfold readName
  split
  · simp
  · split
    · simp
    · simp

/-- What is left behind a token is the end of the lexemes, and a feature literal names its
feature. -/
theorem names_of_readToken {s : Surroundings} {lexeme : Lexeme} {rest after : List Lexeme}
    {kind : TokenKind} (h : readToken dialect s lexeme rest = .ok (kind, after)) :
    after <:+ rest ∧ ∀ f, kind = .feature f → dialect.Names f rest := by
  have hrest {other : TokenKind} (hother : ∀ f, other ≠ .feature f)
      (hread : (.ok (other, rest) : Except Fault _) = .ok (kind, after)) :
      after <:+ rest ∧ ∀ f, kind = .feature f → dialect.Names f rest := by
    cases hread
    exact ⟨List.suffix_refl _, fun f hf => absurd hf (hother f)⟩
  have hliteral {quality : Quality} {needsPipe : Bool} {f : Feature} {lexemes left : List Lexeme}
      (hlexemes : lexemes <:+ rest)
      (hstitch : dialect.stitch? quality needsPipe lexemes = some (f, left))
      (hread : (.ok (.feature f, left) : Except Fault _) = .ok (kind, after)) :
      after <:+ rest ∧ ∀ f, kind = .feature f → dialect.Names f rest := by
    cases hread
    obtain ⟨hnames, hleft⟩ := Dialect.names_of_stitch? hstitch
    refine ⟨hleft.trans hlexemes, ?_⟩
    rintro f ⟨⟩
    exact hnames.of_suffix hlexemes
  have hfeature {quality : Option Quality} {needsPipe : Bool} {other : TokenKind}
      (hother : ∀ f, other ≠ .feature f)
      (hread : (.ok (dialect.featureOr quality needsPipe rest other) : Except Fault _) =
        .ok (kind, after)) :
      after <:+ rest ∧ ∀ f, kind = .feature f → dialect.Names f rest :=
    Dialect.names_of_featureOr (Except.ok.inj hread) hother
  unfold readToken at h
  split at h
  case h_1 => exact hfeature (by simp) h
  case h_3 | h_11 =>
    obtain ⟨_, -, heq⟩ := map_eq_ok_iff.mp h
    exact hrest (by simp) (congrArg Except.ok heq)
  case h_4 =>
    obtain ⟨_, -, h⟩ := bind_eq_ok_iff.mp h
    split at h
    · next hfound =>
      obtain ⟨next, -, hfound⟩ := Option.bind_eq_some_iff.mp hfound
      obtain ⟨quality, -, hstitch⟩ := Option.bind_eq_some_iff.mp hfound
      exact hliteral (List.tail_suffix rest) hstitch h
    · cases h
  case h_5 =>
    obtain ⟨_, -, h⟩ := bind_eq_ok_iff.mp h
    split at h
    · next hstitch => exact hliteral (List.suffix_refl rest) hstitch h
    · cases h
  case h_6 => cases h
  case h_7 => exact hfeature (readName_ne_feature s _) h
  case h_8 | h_9 =>
    split at h
    · exact hfeature (by simp) h
    · exact hrest (by simp) h
  all_goals exact hrest (by simp) h

/-- The tokens of an opening bracket stand at its place and are no feature literals. -/
theorem position_of_mem_readOpening (s : Surroundings) (bracket : Bracket) (p : Position) :
    ∀ token ∈ (readOpening s bracket p).1, token.position = p ∧ ∀ f, token.kind ≠ .feature f := by
  refine List.forall_mem_append.mpr ⟨?_, List.forall_mem_singleton.mpr ⟨rfl, by simp⟩⟩
  exact List.forall_mem_map.mpr fun operator _ => ⟨rfl, by simp⟩

/-- The tokens of a closing bracket stand at its place and are no feature literals. -/
theorem position_of_mem_readClosing (s : Surroundings) (bracket : Bracket) (p : Position)
    (rest : List Lexeme) :
    ∀ token ∈ (readClosing s bracket p rest).1,
      token.position = p ∧ ∀ f, token.kind ≠ .feature f := by
  unfold readClosing
  dsimp only
  split
  · simp
  · simp

/-- What lexemes are read as can be traced to them. -/
theorem traced_of_classifyFrom {s : Surroundings} {lexemes : List Lexeme} {tokens : List Token}
    (h : classifyFrom dialect s lexemes = .ok tokens) : Traced dialect tokens lexemes := by
  fun_induction classifyFrom dialect s lexemes generalizing tokens with
  | case1 =>
    cases h
    exact .nil
  | case2 s lexeme rest bracket hkind opened s' hopening ih =>
    obtain ⟨others, hothers, rfl⟩ := map_eq_ok_iff.mp h
    obtain rfl : (readOpening s bracket lexeme.position).1 = opened := by rw [hopening]
    exact ((ih hothers).skip lexeme).append (position_of_mem_readOpening s bracket _)
  | case3 s lexeme rest bracket hkind closed s' hclosing ih =>
    obtain ⟨others, hothers, rfl⟩ := map_eq_ok_iff.mp h
    obtain rfl : (readClosing s bracket lexeme.position rest).1 = closed := by rw [hclosing]
    exact ((ih hothers).skip lexeme).append (position_of_mem_readClosing s bracket _ rest)
  | case4 => cases h
  | case5 s lexeme rest kind after hread hshorter hopening hclosing ih =>
    obtain ⟨others, hothers, rfl⟩ := map_eq_ok_iff.mp h
    obtain ⟨hsuffix, hnames⟩ := names_of_readToken hread
    exact .token rfl hnames (((ih hothers).of_suffix hsuffix).skip lexeme)

end Lexeme

namespace Token

/-- Operands that are supplied stand at the place of an operator, so the tokens can still be
traced. -/
theorem traced_fillFrom {dialect : Dialect} {tokens : List Token} {lexemes : List Lexeme}
    (h : Traced dialect tokens lexemes) (previous : Option TokenKind) :
    Traced dialect (fillFrom previous tokens) lexemes := by
  induction h generalizing previous with
  | nil => exact .nil
  | skip lexeme _ ih => exact (ih previous).skip lexeme
  | @token token tokens lexeme lexemes hplace hnames _ ih =>
    have hnull : ∀ f, (null token.position).kind ≠ .feature f := by simp [null]
    have hbefore : ∀ added ∈ (if lacksLeft token.kind previous then [null token.position] else []),
        added.position = lexeme.position ∧ ∀ f, added.kind ≠ .feature f := by
      split
      · exact List.forall_mem_singleton.mpr ⟨hplace, hnull⟩
      · exact fun _ hadded => absurd hadded List.not_mem_nil
    unfold fillFrom
    dsimp only
    split
    · refine .append hbefore (.token hplace hnames ?_)
      exact .token hplace (fun f hf => absurd hf (hnull f)) (ih _)
    · exact .append hbefore (.token hplace hnames (ih _))

/-- The tokens of a source can be traced to its lexemes. -/
theorem traced_of_tokenize {dialect : Dialect} {source : String} {tokens : List Token}
    (h : tokenize dialect source = .ok tokens) :
    ∃ lexemes, Lexeme.scan source = .ok lexemes ∧ Traced dialect tokens lexemes := by
  obtain ⟨lexemes, hscan, h⟩ := bind_eq_ok_iff.mp h
  obtain ⟨classified, hclassified, h⟩ := bind_eq_ok_iff.mp h
  cases h
  exact ⟨lexemes, hscan, traced_fillFrom (Lexeme.traced_of_classifyFrom hclassified) none⟩

end Token

end SoundLaw
