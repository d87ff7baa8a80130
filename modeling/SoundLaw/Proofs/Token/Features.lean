import SoundLaw.Proofs.Token.Positions

/-!
# Feature literals written out

A feature literal is written as the sign `@`, the sign of its quality and the name of the feature,
with nothing between them. A plus, a minus and a tilde end before the name, so the literal is read
back. A zero and a Greek letter may themselves stand in a name: they run into the name behind them,
and the sign `@` is then followed by a single number or name, which is no feature literal.
-/

namespace SoundLaw

namespace Lexeme

/-! ## Runs that stand alone -/

/-- A character of names is not found among signs that are none. -/
theorem find?_sign_eq_none {α : Type} {sign : α → Char} (hsign : ∀ a, isNameChar (sign a) = false)
    {c : Char} (hc : isNameChar c = true) (all : List α) : all.find? (sign · == c) = none := by
  refine List.find?_eq_none.mpr fun a _ ha => ?_
  rw [← eq_of_beq ha, hsign a] at hc
  cases hc

/-- A character of names starts the lexeme of its run. -/
theorem takeLexeme_of_isNameChar {c : Char} (hc : isNameChar c = true) (p : Position)
    {rest run after : List Char} (hrun : takeRun (c :: rest) = (run, after)) :
    takeLexeme p c rest = (ofRun p run).map fun kind => (kind, p.afterAll run, after) := by
  have hliteral : LiteralKind.ofDelimiter? c = none :=
    find?_sign_eq_none (fun kind => by cases kind <;> rfl) hc _
  have hopening : Bracket.ofOpening? c = none :=
    find?_sign_eq_none (fun bracket => by cases bracket <;> rfl) hc _
  have hclosing : Bracket.ofClosing? c = none :=
    find?_sign_eq_none (fun bracket => by cases bracket <;> rfl) hc _
  simp only [takeLexeme, hliteral, hopening, hclosing, if_pos hc, hrun]

/-- A character that is neither blank nor a comment sign starts a lexeme, or scanning fails
there. -/
theorem scanFrom_eq_bind {c : Char} (hblank : Text.isBlank c = false) (hcomment : c ≠ '#')
    (p : Position) (rest : List Char) :
    scanFrom p (c :: rest) = takeLexeme p c rest >>= fun taken =>
      (scanFrom taken.2.1 taken.2.2).map (⟨taken.1, p⟩ :: ·) := by
  cases htaken : takeLexeme p c rest with
  | ok taken => exact scanFrom_of_takeLexeme hblank hcomment htaken
  | error fault =>
    rw [scanFrom, hblank, if_neg Bool.false_ne_true, if_neg hcomment]
    split
    · next hfailed =>
      rw [htaken] at hfailed
      cases hfailed
      rfl
    · next hfound =>
      rw [htaken] at hfound
      cases hfound

/-- Characters of names are scanned as one lexeme. -/
theorem scanFrom_run {c : Char} {rest : List Char} (hblank : Text.isBlank c = false)
    (hchars : (c :: rest).all isNameChar = true) (p : Position) :
    scanFrom p (c :: rest) = (ofRun p (c :: rest)).map fun kind => [⟨kind, p⟩] := by
  have hc : isNameChar c = true := List.all_eq_true.mp hchars c List.mem_cons_self
  have hcomment : c ≠ '#' := by
    rintro rfl
    exact absurd hc (by decide)
  have hrun : takeRun (c :: rest) = (c :: rest, []) := by
    have hends : RunEnds (c :: rest) [] := .plain hchars (by simp) (by simp)
    simpa using hends.takeRun
  rw [scanFrom_eq_bind hblank hcomment, takeLexeme_of_isNameChar hc p hrun]
  cases ofRun p (c :: rest) with
  | error fault => rfl
  | ok kind =>
    change (scanFrom _ []).map _ = _
    rw [scanFrom]
    rfl

/-! ## Names of a source -/

/-- A text that can be a name of a source: its characters belong to names, and the first one is
neither a digit nor a blank. -/
def IsName (text : String) : Prop :=
  ∃ c rest, text.toList = c :: rest ∧ (c :: rest).all isNameChar = true ∧ c.isDigit = false ∧
    Text.isBlank c = false

/-- A run that starts with a character of names, but not with a digit, has no fraction. -/
theorem RunEnds.all_isNameChar {c : Char} {rest after : List Char} (h : RunEnds (c :: rest) after)
    (hc : isNameChar c = true) (hdigit : c.isDigit = false) :
    (c :: rest).all isNameChar = true := by
  generalize hrun : c :: rest = run at h
  cases h with
  | plain hchars _ _ => exact hchars
  | @fraction whole _ _ _ hwhole _ _ =>
    cases whole with
    | nil =>
      cases hrun
      exact absurd hc (by decide)
    | cons first whole =>
      cases hrun
      rw [List.all_eq_true.mp hwhole c List.mem_cons_self] at hdigit
      cases hdigit

/-- A run that is read as a name can be one. -/
theorem isName_of_ofRun {p : Position} {c : Char} {rest after : List Char} {text : String}
    (hblank : Text.isBlank c = false) (hc : isNameChar c = true) (hends : RunEnds (c :: rest) after)
    (h : ofRun p (c :: rest) = .ok (.name text)) : IsName text := by
  unfold ofRun at h
  dsimp only at h
  split at h
  · split at h
    · cases h
    · cases h
  · next hdigit =>
    have hdigit : c.isDigit = false := by simpa using hdigit
    cases h
    exact ⟨c, rest, String.toList_ofList, hends.all_isNameChar hc hdigit, hdigit, hblank⟩

/-- A lexeme that is taken as a name can be one. -/
theorem isName_of_takeLexeme {p place : Position} {c : Char} {rest after : List Char}
    {text : String} (hblank : Text.isBlank c = false)
    (h : takeLexeme p c rest = .ok (.name text, place, after)) : IsName text := by
  unfold takeLexeme at h
  split at h
  · obtain ⟨_, -, heq⟩ := map_eq_ok_iff.mp h
    cases heq
  · split at h
    · cases h
    · cases h
    · split at h
      · next hc =>
        cases htaken : takeRun (c :: rest) with
        | mk run left =>
          rw [htaken] at h
          obtain ⟨kind, hkind, heq⟩ := map_eq_ok_iff.mp h
          cases heq
          obtain ⟨tail, rfl, -, -⟩ := takeRun_extent hc htaken
          have hends := (takeRun_ends (c :: rest)).2
          rw [htaken] at hends
          exact isName_of_ofRun hblank hc hends hkind
      · split at h
        · cases h
        · split at h
          · next hmark =>
            cases h
            unfold mark? at hmark
            split at hmark
            all_goals cases hmark
          · cases h

/-- A name of a source can be one. -/
theorem isName_of_mem_scan {source : String} {lexemes : List Lexeme}
    (hscan : scan source = .ok lexemes) {lexeme : Lexeme} (hmem : lexeme ∈ lexemes) {text : String}
    (hname : lexeme.kind = .name text) : IsName text := by
  obtain ⟨earlier, later, rfl⟩ := List.append_of_mem hmem
  obtain ⟨before, c, rest, -, hblank, hcomment, -, -, hlexeme⟩ := exists_first_of_scanFrom hscan
  rw [scanFrom_eq_bind hblank hcomment] at hlexeme
  obtain ⟨⟨kind, place, after⟩, htaken, hothers⟩ := bind_eq_ok_iff.mp hlexeme
  obtain ⟨others, -, heq⟩ := map_eq_ok_iff.mp hothers
  obtain ⟨hkind, -⟩ := List.cons.inj heq
  rw [← hkind] at hname
  obtain rfl : kind = .name text := hname
  exact isName_of_takeLexeme hblank htaken

/-- A name that stands alone is scanned as itself. -/
theorem IsName.scanFrom {text : String} (h : IsName text) (p : Position) :
    Lexeme.scanFrom p text.toList = .ok [⟨.name text, p⟩] := by
  obtain ⟨c, rest, htext, hchars, hdigit, hblank⟩ := h
  have hrun : ofRun p (c :: rest) = .ok (.name text) := by
    rw [← String.toList_inj.mp (String.toList_ofList.trans htext.symm)]
    simp [ofRun, hdigit]
  rw [htext, scanFrom_run hblank hchars, hrun]
  rfl

/-! ## The three signs of a literal -/

/-- No operator goes on with a character of names behind one that is none. -/
theorem startsSpelling_pair {c d : Char} (hc : isNameChar c = false) (hd : isNameChar d = true) :
    Operator.startsSpelling [c, d] = false := by
  have hspelled : ∀ operator ∈ Operator.spelled,
      (operator.spelling.toList.head?.any isNameChar ||
        operator.spelling.toList.tail.head?.all (!isNameChar ·)) = true := by decide
  rw [Operator.startsSpelling, List.any_eq_false]
  intro operator hoperator hstarts
  obtain ⟨more, hmore⟩ := List.isPrefixOf_iff_prefix.mp hstarts
  have hsigns := hspelled operator hoperator
  simp [← hmore, hc, hd] at hsigns

/-- Before a name an operator is looked for as if nothing followed. -/
theorem longestOperator_before_name {c d : Char} (hc : isNameChar c = false)
    (hd : isNameChar d = true) (rest : List Char) :
    longestOperator [] none (c :: d :: rest) = longestOperator [] none [c] := by
  simp only [longestOperator, List.nil_append, List.cons_append, startsSpelling_pair hc hd]
  rfl

/-- The sign of a feature literal is a lexeme of its own. -/
theorem scanFrom_featureSign (p : Position) (rest : List Char) :
    scanFrom p ('@' :: rest) = (scanFrom (p.after '@') rest).map (⟨.featureSign, p⟩ :: ·) :=
  scanFrom_of_takeLexeme (by decide) (by decide) rfl

/-- The lexeme that the sign of a quality is before a name, if it does not run into the name. -/
def signOf? : Quality → Option LexemeKind
  | .plus => some (.symbol .add)
  | .minus => some (.symbol .subtract)
  | .any => some .tilde
  | _ => none

/-- The signs that do not run into a name are the plus, the minus and the tilde. -/
theorem isSome_signOf?_iff (quality : Quality) :
    (signOf? quality).isSome ↔ quality = .plus ∨ quality = .minus ∨ quality = .any := by
  cases quality <;> decide

/-- A sign that does not run into a name stands for its quality. -/
theorem quality?_of_signOf? {quality : Quality} {kind : LexemeKind}
    (h : signOf? quality = some kind) : kind.quality? = some quality := by
  cases quality <;> cases h <;> rfl

/-- Every other sign may stand in a name. -/
theorem isNameChar_of_signOf? {quality : Quality} (h : signOf? quality = none) :
    isNameChar quality.symbol = true := by
  revert h
  cases quality <;> decide

/-- A sign that does not run into the name behind it is a lexeme of its own. -/
theorem takeLexeme_of_signOf? {quality : Quality} {kind : LexemeKind}
    (h : signOf? quality = some kind) {d : Char} (hd : isNameChar d = true) (p : Position)
    (rest : List Char) :
    takeLexeme p quality.symbol (d :: rest) = .ok (kind, p.after quality.symbol, d :: rest) := by
  cases quality <;> cases h
  all_goals
    unfold takeLexeme
    rw [longestOperator_before_name rfl hd]
    rfl

/-- A sign and a name behind it are two lexemes, if the sign does not run into the name. -/
theorem scanFrom_sign_name {f : Feature} (hname : IsName f.name) {kind : LexemeKind}
    (h : signOf? f.quality = some kind) (p : Position) :
    scanFrom p (f.quality.symbol :: f.name.toList) =
      .ok [⟨kind, p⟩, ⟨.name f.name, p.after f.quality.symbol⟩] := by
  have hscan := hname.scanFrom (p.after f.quality.symbol)
  obtain ⟨c, rest, htext, hchars, -, -⟩ := hname
  have hc : isNameChar c = true := List.all_eq_true.mp hchars c List.mem_cons_self
  have hblank : Text.isBlank f.quality.symbol = false := by cases f.quality <;> decide
  have hcomment : f.quality.symbol ≠ '#' := by cases f.quality <;> decide
  have htaken := takeLexeme_of_signOf? h hc p rest
  rw [← htext] at htaken
  rw [scanFrom_of_takeLexeme hblank hcomment htaken, hscan]
  rfl

/-- A sign that runs into the name behind it gives at most one lexeme. -/
theorem scanFrom_run_name {f : Feature} (hname : IsName f.name) (h : signOf? f.quality = none)
    (p : Position) :
    ∃ outcome : Except Fault LexemeKind, scanFrom p (f.quality.symbol :: f.name.toList) =
      outcome.map fun kind => [⟨kind, p⟩] := by
  obtain ⟨c, rest, htext, hchars, -, -⟩ := hname
  have hblank : Text.isBlank f.quality.symbol = false := by cases f.quality <;> decide
  have hrun : (f.quality.symbol :: f.name.toList).all isNameChar = true := by
    rw [List.all_cons, isNameChar_of_signOf? h, htext, hchars]
    rfl
  exact ⟨_, scanFrom_run hblank hrun p⟩

/-! ## What the lexemes are read as -/

/-- Classification fails where a lexeme that is no bracket cannot be read. -/
theorem classifyFrom_of_readToken_eq_error {dialect : Dialect} {s : Surroundings} {lexeme : Lexeme}
    {rest : List Lexeme} {fault : Fault} (hopening : ∀ bracket, lexeme.kind ≠ .opening bracket)
    (hclosing : ∀ bracket, lexeme.kind ≠ .closing bracket)
    (hread : readToken dialect s lexeme rest = .error fault) :
    classifyFrom dialect s (lexeme :: rest) = .error fault := by
  rw [classifyFrom]
  split
  · next bracket hbracket => exact absurd hbracket (hopening bracket)
  · next bracket hbracket => exact absurd hbracket (hclosing bracket)
  · split
    · next hfailed =>
      rw [hread] at hfailed
      cases hfailed
      rfl
    · next hfound =>
      rw [hread] at hfound
      cases hfound

/-- The sign `@`, a quality and a known feature are read as a feature literal. -/
theorem readToken_featureSign {dialect : Dialect} {f : Feature} {kind : LexemeKind}
    (hphonology : dialect.phonology = true) (hknown : dialect.features.contains f.name = true)
    (hkind : kind.quality? = some f.quality) (s : Surroundings) (p q r : Position) :
    readToken dialect s ⟨.featureSign, p⟩ [⟨kind, q⟩, ⟨.name f.name, r⟩] =
      .ok (.feature f, []) := by
  have hstitch : dialect.stitch? f.quality false [⟨.name f.name, r⟩] = some (f, []) := by
    simp [Dialect.stitch?, hphonology, List.contains_iff_mem.mp hknown]
  simp only [readToken, Dialect.requirePhonology, hphonology, if_true, bind, Except.bind,
    List.head?_cons, Option.bind_some, hkind, List.tail_cons, hstitch]

/-- The sign `@` before a single lexeme starts no feature literal. -/
theorem readToken_featureSign_lone (dialect : Dialect) (s : Surroundings) (p : Position)
    (lexeme : Lexeme) : ∃ fault, readToken dialect s ⟨.featureSign, p⟩ [lexeme] = .error fault := by
  have hstitch (quality : Quality) : dialect.stitch? quality false [] = none := by
    unfold Dialect.stitch?
    split
    · rfl
    · rfl
  unfold readToken Dialect.requirePhonology
  dsimp only
  split
  · simp [bind, Except.bind, hstitch]
  · exact ⟨_, rfl⟩

end Lexeme

namespace Token

open Lexeme

/-- What is written for a feature literal is scanned behind the sign `@`. -/
theorem scan_render_feature (f : Feature) :
    scan (TokenKind.feature f).render =
      (scanFrom (Position.start.after '@') (f.quality.symbol :: f.name.toList)).map
        (⟨.featureSign, .start⟩ :: ·) := by
  have hrender : (TokenKind.feature f).render.toList =
      '@' :: f.quality.symbol :: f.name.toList := by
    simp [TokenKind.render, Feature.render]
  rw [scan, hrender, scanFrom_featureSign]

/-- A feature literal whose sign does not run into its name is read back. -/
theorem tokenize_render_of_signOf? {dialect : Dialect} {f : Feature}
    (hphonology : dialect.phonology = true) (hknown : dialect.features.contains f.name = true)
    (hname : IsName f.name) {kind : LexemeKind} (hsign : signOf? f.quality = some kind) :
    tokenize dialect (TokenKind.feature f).render = .ok [⟨.feature f, .start⟩] := by
  rw [tokenize, scan_render_feature, scanFrom_sign_name hname hsign]
  change (do let tokens ← classifyFrom _ _ _; return fillFrom none tokens) = _
  rw [classifyFrom_of_readToken (by simp) (by simp)
    (readToken_featureSign hphonology hknown (quality?_of_signOf? hsign) ..), classifyFrom]
  rfl

/-- A feature literal whose sign runs into its name is refused. -/
theorem tokenize_render_of_signOf?_eq_none (dialect : Dialect) {f : Feature}
    (hname : IsName f.name) (hsign : signOf? f.quality = none) :
    ∃ fault, tokenize dialect (TokenKind.feature f).render = .error fault := by
  obtain ⟨outcome, hscan⟩ := scanFrom_run_name hname hsign (Position.start.after '@')
  rw [tokenize, scan_render_feature, hscan]
  cases outcome with
  | error fault => exact ⟨fault, rfl⟩
  | ok kind =>
    obtain ⟨fault, hfault⟩ := readToken_featureSign_lone dialect .start .start
      ⟨kind, Position.start.after '@'⟩
    refine ⟨fault, ?_⟩
    change (do let tokens ← classifyFrom _ _ _; return fillFrom none tokens) = _
    rw [classifyFrom_of_readToken_eq_error (by simp) (by simp) hfault]
    rfl

/-- A feature literal of a source is read back from what is written for it exactly when its quality
is a plus, a minus or the wildcard. Otherwise what is written is refused; it is never read as
anything else. -/
theorem tokenize_render_feature_iff {dialect : Dialect} {source : String} {tokens : List Token}
    (htokens : tokenize dialect source = .ok tokens) {token : Token} (htoken : token ∈ tokens)
    {f : Feature} (hf : token.kind = .feature f) :
    (tokenize dialect token.kind.render = .ok [⟨token.kind, .start⟩] ↔
      f.quality = .plus ∨ f.quality = .minus ∨ f.quality = .any) ∧
    ∀ others, tokenize dialect token.kind.render = .ok others →
      others = [⟨token.kind, .start⟩] := by
  obtain ⟨lexemes, hscan, htraced⟩ := traced_of_tokenize htokens
  obtain ⟨hphonology, hknown, lexeme, hlexeme, hwritten⟩ := htraced.names token htoken f hf
  have hname : IsName f.name := isName_of_mem_scan hscan hlexeme hwritten
  rw [hf, ← isSome_signOf?_iff]
  cases hsign : signOf? f.quality with
  | some kind =>
    have hback := tokenize_render_of_signOf? hphonology hknown hname hsign
    refine ⟨iff_of_true hback rfl, fun others hothers => ?_⟩
    exact Except.ok.inj (hothers.symm.trans hback)
  | none =>
    obtain ⟨fault, hfault⟩ := tokenize_render_of_signOf?_eq_none dialect hname hsign
    rw [hfault]
    exact ⟨iff_of_false (by simp) (by simp), by simp⟩

/-- The literal `-voice` is read back from `@-voice`. -/
theorem tokenize_render_feature_iff_minus :
    let dialect : Dialect := ⟨["voice"], true⟩
    let token : Token := ⟨.feature ⟨"voice", .minus⟩, .start⟩
    tokenize dialect "-voice" = .ok [token] ∧ token.kind.render = "@-voice" ∧
      tokenize dialect token.kind.render = .ok [token] := by
  intro dialect token
  have htokens : tokenize dialect "-voice" = .ok [token] := by
    with_unfolding_all rfl
  obtain ⟨hback, -⟩ := tokenize_render_feature_iff htokens List.mem_cons_self rfl
  exact ⟨htokens, by decide, hback.mpr (by simp)⟩

/-- The literal `α|voice` of a source with the feature `voice` is written as `@αvoice`, which is
refused: the sign `@` is followed by the name `αvoice`. -/
theorem tokenize_render_variable :
    ∃ table, Table.ofText "SEGMENT\tvoice\nb\t+\n" = .ok table ∧
      tokenize (.ofTable table true) "α|voice" = .ok [⟨.feature ⟨"voice", .alpha⟩, .start⟩] ∧
      (TokenKind.feature ⟨"voice", .alpha⟩).render = "@αvoice" ∧
      tokenize (.ofTable table true) "@αvoice" =
        .error (.compilation (.malformedFeature "@αvoice") ⟨1, 1⟩) := by
  let base : BaseTable := ⟨["voice"], .empty, [("b", ⟨[⟨"voice", .plus⟩]⟩)]⟩
  have hsource : Table.ofText "SEGMENT\tvoice\nb\t+\n" = .ok (Table.ofBases base) := by
    with_unfolding_all rfl
  refine ⟨_, hsource, ?_, by decide, ?_⟩
  · with_unfolding_all rfl
  · with_unfolding_all rfl

end Token

end SoundLaw
