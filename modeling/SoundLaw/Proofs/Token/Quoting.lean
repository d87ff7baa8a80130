import SoundLaw.Token.Classification

/-!
# Quoted literals read back

A text is quoted character by character: each character is written as it is or as a backslash and
one more character. A reader inside a literal takes exactly these characters and gives the quoted
one back, whatever it is and whatever comes after it. So it stops at the closing delimiter and
nowhere before, and the whole literal is one lexeme, which is read as one token.
-/

namespace SoundLaw

namespace LiteralKind

/-- The delimiter of a kind of literal starts a literal of that kind. -/
@[simp] theorem ofDelimiter?_delimiter (kind : LiteralKind) :
    ofDelimiter? kind.delimiter = some kind := by
  cases kind <;> rfl

/-- No delimiter is the sign that starts an escape. -/
theorem delimiter_ne_backslash (kind : LiteralKind) : kind.delimiter ≠ '\\' := by
  cases kind <;> decide

/-- No delimiter is skipped as a blank. -/
theorem isBlank_delimiter (kind : LiteralKind) : Text.isBlank kind.delimiter = false := by
  cases kind <;> decide

/-- No delimiter starts a comment. -/
theorem delimiter_ne_commentSign (kind : LiteralKind) : kind.delimiter ≠ '#' := by
  cases kind <;> decide

end LiteralKind

namespace Lexeme

/-- An escaped delimiter stands for itself. -/
theorem plainEscape?_delimiter (kind : LiteralKind) :
    plainEscape? kind.delimiter = some kind.delimiter := by
  cases kind <;> rfl

/-- A quoted character is escaped by one that stands for it, or is written as it is and is then
neither a backslash nor the delimiter. -/
theorem quoteChar_cases (kind : LiteralKind) (c : Char) :
    (∃ e, quoteChar kind.delimiter c = ['\\', e] ∧ plainEscape? e = some c) ∨
      (quoteChar kind.delimiter c = [c] ∧ c ≠ kind.delimiter ∧ c ≠ '\\') := by
  unfold quoteChar
  by_cases hfeed : c = '\n'
  · exact Or.inl ⟨'n', if_pos hfeed, congrArg some hfeed.symm⟩
  by_cases htab : c = '\t'
  · exact Or.inl ⟨'t', by rw [if_neg hfeed, if_pos htab], congrArg some htab.symm⟩
  by_cases hreturn : c = '\r'
  · refine Or.inl ⟨'r', ?_, congrArg some hreturn.symm⟩
    rw [if_neg hfeed, if_neg htab, if_pos hreturn]
  rw [if_neg hfeed, if_neg htab, if_neg hreturn]
  by_cases hself : c = '\\' ∨ c = kind.delimiter
  · refine Or.inl ⟨c, if_pos hself, ?_⟩
    rcases hself with rfl | rfl
    · rfl
    · exact plainEscape?_delimiter kind
  · rw [not_or] at hself
    exact Or.inr ⟨if_neg (not_or.mpr hself), hself.2, hself.1⟩

/-- A quoted character is read as itself, and the reading goes on behind it. -/
theorem takeQuoted_quoteChar (kind : LiteralKind) (start p : Position) (c : Char)
    (rest : List Char) :
    takeQuoted kind.delimiter start p (quoteChar kind.delimiter c ++ rest) =
      (takeQuoted kind.delimiter start (p.afterAll (quoteChar kind.delimiter c)) rest).map
        fun (text, place, rest) => (c :: text, place, rest) := by
  rcases quoteChar_cases kind c with ⟨e, hquoted, hescape⟩ | ⟨hquoted, hdelimiter, hbackslash⟩
  · rw [hquoted, List.cons_append, List.singleton_append, takeQuoted.eq_def]
    simp only [if_neg kind.delimiter_ne_backslash.symm, hescape]
    rfl
  · rw [hquoted, List.singleton_append, takeQuoted.eq_def]
    simp only [if_neg hdelimiter, if_neg hbackslash]
    rfl

/-- A quoted text is read up to the delimiter behind it, whatever follows. -/
theorem takeQuoted_flatMap_quoteChar (kind : LiteralKind) (start p : Position)
    (text rest : List Char) :
    takeQuoted kind.delimiter start p
        (text.flatMap (quoteChar kind.delimiter) ++ kind.delimiter :: rest) =
      .ok (text, p.afterAll (text.flatMap (quoteChar kind.delimiter) ++ [kind.delimiter]),
        rest) := by
  induction text generalizing p with
  | nil =>
    rw [List.flatMap_nil, List.nil_append, takeQuoted.eq_def]
    exact if_pos rfl
  | cons c others ih =>
    rw [List.flatMap_cons, List.append_assoc, takeQuoted_quoteChar, ih, List.append_assoc]
    simp only [Position.afterAll, List.foldl_append]
    rfl

/-- A character that is neither blank nor a comment sign starts a lexeme, and scanning goes on
behind it. -/
theorem scanFrom_of_takeLexeme {p place : Position} {c : Char} {rest after : List Char}
    {kind : LexemeKind} (hblank : Text.isBlank c = false) (hcomment : c ≠ '#')
    (htaken : takeLexeme p c rest = .ok (kind, place, after)) :
    scanFrom p (c :: rest) = (scanFrom place after).map (⟨kind, p⟩ :: ·) := by
  rw [scanFrom, hblank, if_neg Bool.false_ne_true, if_neg hcomment]
  split
  · next hfailed =>
    rw [htaken] at hfailed
    cases hfailed
  · next hfound =>
    rw [htaken] at hfound
    cases hfound
    rfl

/-- A quoted text is one lexeme, and scanning goes on behind it. -/
theorem scanFrom_quote (p : Position) (kind : LiteralKind) (text : String) (rest : List Char) :
    scanFrom p ((quote kind.delimiter text).toList ++ rest) =
      (scanFrom (p.afterAll (quote kind.delimiter text).toList) rest).map
        (⟨.literal kind text, p⟩ :: ·) := by
  have hquote : (quote kind.delimiter text).toList =
      kind.delimiter :: (text.toList.flatMap (quoteChar kind.delimiter) ++ [kind.delimiter]) := by
    rw [quote, String.toList_ofList, List.cons_append]
  rw [hquote, List.cons_append, List.append_assoc, List.singleton_append]
  refine scanFrom_of_takeLexeme kind.isBlank_delimiter kind.delimiter_ne_commentSign ?_
  unfold takeLexeme
  rw [LiteralKind.ofDelimiter?_delimiter]
  dsimp only
  rw [takeQuoted_flatMap_quoteChar, Except.map, String.ofList_toList]
  rfl

/-- A quoted text is scanned as one lexeme at the start of the source. -/
theorem scan_quote (kind : LiteralKind) (text : String) :
    scan (quote kind.delimiter text) = .ok [⟨.literal kind text, .start⟩] := by
  have hscan := scanFrom_quote .start kind text []
  rw [List.append_nil, scanFrom.eq_def _ []] at hscan
  exact hscan

/-- A literal is read as itself where phonological notation is allowed. -/
theorem readToken_literal (features : List String) (s : Surroundings) (kind : LiteralKind)
    (text : String) (p : Position) (rest : List Lexeme) :
    readToken ⟨features, true⟩ s ⟨.literal kind text, p⟩ rest = .ok (.literal kind text, rest) := by
  cases kind <;> rfl

/-- A lexeme that is no bracket is read as one token, and classification goes on behind it. -/
theorem classifyFrom_of_readToken {dialect : Dialect} {s : Surroundings} {lexeme : Lexeme}
    {rest after : List Lexeme} {kind : TokenKind}
    (hopening : ∀ bracket, lexeme.kind ≠ .opening bracket)
    (hclosing : ∀ bracket, lexeme.kind ≠ .closing bracket)
    (hread : readToken dialect s lexeme rest = .ok (kind, after)) :
    classifyFrom dialect s (lexeme :: rest) =
      (classifyFrom dialect (s.afterToken kind) after).map (⟨kind, lexeme.position⟩ :: ·) := by
  rw [classifyFrom]
  split
  · next bracket hbracket => exact absurd hbracket (hopening bracket)
  · next bracket hbracket => exact absurd hbracket (hclosing bracket)
  · split
    · next hfailed =>
      rw [hread] at hfailed
      cases hfailed
    · next hfound =>
      rw [hread] at hfound
      cases hfound
      rfl

end Lexeme

/-- A quoted text is read back: tokenizing it gives the one literal that it writes, with exactly the
text that was quoted, for every text and every kind of literal. -/
theorem Token.tokenize_quote (features : List String) (kind : LiteralKind) (text : String) :
    tokenize ⟨features, true⟩ (quote kind.delimiter text) =
      .ok [⟨.literal kind text, .start⟩] := by
  have hclassified : Lexeme.classifyFrom ⟨features, true⟩ .start
      [⟨.literal kind text, .start⟩] = .ok [⟨.literal kind text, .start⟩] := by
    have hread := Lexeme.readToken_literal features .start kind text .start []
    rw [Lexeme.classifyFrom_of_readToken (by nofun) (by nofun) hread,
      Lexeme.classifyFrom.eq_def]
    rfl
  rw [tokenize, Lexeme.scan_quote]
  change (do let tokens ← Lexeme.classifyFrom _ _ _; return fillFrom none tokens) = _
  rw [hclassified]
  rfl

end SoundLaw
