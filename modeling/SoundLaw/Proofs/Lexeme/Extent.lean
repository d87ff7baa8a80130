import SoundLaw.Proofs.Outcome
import SoundLaw.Proofs.Text.Span
import SoundLaw.Proofs.Token.Quoting

/-!
# How far a lexeme reaches

To find the end of a lexeme the scanner looks at characters behind it: a run of a name or number
ends at the first character outside it, a point counts as a fraction only before a digit, and a
longer operator is looked for as long as one may still be spelled. None of this looks past the end
of a line. So a lexeme stays what it is when the text behind it is cut off somewhere, or is cut off
and goes on in a new line, and wherever in a source it stands.
-/

namespace SoundLaw

namespace Position

/-- The place after some characters and some more. -/
theorem afterAll_append (p : Position) (cs ds : List Char) :
    p.afterAll (cs ++ ds) = (p.afterAll cs).afterAll ds :=
  List.foldl_append

end Position

namespace Lexeme

/-- What may stand behind a lexeme in place of other characters without changing where it ends: the
same characters, up to an end of the text or of the line. -/
inductive EndsLike : List Char → List Char → Prop
  | stop (after : List Char) : EndsLike [] after
  | feed (line after : List Char) : EndsLike ('\n' :: line) after
  | same (c : Char) {ahead after : List Char} : EndsLike ahead after →
    EndsLike (c :: ahead) (c :: after)

namespace EndsLike

variable {ahead after : List Char}

/-- A text may be cut off anywhere. -/
theorem of_append (ahead more : List Char) : EndsLike ahead (ahead ++ more) := by
  induction ahead with
  | nil => exact stop _
  | cons c rest ih => exact same c ih

/-- A text may be left as it is. -/
protected theorem refl (after : List Char) : EndsLike after after := by
  simpa using of_append after []

/-- A text may go on in a new line. -/
theorem append_feed (after line : List Char) : EndsLike (after ++ '\n' :: line) after := by
  induction after with
  | nil => exact feed line []
  | cons c rest ih => exact same c ih

/-- The next character is a line feed or the same as before. -/
theorem head? (h : EndsLike ahead after) {c : Char} (hc : c ∈ ahead.head?) :
    c = '\n' ∨ c ∈ after.head? := by
  cases h with
  | stop => cases hc
  | feed => exact .inl (Option.mem_some.mp hc).symm
  | same => exact .inr hc

end EndsLike

/-! ## Literals -/

/-- Characters inside a literal that write one character, wherever they stand. -/
def Writes (delimiter : Char) (chunk : List Char) (c : Char) : Prop :=
  ∀ (start p : Position) rest, takeQuoted delimiter start p (chunk ++ rest) =
    (takeQuoted delimiter start (p.afterAll chunk) rest).map fun (text, place, rest) =>
      (c :: text, place, rest)

/-- Characters that are read as the rest of a literal and its closing delimiter, whatever
follows. -/
def Finishes (delimiter : Char) (body text : List Char) : Prop :=
  ∀ (start p : Position) ahead,
    takeQuoted delimiter start p (body ++ ahead) = .ok (text, p.afterAll body, ahead)

/-- A literal goes on behind a written character as it does there. -/
theorem Writes.finishes {delimiter c : Char} {chunk body text : List Char}
    (hchunk : Writes delimiter chunk c) (hbody : Finishes delimiter body text) :
    Finishes delimiter (chunk ++ body) (c :: text) := by
  intro start p ahead
  rw [List.append_assoc, hchunk, hbody, Position.afterAll_append]
  rfl

/-- When the rest of a literal reaches to its closing delimiter, so does the literal. -/
theorem Writes.extent {delimiter c : Char} {chunk : List Char} (hchunk : Writes delimiter chunk c)
    {start p place : Position} {rest text after : List Char}
    (h : ((takeQuoted delimiter start (p.afterAll chunk) rest).map fun (text, place, rest) =>
      (c :: text, place, rest)) = .ok (text, place, after))
    (ih : ∀ {place text after}, takeQuoted delimiter start (p.afterAll chunk) rest =
      .ok (text, place, after) → ∃ body, rest = body ++ after ∧
        place = (p.afterAll chunk).afterAll body ∧ Finishes delimiter body text) :
    ∃ body, chunk ++ rest = body ++ after ∧ place = p.afterAll body ∧
      Finishes delimiter body text := by
  obtain ⟨taken, htaken, heq⟩ := map_eq_ok_iff.mp h
  cases heq
  obtain ⟨body, rfl, hplace, hbody⟩ := ih htaken
  refine ⟨chunk ++ body, (List.append_assoc ..).symm, ?_, hchunk.finishes hbody⟩
  rw [hplace, Position.afterAll_append]

/-- A literal reaches to its closing delimiter, whatever follows. -/
theorem takeQuoted_extent {delimiter : Char} {start p place : Position} {cs text after : List Char}
    (h : takeQuoted delimiter start p cs = .ok (text, place, after)) :
    ∃ body, cs = body ++ after ∧ place = p.afterAll body ∧ Finishes delimiter body text := by
  fun_induction takeQuoted delimiter start p cs generalizing text place after with
  | case1 => cases h
  | case2 p rest =>
    cases h
    refine ⟨[delimiter], rfl, rfl, fun start p ahead => ?_⟩
    rw [List.singleton_append, takeQuoted.eq_def]
    exact if_pos rfl
  | case4 p e rest decoded hescape hdelimiter ih =>
    have hchunk : Writes delimiter ['\\', e] decoded := by
      intro start p rest
      rw [List.cons_append, List.singleton_append, takeQuoted.eq_def]
      simp only [if_neg hdelimiter, hescape]
      rfl
    exact hchunk.extent h ih
  | case9 p e hescape hfirst second third rest hsecond hthird decoded hdelimiter =>
    rename_i ih
    have hchunk : Writes delimiter ['\\', e, second, third] decoded := by
      intro start p rest
      simp only [List.cons_append, List.nil_append]
      rw [takeQuoted.eq_def]
      simp only [if_neg hdelimiter, hescape, if_pos hfirst, if_neg hsecond, if_neg hthird]
      rfl
    exact hchunk.extent h ih
  | case11 p c rest hdelimiter hescape ih =>
    have hchunk : Writes delimiter [c] c := by
      intro start p rest
      rw [List.singleton_append, takeQuoted.eq_def]
      simp only [if_neg hdelimiter, if_neg hescape]
      rfl
    exact hchunk.extent h ih
  | _ => cases h

/-! ## Names and numbers -/

/-- A digit may stand in a name or a number. -/
theorem isNameChar_of_isDigit {c : Char} (hc : c.isDigit = true) : isNameChar c = true := by
  have hrange : 48 ≤ c.toNat ∧ c.toNat ≤ 57 := by
    simpa [Char.isDigit, UInt32.le_iff_toNat_le] using hc
  have hascii : c.toNat < 128 := by omega
  simp [isNameChar, Text.isAlphanumeric, hascii, Char.isAlphanum, hc]

/-- Where a run of a name or number ends. -/
inductive RunEnds : List Char → List Char → Prop
  /-- A run ends before a character outside it, but not before the fraction of a whole number. -/
  | plain {run after : List Char} (hrun : run.all isNameChar = true)
    (hafter : ∀ c ∈ after.head?, isNameChar c = false)
    (hwhole : run.all Char.isDigit = true → ∀ digit rest, after = '.' :: digit :: rest →
      digit.isDigit = false) : RunEnds run after
  /-- A fraction ends before a character that is no digit. -/
  | fraction {whole rest after : List Char} {digit : Char} (hwhole : whole.all Char.isDigit = true)
    (hdigits : (digit :: rest).all Char.isDigit = true)
    (hafter : ∀ c ∈ after.head?, c.isDigit = false) :
    RunEnds (whole ++ '.' :: digit :: rest) after

/-- A run of a name or number ends as it should, and nothing is lost. -/
theorem takeRun_ends (cs : List Char) :
    (takeRun cs).1 ++ (takeRun cs).2 = cs ∧ RunEnds (takeRun cs).1 (takeRun cs).2 := by
  have hsplit : cs.takeWhile isNameChar ++ cs.dropWhile isNameChar = cs :=
    List.takeWhile_append_dropWhile
  have hrun : (cs.takeWhile isNameChar).all isNameChar = true := List.all_takeWhile
  have hrest : ∀ c ∈ (cs.dropWhile isNameChar).head?, isNameChar c = false :=
    fun c => Text.head?_dropWhile
  simp only [takeRun]
  split
  · next digit after hafter =>
    split
    · next hfraction =>
      rw [Bool.and_eq_true] at hfraction
      have hdigits : (digit :: after).takeWhile Char.isDigit =
          digit :: after.takeWhile Char.isDigit := List.takeWhile_cons_of_pos hfraction.1
      rw [hafter, List.tail_cons, hdigits]
      refine ⟨?_, .fraction hfraction.2 ?_ fun c => Text.head?_dropWhile⟩
      · rw [List.append_assoc, List.cons_append, ← hdigits, List.takeWhile_append_dropWhile,
          ← hafter, hsplit]
      · rw [← hdigits]
        exact List.all_takeWhile
    · next hfraction =>
      refine ⟨hsplit, .plain hrun hrest fun hwhole digit' rest hafter' => ?_⟩
      cases hafter.symm.trans hafter'
      simpa [hwhole] using hfraction
  · next hnone =>
    exact ⟨hsplit, .plain hrun hrest fun _ digit rest hafter => absurd hafter (hnone digit rest)⟩

/-- A run that ends as it should is taken. -/
theorem RunEnds.takeRun {run after : List Char} (h : RunEnds run after) :
    Lexeme.takeRun (run ++ after) = (run, after) := by
  cases h with
  | plain hrun hafter hwhole =>
    obtain ⟨htake, hdrop⟩ := Text.span_append hrun hafter
    simp only [Lexeme.takeRun, htake, hdrop]
    split
    · next digit rest =>
      refine if_neg fun hfraction => ?_
      rw [Bool.and_eq_true] at hfraction
      rw [hwhole hfraction.2 digit rest rfl] at hfraction
      cases hfraction.1
    · rfl
  | @fraction whole rest after digit hwhole hdigits hafter =>
    have hname : whole.all isNameChar = true :=
      List.all_eq_true.mpr fun c hc => isNameChar_of_isDigit (List.all_eq_true.mp hwhole c hc)
    have hpoint : ∀ c ∈ ('.' :: digit :: (rest ++ after)).head?, isNameChar c = false := by
      rintro c ⟨⟩
      rfl
    obtain ⟨htake, hdrop⟩ := Text.span_append hname hpoint
    obtain ⟨htakeDigits, hdropDigits⟩ := Text.span_append hdigits hafter
    have hdigit : digit.isDigit = true := List.all_eq_true.mp hdigits digit List.mem_cons_self
    rw [List.append_assoc, List.cons_append, List.cons_append]
    simp only [Lexeme.takeRun, htake, hdrop, hdigit, hwhole, Bool.and_self, if_true, List.tail_cons]
    rw [← List.cons_append, htakeDigits, hdropDigits]

/-- A run ends as before when the text behind it is cut off or goes on in a new line. -/
theorem RunEnds.of_endsLike {run after ahead : List Char} (h : RunEnds run after)
    (hahead : EndsLike ahead after) : RunEnds run ahead := by
  cases h with
  | plain hrun hafter hwhole =>
    refine .plain hrun ?_ ?_
    · intro c hc
      rcases hahead.head? hc with rfl | hc
      · rfl
      · exact hafter c hc
    · rintro hdigits digit rest rfl
      -- the character behind the point is the same as before, or a line feed
      cases hahead with
      | same _ hahead =>
        cases hahead with
        | feed => rfl
        | same => exact hwhole hdigits digit _ rfl
  | fraction hwhole hdigits hafter =>
    refine .fraction hwhole hdigits fun c hc => ?_
    rcases hahead.head? hc with rfl | hc
    · rfl
    · exact hafter c hc

/-- A run starts with its first character and takes the same characters before every text that ends
like the one behind it. -/
theorem takeRun_extent {c : Char} (hc : isNameChar c = true) {rest run after : List Char}
    (h : takeRun (c :: rest) = (run, after)) :
    ∃ text, run = c :: text ∧ rest = text ++ after ∧ ∀ ahead, EndsLike ahead after →
      takeRun (c :: (text ++ ahead)) = (c :: text, ahead) := by
  obtain ⟨hsplit, hends⟩ := takeRun_ends (c :: rest)
  have hshorter := length_lt_of_takeRun rest hc
  rw [h] at hsplit hends hshorter
  cases run with
  | nil =>
    rw [← hsplit] at hshorter
    exact absurd hshorter (Nat.lt_irrefl _)
  | cons first text =>
    obtain ⟨rfl, rfl⟩ := List.cons.inj hsplit
    exact ⟨text, rfl, rfl, fun ahead hahead => (hends.of_endsLike hahead).takeRun⟩

/-! ## Operators -/

/-- No spelling of an operator has a line feed. -/
theorem startsSpelling_feed (run : List Char) :
    Operator.startsSpelling (run ++ ['\n']) = false := by
  have hspelled : ∀ operator ∈ Operator.spelled, '\n' ∉ operator.spelling.toList := by decide
  rw [Operator.startsSpelling, List.any_eq_false]
  intro operator hoperator hstarts
  have hfeed : '\n' ∈ run ++ ['\n'] := List.mem_append_right run List.mem_cons_self
  exact hspelled operator hoperator ((List.isPrefixOf_iff_prefix.mp hstarts).subset hfeed)

/-- Where an operator was found, one is found in the end. -/
theorem isSome_longestOperator (run cs : List Char) (found : Operator × Nat) :
    (longestOperator run (some found) cs).isSome := by
  induction cs generalizing run found with
  | nil => rfl
  | cons c rest ih =>
    rw [longestOperator]
    split
    · split
      · exact ih ..
      · exact ih ..
    · rfl

/-- If no operator longer than the best so far is spelled, none is spelled when the text is cut off
or goes on in a new line. -/
theorem longestOperator_of_endsLike {run after ahead : List Char} {best : Option (Operator × Nat)}
    (hbest : ∀ found ∈ best, found.2 ≤ run.length)
    (h : longestOperator run best after = best) (hahead : EndsLike ahead after) :
    longestOperator run best ahead = best := by
  induction hahead generalizing run with
  | stop => rfl
  | feed =>
    rw [longestOperator, startsSpelling_feed]
    rfl
  | @same c ahead after hahead ih =>
    rw [longestOperator] at h ⊢
    dsimp only at h ⊢
    split at h
    · next hstarts =>
      rw [if_pos hstarts]
      cases hfound : Operator.ofSpelling? (String.ofList (run ++ [c])) with
      | none =>
        rw [hfound] at h
        refine ih (fun found hmem => Nat.le_trans (hbest found hmem) ?_) h
        simp
      | some operator =>
        -- this operator is longer than the best one, so the search would not have ended with that
        rw [hfound] at h
        cases best with
        | none =>
          have hsome := isSome_longestOperator (run ++ [c]) after (operator, (run ++ [c]).length)
          rw [h] at hsome
          cases hsome
        | some found =>
          have hshort : found.2 ≤ run.length := hbest found rfl
          have hlong : (run ++ [c]).length ≤ found.2 := by
            rcases longestOperator_length h with hlonger | heq
            · exact Nat.le_of_lt hlonger
            · exact Nat.le_of_eq (congrArg Prod.snd (Option.some.inj heq))
          simp only [List.length_append, List.length_cons, List.length_nil] at hlong
          omega
    · next hstarts => rw [if_neg hstarts]

/-- The longest operator that is spelled within some characters is the same one when the text behind
them is cut off or goes on in a new line. -/
theorem longestOperator_append {run shown after ahead : List Char}
    {best : Option (Operator × Nat)} {operator : Operator} {length : Nat}
    (h : longestOperator run best (shown ++ after) = some (operator, length))
    (hlength : length ≤ run.length + shown.length) (hahead : EndsLike ahead after) :
    longestOperator run best (shown ++ ahead) = some (operator, length) := by
  induction shown generalizing run best with
  | nil =>
    obtain rfl : best = some (operator, length) :=
      (longestOperator_length h).resolve_left (Nat.not_lt.mpr hlength)
    refine longestOperator_of_endsLike ?_ h hahead
    rintro found ⟨⟩
    exact hlength
  | cons c shown ih =>
    rw [List.cons_append, longestOperator] at h ⊢
    dsimp only at h ⊢
    split at h
    · next hstarts =>
      rw [if_pos hstarts]
      refine ih h ?_
      simp only [List.length_append, List.length_cons, List.length_nil] at hlength ⊢
      omega
    · next hstarts => rw [if_neg hstarts, h]

/-- An operator is no longer than the characters it is spelled with. -/
theorem longestOperator_length_le {run cs : List Char} {best : Option (Operator × Nat)}
    {operator : Operator} {length : Nat}
    (h : longestOperator run best cs = some (operator, length)) :
    length ≤ run.length + cs.length ∨ best = some (operator, length) := by
  induction cs generalizing run best with
  | nil => exact .inr h
  | cons c rest ih =>
    rw [longestOperator] at h
    split at h
    · rcases ih h with hlength | hbest
      · simp only [List.length_append, List.length_cons, List.length_nil] at hlength
        exact .inl (by simp only [List.length_cons]; omega)
      · split at hbest
        · cases hbest
          simp
        · exact .inr hbest
    · exact .inr h

/-- An operator takes its first character, and is spelled by the same characters before every text
that ends like the one behind it. -/
theorem longestOperator_extent {c : Char} {rest : List Char} {operator : Operator} {length : Nat}
    (h : longestOperator [] none (c :: rest) = some (operator, length)) :
    ∃ text after, rest = text ++ after ∧ length = (c :: text).length ∧
      ∀ ahead, EndsLike ahead after →
        longestOperator [] none (c :: text ++ ahead) = some (operator, length) := by
  have hpositive : 0 < length := by simpa using longestOperator_length h
  have hlength : length ≤ rest.length + 1 := by simpa using longestOperator_length_le h
  have htext : length = (c :: rest.take (length - 1)).length := by
    rw [List.length_cons, List.length_take]
    omega
  have hshown : longestOperator [] none
      (c :: rest.take (length - 1) ++ rest.drop (length - 1)) = some (operator, length) := by
    rw [List.cons_append, List.take_append_drop, h]
  refine ⟨rest.take (length - 1), rest.drop (length - 1), (List.take_append_drop ..).symm, htext,
    fun ahead hahead => longestOperator_append hshown ?_ hahead⟩
  rw [← htext]
  exact Nat.le_add_left ..

/-! ## All lexemes -/

/-- A number or name is the same at every place. -/
theorem ofRun_of_ok {p : Position} {run : List Char} {kind : LexemeKind}
    (h : ofRun p run = .ok kind) (q : Position) : ofRun q run = .ok kind := by
  unfold ofRun at h ⊢
  dsimp only at h ⊢
  split at h
  · next hdigit =>
    rw [if_pos hdigit]
    split at h
    · exact h
    · cases h
  · next hdigit => rw [if_neg hdigit, h]

/-- A lexeme takes the characters of its text, and takes them also at every other place and before
every text that ends like the one behind it. -/
theorem takeLexeme_extent {p place : Position} {c : Char} {rest after : List Char}
    {kind : LexemeKind} (h : takeLexeme p c rest = .ok (kind, place, after)) :
    ∃ text, rest = text ++ after ∧ place = p.afterAll (c :: text) ∧
      ∀ (q : Position) ahead, EndsLike ahead after →
        takeLexeme q c (text ++ ahead) = .ok (kind, q.afterAll (c :: text), ahead) := by
  unfold takeLexeme at h ⊢
  split at h
  · next literal hliteral =>
    obtain ⟨taken, htaken, heq⟩ := map_eq_ok_iff.mp h
    cases heq
    obtain ⟨body, rfl, hplace, hbody⟩ := takeQuoted_extent htaken
    refine ⟨body, rfl, hplace, fun q ahead _ => ?_⟩
    rw [hbody]
    rfl
  · split at h
    · cases h
      exact ⟨[], rfl, rfl, fun _ _ _ => rfl⟩
    · cases h
      exact ⟨[], rfl, rfl, fun _ _ _ => rfl⟩
    · split at h
      · next hname =>
        cases htaken : takeRun (c :: rest) with
        | mk run left =>
          rw [htaken] at h
          obtain ⟨found, hfound, heq⟩ := map_eq_ok_iff.mp h
          cases heq
          obtain ⟨text, rfl, rfl, hahead⟩ := takeRun_extent hname htaken
          refine ⟨text, rfl, rfl, fun q ahead hends => ?_⟩
          rw [if_pos hname, hahead ahead hends]
          dsimp only
          rw [ofRun_of_ok hfound q]
          rfl
      · next hname =>
        split at h
        · next operator length hlongest =>
          obtain ⟨text, left, rfl, rfl, hahead⟩ := longestOperator_extent hlongest
          rw [← List.cons_append, List.take_left, List.drop_left] at h
          cases h
          refine ⟨text, rfl, rfl, fun q ahead hends => ?_⟩
          rw [if_neg hname, ← List.cons_append, hahead ahead hends]
          dsimp only
          rw [List.take_left, List.drop_left]
        · next hlongest =>
          split at h
          · next kind hmark =>
            cases h
            refine ⟨[], rfl, rfl, fun q ahead hahead => ?_⟩
            have hnone : longestOperator [] none (c :: ahead) = none :=
              longestOperator_of_endsLike (by simp) hlongest (.same c hahead)
            rw [if_neg hname, List.nil_append, hnone]
            rfl
          · cases h

end Lexeme

end SoundLaw
