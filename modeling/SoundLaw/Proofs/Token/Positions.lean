import SoundLaw.Proofs.Lexeme.Lines
import SoundLaw.Proofs.Token.Tracing

/-!
# Places of lexemes and tokens

The scanner counts lines and columns while it goes on, through escapes, literals of several lines,
comments and operators of several characters. What it counts for a lexeme is what stands before the
first character of the lexeme. Lexemes therefore stand at different places in increasing order, and
tokens, the supplied ones among them, stand at places of lexemes in the same order.
-/

namespace SoundLaw

namespace Position

/-- A place is before another one in an earlier line, or further left in the same line. -/
instance : LT Position :=
  ⟨fun p q => p.line < q.line ∨ p.line = q.line ∧ p.column < q.column⟩

instance : LE Position :=
  ⟨fun p q => p < q ∨ p = q⟩

theorem lt_iff {p q : Position} :
    p < q ↔ p.line < q.line ∨ p.line = q.line ∧ p.column < q.column :=
  Iff.rfl

theorem lt_of_lt_of_le {p q r : Position} (hpq : p < q) (hqr : q ≤ r) : p < r := by
  rcases hqr with hqr | rfl
  · rw [lt_iff] at *
    omega
  · exact hpq

theorem le_of_lt {p q : Position} (h : p < q) : p ≤ q :=
  Or.inl h

theorem le_of_le_of_le {p q r : Position} (hpq : p ≤ q) (hqr : q ≤ r) : p ≤ r := by
  rcases hpq with hpq | rfl
  · exact le_of_lt (lt_of_lt_of_le hpq hqr)
  · exact hqr

/-- A character leads to a later place. -/
theorem lt_after (p : Position) (c : Char) : p < p.after c := by
  unfold after
  split
  · exact Or.inl (Nat.lt_succ_self _)
  · exact Or.inr ⟨rfl, Nat.lt_succ_self _⟩

/-- Characters lead to no earlier place. -/
theorem le_afterAll (p : Position) (cs : List Char) : p ≤ p.afterAll cs := by
  induction cs generalizing p with
  | nil => exact Or.inr rfl
  | cons c rest ih => exact le_of_lt (lt_of_lt_of_le (p.lt_after c) (ih (p.after c)))

end Position

namespace Lexeme

/-- Lexemes stand no earlier than where scanning starts, and each stands later than those before
it. -/
theorem positions_of_scanFrom {p : Position} {cs : List Char} {lexemes : List Lexeme}
    (h : scanFrom p cs = .ok lexemes) :
    (∀ lexeme ∈ lexemes, p ≤ lexeme.position) ∧
      lexemes.Pairwise fun a b => a.position < b.position := by
  fun_induction scanFrom p cs generalizing lexemes with
  | case1 =>
    cases h
    exact ⟨fun _ hlexeme => absurd hlexeme List.not_mem_nil, .nil⟩
  | case2 p c rest hblank ih =>
    obtain ⟨hle, hpairwise⟩ := ih h
    refine ⟨fun lexeme hlexeme => ?_, hpairwise⟩
    exact Position.le_of_lt (Position.lt_of_lt_of_le (p.lt_after c) (hle lexeme hlexeme))
  | case3 p rest hblank ih =>
    obtain ⟨hle, hpairwise⟩ := ih h
    refine ⟨fun lexeme hlexeme => ?_, hpairwise⟩
    exact Position.le_of_le_of_le (p.le_afterAll _) (hle lexeme hlexeme)
  | case4 => cases h
  | case5 p c rest hblank hcomment kind place after htaken hshorter ih =>
    obtain ⟨others, hothers, rfl⟩ := map_eq_ok_iff.mp h
    obtain ⟨text, rfl, rfl, -⟩ := takeLexeme_extent htaken
    obtain ⟨hle, hpairwise⟩ := ih hothers
    have hlt : ∀ lexeme ∈ others, p < lexeme.position := fun lexeme hlexeme =>
      Position.lt_of_lt_of_le (p.lt_after c)
        (Position.le_of_le_of_le ((p.after c).le_afterAll text) (hle lexeme hlexeme))
    refine ⟨List.forall_mem_cons.mpr ⟨Or.inr rfl, fun lexeme hlexeme => ?_⟩, .cons hlt hpairwise⟩
    exact Position.le_of_lt (hlt lexeme hlexeme)

/-- The first character of a lexeme divides a text: the lexemes before it are written before that
character, and the lexeme and those after it are written from there on. -/
theorem exists_first_of_scanFrom {p : Position} {cs : List Char} {earlier later : List Lexeme}
    {lexeme : Lexeme} (h : scanFrom p cs = .ok (earlier ++ lexeme :: later)) :
    ∃ before c rest, cs = before ++ c :: rest ∧ Text.isBlank c = false ∧ c ≠ '#' ∧
      scanFrom p before = .ok earlier ∧ lexeme.position = p.afterAll before ∧
      scanFrom lexeme.position (c :: rest) = .ok (lexeme :: later) := by
  generalize hlexemes : earlier ++ lexeme :: later = lexemes at h
  fun_induction scanFrom p cs generalizing lexemes earlier with
  | case1 =>
    cases h
    simp at hlexemes
  | case2 p c rest hblank ih =>
    obtain ⟨before, first, rest, rfl, hfirst, hcomment, hbefore, hplace, hscan⟩ := ih _ hlexemes h
    refine ⟨c :: before, first, rest, rfl, hfirst, hcomment, ?_, hplace, hscan⟩
    rw [scanFrom, if_pos hblank, hbefore]
  | case3 p rest hblank ih =>
    obtain ⟨before, first, after, hrest, hfirst, hcomment, hbefore, hplace, hscan⟩ :=
      ih _ hlexemes h
    have hfeed : ∀ c ∈ before.head?, (c != '\n') = false := by
      intro c hc
      have hhead : c ∈ (rest.dropWhile (· != '\n')).head? := by
        rw [hrest, List.head?_append, Option.mem_def.mp hc]
        rfl
      have hend := Text.head?_dropWhile hhead
      exact hend
    have hbody : (rest.takeWhile (· != '\n')).all (· != '\n') = true := List.all_takeWhile
    obtain ⟨htake, hdrop⟩ := Text.span_append hbody hfeed
    refine ⟨'#' :: rest.takeWhile (· != '\n') ++ before, first, after, ?_, hfirst, hcomment, ?_, ?_,
      hscan⟩
    · rw [List.append_assoc, ← hrest, List.cons_append, List.takeWhile_append_dropWhile]
    · rw [List.cons_append, scanFrom, if_neg hblank, if_pos rfl, htake, hdrop, hbefore]
    · rw [hplace, Position.afterAll_append]
  | case4 => cases h
  | case5 p c rest hblank hcomment kind place after htaken hshorter ih =>
    obtain ⟨others, hothers, rfl⟩ := map_eq_ok_iff.mp h
    have hfirst : Text.isBlank c = false := Bool.eq_false_iff.mpr hblank
    cases earlier with
    | nil =>
      cases hlexemes
      refine ⟨[], c, rest, rfl, hfirst, hcomment, ?_, rfl, ?_⟩
      · rw [scanFrom]
      · rw [scanFrom_of_takeLexeme hfirst hcomment htaken, hothers]
        rfl
    | cons lexeme' earlier =>
      obtain ⟨rfl, rfl⟩ := List.cons.inj hlexemes
      obtain ⟨text, rfl, rfl, hahead⟩ := takeLexeme_extent htaken
      obtain ⟨before, first, rest, rfl, hstarts, hmarks, hbefore, hplace, hscan⟩ :=
        ih _ rfl hothers
      refine ⟨c :: text ++ before, first, rest, ?_, hstarts, hmarks, ?_, ?_, hscan⟩
      · simp
      · have htaken' := hahead p before (.of_append before (first :: rest))
        rw [List.cons_append, scanFrom_of_takeLexeme hfirst hcomment htaken', hbefore]
        rfl
      · rw [hplace, Position.afterAll_append]

end Lexeme

/-- Tokens that are traced to lexemes in increasing order do not go back. -/
theorem Traced.pairwise_le {dialect : Dialect} {tokens : List Token} {lexemes : List Lexeme}
    (h : Traced dialect tokens lexemes)
    (hlexemes : lexemes.Pairwise fun a b => a.position < b.position) :
    tokens.Pairwise fun a b => a.position ≤ b.position := by
  induction h with
  | nil => exact .nil
  | skip _ _ ih => exact ih (List.pairwise_cons.mp hlexemes).2
  | @token token tokens lexeme lexemes hplace _ htokens ih =>
    refine .cons (fun other hother => ?_) (ih hlexemes)
    obtain ⟨found, hfound, hplace'⟩ := htokens.exists_position_eq other hother
    rw [hplace, hplace']
    rcases List.mem_cons.mp hfound with rfl | hfound
    · exact Or.inr rfl
    · exact Position.le_of_lt ((List.pairwise_cons.mp hlexemes).1 found hfound)

/-- The lexemes of a source stand where they are written. Each has a first character, which divides
the source: the lexemes before it are scanned from the characters before that one, and the lexeme
and those after it from there on. Its place counts the line feeds before that character, and the
characters between the last of these and it. Lexemes stand at increasing places; tokens never go
back, and each of them, supplied or not, stands at the place of a lexeme. -/
theorem Lexeme.positions_of_scan {source : String} {lexemes : List Lexeme}
    (hscan : scan source = .ok lexemes) :
    (∀ earlier lexeme later, lexemes = earlier ++ lexeme :: later →
      ∃ before c rest, source.toList = before ++ c :: rest ∧
        Text.isBlank c = false ∧ c ≠ '#' ∧
        scan (String.ofList before) = .ok earlier ∧
        scanFrom lexeme.position (c :: rest) = .ok (lexeme :: later) ∧
        lexeme.position.line = 1 + before.count '\n' ∧
        lexeme.position.column = 1 + (before.reverse.takeWhile (· != '\n')).length) ∧
    (lexemes.Pairwise fun a b => a.position < b.position) ∧
    ∀ dialect tokens, Token.tokenize dialect source = .ok tokens →
      (tokens.Pairwise fun a b => a.position ≤ b.position) ∧
      ∀ token ∈ tokens, ∃ lexeme ∈ lexemes, token.position = lexeme.position := by
  have hincreasing := (positions_of_scanFrom hscan).2
  refine ⟨?_, hincreasing, ?_⟩
  · rintro earlier lexeme later rfl
    obtain ⟨before, c, rest, hsource, hblank, hcomment, hbefore, hplace, hrest⟩ :=
      exists_first_of_scanFrom hscan
    rw [Position.afterAll_start] at hplace
    refine ⟨before, c, rest, hsource, hblank, hcomment, ?_, hrest, ?_, ?_⟩
    · rw [scan, String.toList_ofList, hbefore]
    · rw [hplace]
      rfl
    · rw [hplace]
      rfl
  · intro dialect tokens htokens
    obtain ⟨found, hfound, htraced⟩ := Token.traced_of_tokenize htokens
    cases hscan.symm.trans hfound
    exact ⟨htraced.pairwise_le hincreasing, htraced.exists_position_eq⟩

/-- A call, an index, a missing operand and the end of a statement are implied here, each at the
place of the lexeme that implies it. -/
theorem Lexeme.positions_of_scan_implied :
    ∃ lexemes tokens, scan "f(x)[i]\n\x7breturn\x7dy" = .ok lexemes ∧
      Token.tokenize ⟨[], true⟩ "f(x)[i]\n\x7breturn\x7dy" = .ok tokens ∧
      tokens.map (·.position) = [⟨1, 1⟩, ⟨1, 2⟩, ⟨1, 2⟩, ⟨1, 3⟩, ⟨1, 4⟩, ⟨1, 5⟩, ⟨1, 5⟩, ⟨1, 6⟩,
        ⟨1, 7⟩, ⟨2, 1⟩, ⟨2, 2⟩, ⟨2, 2⟩, ⟨2, 8⟩, ⟨2, 8⟩, ⟨2, 9⟩] ∧
      (lexemes.Pairwise fun a b => a.position < b.position) ∧
      (tokens.Pairwise fun a b => a.position ≤ b.position) ∧
      ∀ token ∈ tokens, ∃ lexeme ∈ lexemes, token.position = lexeme.position := by
  have hscan : scan "f(x)[i]\n\x7breturn\x7dy" =
      .ok [⟨.name "f", ⟨1, 1⟩⟩, ⟨.opening .round, ⟨1, 2⟩⟩, ⟨.name "x", ⟨1, 3⟩⟩,
        ⟨.closing .round, ⟨1, 4⟩⟩, ⟨.opening .square, ⟨1, 5⟩⟩, ⟨.name "i", ⟨1, 6⟩⟩,
        ⟨.closing .square, ⟨1, 7⟩⟩, ⟨.opening .curly, ⟨2, 1⟩⟩, ⟨.name "return", ⟨2, 2⟩⟩,
        ⟨.closing .curly, ⟨2, 8⟩⟩, ⟨.name "y", ⟨2, 9⟩⟩] := by
    with_unfolding_all rfl
  have htokenize : Token.tokenize ⟨[], true⟩ "f(x)[i]\n\x7breturn\x7dy" =
      .ok [⟨.identifier "f", ⟨1, 1⟩⟩, ⟨.operator .call, ⟨1, 2⟩⟩, ⟨.opening .round, ⟨1, 2⟩⟩,
        ⟨.identifier "x", ⟨1, 3⟩⟩, ⟨.closing .round, ⟨1, 4⟩⟩, ⟨.operator .index, ⟨1, 5⟩⟩,
        ⟨.opening .square, ⟨1, 5⟩⟩, ⟨.identifier "i", ⟨1, 6⟩⟩, ⟨.closing .square, ⟨1, 7⟩⟩,
        ⟨.opening .curly, ⟨2, 1⟩⟩, ⟨.operator .result, ⟨2, 2⟩⟩, ⟨.identifier "null", ⟨2, 2⟩⟩,
        ⟨.closing .curly, ⟨2, 8⟩⟩, ⟨.operator .semicolon, ⟨2, 8⟩⟩, ⟨.identifier "y", ⟨2, 9⟩⟩] := by
    with_unfolding_all rfl
  obtain ⟨-, hlexemes, htokens⟩ := positions_of_scan hscan
  exact ⟨_, _, hscan, htokenize, rfl, hlexemes, htokens _ _ htokenize⟩

end SoundLaw
