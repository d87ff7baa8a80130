import SoundLaw.Proofs.Lexeme.Extent
import Mathlib.Data.List.Induction

/-!
# Scanning line by line

Scanning may be interrupted at the end of a line. No lexeme that has ended looks past it, and a
comment ends there. What follows in a new line is scanned as if it stood alone, with its lines
counted from further down.
-/

namespace SoundLaw

namespace Position

/-- The place behind the characters at the start of a text: its line counts the line feeds among
them, and its column the characters behind the last one. -/
def behind (before : List Char) : Position :=
  ⟨1 + before.count '\n', 1 + (before.reverse.takeWhile (· != '\n')).length⟩

/-- Going through characters from the start leads to the place behind them. -/
theorem afterAll_start (before : List Char) : start.afterAll before = behind before := by
  induction before using List.reverseRecOn with
  | nil => rfl
  | append_singleton before c ih =>
    rw [afterAll_append, ih]
    change (behind before).after c = behind (before ++ [c])
    by_cases hfeed : c = '\n'
    · simp [after, behind, hfeed, Nat.add_assoc]
    · simp [after, behind, hfeed, Nat.add_assoc]

/-- The place a number of lines further down. -/
def down (p : Position) (lines : Nat) : Position :=
  ⟨p.line + lines, p.column⟩

/-- The place after a character further down is further down. -/
theorem after_down (p : Position) (lines : Nat) (c : Char) :
    (p.down lines).after c = (p.after c).down lines := by
  by_cases hfeed : c = '\n'
  · simp [after, down, hfeed, Nat.add_right_comm]
  · simp [after, down, hfeed]

/-- Going through characters further down leads further down. -/
theorem afterAll_down (p : Position) (lines : Nat) (cs : List Char) :
    (p.down lines).afterAll cs = (p.afterAll cs).down lines := by
  induction cs generalizing p with
  | nil => rfl
  | cons c rest ih =>
    change ((p.down lines).after c).afterAll rest = _
    rw [after_down, ih]
    rfl

end Position

namespace Lexeme

/-- The same lexeme a number of lines further down. -/
def down (lines : Nat) (lexeme : Lexeme) : Lexeme :=
  { lexeme with position := lexeme.position.down lines }

/-- A text is scanned further down as it is here. -/
theorem scanFrom_down {p : Position} {cs : List Char} {lexemes : List Lexeme}
    (h : scanFrom p cs = .ok lexemes) (lines : Nat) :
    scanFrom (p.down lines) cs = .ok (lexemes.map (down lines)) := by
  fun_induction scanFrom p cs generalizing lexemes with
  | case1 =>
    cases h
    rw [scanFrom]
    rfl
  | case2 p c rest hblank ih =>
    rw [scanFrom, if_pos hblank, Position.after_down]
    exact ih h
  | case3 p rest hblank ih =>
    rw [scanFrom, if_neg hblank, if_pos rfl, Position.afterAll_down]
    exact ih h
  | case4 => cases h
  | case5 p c rest hblank hcomment kind place after htaken hshorter ih =>
    obtain ⟨others, hothers, rfl⟩ := map_eq_ok_iff.mp h
    obtain ⟨text, rfl, rfl, hahead⟩ := takeLexeme_extent htaken
    rw [scanFrom_of_takeLexeme (Bool.eq_false_iff.mpr hblank) hcomment
      (hahead (p.down lines) after (.refl after)), Position.afterAll_down, ih hothers]
    rfl

/-- A text that is scanned is scanned in the same way before a new line, and the new line is scanned
behind it. -/
theorem scanFrom_append_feed {p : Position} {cs : List Char} {lexemes : List Lexeme}
    (h : scanFrom p cs = .ok lexemes) (line : List Char) :
    scanFrom p (cs ++ '\n' :: line) =
      (scanFrom (p.afterAll (cs ++ ['\n'])) line).map (lexemes ++ ·) := by
  fun_induction scanFrom p cs generalizing lexemes with
  | case1 p =>
    cases h
    rw [List.nil_append, scanFrom, if_pos (by decide)]
    change _ = (scanFrom (p.after '\n') line).map id
    cases scanFrom (p.after '\n') line with
    | error fault => rfl
    | ok others => rfl
  | case2 p c rest hblank ih =>
    rw [List.cons_append, scanFrom, if_pos hblank]
    exact ih h
  | case3 p rest hblank ih =>
    have hfeed : ∀ c ∈ ('\n' :: line).head?, (c != '\n') = false := by
      rintro c ⟨⟩
      rfl
    rw [List.cons_append, scanFrom, if_neg hblank, if_pos rfl,
      Text.takeWhile_append_of_head? hfeed, Text.dropWhile_append_of_head? hfeed, ih h,
      ← Position.afterAll_append, List.cons_append, ← List.append_assoc,
      List.takeWhile_append_dropWhile]
    rfl
  | case4 => cases h
  | case5 p c rest hblank hcomment kind place after htaken hshorter ih =>
    obtain ⟨others, hothers, rfl⟩ := map_eq_ok_iff.mp h
    obtain ⟨text, rfl, rfl, hahead⟩ := takeLexeme_extent htaken
    have htaken' := hahead p (after ++ '\n' :: line) (.append_feed after line)
    rw [List.cons_append, List.append_assoc,
      scanFrom_of_takeLexeme (Bool.eq_false_iff.mpr hblank) hcomment htaken', ih hothers, map_map,
      ← Position.afterAll_append, List.cons_append, ← List.append_assoc]
    rfl

/-- Two texts that are scanned are scanned one after the other when a line feed stands between them:
the lexemes of the first are followed by those of the second, which keep their columns and whose
lines are counted from below the first text. -/
theorem scan_append_feed {above below : String} {first second : List Lexeme}
    (habove : scan above = .ok first) (hbelow : scan below = .ok second) :
    scan (above ++ "\n" ++ below) =
      .ok (first ++ second.map (down (1 + above.toList.count '\n'))) := by
  have hplace : Position.start.afterAll (above.toList ++ ['\n']) =
      Position.start.down (1 + above.toList.count '\n') := by
    rw [Position.afterAll_start]
    simp [Position.behind, Position.down, Position.start, Nat.add_comm]
  have hlower := scanFrom_down hbelow (1 + above.toList.count '\n')
  rw [scan, String.toList_append, String.toList_append, List.append_assoc]
  change scanFrom .start (above.toList ++ '\n' :: below.toList) = _
  rw [scanFrom_append_feed habove, hplace, hlower]
  rfl

/-- A comment does not reach the operator in the next line, although it holds a quote. The first
text has two lines, so the second starts in the third. -/
theorem scan_append_feed_comment :
    scan ("x <\n y # it's" ++ "\n" ++ "\t= _") =
      .ok [⟨.name "x", ⟨1, 1⟩⟩, ⟨.symbol .less, ⟨1, 3⟩⟩, ⟨.name "y", ⟨2, 2⟩⟩,
        ⟨.symbol .assign, ⟨3, 2⟩⟩, ⟨.name "_", ⟨3, 4⟩⟩] := by
  have habove : scan "x <\n y # it's" =
      .ok [⟨.name "x", ⟨1, 1⟩⟩, ⟨.symbol .less, ⟨1, 3⟩⟩, ⟨.name "y", ⟨2, 2⟩⟩] := by
    with_unfolding_all rfl
  have hbelow : scan "\t= _" = .ok [⟨.symbol .assign, ⟨1, 2⟩⟩, ⟨.name "_", ⟨1, 4⟩⟩] := by
    with_unfolding_all rfl
  exact scan_append_feed habove hbelow

end Lexeme

end SoundLaw
