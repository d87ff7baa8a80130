/-!
# Spans of a class of characters

Readers cut a text where the characters of some class end: a name, a comment, the diacritics on a
phone. Such a cut depends on no more than the first character behind the span. Text whose first
character is outside the class may therefore be appended without moving the cut.
-/

namespace SoundLaw.Text

variable {test : Char → Bool} {rest : List Char}

/-- What is left behind a span starts with a character outside the class. -/
theorem head?_dropWhile {cs : List Char} {c : Char} (hc : c ∈ (cs.dropWhile test).head?) :
    test c = false := by
  have hnot := List.head?_dropWhile_not test cs
  rwa [Option.mem_def.mp hc] at hnot

/-- Appended text that starts outside the class adds nothing to the span. -/
theorem takeWhile_append_of_head? (hrest : ∀ c ∈ rest.head?, test c = false) (cs : List Char) :
    (cs ++ rest).takeWhile test = cs.takeWhile test := by
  induction cs with
  | nil =>
    cases rest with
    | nil => rfl
    | cons c rest => simp [hrest c rfl]
  | cons c cs ih => simp only [List.cons_append, List.takeWhile_cons, ih]

/-- Appended text that starts outside the class is left behind the span. -/
theorem dropWhile_append_of_head? (hrest : ∀ c ∈ rest.head?, test c = false) (cs : List Char) :
    (cs ++ rest).dropWhile test = cs.dropWhile test ++ rest := by
  induction cs with
  | nil =>
    cases rest with
    | nil => rfl
    | cons c rest => simp [hrest c rfl]
  | cons c cs ih =>
    simp only [List.cons_append, List.dropWhile_cons, ih]
    split
    · rfl
    · rfl

/-- Characters of the class are told apart from text that starts outside it. -/
theorem span_append {run : List Char} (hrun : run.all test = true)
    (hrest : ∀ c ∈ rest.head?, test c = false) :
    (run ++ rest).takeWhile test = run ∧ (run ++ rest).dropWhile test = rest := by
  have hall : ∀ c ∈ run, test c = true := List.all_eq_true.mp hrun
  have htake : rest.takeWhile test = [] := takeWhile_append_of_head? hrest []
  have hdrop : rest.dropWhile test = rest := dropWhile_append_of_head? hrest []
  rw [List.takeWhile_append_of_pos hall, List.dropWhile_append_of_pos hall, htake, hdrop,
    List.append_nil]
  exact ⟨rfl, rfl⟩

end SoundLaw.Text
