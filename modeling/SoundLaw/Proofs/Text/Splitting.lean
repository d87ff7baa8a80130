import SoundLaw.Eval.Expression
import SoundLaw.Proofs.Eval.Endings

/-!
# Joining undoes splitting

A text that is split at a separator is put together again by joining the parts with the separator,
whatever the occurrences look like: at the ends of the text, next to one another or overlapping, and
also for the empty separator. The other way round, parts are found again in what they are joined to
if none of them has a character of the separator, as an occurrence then neither starts inside a part
nor goes across its end.
-/

namespace SoundLaw

namespace Text

variable {separator : List Char}

/-- There is always a first part. -/
theorem splitAfter_ne_nil (separator : List Char) (skip : Nat) (text : List Char) :
    splitAfter separator skip text ≠ [] := by
  fun_induction splitAfter separator skip text with
  | case1 => exact List.cons_ne_nil _ _
  | case2 _ _ _ ih => exact ih
  | case3 => exact List.cons_ne_nil _ _
  | case4 => exact List.cons_ne_nil _ _
  | case5 => exact List.cons_ne_nil _ _

/-- The parts after an occurrence are those of the text behind it. -/
theorem splitAfter_eq_drop (separator : List Char) (skip : Nat) (text : List Char) :
    splitAfter separator skip text = splitAfter separator 0 (text.drop skip) := by
  induction text generalizing skip with
  | nil => rw [List.drop_nil, splitAfter, splitAfter]
  | cons c rest ih =>
    cases skip with
    | zero => rw [List.drop_zero]
    | succ skip => rw [splitAfter, ih, List.drop_succ_cons]

/-- A text that starts with the separator is cut there. -/
theorem splitAfter_append (hseparator : separator ≠ []) (rest : List Char) :
    splitAfter separator 0 (separator ++ rest) = [] :: splitAfter separator 0 rest := by
  cases separator with
  | nil => exact absurd rfl hseparator
  | cons first others =>
    have hstarts : (first :: others).isPrefixOf (first :: (others ++ rest)) = true :=
      List.isPrefixOf_iff_prefix.mpr (List.prefix_append (first :: others) rest)
    rw [List.cons_append, splitAfter, if_pos hstarts, splitAfter_eq_drop, List.length_cons,
      Nat.add_sub_cancel, List.drop_left]

/-- A character with which no occurrence starts belongs to the first part. -/
theorem splitAfter_cons {c : Char} {rest first : List Char} {others : List (List Char)}
    (hstarts : separator.isPrefixOf (c :: rest) = false)
    (hrest : splitAfter separator 0 rest = first :: others) :
    splitAfter separator 0 (c :: rest) = (c :: first) :: others := by
  rw [splitAfter, if_neg (Bool.eq_false_iff.mp hstarts), hrest]

/-- Characters that are not in the separator belong to the first part. -/
theorem splitAfter_append_of_not_mem (hseparator : separator ≠ []) {part rest first : List Char}
    {others : List (List Char)} (hpart : ∀ c ∈ part, c ∉ separator)
    (hrest : splitAfter separator 0 rest = first :: others) :
    splitAfter separator 0 (part ++ rest) = (part ++ first) :: others := by
  induction part with
  | nil => exact hrest
  | cons c part ih =>
    obtain ⟨hc, hpart⟩ := List.forall_mem_cons.mp hpart
    refine splitAfter_cons ?_ (ih hpart)
    cases separator with
    | nil => exact absurd rfl hseparator
    | cons d ds =>
      have hne : d ≠ c := fun heq => hc (heq ▸ List.mem_cons_self)
      simp [List.isPrefixOf, hne]

/-- The parts of a text, joined by the separator, are the text behind what was skipped. -/
theorem intercalate_splitAfter (hseparator : separator ≠ []) (skip : Nat) (text : List Char) :
    separator.intercalate (splitAfter separator skip text) = text.drop skip := by
  fun_induction splitAfter separator skip text with
  | case1 => rw [List.drop_nil, List.intercalate_singleton]
  | case2 c rest skip ih => exact ih
  | case3 c rest hstarts ih =>
    have hlength : separator.length = separator.length - 1 + 1 :=
      (Nat.sub_add_cancel (List.length_pos_iff.mpr hseparator)).symm
    have hbehind : (c :: rest).drop separator.length = rest.drop (separator.length - 1) := by
      rw [hlength, List.drop_succ_cons, Nat.add_sub_cancel]
    rw [List.intercalate_cons_of_ne_nil (splitAfter_ne_nil _ _ _), ih, ← hbehind]
    exact List.prefix_iff_eq_append.mp (List.isPrefixOf_iff_prefix.mp hstarts)
  | case4 c rest hstarts hnil ih => exact absurd hnil (splitAfter_ne_nil _ _ _)
  | case5 c rest hstarts first others hparts ih =>
    rw [hparts, List.drop_zero] at ih
    rw [List.drop_zero, ← ih]
    cases others with
    | nil => rw [List.intercalate_singleton, List.intercalate_singleton]
    | cons second others =>
      rw [List.intercalate_cons_cons, List.intercalate_cons_cons, List.cons_append,
        List.cons_append]

/-- Parts without a character of the separator are found again in what they are joined to. -/
theorem splitAfter_intercalate (hseparator : separator ≠ []) {parts : List (List Char)}
    (hparts : parts ≠ []) (hfree : ∀ part ∈ parts, ∀ c ∈ part, c ∉ separator) :
    splitAfter separator 0 (separator.intercalate parts) = parts := by
  induction parts with
  | nil => exact absurd rfl hparts
  | cons part others ih =>
    obtain ⟨hpart, hothers⟩ := List.forall_mem_cons.mp hfree
    cases others with
    | nil =>
      have hend : splitAfter separator 0 [] = [[]] := by rw [splitAfter]
      have hone := splitAfter_append_of_not_mem hseparator hpart hend
      rw [List.append_nil] at hone
      rw [List.intercalate_singleton, hone]
    | cons second others =>
      have hrest := splitAfter_append hseparator (separator.intercalate (second :: others))
      rw [ih (List.cons_ne_nil _ _) hothers] at hrest
      rw [List.intercalate_cons_cons, List.append_assoc,
        splitAfter_append_of_not_mem hseparator hpart hrest, List.append_nil]

/-- Nothing between the parts leaves the parts. -/
theorem intercalate_nil (parts : List (List Char)) :
    ([] : List Char).intercalate parts = parts.flatten := by
  induction parts with
  | nil => rfl
  | cons part others ih =>
    cases others with
    | nil => rw [List.intercalate_singleton, List.flatten_singleton]
    | cons second others =>
      rw [List.intercalate_cons_cons, ih, List.append_nil, ← List.flatten_cons]

/-- Joining the parts of a text gives the text. -/
theorem intercalate_splitOn (separator text : String) :
    separator.intercalate (splitOn separator text) = text := by
  have hparts (parts : List (List Char)) :
      (parts.map String.ofList).map String.toList = parts := by
    simp [Function.comp_def]
  rw [← String.toList_inj, String.toList_intercalate, splitOn, hparts, splitChars]
  split
  · next hempty =>
    have hsingle : (text.toList.map fun c => [c]).flatten = text.toList := by
      rw [← List.flatMap_def, List.flatMap_singleton']
    rw [List.isEmpty_iff.mp hempty, intercalate_nil, List.flatten_append, List.flatten_cons,
      hsingle, List.nil_append, List.flatten_singleton, List.append_nil]
  · next hseparator =>
    have hne : separator.toList ≠ [] := fun hnil => hseparator (List.isEmpty_iff.mpr hnil)
    exact intercalate_splitAfter hne 0 text.toList

/-- Splitting joined parts gives the parts, if they have no character of the separator. -/
theorem splitOn_intercalate {separator : String} (hseparator : separator ≠ "")
    {parts : List String} (hparts : parts ≠ [])
    (hfree : ∀ part ∈ parts, ∀ c ∈ part.toList, c ∉ separator.toList) :
    splitOn separator (separator.intercalate parts) = parts := by
  have hne : separator.toList ≠ [] := fun hnil => hseparator (String.toList_inj.mp hnil)
  have hempty : ¬ separator.toList.isEmpty = true := fun h => hne (List.isEmpty_iff.mp h)
  rw [splitOn, splitChars, if_neg hempty, String.toList_intercalate,
    splitAfter_intercalate hne (fun hnil => hparts (List.map_eq_nil_iff.mp hnil))
      (List.forall_mem_map.mpr hfree)]
  simp [Function.comp_def]

end Text

/-- The texts of texts are these texts. -/
theorem Evaluator.textsOf_texts (e : Evaluator) (env : Env) (s : State) (texts : List String) :
    e.textsOf (texts.map .text) env s = .done texts s := by
  induction texts with
  | nil => rfl
  | cons first rest ih =>
    have hfirst : e.textOf (.text first) env s = .done first s := rfl
    rw [List.map_cons, textsOf, Eval.bind_of_done hfirst, Eval.bind_of_done ih]
    rfl

namespace Method

variable (e : Evaluator) (env : Env) (s : State)

/-- Splitting a text at a separator gives its parts and changes nothing. -/
theorem run_split (text separator : String) :
    split.run e [.text text, .text separator] env s =
      .done (.vector ((Text.splitOn separator text).map .text)) s :=
  rfl

/-- Joining texts puts the separator between them and changes nothing. -/
theorem run_join (parts : List String) (separator : String) :
    join.run e [.vector (parts.map .text), .text separator] env s =
      .done (.text (separator.intercalate parts)) s :=
  Eval.bind_of_done (e.textsOf_texts _ s parts) _

/-- Joining undoes splitting. In every state a text that is split at any separator, the empty one
included, and joined by it again is that text. Some parts that are joined by a separator of at least
one character and split at it again are those parts, if none of them has a character of the
separator. Nothing is changed in either case. -/
theorem join_undoes_split :
    (∀ text separator : String,
      (do
        let parts ← split.run e [.text text, .text separator]
        join.run e [parts, .text separator] : Eval Value) env s = .done (.text text) s) ∧
    ∀ (separator : String) (parts : List String), separator ≠ "" → parts ≠ [] →
      (∀ part ∈ parts, ∀ c ∈ part.toList, c ∉ separator.toList) →
      (do
        let joined ← join.run e [.vector (parts.map .text), .text separator]
        split.run e [joined, .text separator] : Eval Value) env s =
          .done (.vector (parts.map .text)) s := by
  constructor
  · intro text separator
    rw [Eval.bind_of_done (run_split e env s text separator), run_join,
      Text.intercalate_splitOn]
  · intro separator parts hseparator hparts hfree
    rw [Eval.bind_of_done (run_join e env s parts separator), run_split,
      Text.splitOn_intercalate hseparator hparts hfree]

/-- Occurrences of a separator that overlap and stand at the end of a text, and parts of which two
are empty. -/
theorem join_undoes_split_overlapping :
    let e : Evaluator := ⟨1, evaluate [] 1, invoke [] 1, textWithin [] 1⟩
    let env : Env := ⟨.empty, []⟩
    let s : State := ⟨⟨#[⟨[], none⟩], #[], #[], #[], 0⟩, [], false, #[]⟩
    let parts : List String := ["", "b", ""]
    Text.splitOn "aa" "aaabaa" = ["", "ab", ""] ∧
      (do
        let parts ← split.run e [.text "aaabaa", .text "aa"]
        join.run e [parts, .text "aa"] : Eval Value) env s = .done (.text "aaabaa") s ∧
      "aa".intercalate parts = "aabaa" ∧
      (∀ part ∈ parts, ∀ c ∈ part.toList, c ∉ "aa".toList) ∧
      (do
        let joined ← join.run e [.vector (parts.map .text), .text "aa"]
        split.run e [joined, .text "aa"] : Eval Value) env s =
          .done (.vector (parts.map .text)) s := by
  intro e env s parts
  obtain ⟨hsplit, hjoin⟩ := join_undoes_split e env s
  have hfree : ∀ part ∈ parts, ∀ c ∈ part.toList, c ∉ "aa".toList := by simp [parts]
  exact ⟨by decide, hsplit _ _, by decide, hfree,
    hjoin "aa" parts (by decide) (List.cons_ne_nil _ _) hfree⟩

end Method

end SoundLaw
