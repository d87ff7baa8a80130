import SoundLaw.Proofs.Matrix.Variables
import SoundLaw.Proofs.Word.Slots
import SoundLaw.Rule

/-!
# What variables stand for

Replacing a variable in a well-formed matrix changes each of its entries where it stands: the entry
takes the captured value, is removed if that value is unset, or is left alone if nothing was
captured for its feature. When no captured value is itself a variable, the three variables are
replaced independently of one another, so an instance of a pattern is found entry by entry.

What a phone gives to the variables of some patterns does not depend on the order of the patterns.
-/

namespace SoundLaw

/-- What becomes of an entry when its feature is written. -/
def Feature.written (entry : Feature) (value : Quality) : Option Feature :=
  if value = .unset then none else some ⟨entry.name, value⟩

/-- What becomes of an entry when a variable is replaced by captured values. -/
def Feature.capture (pattern : Quality) (captured : List (String × Quality)) (entry : Feature) :
    Option Feature :=
  if entry.quality = pattern then
    match captured.lookup entry.name with
    | some value => entry.written value
    | none => some entry
  else some entry

namespace Feature

/-- An entry with another quality is left alone. -/
theorem capture_of_ne {pattern : Quality} {entry : Feature} (h : entry.quality ≠ pattern)
    (captured : List (String × Quality)) : entry.capture pattern captured = some entry :=
  if_neg h

/-- A value that is no variable is not replaced again. -/
theorem written_bind_capture {value pattern : Quality} (hvalue : value.isVariable = false)
    (hpattern : pattern.isVariable = true) (entry : Feature)
    (captured : List (String × Quality)) :
    (entry.written value).bind (·.capture pattern captured) = entry.written value := by
  unfold written
  split
  · rfl
  · refine capture_of_ne ?_ captured
    rintro rfl
    rw [hvalue] at hpattern
    cases hpattern

/-- What becomes of an entry keeps its name. -/
theorem name_of_capture {pattern : Quality} {captured : List (String × Quality)}
    {entry changed : Feature} (h : entry.capture pattern captured = some changed) :
    changed.name = entry.name := by
  unfold capture written at h
  split at h
  · split at h
    · split at h
      · cases h
      · cases h
        rfl
    · cases h
      rfl
  · cases h
    rfl

end Feature

namespace Matrix

/-- Overwriting passes over the entries of other features. -/
theorem overwrite_append_cons {before : List Feature} {entry : Feature}
    (hbefore : ∀ other ∈ before, other.name ≠ entry.name) (value : Quality)
    (after : List Feature) :
    overwrite entry.name value (before ++ entry :: after) =
      before ++ ⟨entry.name, value⟩ :: after := by
  induction before with
  | nil => simp [overwrite]
  | cons first rest ih =>
    rw [List.cons_append, overwrite, if_neg (hbefore first List.mem_cons_self),
      ih fun other hother => hbefore other (List.mem_cons_of_mem _ hother), List.cons_append]

/-- Writing to a feature changes its entry where it stands. -/
theorem put_append_cons {before : List Feature} {entry : Feature}
    (hbefore : ∀ other ∈ before, other.name ≠ entry.name) (value : Quality)
    (after : List Feature) :
    put ⟨before ++ entry :: after⟩ entry.name value =
      ⟨before ++ ((entry.written value).toList ++ after)⟩ := by
  unfold put Feature.written
  split
  · have herase : (before ++ entry :: after).eraseP (·.name == entry.name) = before ++ after := by
      rw [List.eraseP_append_right _ (by simpa using hbefore),
        List.eraseP_cons_of_pos (by simp)]
    rw [herase]
    rfl
  · rw [overwrite_append_cons hbefore]
    rfl

/-- One round of replacing a variable: the entry of one feature is written. -/
def substituteAt (pattern : Quality) (captured : List (String × Quality)) (result : Matrix)
    (entry : Feature) : Matrix :=
  if entry.quality = pattern then
    match captured.lookup entry.name with
    | some value => result.put entry.name value
    | none => result
  else result

/-- A round of replacing a variable changes the entry of its feature where it stands. -/
theorem substituteAt_append_cons {before : List Feature} {entry : Feature}
    (hbefore : ∀ other ∈ before, other.name ≠ entry.name) (pattern : Quality)
    (captured : List (String × Quality)) (after : List Feature) :
    substituteAt pattern captured ⟨before ++ entry :: after⟩ entry =
      ⟨before ++ ((entry.capture pattern captured).toList ++ after)⟩ := by
  unfold substituteAt Feature.capture
  split
  · split
    · exact put_append_cons hbefore _ after
    · rfl
  · rfl

/-- The rounds of replacing a variable change one entry after another. -/
theorem foldl_substituteAt (pattern : Quality) (captured : List (String × Quality))
    (before after : List Feature) (hdistinct : (after.map (·.name)).Nodup)
    (hbefore : ∀ entry ∈ after, ∀ other ∈ before, other.name ≠ entry.name) :
    after.foldl (substituteAt pattern captured) ⟨before ++ after⟩ =
      ⟨before ++ after.filterMap (·.capture pattern captured)⟩ := by
  induction after generalizing before with
  | nil => rfl
  | cons entry rest ih =>
    rw [List.map_cons, List.nodup_cons] at hdistinct
    have hothers : ∀ later ∈ rest,
        ∀ other ∈ before ++ (entry.capture pattern captured).toList, other.name ≠ later.name := by
      intro later hlater other hother
      rcases List.mem_append.mp hother with hold | hnew
      · exact hbefore later (List.mem_cons_of_mem _ hlater) other hold
      · rw [Feature.name_of_capture (Option.mem_toList.mp hnew)]
        intro heq
        exact hdistinct.1 (heq ▸ List.mem_map_of_mem hlater)
    have hchanged : (entry :: rest).filterMap (·.capture pattern captured) =
        (entry.capture pattern captured).toList ++
          rest.filterMap (·.capture pattern captured) := by
      cases hcapture : entry.capture pattern captured with
      | none => rw [List.filterMap_cons_none hcapture]; rfl
      | some changed => rw [List.filterMap_cons_some hcapture]; rfl
    rw [List.foldl_cons, substituteAt_append_cons (hbefore entry List.mem_cons_self),
      ← List.append_assoc, ih _ hdistinct.2 hothers, hchanged, List.append_assoc]

/-- Replacing a variable changes every entry where it stands. -/
theorem WellFormed.substitute_entries {m : Matrix} (hm : m.WellFormed) (pattern : Quality)
    (captured : List (String × Quality)) :
    (m.substitute pattern captured).entries = m.entries.filterMap (·.capture pattern captured) := by
  have hfold := foldl_substituteAt pattern captured [] m.entries hm.distinct
    fun _ _ _ hmem => absurd hmem List.not_mem_nil
  exact congrArg Matrix.entries hfold

/-- Whether a matrix marks a feature with a variable. -/
def marks (m : Matrix) (pattern : Quality) (name : String) : Bool :=
  m.entries.any fun entry => entry.quality == pattern && entry.name == name

end Matrix

namespace Captures

/-- The value that was captured for a variable on a feature. -/
def value? (captures : Captures) : Quality → String → Option Quality
  | .alpha, name => captures.alpha.lookup name
  | .beta, name => captures.beta.lookup name
  | .gamma, name => captures.gamma.lookup name
  | _, _ => none

/-- What becomes of an entry of a pattern when all variables are replaced. -/
def settle (captures : Captures) (entry : Feature) : Option Feature :=
  match captures.value? entry.quality entry.name with
  | some value => entry.written value
  | none => some entry

/-- No captured value is a variable itself. -/
def Closed (captures : Captures) : Prop :=
  ∀ pattern name value, captures.value? pattern name = some value → value.isVariable = false

/-- What an entry has become does not change when another variable is replaced. -/
theorem Closed.settle_bind_capture {captures : Captures} (hclosed : captures.Closed)
    {entry : Feature} {pattern : Quality} (hpattern : pattern.isVariable = true)
    (hne : entry.quality ≠ pattern) (captured : List (String × Quality)) :
    (captures.settle entry).bind (·.capture pattern captured) = captures.settle entry := by
  unfold settle
  split
  · next value hvalue =>
    exact Feature.written_bind_capture (hclosed _ _ value hvalue) hpattern entry captured
  · exact Feature.capture_of_ne hne captured

/-- Replacing the variables of an entry one after another is replacing the one that it has. -/
theorem Closed.capture_bind {captures : Captures} (hclosed : captures.Closed) (entry : Feature) :
    ((entry.capture .alpha captures.alpha).bind (·.capture .beta captures.beta)).bind
      (·.capture .gamma captures.gamma) = captures.settle entry := by
  obtain ⟨name, quality⟩ := entry
  cases quality with
  | alpha =>
    have hsettle : Feature.capture .alpha captures.alpha ⟨name, .alpha⟩ =
        captures.settle ⟨name, .alpha⟩ := if_pos rfl
    rw [hsettle, hclosed.settle_bind_capture rfl (by simp),
      hclosed.settle_bind_capture rfl (by simp)]
  | beta =>
    have hsettle : Feature.capture .beta captures.beta ⟨name, .beta⟩ =
        captures.settle ⟨name, .beta⟩ := if_pos rfl
    rw [Feature.capture_of_ne (by simp), Option.bind_some, hsettle,
      hclosed.settle_bind_capture rfl (by simp)]
  | gamma =>
    have hsettle : Feature.capture .gamma captures.gamma ⟨name, .gamma⟩ =
        captures.settle ⟨name, .gamma⟩ := if_pos rfl
    rw [Feature.capture_of_ne (by simp), Option.bind_some, Feature.capture_of_ne (by simp),
      Option.bind_some, hsettle]
  | _ => rfl

/-- An instance of a pattern is found entry by entry. -/
theorem Closed.instantiate_entries {captures : Captures} (hclosed : captures.Closed)
    {pattern : Matrix} (hpattern : pattern.WellFormed) :
    (captures.instantiate pattern).entries = pattern.entries.filterMap captures.settle := by
  have halpha := hpattern.substitute .alpha captures.alpha
  have hbeta := halpha.substitute .beta captures.beta
  rw [instantiate, hbeta.substitute_entries, halpha.substitute_entries,
    hpattern.substitute_entries, List.filterMap_filterMap, List.filterMap_filterMap]
  refine List.filterMap_congr fun entry _ => ?_
  rw [← Option.bind_assoc]
  exact hclosed.capture_bind entry

/-- What a phone gives to a variable: its own quality on the features that the pattern marks. -/
theorem lookup_ofPattern (variableMark : Quality) (source : Phone) (pattern : Matrix)
    (name : String) :
    (ofPattern variableMark source pattern).lookup name =
      if pattern.marks variableMark name then some (source.matrix.get name) else none := by
  unfold ofPattern Matrix.marks
  induction pattern.entries with
  | nil => rfl
  | cons entry rest ih =>
    rw [List.filter_cons, List.any_cons]
    by_cases hmark : (entry.quality == variableMark) = true
    · rw [if_pos hmark, List.map_cons, List.lookup_cons, ih, hmark, Bool.true_and,
        BEq.comm (a := entry.name)]
      cases hname : (name == entry.name) with
      | true => simp [eq_of_beq hname]
      | false => rfl
    · rw [if_neg hmark, ih, Bool.eq_false_iff.mpr hmark, Bool.false_and, Bool.false_or]

/-- What a phone gives to a variable of some patterns does not depend on their order. -/
theorem lookup_flatMap_ofPattern (variableMark : Quality) (source : Phone)
    (patterns : List Matrix) (name : String) :
    (patterns.flatMap (ofPattern variableMark source)).lookup name =
      if patterns.any (·.marks variableMark name) then some (source.matrix.get name)
      else none := by
  induction patterns with
  | nil => rfl
  | cons first rest ih =>
    rw [List.flatMap_cons, List.lookup_append, ih, lookup_ofPattern, List.any_cons]
    cases first.marks variableMark name <;> rfl

end Captures

/-- No phone of the word has a variable. -/
def Word.Literal (word : Word) : Prop :=
  ∀ phone ∈ word.phones, phone.matrix.hasVariables = false

namespace Rule

/-- The phone that gives a variable its values around an index. -/
def source? (rule : Rule) (word : Word) (index : Nat) : Quality → Option Phone
  | .alpha => word.phone? index
  | .beta => if index = 0 then none else word.phone? (index - 1)
  | .gamma => word.phone? (rule.afterFocus index)
  | _ => none

/-- A variable takes its values from a phone of the word. -/
theorem mem_phones_of_source? {rule : Rule} {word : Word} {index : Nat} {pattern : Quality}
    {phone : Phone} (h : rule.source? word index pattern = some phone) : phone ∈ word.phones := by
  cases pattern with
  | alpha => exact Word.mem_phones_of_phone? h
  | beta =>
    simp only [source?] at h
    split at h
    · cases h
    · exact Word.mem_phones_of_phone? h
  | gamma => exact Word.mem_phones_of_phone? h
  | _ => cases h

/-- The patterns that ask for the values of a variable. -/
def patternsOf (rule : Rule) : Quality → List Matrix
  | .alpha =>
    match rule.search with
    | some (.pattern search) => [search]
    | _ => []
  | .beta => rule.left.filterMap ContextEntry.pattern?
  | .gamma => rule.right.filterMap ContextEntry.pattern?
  | _ => []

/-- A variable takes the quality of its phone on the features that its patterns mark with it. -/
theorem value?_captures (rule : Rule) (word : Word) (index : Nat) (pattern : Quality)
    (name : String) :
    (rule.captures word index).value? pattern name =
      (rule.source? word index pattern).bind fun phone =>
        if (rule.patternsOf pattern).any (·.marks pattern name) then
          some (phone.matrix.get name)
        else none := by
  cases pattern with
  | alpha =>
    obtain ⟨kind, search, left, right, replacement⟩ := rule
    simp only [Captures.value?, captures, source?, patternsOf]
    rcases search with - | (search | literal)
    · cases word.phone? index <;> rfl
    · cases word.phone? index with
      | none => rfl
      | some phone => simp [Captures.lookup_ofPattern]
    · cases word.phone? index <;> rfl
  | beta =>
    simp only [Captures.value?, captures, source?, patternsOf]
    cases (if index = 0 then none else word.phone? (index - 1)) with
    | none => rfl
    | some phone => exact Captures.lookup_flatMap_ofPattern .beta phone _ name
  | gamma =>
    simp only [Captures.value?, captures, source?, patternsOf]
    cases word.phone? (rule.afterFocus index) with
    | none => rfl
    | some phone => exact Captures.lookup_flatMap_ofPattern .gamma phone _ name
  | _ => rfl

/-- In a word without variables no variable stands for another. -/
theorem captures_closed (rule : Rule) {word : Word} (hword : word.Literal) (index : Nat) :
    (rule.captures word index).Closed := by
  intro pattern name value hvalue
  rw [value?_captures] at hvalue
  obtain ⟨phone, hphone, hget⟩ := Option.bind_eq_some_iff.mp hvalue
  split at hget
  · cases hget
    exact Matrix.isVariable_get (hword phone (mem_phones_of_source? hphone)) name
  · cases hget

end Rule

end SoundLaw
