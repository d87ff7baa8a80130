import SoundLaw.Proofs.Matrix.Qualities

/-!
# Variables in a change

A variable has no place on a phone, but a change may write one. A variable that is written stays
until a later entry of the change writes over it: an entry of the same feature, a major feature that
clears its dependents, or a dependent that makes its major feature present. Filling never does so,
since a variable is not unset.

So what a change leaves behind on a matrix without variables is found by looking at the change
alone.
-/

namespace SoundLaw

/-- Whether setting an entry takes away a variable that stands on a feature. -/
def Feature.overwrites (classes : MajorClasses) (entry : Feature) (name : String) : Bool :=
  entry.name == name || !entry.quality.isVariable &&
    if classes.isMajor entry.name then
      entry.quality != .plus && (classes.dependents entry.name).contains name
    else entry.quality == .plus && classes.governor entry.name == some name

/-- Whether some variable of a change is still there when all its entries have been set. -/
def Feature.leaveVariable (classes : MajorClasses) : List Feature → Bool
  | [] => false
  | entry :: rest =>
    (entry.quality.isVariable && rest.all fun later => !later.overwrites classes entry.name) ||
      leaveVariable classes rest

/-- Entries without variables leave none. -/
theorem Feature.leaveVariable_eq_false (classes : MajorClasses) {entries : List Feature}
    (hentries : ∀ entry ∈ entries, entry.quality.isVariable = false) :
    leaveVariable classes entries = false := by
  induction entries with
  | nil => rfl
  | cons entry rest ih =>
    rw [leaveVariable, hentries entry List.mem_cons_self,
      ih fun other hother => hentries other (List.mem_cons_of_mem _ hother)]
    rfl

namespace Matrix

/-- Whether some variable of a change is still there when the change has been made. -/
def leavesVariable (delta : Matrix) (classes : MajorClasses) : Bool :=
  Feature.leaveVariable classes delta.entries

/-- A matrix has no variables exactly when no entry is one. -/
theorem hasVariables_eq_false_iff (m : Matrix) :
    m.hasVariables = false ↔ ∀ entry ∈ m.entries, entry.quality.isVariable = false := by
  simp [hasVariables]

/-- A change without variables leaves none. -/
theorem leavesVariable_eq_false (classes : MajorClasses) {delta : Matrix}
    (hdelta : delta.hasVariables = false) : delta.leavesVariable classes = false :=
  Feature.leaveVariable_eq_false classes (delta.hasVariables_eq_false_iff.mp hdelta)

/-- The quality of a feature is no variable when the matrix has none. -/
theorem isVariable_get {m : Matrix} (hm : m.hasVariables = false) (name : String) :
    (m.get name).isVariable = false := by
  by_cases hget : m.get name = .unset
  · rw [hget]
    rfl
  · exact m.hasVariables_eq_false_iff.mp hm _ (mem_entries_of_get hget)

/-- A well-formed matrix has variables exactly when the quality of some feature is one. -/
theorem WellFormed.hasVariables_iff {m : Matrix} (hm : m.WellFormed) :
    m.hasVariables = true ↔ ∃ name, (m.get name).isVariable = true := by
  rw [hasVariables, List.any_eq_true]
  constructor
  · rintro ⟨entry, hentry, hvariable⟩
    exact ⟨entry.name, by rw [hm.get_of_mem hentry, hvariable]⟩
  · rintro ⟨name, hvariable⟩
    have hset : m.get name ≠ .unset := by
      intro hunset
      rw [hunset] at hvariable
      cases hvariable
    exact ⟨_, mem_entries_of_get hset, hvariable⟩

/-- A matrix without its variables has none. -/
theorem hasVariables_withoutVariables (m : Matrix) : m.withoutVariables.hasVariables = false := by
  rw [hasVariables_eq_false_iff]
  intro entry hentry
  simpa using (List.mem_filter.mp hentry).2

/-- Filling neither brings a variable nor takes one away. -/
theorem WellFormed.isVariable_get_fill {m : Matrix} (hm : m.WellFormed) (names : List String)
    (other : String) : ((m.fill names).get other).isVariable = (m.get other).isVariable := by
  rw [hm.get_fill]
  split
  · next hunset =>
    rw [hunset.2]
    rfl
  · rfl

/-- After an entry has been written, the variables are the entry itself, if it is one, and those on
other features. -/
theorem WellFormed.isVariable_get_put {m : Matrix} (hm : m.WellFormed) (name : String)
    (quality : Quality) (other : String) :
    ((m.put name quality).get other).isVariable =
      if other == name then quality.isVariable else (m.get other).isVariable := by
  rw [hm.get_put]
  by_cases heq : other = name <;> simp [heq]

/-- After an entry has been set, the variables are the entry itself, if it is one, and those that it
has not taken away. -/
theorem WellFormed.isVariable_get_set {m : Matrix} (hm : m.WellFormed) (classes : MajorClasses)
    (entry : Feature) (other : String) :
    ((m.set classes entry.name entry.quality).get other).isVariable =
      ((entry.quality.isVariable && other == entry.name) ||
        ((m.get other).isVariable && !entry.overwrites classes other)) := by
  obtain ⟨name, quality⟩ := entry
  have hwritten := hm.put name quality
  have hput := hm.isVariable_get_put name quality other
  have hsame : (name == other) = (other == name) := BEq.comm
  unfold Matrix.set Feature.overwrites
  dsimp only
  rw [hsame]
  by_cases hvariable : quality.isVariable = true
  · rw [if_pos hvariable, hput, hvariable]
    cases (other == name) <;> simp
  rw [if_neg hvariable]
  rw [Bool.not_eq_true] at hvariable
  rw [hvariable] at hput ⊢
  by_cases hmajor : classes.isMajor name = true
  · rw [if_pos hmajor, if_pos hmajor]
    by_cases hplus : quality = .plus
    · -- A major feature that becomes present fills its dependents.
      rw [if_pos hplus, hwritten.isVariable_get_fill, hput]
      cases (other == name) <;> simp [hplus]
    · -- Any other value of a major feature clears them.
      rw [if_neg hplus, hwritten.get_clear]
      by_cases hdependent : other ∈ classes.dependents name
      · simp [hdependent, hplus, Quality.isVariable]
      · rw [if_neg hdependent, hput]
        cases (other == name) <;> simp [hdependent]
  · rw [if_neg hmajor, if_neg hmajor]
    by_cases hplus : quality = .plus
    · rw [if_pos hplus]
      cases hgovernor : classes.governor name with
      | none =>
        dsimp only
        rw [hput]
        cases (other == name) <;> simp
      | some major =>
        -- A dependent that becomes present makes its major feature present.
        have hopened := hwritten.put major .plus
        dsimp only
        rw [hopened.isVariable_get_fill, hwritten.isVariable_get_put, hput]
        have hgoverns : (some major == some other) = (other == major) := by
          rw [Option.some_beq_some, BEq.comm]
        rw [hgoverns]
        cases (other == name) <;> cases (other == major) <;> simp [hplus, Quality.isVariable]
    · rw [if_neg hplus, hput]
      cases (other == name) <;> simp [hplus]

/-- What is left of the variables when entries have been set one after another: those of the entries
that none of the later ones takes away, and those of the matrix that none of them takes away. -/
theorem WellFormed.exists_isVariable_foldl_set {m : Matrix} (hm : m.WellFormed)
    (classes : MajorClasses) (entries : List Feature) :
    (∃ name, ((entries.foldl (fun m entry => m.set classes entry.name entry.quality) m).get
        name).isVariable = true) ↔
      Feature.leaveVariable classes entries = true ∨
        ∃ name, (m.get name).isVariable = true ∧
          ∀ entry ∈ entries, entry.overwrites classes name = false := by
  induction entries generalizing m with
  | nil => simp [Feature.leaveVariable]
  | cons entry rest ih =>
    rw [List.foldl_cons, ih (hm.set classes entry.name entry.quality)]
    simp only [hm.isVariable_get_set, Feature.leaveVariable, Bool.or_eq_true, Bool.and_eq_true,
      List.all_eq_true, Bool.not_eq_true', beq_iff_eq, List.forall_mem_cons]
    constructor
    · rintro (hrest | ⟨name, ⟨hentry, rfl⟩ | ⟨hname, hkept⟩, hlater⟩)
      · exact Or.inl (Or.inr hrest)
      · exact Or.inl (Or.inl ⟨hentry, hlater⟩)
      · exact Or.inr ⟨name, hname, hkept, hlater⟩
    · rintro ((⟨hentry, hlater⟩ | hrest) | ⟨name, hname, hkept, hlater⟩)
      · exact Or.inr ⟨entry.name, Or.inl ⟨hentry, rfl⟩, hlater⟩
      · exact Or.inl hrest
      · exact Or.inr ⟨name, Or.inr ⟨hname, hkept⟩, hlater⟩

/-- A matrix without variables has variables after a change exactly when the change leaves one. -/
theorem WellFormed.hasVariables_transform {m : Matrix} (hm : m.WellFormed)
    (hliteral : m.hasVariables = false) (classes : MajorClasses) (delta : Matrix) :
    (m.transform classes delta).hasVariables = delta.leavesVariable classes := by
  have hnone : ¬ ∃ name, (m.get name).isVariable = true := by
    rw [← hm.hasVariables_iff, hliteral]
    exact Bool.false_ne_true
  rw [Bool.eq_iff_iff, (hm.transform classes delta).hasVariables_iff]
  refine (hm.exists_isVariable_foldl_set classes delta.entries).trans ?_
  refine or_iff_left ?_
  rintro ⟨name, hname, -⟩
  exact hnone ⟨name, hname⟩

end Matrix

end SoundLaw
