import SoundLaw.Proofs.Matrix.Qualities

/-!
# Major features and their dependents

When no dependent belongs to two classes and no major feature is itself a dependent, setting
features one after another keeps every class consistent: a dependent is present only where its major
feature is. The four ways in which a feature is set are told apart once; what they keep and what
they leave alone is then read off the qualities that each of them writes.
-/

namespace SoundLaw

namespace MajorClasses

/-- The dependents of a class are those that were added to it. -/
theorem mem_dependents_iff (classes : MajorClasses) (major dependent : String) :
    dependent ∈ classes.dependents major ↔ (major, dependent) ∈ classes.members := by
  simp [dependents]

/-- A class that has a dependent has a major feature. -/
theorem isMajor_of_mem_dependents {classes : MajorClasses} {major dependent : String}
    (h : dependent ∈ classes.dependents major) : classes.isMajor major = true := by
  rw [mem_dependents_iff] at h
  rw [isMajor, Bool.or_eq_true, List.any_eq_true]
  exact Or.inr ⟨_, h, beq_self_eq_true major⟩

/-- A feature is a dependent of the class that governs it. -/
theorem mem_dependents_of_governor {classes : MajorClasses} {major name : String}
    (h : classes.governor name = some major) : name ∈ classes.dependents major := by
  obtain ⟨member, hfind, rfl⟩ := Option.map_eq_some_iff.mp h
  have hname : member.2 = name := by simpa using List.find?_some hfind
  rw [mem_dependents_iff, ← hname]
  exact List.mem_reverse.mp (List.mem_of_find?_eq_some hfind)

/-- A feature that no class governs is no dependent. -/
theorem not_mem_dependents_of_governor {classes : MajorClasses} {name : String}
    (h : classes.governor name = none) (major : String) : name ∉ classes.dependents major := by
  rw [mem_dependents_iff]
  intro hmember
  have hnone := List.find?_eq_none.mp (Option.map_eq_none_iff.mp h) (major, name)
    (List.mem_reverse.mpr hmember)
  simp at hnone

/-- The features of the class to which a feature belongs, as major feature or as dependent; a
feature without a class stands alone. -/
def classOf (classes : MajorClasses) (name : String) : List String :=
  if classes.isMajor name then name :: classes.dependents name
  else
    match classes.governor name with
    | some major => major :: classes.dependents major
    | none => [name]

/-- The class of a major feature. -/
theorem classOf_of_isMajor {classes : MajorClasses} {name : String}
    (hname : classes.isMajor name = true) :
    classes.classOf name = name :: classes.dependents name :=
  if_pos hname

/-- The class of a dependent is the one that governs it. -/
theorem classOf_of_governor {classes : MajorClasses} {name major : String}
    (hname : classes.isMajor name = false) (hgovernor : classes.governor name = some major) :
    classes.classOf name = major :: classes.dependents major := by
  rw [classOf, hname, hgovernor]
  rfl

/-- A feature belongs to its class. -/
theorem mem_classOf (classes : MajorClasses) (name : String) : name ∈ classes.classOf name := by
  unfold classOf
  split
  · exact List.mem_cons_self
  · split
    · next major hgovernor => exact List.mem_cons_of_mem _ (mem_dependents_of_governor hgovernor)
    · exact List.mem_singleton_self name

/-- Classes that do not overlap. -/
structure Separated (classes : MajorClasses) : Prop where
  /-- A dependent belongs to one class. -/
  single : ∀ {major other dependent}, dependent ∈ classes.dependents major →
    dependent ∈ classes.dependents other → major = other
  /-- No major feature is a dependent. -/
  apart : ∀ {major dependent}, dependent ∈ classes.dependents major →
    classes.isMajor dependent = false

/-- A dependent is not the major feature of any class. -/
theorem Separated.ne {classes : MajorClasses} (hclasses : classes.Separated)
    {major dependent name : String} (hdependent : dependent ∈ classes.dependents major)
    (hname : classes.isMajor name = true) : dependent ≠ name := by
  rintro rfl
  rw [hclasses.apart hdependent] at hname
  cases hname

end MajorClasses

namespace Matrix

/-- What setting a feature to a value writes: a major feature that becomes present fills its
dependents, with any other value it clears them, a dependent that becomes present makes its major
feature present, and nothing else has consequences. -/
theorem set_cases (m : Matrix) (classes : MajorClasses) (name : String) {quality : Quality}
    (hquality : quality.isVariable = false) :
    (classes.isMajor name = true ∧ quality = .plus ∧
      m.set classes name quality = (m.put name .plus).fill (classes.dependents name)) ∨
    (classes.isMajor name = true ∧ quality ≠ .plus ∧
      m.set classes name quality = (m.put name quality).clear (classes.dependents name)) ∨
    (∃ major, classes.isMajor name = false ∧ quality = .plus ∧
      classes.governor name = some major ∧ m.set classes name quality =
        ((m.put name .plus).put major .plus).fill (classes.dependents major)) ∨
    (classes.isMajor name = false ∧ (quality = .plus → classes.governor name = none) ∧
      m.set classes name quality = m.put name quality) := by
  unfold set
  rw [if_neg (by simp [hquality])]
  cases hmajor : classes.isMajor name with
  | true =>
    rw [if_pos rfl]
    by_cases hplus : quality = .plus
    · rw [if_pos hplus, hplus]
      exact Or.inl ⟨rfl, rfl, rfl⟩
    · rw [if_neg hplus]
      exact Or.inr (Or.inl ⟨rfl, hplus, rfl⟩)
  | false =>
    rw [if_neg Bool.false_ne_true]
    by_cases hplus : quality = .plus
    · rw [if_pos hplus, hplus]
      cases hgovernor : classes.governor name with
      | some major => exact Or.inr (Or.inr (Or.inl ⟨major, rfl, rfl, rfl, rfl⟩))
      | none => exact Or.inr (Or.inr (Or.inr ⟨rfl, fun _ => rfl, rfl⟩))
    · rw [if_neg hplus]
      exact Or.inr (Or.inr (Or.inr ⟨rfl, fun h => absurd h hplus, rfl⟩))

/-- Filling makes no feature present. -/
theorem WellFormed.get_fill_eq_plus {m : Matrix} (hm : m.WellFormed) (names : List String)
    (name : String) : (m.fill names).get name = .plus ↔ m.get name = .plus := by
  rw [hm.get_fill]
  split
  · next h => simp [h.2]
  · rfl

/-- A dependent is present only where its major feature is. -/
def Propagated (classes : MajorClasses) (m : Matrix) : Prop :=
  ∀ major, ∀ dependent ∈ classes.dependents major, m.get dependent = .plus → m.get major = .plus

/-- The matrix that specifies nothing is consistent. -/
theorem propagated_empty (classes : MajorClasses) : Propagated classes empty := by
  intro major dependent _ hplus
  cases hplus

/-- Setting a feature to a value keeps a matrix consistent. -/
theorem Propagated.set {classes : MajorClasses} {m : Matrix} (hm : m.Propagated classes)
    (hwell : m.WellFormed) (hclasses : classes.Separated) (name : String) {quality : Quality}
    (hquality : quality.isVariable = false) : (m.set classes name quality).Propagated classes := by
  intro major dependent hdependent
  have hmajor := MajorClasses.isMajor_of_mem_dependents hdependent
  have hold := hm major dependent hdependent
  rcases m.set_cases classes name hquality with
    ⟨hname, rfl, hset⟩ | ⟨hname, hplus, hset⟩ | ⟨governor, hname, rfl, hgovernor, hset⟩ |
      ⟨hname, hgovernor, hset⟩
  · -- A major feature becomes present; it is not the dependent, which keeps its quality.
    have hne := hclasses.ne hdependent hname
    simp only [hset, (hwell.put name .plus).get_fill_eq_plus, hwell.get_put, if_neg hne]
    intro hplus
    split
    · rfl
    · exact hold hplus
  · -- A major feature clears its class, so the dependent belongs to another one.
    have hne := hclasses.ne hdependent hname
    have hclear : major ∉ classes.dependents name := fun h => hclasses.ne h hmajor rfl
    simp only [hset, (hwell.put name quality).get_clear, hwell.get_put, if_neg hne, if_neg hclear]
    intro hpresent
    split at hpresent
    · cases hpresent
    · next hother =>
      rw [if_neg (by rintro rfl; exact hother hdependent)]
      exact hold hpresent
  · -- A dependent becomes present, and its major feature with it.
    have hmember := MajorClasses.mem_dependents_of_governor hgovernor
    have hgoverning := MajorClasses.isMajor_of_mem_dependents hmember
    have hopened := (hwell.put name .plus).put governor .plus
    simp only [hset, hopened.get_fill_eq_plus, (hwell.put name .plus).get_put, hwell.get_put]
    intro hpresent
    by_cases hsame : major = governor
    · rw [if_pos hsame]
    · have hname' : dependent ≠ name := by
        rintro rfl
        exact hsame (hclasses.single hdependent hmember)
      rw [if_neg (hclasses.ne hdependent hgoverning), if_neg hname'] at hpresent
      rw [if_neg hsame, if_neg (hclasses.ne hmember hmajor).symm]
      exact hold hpresent
  · -- Nothing but the feature itself is written, and it is neither of the two.
    have hne : major ≠ name := by
      rintro rfl
      rw [hname] at hmajor
      cases hmajor
    simp only [hset, hwell.get_put, if_neg hne]
    intro hpresent
    split at hpresent
    · next heq =>
      subst heq
      exact absurd hdependent
        (MajorClasses.not_mem_dependents_of_governor (hgovernor hpresent) major)
    · exact hold hpresent

/-- A change by values keeps a matrix consistent. -/
theorem Propagated.transform {classes : MajorClasses} {m : Matrix} (hm : m.Propagated classes)
    (hwell : m.WellFormed) (hclasses : classes.Separated) {delta : Matrix}
    (hdelta : ∀ entry ∈ delta.entries, entry.quality.isVariable = false) :
    (m.transform classes delta).Propagated classes := by
  obtain ⟨entries⟩ := delta
  unfold Matrix.transform
  induction entries generalizing m with
  | nil => exact hm
  | cons entry rest ih =>
    rw [List.forall_mem_cons] at hdelta
    exact ih (hm.set hwell hclasses entry.name hdelta.1)
      (hwell.set classes entry.name entry.quality) hdelta.2

/-- A major feature that becomes present leaves none of its dependents unset. -/
theorem WellFormed.get_set_major_plus {m : Matrix} (hm : m.WellFormed) {classes : MajorClasses}
    {major dependent : String} (hdependent : dependent ∈ classes.dependents major) :
    (m.set classes major .plus).get dependent ≠ .unset := by
  have hmajor := MajorClasses.isMajor_of_mem_dependents hdependent
  have hset : m.set classes major .plus =
      (m.put major .plus).fill (classes.dependents major) := by
    simp [Matrix.set, Quality.isVariable, hmajor]
  rw [hset, (hm.put major .plus).get_fill]
  by_cases hunset : (m.put major .plus).get dependent = .unset
  · simp [hdependent, hunset]
  · simp [hunset]

/-- A major feature with any other value leaves all its dependents unset. -/
theorem WellFormed.get_set_major {m : Matrix} (hm : m.WellFormed) {classes : MajorClasses}
    {quality : Quality} (hquality : quality.isVariable = false) (hplus : quality ≠ .plus)
    {major dependent : String} (hdependent : dependent ∈ classes.dependents major) :
    (m.set classes major quality).get dependent = .unset := by
  have hmajor := MajorClasses.isMajor_of_mem_dependents hdependent
  have hset : m.set classes major quality =
      (m.put major quality).clear (classes.dependents major) := by
    simp [Matrix.set, hquality, hmajor, hplus]
  rw [hset, (hm.put major quality).get_clear, if_pos hdependent]

/-- Setting a feature to a value leaves every feature outside its class alone. -/
theorem WellFormed.get_set_of_not_mem_classOf {m : Matrix} (hm : m.WellFormed)
    {classes : MajorClasses} {name other : String} (hother : other ∉ classes.classOf name)
    {quality : Quality} (hquality : quality.isVariable = false) :
    (m.set classes name quality).get other = m.get other := by
  have hne : other ≠ name := by
    rintro rfl
    exact hother (classes.mem_classOf other)
  rcases m.set_cases classes name hquality with
    ⟨hname, rfl, hset⟩ | ⟨hname, -, hset⟩ | ⟨governor, hname, rfl, hgovernor, hset⟩ | ⟨-, -, hset⟩
  · rw [MajorClasses.classOf_of_isMajor hname, List.mem_cons, not_or] at hother
    rw [hset, (hm.put name .plus).get_fill, if_neg fun h => hother.2 h.1, hm.get_put, if_neg hne]
  · rw [MajorClasses.classOf_of_isMajor hname, List.mem_cons, not_or] at hother
    rw [hset, (hm.put name quality).get_clear, if_neg hother.2, hm.get_put, if_neg hne]
  · rw [MajorClasses.classOf_of_governor hname hgovernor, List.mem_cons, not_or] at hother
    have hopened := (hm.put name .plus).put governor .plus
    rw [hset, hopened.get_fill, if_neg fun h => hother.2 h.1, (hm.put name .plus).get_put,
      if_neg hother.1, hm.get_put, if_neg hne]
  · rw [hset, hm.get_put, if_neg hne]

end Matrix

end SoundLaw
