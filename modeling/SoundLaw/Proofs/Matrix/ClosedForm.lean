import SoundLaw.Proofs.Matrix.Effect
import SoundLaw.Proofs.Matrix.Propagation
import SoundLaw.Proofs.Matrix.Variables

/-!
# The closed form of a change

A change is replayed entry by entry, and an entry may undo an earlier one. It does not when the
change itself comes of setting features one after another, in classes that do not overlap. Such a
change has a dependent present only where its major feature is, and a dependent stands before its
major feature only where that one is present. What it does to a feature is then read off its
qualities: the feature takes the quality that the change specifies; if there is none, the value that
the change gives to the major feature decides.

So the order of the entries does not show in what such a change does.
-/

namespace SoundLaw

namespace Matrix

/-- The matrix that comes of setting features one after another. -/
def ofChanges (classes : MajorClasses) (changes : List Feature) : Matrix :=
  changes.foldl (fun m change => m.set classes change.name change.quality) .empty

/-- What a change is asked to do to a feature: to give it the quality that the change specifies, or
else to follow its major feature, which fills it when it becomes present and clears it with any
other value. -/
def demand (delta : Matrix) (classes : MajorClasses) (name : String) : Effect :=
  if delta.get name ≠ .unset then .write (delta.get name)
  else
    match (classes.governor name).map delta.get with
    | some .plus => .fill
    | some .minus | some .any => .write .unset
    | _ => .keep

/-- A dependent stands before its major feature only where that one is present. -/
def Ordered (classes : MajorClasses) (m : Matrix) : Prop :=
  m.entries.Pairwise fun earlier later =>
    earlier.name ∈ classes.dependents later.name → later.quality = .plus

/-- A relation between entries that does not look at the quality of the earlier one is kept when an
entry is overwritten, if the entries of other features are related to the new one. -/
theorem pairwise_overwrite {related : Feature → Feature → Prop}
    (hname : ∀ a b c : Feature, a.name = b.name → related a c → related b c) {name : String}
    {quality : Quality} {entries : List Feature} (hentries : entries.Pairwise related)
    (hnew : ∀ entry ∈ entries, entry.name ≠ name → related entry ⟨name, quality⟩) :
    (overwrite name quality entries).Pairwise related := by
  induction entries with
  | nil => exact List.pairwise_singleton _ _
  | cons first rest ih =>
    rw [List.pairwise_cons] at hentries
    rw [List.forall_mem_cons] at hnew
    rw [overwrite]
    split
    · next heq =>
      rw [List.pairwise_cons]
      exact ⟨fun later hlater => hname _ _ _ heq (hentries.1 later hlater), hentries.2⟩
    · next hne =>
      rw [List.pairwise_cons]
      refine ⟨fun later hlater => ?_, ih hentries.2 hnew.2⟩
      rcases mem_overwrite hlater with rfl | hold
      · exact hnew.1 hne
      · exact hentries.1 later hold

/-- Writing an entry keeps such a relation, also when the entry is removed. -/
theorem pairwise_put {related : Feature → Feature → Prop}
    (hname : ∀ a b c : Feature, a.name = b.name → related a c → related b c) {m : Matrix}
    {name : String} {quality : Quality} (hm : m.entries.Pairwise related)
    (hnew : ∀ entry ∈ m.entries, entry.name ≠ name → related entry ⟨name, quality⟩) :
    (m.put name quality).entries.Pairwise related := by
  unfold put
  split
  · exact hm.sublist List.eraseP_sublist
  · exact pairwise_overwrite hname hm hnew

/-- Clearing only removes entries. -/
theorem clear_sublist (m : Matrix) (names : List String) :
    (m.clear names).entries.Sublist m.entries := by
  induction names generalizing m with
  | nil => exact List.Sublist.refl _
  | cons name rest ih =>
    have hput : (m.put name .unset).entries.Sublist m.entries := List.eraseP_sublist
    exact (ih (m.put name .unset)).trans hput

section

variable {classes : MajorClasses} {m : Matrix}

/-- Writing an entry keeps the order if its feature becomes present or has no dependents. -/
theorem Ordered.put (hm : m.Ordered classes) {name : String} {quality : Quality}
    (h : quality = .plus ∨ classes.isMajor name = false) :
    (m.put name quality).Ordered classes := by
  refine pairwise_put (fun _ _ _ heq hrelated hmem => hrelated (heq ▸ hmem)) hm ?_
  intro entry _ _ hdependent
  rcases h with hplus | hmajor
  · exact hplus
  · rw [MajorClasses.isMajor_of_mem_dependents hdependent] at hmajor
    cases hmajor

/-- Filling features that are no major ones keeps the order. -/
theorem Ordered.fill (hm : m.Ordered classes) {names : List String}
    (hnames : ∀ name ∈ names, classes.isMajor name = false) : (m.fill names).Ordered classes := by
  induction names generalizing m with
  | nil => exact hm
  | cons name rest ih =>
    rw [List.forall_mem_cons] at hnames
    rw [Matrix.fill, List.foldl_cons]
    split
    · exact ih (hm.put (Or.inr hnames.1)) hnames.2
    · exact ih hm hnames.2

/-- Clearing the dependents of a feature makes up for writing to it: none of them is left to stand
before it. -/
theorem Ordered.put_clear (hm : m.Ordered classes) (hwell : m.WellFormed) (name : String)
    (quality : Quality) :
    ((m.put name quality).clear (classes.dependents name)).Ordered classes := by
  have hput : (m.put name quality).entries.Pairwise fun earlier later =>
      earlier.name ∈ classes.dependents later.name → later.quality = .plus ∨ later.name = name := by
    refine pairwise_put (fun _ _ _ heq hrelated hmem => hrelated (heq ▸ hmem)) ?_ ?_
    · exact hm.imp fun hrelated hmem => Or.inl (hrelated hmem)
    · exact fun _ _ _ _ => Or.inr rfl
  have hwritten := hwell.put name quality
  have hcleared := hwritten.clear (classes.dependents name)
  refine (hput.sublist (clear_sublist _ _)).imp_of_mem ?_
  intro earlier later hearlier _ hrelated hdependent
  refine (hrelated hdependent).resolve_right ?_
  intro heq
  rw [heq] at hdependent
  have hunset := hwritten.get_clear (classes.dependents name) earlier.name
  rw [if_pos hdependent, hcleared.get_of_mem hearlier] at hunset
  exact hcleared.specified earlier hearlier hunset

/-- Setting a feature to a value keeps the order. -/
theorem Ordered.set (hm : m.Ordered classes) (hwell : m.WellFormed) (hclasses : classes.Separated)
    (name : String) {quality : Quality} (hquality : quality.isVariable = false) :
    (m.set classes name quality).Ordered classes := by
  rcases m.set_cases classes name hquality with
    ⟨-, rfl, hset⟩ | ⟨-, -, hset⟩ | ⟨governor, -, rfl, -, hset⟩ | ⟨hname, -, hset⟩
  · rw [hset]
    exact (hm.put (Or.inl rfl)).fill fun _ hdependent => hclasses.apart hdependent
  · rw [hset]
    exact hm.put_clear hwell name quality
  · rw [hset]
    exact ((hm.put (Or.inl rfl)).put (Or.inl rfl)).fill fun _ hdependent =>
      hclasses.apart hdependent
  · rw [hset]
    exact hm.put (Or.inr hname)

/-- A change by values keeps the order. -/
theorem Ordered.transform (hm : m.Ordered classes) (hwell : m.WellFormed)
    (hclasses : classes.Separated) {delta : Matrix}
    (hdelta : ∀ entry ∈ delta.entries, entry.quality.isVariable = false) :
    (m.transform classes delta).Ordered classes := by
  obtain ⟨entries⟩ := delta
  unfold Matrix.transform
  induction entries generalizing m with
  | nil => exact hm
  | cons entry rest ih =>
    rw [List.forall_mem_cons] at hdelta
    exact ih (hm.set hwell hclasses entry.name hdelta.1)
      (hwell.set classes entry.name entry.quality) hdelta.2

end

end Matrix

namespace Feature

section

variable {classes : MajorClasses} (hclasses : classes.Separated) {entry : Feature}
  (hliteral : entry.quality.isVariable = false)
include hclasses hliteral

/-- In classes that do not overlap an entry writes to its own feature, fills or clears its
dependents, and makes the feature that governs it present when it becomes present itself. -/
theorem effect_eq (name : String) : entry.effect classes name =
    if name = entry.name then .write entry.quality
    else if name ∈ classes.dependents entry.name then
      if entry.quality = .plus then .fill else .write .unset
    else if entry.quality = .plus then
      match classes.governor entry.name with
      | some major =>
        if name = major then .write .plus
        else if name ∈ classes.dependents major then .fill else .keep
      | none => .keep
    else .keep := by
  unfold effect
  dsimp only
  rw [if_neg (by simp [hliteral])]
  cases hmajor : classes.isMajor entry.name with
  | true =>
    have hown : entry.name ∉ classes.dependents entry.name := fun h => hclasses.ne h hmajor rfl
    have hgovernor : classes.governor entry.name = none := by
      cases hgovernor : classes.governor entry.name with
      | none => rfl
      | some major =>
        exact absurd rfl (hclasses.ne (MajorClasses.mem_dependents_of_governor hgovernor) hmajor)
    by_cases hname : name = entry.name
    · simp [hname, hown, Effect.ofPut, Effect.ofFill, Effect.ofClear, Effect.andThen]
    · by_cases hdependent : name ∈ classes.dependents entry.name <;>
        simp [hname, hdependent, hgovernor, Effect.ofPut, Effect.ofFill, Effect.ofClear,
          Effect.andThen]
  | false =>
    have hnone : name ∉ classes.dependents entry.name := by
      intro h
      rw [MajorClasses.isMajor_of_mem_dependents h] at hmajor
      cases hmajor
    by_cases hplus : entry.quality = .plus
    · cases hgovernor : classes.governor entry.name with
      | none => simp [hplus, hnone, Effect.ofPut]
      | some major =>
        have hmember := MajorClasses.mem_dependents_of_governor hgovernor
        have hopen := MajorClasses.isMajor_of_mem_dependents hmember
        have hown : major ∉ classes.dependents major := fun h => hclasses.ne h hopen rfl
        by_cases hname : name = entry.name
        · have hne : entry.name ≠ major := hclasses.ne hmember hopen
          simp [hname, hplus, hne, hmember, Effect.ofPut, Effect.ofFill, Effect.andThen, Effect.on]
        · by_cases heq : name = major
          · subst heq
            simp [hname, hplus, hnone, hown, Effect.ofPut, Effect.ofFill, Effect.andThen]
          · by_cases hdependent : name ∈ classes.dependents major <;>
              simp [hname, hplus, hnone, heq, hdependent, Effect.ofPut, Effect.ofFill,
                Effect.andThen]
    · simp [hplus, hnone, Effect.ofPut]

/-- An entry writes its quality to its own feature. -/
theorem effect_self : entry.effect classes entry.name = .write entry.quality := by
  rw [effect_eq hclasses hliteral, if_pos rfl]

/-- What an entry does to another feature: nothing, unless one of the two governs the other or they
have one class. -/
theorem effect_cases {name : String} (hne : name ≠ entry.name) :
    entry.effect classes name = .keep ∨
    (entry.effect classes name = .fill ∧ entry.quality = .plus ∧
      ∃ major, name ∈ classes.dependents major ∧
        (entry.name = major ∨ entry.name ∈ classes.dependents major)) ∨
    (entry.effect classes name = .write .unset ∧ entry.quality ≠ .plus ∧
      name ∈ classes.dependents entry.name) ∨
    (entry.effect classes name = .write .plus ∧ entry.quality = .plus ∧
      entry.name ∈ classes.dependents name) := by
  rw [effect_eq hclasses hliteral, if_neg hne]
  by_cases hdependent : name ∈ classes.dependents entry.name
  · rw [if_pos hdependent]
    by_cases hplus : entry.quality = .plus
    · rw [if_pos hplus]
      exact Or.inr (Or.inl ⟨rfl, hplus, entry.name, hdependent, Or.inl rfl⟩)
    · rw [if_neg hplus]
      exact Or.inr (Or.inr (Or.inl ⟨rfl, hplus, hdependent⟩))
  · rw [if_neg hdependent]
    by_cases hplus : entry.quality = .plus
    · rw [if_pos hplus]
      cases hgovernor : classes.governor entry.name with
      | none => exact Or.inl rfl
      | some major =>
        have hmember := MajorClasses.mem_dependents_of_governor hgovernor
        by_cases heq : name = major
        · subst heq
          exact Or.inr (Or.inr (Or.inr ⟨if_pos rfl, hplus, hmember⟩))
        · by_cases hsibling : name ∈ classes.dependents major
          · refine Or.inr (Or.inl ⟨?_, hplus, major, hsibling, Or.inr hmember⟩)
            simp [heq, hsibling]
          · simp [heq, hsibling]
    · rw [if_neg hplus]
      exact Or.inl rfl

end

end Feature

namespace Matrix

/-- A feature that is unset is named by no entry. -/
theorem WellFormed.name_ne_of_unset {m : Matrix} (hm : m.WellFormed) {name : String}
    (hname : m.get name = .unset) {entry : Feature} (hentry : entry ∈ m.entries) :
    name ≠ entry.name := by
  rintro rfl
  rw [hm.get_of_mem hentry] at hname
  exact hm.specified entry hentry hname

/-- A change whose entries do not undo one another. -/
structure Harmonious (classes : MajorClasses) (delta : Matrix) : Prop where
  wellFormed : delta.WellFormed
  /-- No entry is a variable. -/
  literal : ∀ entry ∈ delta.entries, entry.quality.isVariable = false
  /-- A dependent is present only where its major feature is. -/
  propagated : delta.Propagated classes
  /-- A dependent stands before its major feature only where that one is present. -/
  ordered : delta.Ordered classes

/-- What comes of setting features to values is a change whose entries do not undo one another. -/
theorem harmonious_ofChanges {classes : MajorClasses} (hclasses : classes.Separated)
    {changes : List Feature} (hchanges : ∀ change ∈ changes, change.quality.isVariable = false) :
    (ofChanges classes changes).Harmonious classes := by
  have hempty := WellFormed.empty
  have hnone := leavesVariable_eq_false classes ((hasVariables_eq_false_iff ⟨changes⟩).mpr hchanges)
  have hliteral := hempty.hasVariables_transform rfl classes ⟨changes⟩
  rw [hnone] at hliteral
  exact {
    wellFormed := hempty.transform classes ⟨changes⟩
    literal := (hasVariables_eq_false_iff _).mp hliteral
    propagated := (propagated_empty classes).transform hempty hclasses hchanges
    ordered := Ordered.transform List.Pairwise.nil hempty hclasses hchanges }

section

variable {classes : MajorClasses} (hclasses : classes.Separated) {delta : Matrix}
  (hdelta : delta.Harmonious classes)
include hclasses hdelta

/-- A quality that the change specifies is written, and no later entry changes it. -/
theorem Harmonious.effect_of_specified {name : String} (hname : delta.get name ≠ .unset) :
    delta.effect classes name = .write (delta.get name) := by
  have hmem := mem_entries_of_get hname
  obtain ⟨before, after, hsplit⟩ := List.append_of_mem hmem
  have hself := Feature.effect_self hclasses (hdelta.literal _ hmem)
  rw [effect, hsplit, List.map_append, List.map_cons, hself]
  refine Effect.total_eq_write _ (List.forall_mem_map.mpr fun later hlater => ?_)
  have hentry : later ∈ delta.entries := by
    rw [hsplit]
    exact List.mem_append_right _ (List.mem_cons_of_mem _ hlater)
  have hdistinct := hdelta.wellFormed.distinct
  have hordered := hdelta.ordered
  rw [Ordered] at hordered
  rw [hsplit, List.pairwise_append, List.pairwise_cons] at hordered
  rw [hsplit, List.map_append, List.map_cons] at hdistinct
  have hne : name ≠ later.name := by
    intro heq
    have hnodup := (List.nodup_append.mp hdistinct).2.1
    exact (List.nodup_cons.mp hnodup).1 (List.mem_map.mpr ⟨later, hlater, heq.symm⟩)
  rcases Feature.effect_cases hclasses (hdelta.literal later hentry) hne with
    hkeep | ⟨hfill, -⟩ | ⟨-, hquality, hdependent⟩ | ⟨hwrite, hplus, hdependent⟩
  · rw [hkeep]
    rfl
  · rw [hfill, Effect.on, if_neg hname]
  · -- The major feature would come after its dependent without being present.
    exact absurd (hordered.2.1.1 later hlater hdependent) hquality
  · -- The dependent is present, so the change has its major feature present too.
    have hpresent := hdelta.propagated name later.name hdependent
      ((hdelta.wellFormed.get_of_mem hentry).trans hplus)
    rw [hwrite, hpresent]
    rfl

/-- What an entry does to a dependent that it does not name depends on the major feature alone. -/
theorem Harmonious.effect_of_governor {name major : String}
    (hgovernor : classes.governor name = some major) {entry : Feature}
    (hentry : entry ∈ delta.entries) (hne : name ≠ entry.name) :
    entry.effect classes name = .keep ∨
    (entry.effect classes name = .fill ∧ delta.get major = .plus) ∨
    (entry.effect classes name = .write .unset ∧ delta.get major ≠ .plus ∧
      delta.get major ≠ .unset) := by
  have hmember := MajorClasses.mem_dependents_of_governor hgovernor
  have hget := hdelta.wellFormed.get_of_mem hentry
  rcases Feature.effect_cases hclasses (hdelta.literal entry hentry) hne with
    hkeep | ⟨hfill, hplus, other, hother, hclass⟩ | ⟨hwrite, hquality, hdependent⟩ |
      ⟨-, -, hdependent⟩
  · exact Or.inl hkeep
  · rw [hclasses.single hother hmember] at hclass
    rw [hplus] at hget
    rcases hclass with heq | hsibling
    · exact Or.inr (Or.inl ⟨hfill, heq ▸ hget⟩)
    · exact Or.inr (Or.inl ⟨hfill, hdelta.propagated major entry.name hsibling hget⟩)
  · rw [hclasses.single hdependent hmember] at hget
    rw [hget]
    exact Or.inr (Or.inr ⟨hwrite, hquality, hdelta.wellFormed.specified entry hentry⟩)
  · exact absurd rfl
      (hclasses.ne hmember (MajorClasses.isMajor_of_mem_dependents hdependent))

/-- The major feature of a dependent that the change leaves open fills it or clears it. -/
theorem Harmonious.effect_of_unset {name major : String} (hname : delta.get name = .unset)
    (hgovernor : classes.governor name = some major) :
    delta.effect classes name =
      if delta.get major = .plus then .fill
      else if delta.get major = .unset then .keep else .write .unset := by
  have hmember := MajorClasses.mem_dependents_of_governor hgovernor
  have hcases {entry : Feature} (hentry : entry ∈ delta.entries) :=
    hdelta.effect_of_governor hclasses hgovernor hentry
      (hdelta.wellFormed.name_ne_of_unset hname hentry)
  -- What the entry of the major feature does, if there is one.
  have hmajor (hset : delta.get major ≠ .unset) :
      (if delta.get major = .plus then Effect.fill else .write .unset) ∈
        delta.entries.map fun entry => entry.effect classes name := by
    have hentry := mem_entries_of_get hset
    have hne := hdelta.wellFormed.name_ne_of_unset hname hentry
    refine List.mem_map.mpr ⟨_, hentry, ?_⟩
    rw [Feature.effect_eq hclasses (hdelta.literal _ hentry), if_neg hne, if_pos hmember]
  by_cases hplus : delta.get major = .plus
  · have hfilling := hmajor (by simp [hplus])
    rw [if_pos hplus] at hfilling ⊢
    refine Effect.total_eq_fill hfilling (List.forall_mem_map.mpr fun entry hentry => ?_)
    rcases hcases hentry with hkeep | ⟨hfill, -⟩ | ⟨-, hother, -⟩
    · exact Or.inl hkeep
    · exact Or.inr hfill
    · exact absurd hplus hother
  · rw [if_neg hplus]
    by_cases hset : delta.get major = .unset
    · rw [if_pos hset]
      refine Effect.total_eq_keep (List.forall_mem_map.mpr fun entry hentry => ?_)
      rcases hcases hentry with hkeep | ⟨-, hother⟩ | ⟨-, -, hother⟩
      · exact hkeep
      · exact absurd hother hplus
      · exact absurd hset hother
    · have hclearing := hmajor hset
      rw [if_neg hplus] at hclearing
      rw [if_neg hset]
      refine Effect.total_eq_write_of_mem hclearing (List.forall_mem_map.mpr fun entry hentry => ?_)
      rcases hcases hentry with hkeep | ⟨-, hother⟩ | ⟨hwrite, -⟩
      · rw [hkeep]
        rfl
      · exact absurd hother hplus
      · rw [hwrite]
        rfl

/-- A feature that no class governs is left alone where the change leaves it open. -/
theorem Harmonious.effect_of_ungoverned {name : String} (hname : delta.get name = .unset)
    (hgovernor : classes.governor name = none) : delta.effect classes name = .keep := by
  have hnone := MajorClasses.not_mem_dependents_of_governor hgovernor
  refine Effect.total_eq_keep (List.forall_mem_map.mpr fun entry hentry => ?_)
  have hget := hdelta.wellFormed.get_of_mem hentry
  have hne := hdelta.wellFormed.name_ne_of_unset hname hentry
  rcases Feature.effect_cases hclasses (hdelta.literal entry hentry) hne with
    hkeep | ⟨-, -, major, hmember, -⟩ | ⟨-, -, hmember⟩ | ⟨-, hplus, hdependent⟩
  · exact hkeep
  · exact absurd hmember (hnone major)
  · exact absurd hmember (hnone entry.name)
  · rw [hdelta.propagated name entry.name hdependent (hget.trans hplus)] at hname
    cases hname

/-- The entries of such a change, replayed one after another, do what the change is asked to do. -/
theorem Harmonious.effect_eq_demand (name : String) :
    delta.effect classes name = delta.demand classes name := by
  unfold demand
  by_cases hname : delta.get name = .unset
  · rw [if_neg (not_not_intro hname)]
    cases hgovernor : classes.governor name with
    | none => exact hdelta.effect_of_ungoverned hclasses hname hgovernor
    | some major =>
      rw [hdelta.effect_of_unset hclasses hname hgovernor, Option.map_some]
      cases hmajor : delta.get major with
      | alpha | beta | gamma =>
        have hliteral := isVariable_get ((hasVariables_eq_false_iff _).mpr hdelta.literal) major
        rw [hmajor] at hliteral
        cases hliteral
      | _ => rfl
  · rw [if_pos hname]
    exact hdelta.effect_of_specified hclasses hname

/-- Such a change does to every matrix what it is asked to do. -/
theorem Harmonious.get_transform {m : Matrix} (hm : m.WellFormed) (name : String) :
    (m.transform classes delta).get name = (delta.demand classes name).on (m.get name) := by
  rw [hm.get_transform_eq_on, hdelta.effect_eq_demand hclasses]

/-- A matrix has the features of such a change when the change has been made. -/
theorem Harmonious.hasFeatures_transform {m : Matrix} (hm : m.WellFormed) :
    (m.transform classes delta).hasFeatures delta = true := by
  apply List.all_eq_true.mpr
  intro entry hentry
  have hmem := (List.mem_filter.mp hentry).1
  have hquality := hdelta.wellFormed.get_of_mem hmem
  have hset : delta.get entry.name ≠ .unset := by
    rw [hquality]
    exact hdelta.wellFormed.specified entry hmem
  rw [beq_iff_eq, hdelta.get_transform hclasses hm, demand, if_pos hset, hquality]
  rfl

/-- Two such changes that are the same have the same outcome. -/
theorem Harmonious.transform_beq {m : Matrix} (hm : m.WellFormed) {other : Matrix}
    (hother : other.Harmonious classes) (hsame : (delta == other) = true) :
    (m.transform classes delta == m.transform classes other) = true := by
  rw [hdelta.wellFormed.beq_iff_get hother.wellFormed] at hsame
  rw [(hm.transform classes delta).beq_iff_get (hm.transform classes other)]
  intro name
  have hdemand : delta.demand classes name = other.demand classes name := by
    rw [demand, demand, hsame, funext hsame]
  rw [hdelta.get_transform hclasses hm, hother.get_transform hclasses hm, hdemand]

end

/-- The closed form of a change, for classes that do not overlap and a change that comes of setting
features one after another. A feature takes the quality that the change specifies. Otherwise it
becomes absent, if it was unset, where the change has its major feature present, it becomes unset
where the change gives any other value to its major feature, and it stays as it is everywhere else.
So the changed matrix has the features of the change, and changes that are the same have the same
outcome, whatever the order of their entries. -/
theorem WellFormed.transform_ofChanges {m : Matrix} (hm : m.WellFormed) {classes : MajorClasses}
    (hclasses : classes.Separated) {changes : List Feature}
    (hchanges : ∀ change ∈ changes, change.quality.isVariable = false) :
    let delta := ofChanges classes changes
    (∀ name, (m.transform classes delta).get name =
      if delta.get name ≠ .unset then delta.get name
      else
        match (classes.governor name).map delta.get with
        | some .plus => if m.get name = .unset then .minus else m.get name
        | some .minus | some .any => .unset
        | _ => m.get name) ∧
    (m.transform classes delta).hasFeatures delta = true ∧
    ∀ others : List Feature, (∀ change ∈ others, change.quality.isVariable = false) →
      (delta == ofChanges classes others) = true →
        (m.transform classes delta == m.transform classes (ofChanges classes others)) = true := by
  intro delta
  have hdelta : delta.Harmonious classes := harmonious_ofChanges hclasses hchanges
  refine ⟨?_, hdelta.hasFeatures_transform hclasses hm, ?_⟩
  · intro name
    rw [hdelta.get_transform hclasses hm, demand]
    split
    · rfl
    · split <;> rfl
  · intro others hothers hsame
    exact hdelta.transform_beq hclasses hm (harmonious_ofChanges hclasses hothers) hsame

/-- A major feature that becomes present in a change fills the dependent that the change leaves
open, whether it stands before or after the dependent that the change specifies. -/
theorem WellFormed.transform_ofChanges_coronal :
    let classes : MajorClasses := ⟨["COR"], [("COR", "ant"), ("COR", "dist")]⟩
    let changes : List Feature := [⟨"COR", .plus⟩, ⟨"dist", .unset⟩]
    let others : List Feature := ⟨"ant", .minus⟩ :: changes
    let delta := ofChanges classes changes
    let m : Matrix := ⟨[⟨"ant", .plus⟩]⟩
    m.WellFormed ∧ classes.Separated ∧
      delta.entries = [⟨"COR", .plus⟩, ⟨"ant", .minus⟩] ∧
      (ofChanges classes others).entries = [⟨"ant", .minus⟩, ⟨"COR", .plus⟩] ∧
      (m.transform classes delta).get "dist" = .minus ∧
      (m.transform classes delta).hasFeatures delta = true ∧
      (m.transform classes delta == m.transform classes (ofChanges classes others)) = true := by
  intro classes changes others delta m
  have hm : m.WellFormed := ⟨by decide, by decide⟩
  have hmajor (major dependent : String) (h : dependent ∈ classes.dependents major) :
      major = "COR" ∧ (dependent = "ant" ∨ dependent = "dist") := by
    simp only [MajorClasses.mem_dependents_iff, classes, List.mem_cons, Prod.mk.injEq,
      List.not_mem_nil, or_false] at h
    tauto
  have hclasses : classes.Separated := by
    constructor
    · intro major other dependent hone hother
      exact (hmajor _ _ hone).1.trans (hmajor _ _ hother).1.symm
    · intro major dependent hdependent
      rcases (hmajor _ _ hdependent).2 with rfl | rfl <;> rfl
  obtain ⟨hget, hfeatures, hsame⟩ :=
    hm.transform_ofChanges hclasses (by decide : ∀ change ∈ changes, _)
  exact ⟨hm, hclasses, rfl, rfl, hget "dist", hfeatures, hsame others (by decide) (by decide)⟩

end Matrix

end SoundLaw
