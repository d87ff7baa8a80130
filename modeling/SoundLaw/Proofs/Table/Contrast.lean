import SoundLaw.Proofs.Matrix.Built
import SoundLaw.Proofs.Matrix.ClosedForm
import SoundLaw.Proofs.Rule.WriteBack

/-!
# The contrast of two phones as a change

The contrast of two phones lists what the second specifies differently from the first, and leaves
out what the first has too much. Made to the first phone, it gives the second all the same when
every class of both phones is specified as a whole or not at all. Nothing that the contrast sets
disturbs a feature of the second phone, as the consequences of setting a feature hold there already.
What differs is written: a feature that the second phone specifies by its own entry, and a dependent
that it leaves open by the entry of its major feature, which clears the class.
-/

namespace SoundLaw

namespace MajorClasses

/-- Whether classes overlap is seen from the additions to them. -/
theorem separated_iff (classes : MajorClasses) : classes.Separated ↔
    (∀ member ∈ classes.members, ∀ other ∈ classes.members,
      member.2 = other.2 → member.1 = other.1) ∧
    ∀ member ∈ classes.members, classes.isMajor member.2 = false := by
  constructor
  · intro hclasses
    refine ⟨?_, ?_⟩
    · rintro ⟨major, dependent⟩ hmember ⟨other, _⟩ hother rfl
      exact hclasses.single ((classes.mem_dependents_iff _ _).mpr hmember)
        ((classes.mem_dependents_iff _ _).mpr hother)
    · rintro ⟨major, dependent⟩ hmember
      exact hclasses.apart ((classes.mem_dependents_iff major _).mpr hmember)
  · rintro ⟨hsingle, hapart⟩
    constructor
    · intro major other dependent hmember hother
      rw [mem_dependents_iff] at hmember hother
      exact hsingle _ hmember _ hother rfl
    · intro major dependent hmember
      rw [mem_dependents_iff] at hmember
      exact hapart _ hmember

instance (classes : MajorClasses) : Decidable classes.Separated :=
  decidable_of_iff _ classes.separated_iff.symm

end MajorClasses

namespace Matrix

/-- Whether the classes of a matrix are complete is seen from the additions to them. -/
theorem complete_iff (classes : MajorClasses) (m : Matrix) : m.Complete classes ↔
    ∀ member ∈ classes.members,
      if m.get member.1 = .plus then m.get member.2 ≠ .unset else m.get member.2 = .unset := by
  constructor
  · rintro hm ⟨major, dependent⟩ hmember
    rw [← MajorClasses.mem_dependents_iff] at hmember
    split
    · next hplus => exact hm.filled hmember hplus
    · next hplus => exact hm.cleared hmember hplus
  · intro h
    constructor
    · intro major dependent hmember hplus
      have hentry := h _ ((classes.mem_dependents_iff _ _).mp hmember)
      rwa [if_pos hplus] at hentry
    · intro major dependent hmember hplus
      have hentry := h _ ((classes.mem_dependents_iff _ _).mp hmember)
      rwa [if_neg hplus] at hentry

instance (classes : MajorClasses) (m : Matrix) : Decidable (m.Complete classes) :=
  decidable_of_iff _ (complete_iff classes m).symm

/-- A feature without an entry gets one at the end. -/
theorem overwrite_of_forall_ne {entries : List Feature} {name : String}
    (h : ∀ entry ∈ entries, entry.name ≠ name) (quality : Quality) :
    overwrite name quality entries = entries ++ [⟨name, quality⟩] := by
  induction entries with
  | nil => rfl
  | cons first rest ih =>
    rw [List.forall_mem_cons] at h
    rw [overwrite, if_neg h.1, ih h.2, List.cons_append]

/-- Writing those entries of a matrix that pass a test, one after another, selects them. -/
theorem foldl_put_eq_filter (passes : Feature → Bool) (before : List Feature)
    {entries : List Feature}
    (hdistinct : ((before ++ entries).map (·.name)).Nodup)
    (hset : ∀ entry ∈ entries, entry.quality ≠ .unset) :
    entries.foldl
        (fun (m : Matrix) entry => if passes entry then m.put entry.name entry.quality else m)
        ⟨before⟩ = ⟨before ++ entries.filter passes⟩ := by
  induction entries generalizing before with
  | nil => rw [List.foldl_nil, List.filter_nil, List.append_nil]
  | cons entry rest ih =>
    rw [List.forall_mem_cons] at hset
    rw [List.foldl_cons]
    by_cases hpasses : passes entry = true
    · have hnew : ∀ other ∈ before, other.name ≠ entry.name := by
        rw [List.map_append, List.map_cons] at hdistinct
        intro other hother
        exact (List.nodup_append.mp hdistinct).2.2 _ (List.mem_map_of_mem hother) _
          List.mem_cons_self
      have hput : put ⟨before⟩ entry.name entry.quality = ⟨before ++ [entry]⟩ := by
        rw [put, if_neg hset.1, overwrite_of_forall_ne hnew]
      rw [if_pos hpasses, hput, ih (before ++ [entry]) (by rwa [List.append_assoc]) hset.2,
        List.filter_cons_of_pos hpasses, List.append_assoc]
      rfl
    · have hsublist : ((before ++ rest).map (·.name)).Sublist
          ((before ++ entry :: rest).map (·.name)) :=
        ((List.Sublist.refl before).append (List.sublist_cons_self entry rest)).map _
      rw [if_neg hpasses, ih before (hdistinct.sublist hsublist) hset.2,
        List.filter_cons_of_neg hpasses]

end Matrix

/-- The contrast has those entries of the second phone that the first phone does not have alike. -/
theorem mem_entries_contrast {a b : Phone} (hb : b.matrix.WellFormed) (entry : Feature) :
    entry ∈ (contrast a b).entries ↔
      entry ∈ b.matrix.entries ∧ a.matrix.get entry.name ≠ entry.quality := by
  have hcontrast := Matrix.foldl_put_eq_filter
    (fun entry => a.matrix.get entry.name != entry.quality) [] hb.distinct hb.specified
  rw [contrast, Matrix.empty, hcontrast, List.nil_append, List.mem_filter, bne_iff_ne]

section

variable {classes : MajorClasses} {a b : Phone} (ha : a.matrix.WellFormed)
  (hb : b.matrix.WellFormed) (hb' : b.matrix.Complete classes)
include ha hb hb'

/-- The contrast gives a feature the quality that it has on the second phone if one of its entries
writes this quality, or if there is nothing to change. -/
theorem get_transform_contrast {name : String}
    (hwritten : a.matrix.get name ≠ b.matrix.get name → ∃ entry ∈ (contrast a b).entries,
      entry.effect classes name = .write (b.matrix.get name)) :
    (a.matrix.transform classes (contrast a b)).get name = b.matrix.get name := by
  -- What the entries of a complete matrix do holds of it already.
  have hleft : ∀ effect ∈ (contrast a b).entries.map fun entry => entry.effect classes name,
      effect.on (b.matrix.get name) = b.matrix.get name := by
    refine List.forall_mem_map.mpr fun entry hentry => ?_
    have hmem := ((mem_entries_contrast hb entry).mp hentry).1
    exact hb'.on_effect (hb.get_of_mem hmem) (hb.specified entry hmem) name
  rw [ha.get_transform_eq_on, Matrix.effect]
  by_cases hsame : a.matrix.get name = b.matrix.get name
  · rw [hsame]
    exact Effect.on_total_of_forall hleft
  · obtain ⟨entry, hentry, heffect⟩ := hwritten hsame
    have hmem := List.mem_map_of_mem (f := fun entry => entry.effect classes name) hentry
    rw [heffect] at hmem
    rw [Effect.total_eq_write_of_mem hmem hleft]
    rfl

variable (hclasses : classes.Separated)
  (hliteral : ∀ entry ∈ b.matrix.entries, entry.quality.isVariable = false)
include hclasses hliteral

/-- The contrast gives every feature that the second phone specifies the quality that it has
there. -/
theorem get_transform_contrast_of_specified {name : String} (hname : b.matrix.get name ≠ .unset) :
    (a.matrix.transform classes (contrast a b)).get name = b.matrix.get name := by
  refine get_transform_contrast ha hb hb' fun hdiffers => ?_
  have hentry := Matrix.mem_entries_of_get hname
  exact ⟨⟨name, b.matrix.get name⟩, (mem_entries_contrast hb _).mpr ⟨hentry, hdiffers⟩,
    Feature.effect_self hclasses (hliteral _ hentry)⟩

/-- The contrast takes away what the first phone has too much, if this is a dependent whose major
feature the second phone specifies. -/
theorem get_transform_contrast_of_unset (ha' : a.matrix.Complete classes)
    (hfree : ∀ name, (∀ major, name ∉ classes.dependents major) →
      (a.matrix.get name = .unset ↔ b.matrix.get name = .unset))
    {name : String} (hname : b.matrix.get name = .unset) :
    (a.matrix.transform classes (contrast a b)).get name = b.matrix.get name := by
  refine get_transform_contrast ha hb hb' fun hdiffers => ?_
  rw [hname] at hdiffers ⊢
  obtain ⟨major, hmember⟩ : ∃ major, name ∈ classes.dependents major := by
    by_contra hnone
    exact hdiffers ((hfree name (not_exists.mp hnone)).mpr hname)
  have hmajor := MajorClasses.isMajor_of_mem_dependents hmember
  have hopen : a.matrix.get major = .plus := by
    by_contra hclosed
    exact hdiffers (ha'.cleared hmember hclosed)
  have hclosed : b.matrix.get major ≠ .plus := fun h => hb'.filled hmember h hname
  have hset : b.matrix.get major ≠ .unset := by
    intro hunset
    have hfree' := hfree major fun other hother => hclasses.ne hother hmajor rfl
    rw [hfree'.mpr hunset] at hopen
    cases hopen
  have hentry := Matrix.mem_entries_of_get hset
  have hdifferent : a.matrix.get major ≠ b.matrix.get major := by
    rw [hopen]
    exact hclosed.symm
  refine ⟨⟨major, b.matrix.get major⟩,
    (mem_entries_contrast hb _).mpr ⟨hentry, hdifferent⟩, ?_⟩
  rw [Feature.effect_eq hclasses (hliteral _ hentry), if_neg (hclasses.ne hmember hmajor),
    if_pos hmember, if_neg hclosed]

end

/-- The contrast of two phones is a sufficient change. In classes that do not overlap, and for
phones whose classes are each specified as a whole or not at all, the first phone changed by the
contrast has all features of the second. If both specify the same features among those that are no
dependents, the changed matrix is that of the second phone, and a table in which that phone is
registered finds it. -/
theorem transform_contrast {classes : MajorClasses} (hclasses : classes.Separated) {a b : Phone}
    (ha : a.matrix.WellFormed) (hb : b.matrix.WellFormed)
    (hliteral : b.matrix.hasVariables = false)
    (ha' : a.matrix.Complete classes) (hb' : b.matrix.Complete classes) :
    (a.matrix.transform classes (contrast a b)).hasFeatures b.matrix = true ∧
      ((∀ name, (∀ major, name ∉ classes.dependents major) →
          (a.matrix.get name = .unset ↔ b.matrix.get name = .unset)) →
        (a.matrix.transform classes (contrast a b) == b.matrix) = true ∧
          ∀ base : BaseTable, base.WellFormed → base.classes = classes →
            b ∈ (Table.ofBases base).phones →
            (Table.ofBases base).transform a (contrast a b) true = b) := by
  rw [Matrix.hasVariables_eq_false_iff] at hliteral
  constructor
  · rw [Matrix.hasFeatures, List.all_eq_true]
    intro entry hentry
    have hmem := List.mem_of_mem_filter hentry
    have hget := hb.get_of_mem hmem
    rw [get_transform_contrast_of_specified ha hb hb' hclasses hliteral
      (hget ▸ hb.specified entry hmem), hget, beq_self_eq_true]
  · intro hfree
    have hget : ∀ name,
        (a.matrix.transform classes (contrast a b)).get name = b.matrix.get name := by
      intro name
      by_cases hname : b.matrix.get name = .unset
      · exact get_transform_contrast_of_unset ha hb hb' hclasses hliteral ha' hfree hname
      · exact get_transform_contrast_of_specified ha hb hb' hclasses hliteral hname
    refine ⟨((ha.transform classes _).beq_iff_get hb).mpr hget, ?_⟩
    rintro base hbase rfl hregistered
    exact hbase.transform_eq_of_get hregistered ha hget true

/-- The contrast of a coronal with a dorsal names the major feature alone, and the dependent goes
with it; the other way round it names both. Either way the table finds the other phone. -/
theorem transform_contrast_coronal :
    let classes : MajorClasses := ⟨["COR"], [("COR", "ant")]⟩
    let coronal : Phone := ⟨"t", ⟨[⟨"COR", .plus⟩, ⟨"ant", .minus⟩]⟩⟩
    let dorsal : Phone := ⟨"k", ⟨[⟨"COR", .minus⟩]⟩⟩
    let base : BaseTable :=
      ⟨["COR", "ant"], classes, [("t", coronal.matrix), ("k", dorsal.matrix)]⟩
    classes.Separated ∧ coronal.matrix.Complete classes ∧ dorsal.matrix.Complete classes ∧
      (contrast coronal dorsal).entries = [⟨"COR", .minus⟩] ∧
      (contrast dorsal coronal).entries = [⟨"COR", .plus⟩, ⟨"ant", .minus⟩] ∧
      (Table.ofBases base).transform coronal (contrast coronal dorsal) true = dorsal ∧
      (Table.ofBases base).transform dorsal (contrast dorsal coronal) true = coronal := by
  intro classes coronal dorsal base
  have hclasses : classes.Separated := by decide
  have hcoronal : coronal.matrix.Complete classes := by decide
  have hdorsal : dorsal.matrix.Complete classes := by decide
  have hcoronal' : coronal.matrix.WellFormed := ⟨by decide, by decide⟩
  have hdorsal' : dorsal.matrix.WellFormed := ⟨by decide, by decide⟩
  have hbase : base.WellFormed := by
    intro row hrow
    have hcases : row = ("t", coronal.matrix) ∨ row = ("k", dorsal.matrix) := by
      simpa [base] using hrow
    rcases hcases with rfl | rfl
    · exact hcoronal'
    · exact hdorsal'
  have hphones : (Table.ofBases base).phones = [coronal, dorsal] := by with_unfolding_all rfl
  have hfree : ∀ name, (∀ major, name ∉ classes.dependents major) →
      (coronal.matrix.get name = .unset ↔ dorsal.matrix.get name = .unset) := by
    intro name hname
    have hant : "ant" ≠ name := fun heq => hname "COR" (heq ▸ by decide)
    by_cases hcor : "COR" = name
    · simp [Matrix.get, coronal, dorsal, hcor]
    · simp [Matrix.get, coronal, dorsal, hcor, hant]
  have hclearing := (transform_contrast hclasses hcoronal' hdorsal' rfl hcoronal hdorsal).2 hfree
  have hfilling := (transform_contrast hclasses hdorsal' hcoronal' rfl hdorsal hcoronal).2
    fun name hname => (hfree name hname).symm
  refine ⟨hclasses, hcoronal, hdorsal, rfl, rfl, ?_, ?_⟩
  · have hregistered : dorsal ∈ [coronal, dorsal] := List.mem_cons_of_mem _ List.mem_cons_self
    exact hclearing.2 base hbase rfl (hphones ▸ hregistered)
  · exact hfilling.2 base hbase rfl (hphones ▸ List.mem_cons_self)

end SoundLaw
