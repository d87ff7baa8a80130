import SoundLaw.Proofs.Matrix.Propagation
import SoundLaw.Proofs.Table.Registration

/-!
# The classes of a table

A header whose names are distinct gives classes that do not overlap: a name that opens a class is
never added to one, and every other name is added at most once. A row of the table sets the
features of the header one after another, and a diacritic sets a few of them again, so in every base
phone and every phone derived from it a dependent is present only where its major feature is.
-/

namespace SoundLaw

namespace MajorClasses

/-- Opening a class adds no dependent. -/
theorem members_addClass (classes : MajorClasses) (major : String) :
    (classes.addClass major).members = classes.members := by
  unfold addClass
  split <;> rfl

/-- Opening a class makes its feature a major one, and no other. -/
theorem isMajor_of_addClass {classes : MajorClasses} {major name : String}
    (h : (classes.addClass major).isMajor name = true) :
    name = major ∨ classes.isMajor name = true := by
  unfold addClass at h
  split at h
  · exact Or.inr h
  · simp only [isMajor, List.contains_append, Bool.or_eq_true] at h ⊢
    rcases h with (hold | hnew) | hmember
    · exact Or.inr (Or.inl hold)
    · exact Or.inl (by simpa using hnew)
    · exact Or.inr (Or.inr hmember)

/-- A dependent is added behind the others. -/
theorem members_addDependent (classes : MajorClasses) (major dependent : String) :
    (classes.addDependent major dependent).members = classes.members ++ [(major, dependent)] := by
  rw [addDependent, members_addClass]

/-- Adding a dependent makes the feature of its class a major one, and no other. -/
theorem isMajor_of_addDependent {classes : MajorClasses} {major dependent name : String}
    (h : (classes.addDependent major dependent).isMajor name = true) :
    name = major ∨ classes.isMajor name = true := by
  simp only [addDependent, isMajor, members_addClass, List.any_append, Bool.or_eq_true] at h
  rcases h with hopened | hmember | hnew
  · exact isMajor_of_addClass (Bool.or_eq_true _ _ ▸ Or.inl hopened)
  · exact Or.inr (Bool.or_eq_true _ _ ▸ Or.inr hmember)
  · have heq : major = name := by simpa using hnew
    exact Or.inl heq.symm

end MajorClasses

namespace BaseTable

/-- The names in some classes are of two kinds: a major feature opens a class, a dependent does
not. -/
structure Ranked (classes : MajorClasses) : Prop where
  majors : ∀ name, classes.isMajor name = true → opensClass name = true
  dependents : ∀ member ∈ classes.members, opensClass member.2 = false

/-- The names that a header adds to ranked classes are ranked too. -/
theorem Ranked.classesOf {classes : MajorClasses} (hclasses : Ranked classes)
    {major : Option String} (hmajor : ∀ name ∈ major, opensClass name = true)
    (features : List String) : Ranked (classesOf major classes features) := by
  fun_induction BaseTable.classesOf major classes features with
  | case1 => exact hclasses
  | case2 major classes name rest hopens ih =>
    refine ih ⟨?_, ?_⟩ fun _ hname => Option.mem_some.mp hname ▸ hopens
    · intro other hother
      rcases MajorClasses.isMajor_of_addClass hother with rfl | hold
      · exact hopens
      · exact hclasses.majors other hold
    · rw [MajorClasses.members_addClass]
      exact hclasses.dependents
  | case3 classes name rest hopens governor ih =>
    refine ih ⟨?_, ?_⟩ hmajor
    · intro other hother
      rcases MajorClasses.isMajor_of_addDependent hother with rfl | hold
      · exact hmajor other rfl
      · exact hclasses.majors other hold
    · rw [MajorClasses.members_addDependent]
      exact List.forall_mem_append.mpr ⟨hclasses.dependents,
        List.forall_mem_singleton.mpr (Bool.eq_false_iff.mpr hopens)⟩
  | case4 classes name rest hopens ih => exact ih hclasses hmajor

/-- A header whose names are distinct, and new to some classes, adds no dependent twice. -/
theorem nodup_members_classesOf (major : Option String) {classes : MajorClasses}
    {features : List String} (h : (classes.members.map (·.2) ++ features).Nodup) :
    ((classesOf major classes features).members.map (·.2)).Nodup := by
  have hskip {taken : List String} {name : String} {rest : List String}
      (hnodup : (taken ++ name :: rest).Nodup) : (taken ++ rest).Nodup :=
    hnodup.sublist ((List.sublist_cons_self name rest).append_left taken)
  fun_induction classesOf major classes features with
  | case1 => simpa using h
  | case2 major classes name rest hopens ih =>
    refine ih ?_
    rw [MajorClasses.members_addClass]
    exact hskip h
  | case3 classes name rest hopens governor ih =>
    refine ih ?_
    rw [MajorClasses.members_addDependent, List.map_append, List.append_assoc]
    exact h
  | case4 classes name rest hopens ih => exact ih (hskip h)

/-- The classes of a header with distinct names do not overlap. -/
theorem Loaded.separated {base : BaseTable} (hbase : base.Loaded) (hnames : base.features.Nodup) :
    base.classes.Separated := by
  have hempty : Ranked .empty :=
    ⟨fun _ h => absurd h Bool.false_ne_true, fun _ h => absurd h List.not_mem_nil⟩
  have hranked : Ranked base.classes := by
    rw [hbase.classes]
    exact hempty.classesOf (fun _ h => absurd h (Option.not_mem_none _)) base.features
  have hnodup : (base.classes.members.map (·.2)).Nodup := by
    rw [hbase.classes]
    exact nodup_members_classesOf none hnames
  constructor
  · intro major other dependent hmajor hother
    rw [MajorClasses.mem_dependents_iff] at hmajor hother
    have heq := List.inj_on_of_nodup_map hnodup hmajor hother rfl
    exact congrArg Prod.fst heq
  · intro major dependent hdependent
    rw [MajorClasses.mem_dependents_iff] at hdependent
    have hsmall := hranked.dependents _ hdependent
    by_contra hmajor
    have hopens := hranked.majors dependent (Bool.of_not_eq_false hmajor)
    rw [hopens] at hsmall
    cases hsmall

/-- Everything that a table with distinct names derives is consistent. -/
theorem Loaded.propagated {base : BaseTable} (hbase : base.Loaded) (hnames : base.features.Nodup)
    {derived : String × Matrix} (hderived : derived ∈ base.derivations) :
    derived.2.Propagated base.classes := by
  have hclasses := hbase.separated hnames
  obtain ⟨row, hrow, stack, hsublist, hstack⟩ := (base.mem_derivations_iff derived).mp hderived
  obtain ⟨changes, -, hliteral, hmatrix⟩ := hbase.rows row hrow
  have hkeeps : ∀ a ∈ stack, ∀ m : Matrix, m.WellFormed ∧ m.Propagated base.classes →
      (a.apply base.classes m).WellFormed ∧ (a.apply base.classes m).Propagated base.classes := by
    rintro a ha m ⟨hwell, hm⟩
    obtain ⟨kind, -, rfl⟩ := List.mem_map.mp (hsublist.subset ha)
    refine ⟨hwell.transform base.classes _, hm.transform hwell hclasses fun entry hentry => ?_⟩
    have hdelta := Articulation.hasVariables_delta kind
    rw [Matrix.hasVariables, List.any_eq_false] at hdelta
    exact Bool.eq_false_iff.mpr (hdelta entry hentry)
  have hempty := Matrix.WellFormed.empty
  have hstart : row.2.WellFormed ∧ row.2.Propagated base.classes := by
    rw [hmatrix]
    exact ⟨hempty.transform base.classes _,
      (Matrix.propagated_empty base.classes).transform hempty hclasses hliteral⟩
  exact (Articulation.stack?_keeps hkeeps hstart hstack).2

/-- Features set one after another keep classes that do not overlap consistent. A dependent is
present only where its major feature is; a major feature that becomes present leaves no dependent
unset, and with any other value it leaves them all unset; and features outside the class of the one
that is set are left alone. The classes of a table with distinct names do not overlap, and its base
phones and all phones derived from them are consistent. -/
theorem set_keeps_classes :
    (∀ classes : MajorClasses, classes.Separated → ∀ changes : List Feature,
      (∀ change ∈ changes, change.quality.isVariable = false) →
      let m : Matrix :=
        changes.foldl (fun m change => m.set classes change.name change.quality) .empty
      (∀ dependent major, classes.governor dependent = some major →
        m.get dependent = .plus → m.get major = .plus) ∧
      (∀ major, ∀ dependent ∈ classes.dependents major,
        (m.set classes major .plus).get dependent ≠ .unset ∧
        ∀ quality ∈ [Quality.minus, .any, .unset],
          (m.set classes major quality).get dependent = .unset) ∧
      ∀ name other, other ∉ classes.classOf name → ∀ quality ∈ [Quality.plus, .minus, .any, .unset],
        (m.set classes name quality).get other = m.get other) ∧
    ∀ source base, load source = .ok base → base.features.Nodup →
      base.classes.Separated ∧
      ∀ dependent major, base.classes.governor dependent = some major →
        (∀ derived ∈ base.derivations,
          derived.2.get dependent = .plus → derived.2.get major = .plus) ∧
        ∀ phone ∈ (Table.ofBases base).phones,
          phone.matrix.get dependent = .plus → phone.matrix.get major = .plus := by
  refine ⟨?_, ?_⟩
  · intro classes hclasses changes hliteral m
    have hwell : m.WellFormed := Matrix.WellFormed.empty.transform classes ⟨changes⟩
    have hm : m.Propagated classes :=
      (Matrix.propagated_empty classes).transform Matrix.WellFormed.empty hclasses hliteral
    have hvalue : ∀ quality ∈ [Quality.plus, .minus, .any, .unset], quality.isVariable = false := by
      decide
    refine ⟨?_, ?_, ?_⟩
    · intro dependent major hgovernor
      exact hm major dependent (MajorClasses.mem_dependents_of_governor hgovernor)
    · intro major dependent hdependent
      refine ⟨hwell.get_set_major_plus hdependent, fun quality hquality => ?_⟩
      refine hwell.get_set_major (hvalue quality (List.mem_cons_of_mem _ hquality)) ?_ hdependent
      rintro rfl
      exact absurd hquality (by decide)
    · intro name other hother quality hquality
      exact hwell.get_set_of_not_mem_classOf hother (hvalue quality hquality)
  · intro source base hload hnames
    have hbase := load_loaded hload
    refine ⟨hbase.separated hnames, fun dependent major hgovernor => ?_⟩
    have hmember := MajorClasses.mem_dependents_of_governor hgovernor
    refine ⟨fun derived hderived => hbase.propagated hnames hderived major dependent hmember, ?_⟩
    intro phone hphone
    obtain ⟨symbol, hderived⟩ := (load_wellFormed hload).registers.matrix_derived phone hphone
    exact hbase.propagated hnames hderived major dependent hmember

/-- A coronal keeps its place when a diacritic changes it, and a class that was cleared is filled
again. -/
theorem set_keeps_classes_coronal :
    ∃ base, load "SEGMENT\tCOR\tant\tdist\nt\t+\t+\t-\n" = .ok base ∧ base.features.Nodup ∧
      base.classes.Separated ∧
      (∃ derived ∈ base.derivations, derived.1 = "t\u033A" ∧ derived.2.get "dist" = .plus ∧
        derived.2.get "COR" = .plus) ∧
      let m : Matrix := (Matrix.empty.set base.classes "dist" .plus).set base.classes "COR" .any
      m.get "dist" = .unset ∧ (m.set base.classes "COR" .plus).get "dist" ≠ .unset := by
  let base : BaseTable := ⟨["COR", "ant", "dist"], ⟨["COR"], [("COR", "ant"), ("COR", "dist")]⟩,
    [("t", ⟨[⟨"COR", .plus⟩, ⟨"ant", .plus⟩, ⟨"dist", .minus⟩]⟩)]⟩
  have hload : load "SEGMENT\tCOR\tant\tdist\nt\t+\t+\t-\n" = .ok base := by
    with_unfolding_all rfl
  have hmark : Articulation.ofKind .palatoalveolar ∈ base.articulations :=
    List.mem_map_of_mem (List.mem_filter.mpr ⟨by decide, by decide⟩)
  have hderived : ("t\u033A", ⟨[⟨"COR", .plus⟩, ⟨"ant", .minus⟩, ⟨"dist", .plus⟩]⟩) ∈
      base.derivations :=
    (base.mem_derivations_iff _).mpr
      ⟨_, List.mem_cons_self, _, List.singleton_sublist.mpr hmark, by with_unfolding_all rfl⟩
  have hnames : base.features.Nodup := by decide
  obtain ⟨hset, htable⟩ := set_keeps_classes
  obtain ⟨hclasses, hderivations⟩ := htable _ base hload hnames
  obtain ⟨-, hmajor, -⟩ := hset base.classes hclasses [⟨"dist", .plus⟩, ⟨"COR", .any⟩] (by decide)
  exact ⟨base, hload, hnames, hclasses,
    ⟨_, hderived, rfl, rfl, (hderivations "dist" "COR" rfl).1 _ hderived rfl⟩,
    rfl, (hmajor "COR" "dist" (by decide)).1⟩

end BaseTable

end SoundLaw
