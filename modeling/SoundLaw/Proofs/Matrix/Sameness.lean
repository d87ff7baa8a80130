import SoundLaw.Matrix
import Mathlib.Data.List.Nodup
import Mathlib.Data.List.Perm.Basic

/-!
# Well-formed matrices and their sameness

A well-formed matrix has one entry for each feature it specifies and never stores that a feature
is unset. Every way of writing to a matrix keeps it well-formed. Two well-formed matrices are the
same exactly when they give every feature the same quality, so on them sameness is an equivalence
that does not look at the order of writing.
-/

namespace SoundLaw.Matrix

/-- One entry for each specified feature, and no entry for an unset one. -/
structure WellFormed (m : Matrix) : Prop where
  distinct : (m.entries.map (·.name)).Nodup
  specified : ∀ entry ∈ m.entries, entry.quality ≠ .unset

/-- The matrix that specifies nothing is well-formed. -/
theorem WellFormed.empty : empty.WellFormed :=
  ⟨List.nodup_nil, fun _ hentry => absurd hentry List.not_mem_nil⟩

/-- The entries themselves are distinct when their names are. -/
theorem WellFormed.entries_nodup {m : Matrix} (hm : m.WellFormed) : m.entries.Nodup :=
  hm.distinct.of_map _

/-- Looking up a name finds the entry of that name. -/
theorem find?_name_eq_some {entries : List Feature} (hdistinct : (entries.map (·.name)).Nodup)
    {entry : Feature} (hentry : entry ∈ entries) :
    entries.find? (·.name == entry.name) = some entry := by
  induction entries with
  | nil => exact absurd hentry List.not_mem_nil
  | cons first rest ih =>
    rw [List.map_cons, List.nodup_cons] at hdistinct
    rcases List.mem_cons.mp hentry with rfl | hrest
    · simp
    · have hne : first.name ≠ entry.name := by
        intro heq
        exact hdistinct.1 (heq ▸ List.mem_map_of_mem hrest)
      rw [List.find?_cons_of_neg (by simpa using hne)]
      exact ih hdistinct.2 hrest

/-- An entry gives its feature its quality. -/
theorem WellFormed.get_of_mem {m : Matrix} (hm : m.WellFormed) {entry : Feature}
    (hentry : entry ∈ m.entries) : m.get entry.name = entry.quality := by
  rw [get, find?_name_eq_some hm.distinct hentry]

/-- A feature that is specified has an entry. -/
theorem mem_entries_of_get {m : Matrix} {name : String} (hget : m.get name ≠ .unset) :
    ⟨name, m.get name⟩ ∈ m.entries := by
  unfold get at hget ⊢
  cases hfind : m.entries.find? (·.name == name) with
  | none => simp [hfind] at hget
  | some entry =>
    have hname : entry.name = name := by simpa using List.find?_some hfind
    have hmem := List.mem_of_find?_eq_some hfind
    subst hname
    exact hmem

/-- The entries of a well-formed matrix are its specified features. -/
theorem WellFormed.mem_entries_iff {m : Matrix} (hm : m.WellFormed) (feature : Feature) :
    feature ∈ m.entries ↔ m.get feature.name = feature.quality ∧ feature.quality ≠ .unset := by
  constructor
  · intro hmem
    exact ⟨hm.get_of_mem hmem, hm.specified feature hmem⟩
  · rintro ⟨hget, hset⟩
    have hmem : ⟨feature.name, m.get feature.name⟩ ∈ m.entries :=
      mem_entries_of_get (by rw [hget]; exact hset)
    rw [hget] at hmem
    exact hmem

/-- Well-formed matrices with the same qualities have the same entries up to their order. -/
theorem WellFormed.entries_perm {a b : Matrix} (ha : a.WellFormed) (hb : b.WellFormed)
    (hget : ∀ name, a.get name = b.get name) : a.entries.Perm b.entries := by
  rw [List.perm_ext_iff_of_nodup ha.entries_nodup hb.entries_nodup]
  intro feature
  rw [ha.mem_entries_iff, hb.mem_entries_iff, hget]

/-- The test for sameness, spelled out. -/
theorem same_eq_true_iff (a b : Matrix) :
    (a == b) = true ↔ a.entries.length = b.entries.length ∧
      ∀ entry ∈ a.entries, b.get entry.name = entry.quality := by
  change same a b = true ↔ _
  simp [same]

/-- Well-formed matrices are the same exactly when they agree on every feature. -/
theorem WellFormed.beq_iff_get {a b : Matrix} (ha : a.WellFormed) (hb : b.WellFormed) :
    (a == b) = true ↔ ∀ name, a.get name = b.get name := by
  rw [same_eq_true_iff]
  constructor
  · rintro ⟨hlength, hall⟩ name
    have hsubset : a.entries ⊆ b.entries := by
      intro entry hentry
      exact (hb.mem_entries_iff entry).mpr ⟨hall entry hentry, ha.specified entry hentry⟩
    -- As many entries, all of them found there: the two lists are rearrangements.
    have hperm : a.entries.Perm b.entries :=
      (List.subperm_of_subset ha.entries_nodup hsubset).perm_of_length_le
        (Nat.le_of_eq hlength.symm)
    by_cases hset : b.get name = .unset
    · rw [hset]
      by_contra ha_set
      have hmem := hperm.mem_iff.mp (mem_entries_of_get ha_set)
      exact ha_set ((hb.get_of_mem hmem).symm.trans hset)
    · exact ha.get_of_mem (hperm.mem_iff.mpr (mem_entries_of_get hset))
  · intro hget
    refine ⟨(ha.entries_perm hb hget).length_eq, ?_⟩
    intro entry hentry
    rw [← hget, ha.get_of_mem hentry]

/-- Well-formed matrices are the same exactly when they have the same entries in some order. -/
theorem WellFormed.beq_iff_perm {a b : Matrix} (ha : a.WellFormed) (hb : b.WellFormed) :
    (a == b) = true ↔ a.entries.Perm b.entries := by
  constructor
  · exact fun h => ha.entries_perm hb ((ha.beq_iff_get hb).mp h)
  · intro hperm
    rw [same_eq_true_iff]
    exact ⟨hperm.length_eq, fun entry hentry => hb.get_of_mem (hperm.subset hentry)⟩

/-- A well-formed matrix is the same as itself. -/
theorem WellFormed.beq_refl {a : Matrix} (ha : a.WellFormed) : (a == a) = true :=
  (ha.beq_iff_get ha).mpr fun _ => rfl

/-- Sameness of well-formed matrices goes both ways. -/
theorem WellFormed.beq_symm {a b : Matrix} (ha : a.WellFormed) (hb : b.WellFormed)
    (hab : (a == b) = true) : (b == a) = true := by
  rw [ha.beq_iff_get hb] at hab
  exact (hb.beq_iff_get ha).mpr fun name => (hab name).symm

/-- Sameness of well-formed matrices carries over. -/
theorem WellFormed.beq_trans {a b c : Matrix} (ha : a.WellFormed) (hb : b.WellFormed)
    (hc : c.WellFormed) (hab : (a == b) = true) (hbc : (b == c) = true) : (a == c) = true := by
  rw [ha.beq_iff_get hb] at hab
  rw [hb.beq_iff_get hc] at hbc
  exact (ha.beq_iff_get hc).mpr fun name => (hab name).trans (hbc name)

/-- The test for sameness of well-formed matrices does not look at their order. -/
theorem WellFormed.beq_comm {a b : Matrix} (ha : a.WellFormed) (hb : b.WellFormed) :
    (a == b) = (b == a) :=
  Bool.eq_iff_iff.mpr ⟨ha.beq_symm hb, hb.beq_symm ha⟩

/-- Matrices that are the same are the same as the same matrices. -/
theorem WellFormed.beq_congr {a b c : Matrix} (ha : a.WellFormed) (hb : b.WellFormed)
    (hc : c.WellFormed) (hab : (a == b) = true) : (a == c) = (b == c) :=
  Bool.eq_iff_iff.mpr ⟨hb.beq_trans ha hc (ha.beq_symm hb hab), ha.beq_trans hb hc hab⟩

/-- Overwriting keeps the names, or adds the new one at the end. -/
theorem overwrite_names (name : String) (quality : Quality) (entries : List Feature) :
    (overwrite name quality entries).map (·.name) =
      if name ∈ entries.map (·.name) then entries.map (·.name)
      else entries.map (·.name) ++ [name] := by
  induction entries with
  | nil => simp [overwrite]
  | cons first rest ih =>
    by_cases hname : first.name = name
    · simp [overwrite, hname]
    · have hne : name ≠ first.name := fun heq => hname heq.symm
      rw [overwrite, if_neg hname, List.map_cons, ih]
      by_cases hmem : name ∈ rest.map (·.name)
      · rw [if_pos hmem, if_pos (by rw [List.map_cons]; exact List.mem_cons_of_mem _ hmem),
          List.map_cons]
      · rw [if_neg hmem, if_neg (by rw [List.map_cons, List.mem_cons]; exact not_or.mpr ⟨hne, hmem⟩),
          List.map_cons, List.cons_append]

/-- Overwriting brings in no entry but the new one. -/
theorem mem_overwrite {name : String} {quality : Quality} {entries : List Feature}
    {entry : Feature} (hentry : entry ∈ overwrite name quality entries) :
    entry = ⟨name, quality⟩ ∨ entry ∈ entries := by
  induction entries with
  | nil => simpa [overwrite] using hentry
  | cons first rest ih =>
    rw [overwrite] at hentry
    split at hentry
    · rcases List.mem_cons.mp hentry with heq | hrest
      · exact Or.inl heq
      · exact Or.inr (List.mem_cons_of_mem _ hrest)
    · rcases List.mem_cons.mp hentry with heq | hrest
      · exact Or.inr (heq ▸ List.mem_cons_self)
      · exact (ih hrest).imp_right (List.mem_cons_of_mem _)

/-- Writing one entry keeps a matrix well-formed. -/
theorem WellFormed.put {m : Matrix} (hm : m.WellFormed) (name : String) (quality : Quality) :
    (m.put name quality).WellFormed := by
  unfold Matrix.put
  split
  · have hsublist : (m.entries.eraseP (·.name == name)).Sublist m.entries := List.eraseP_sublist
    exact ⟨hm.distinct.sublist (hsublist.map _),
      fun entry hentry => hm.specified entry (hsublist.subset hentry)⟩
  · next hset =>
    refine ⟨?_, ?_⟩
    · change ((overwrite name quality m.entries).map (·.name)).Nodup
      rw [overwrite_names]
      split
      · exact hm.distinct
      · next hmem =>
        exact List.nodup_append.mpr ⟨hm.distinct, List.nodup_singleton _,
          fun a ha b hb heq => hmem (List.mem_singleton.mp hb ▸ heq ▸ ha)⟩
    · intro entry hentry
      rcases mem_overwrite hentry with rfl | hold
      · exact hset
      · exact hm.specified entry hold

/-- Whatever every step of a fold keeps, the fold keeps. -/
theorem foldl_wellFormed {α : Type} (step : Matrix → α → Matrix)
    (hstep : ∀ m a, m.WellFormed → (step m a).WellFormed) (items : List α) {m : Matrix}
    (hm : m.WellFormed) : (items.foldl step m).WellFormed := by
  induction items generalizing m with
  | nil => exact hm
  | cons first rest ih => exact ih (hstep m first hm)

/-- Filling unspecified features keeps a matrix well-formed. -/
theorem WellFormed.fill {m : Matrix} (hm : m.WellFormed) (names : List String) :
    (m.fill names).WellFormed := by
  refine foldl_wellFormed _ (fun m name hm => ?_) names hm
  split
  · exact hm.put name .minus
  · exact hm

/-- Clearing features keeps a matrix well-formed. -/
theorem WellFormed.clear {m : Matrix} (hm : m.WellFormed) (names : List String) :
    (m.clear names).WellFormed :=
  foldl_wellFormed _ (fun _ name hm => hm.put name .unset) names hm

/-- Setting a feature keeps a matrix well-formed. -/
theorem WellFormed.set {m : Matrix} (hm : m.WellFormed) (classes : MajorClasses) (name : String)
    (quality : Quality) : (m.set classes name quality).WellFormed := by
  have hwritten := hm.put name quality
  unfold Matrix.set
  dsimp only
  split
  · exact hwritten
  · split
    · split
      · exact hwritten.fill _
      · exact hwritten.clear _
    · split
      · split
        · exact (hwritten.put _ _).fill _
        · exact hwritten
      · exact hwritten

/-- Replaying a change keeps a matrix well-formed. -/
theorem WellFormed.transform {m : Matrix} (hm : m.WellFormed) (classes : MajorClasses)
    (delta : Matrix) : (m.transform classes delta).WellFormed :=
  foldl_wellFormed _ (fun _ entry hm => hm.set classes entry.name entry.quality) delta.entries hm

/-- Joining another matrix keeps a matrix well-formed. -/
theorem WellFormed.union {m : Matrix} (hm : m.WellFormed) (other : Matrix) :
    (m.union other).WellFormed := by
  refine foldl_wellFormed _ (fun result entry hresult => ?_) other.entries hm
  dsimp only
  split
  · exact hresult.put _ _
  · split
    · exact hresult
    · exact hresult.put _ _

/-- A well-formed matrix is well-formed without its variables. -/
theorem WellFormed.withoutVariables {m : Matrix} (hm : m.WellFormed) :
    m.withoutVariables.WellFormed :=
  ⟨hm.distinct.sublist (List.filter_sublist.map _),
    fun entry hentry => hm.specified entry (List.mem_of_mem_filter hentry)⟩

/-- Replacing a variable keeps a matrix well-formed. -/
theorem WellFormed.substitute {m : Matrix} (hm : m.WellFormed) (pattern : Quality)
    (captured : List (String × Quality)) : (m.substitute pattern captured).WellFormed := by
  refine foldl_wellFormed _ (fun result entry hresult => ?_) m.entries hm
  split
  · split
    · exact hresult.put _ _
    · exact hresult
  · exact hresult

end SoundLaw.Matrix
