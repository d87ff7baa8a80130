import SoundLaw.Proofs.Matrix.Sameness

/-!
# What writing to a matrix does to its qualities

Seen through the qualities of its features, a well-formed matrix is a function of the names, and
every way of writing to it changes this function at the names it writes to and nowhere else. Filling
writes only to features that are unset, so no quality that is there is lost by it.
-/

namespace SoundLaw.Matrix

/-- Overwriting changes the quality of one feature. -/
theorem get_overwrite (name : String) (quality : Quality) (entries : List Feature)
    (other : String) :
    get ⟨overwrite name quality entries⟩ other =
      if other = name then quality else get ⟨entries⟩ other := by
  induction entries with
  | nil =>
    by_cases heq : other = name
    · simp [overwrite, get, heq]
    · simp [overwrite, get, heq, Ne.symm heq]
  | cons first rest ih =>
    rw [overwrite]
    by_cases hfirst : first.name = name
    · rw [if_pos hfirst]
      by_cases heq : other = name
      · simp [get, heq]
      · have hne : name ≠ other := Ne.symm heq
        simp [get, heq, hne, hfirst]
    · rw [if_neg hfirst]
      by_cases hother : first.name = other
      · have heq : other ≠ name := hother ▸ hfirst
        simp [get, hother, heq]
      · simpa [get, hother] using ih

/-- Removing the entry of a feature changes the quality of that feature. -/
theorem get_eraseP {entries : List Feature} (hdistinct : (entries.map (·.name)).Nodup)
    (name other : String) :
    get ⟨entries.eraseP (·.name == name)⟩ other =
      if other = name then .unset else get ⟨entries⟩ other := by
  induction entries with
  | nil => simp [get]
  | cons first rest ih =>
    rw [List.map_cons, List.nodup_cons] at hdistinct
    by_cases hfirst : first.name = name
    · rw [List.eraseP_cons_of_pos (by simpa using hfirst)]
      by_cases heq : other = name
      · -- The name of the removed entry stands in no other entry.
        have hnone : rest.find? (·.name == other) = none := by
          rw [List.find?_eq_none]
          intro entry hentry hname
          have hentryName : entry.name = first.name := by simpa [heq, hfirst] using hname
          exact hdistinct.1 (hentryName ▸ List.mem_map_of_mem hentry)
        rw [if_pos heq, get, hnone]
      · have hne : first.name ≠ other := fun h => heq (h.symm.trans hfirst)
        simp [get, heq, hne]
    · rw [List.eraseP_cons_of_neg (by simpa using hfirst)]
      by_cases hother : first.name = other
      · have heq : other ≠ name := hother ▸ hfirst
        simp [get, hother, heq]
      · simpa [get, hother] using ih hdistinct.2

/-- Writing one entry changes the quality of one feature. -/
theorem WellFormed.get_put {m : Matrix} (hm : m.WellFormed) (name : String) (quality : Quality)
    (other : String) :
    (m.put name quality).get other = if other = name then quality else m.get other := by
  unfold Matrix.put
  split
  · next hunset => rw [hunset, get_eraseP hm.distinct]
  · exact get_overwrite name quality m.entries other

/-- Filling makes those of some features absent that were unset. -/
theorem WellFormed.get_fill {m : Matrix} (hm : m.WellFormed) (names : List String)
    (other : String) :
    (m.fill names).get other =
      if other ∈ names ∧ m.get other = .unset then .minus else m.get other := by
  induction names generalizing m with
  | nil => simp [Matrix.fill]
  | cons name rest ih =>
    rw [Matrix.fill, List.foldl_cons]
    split
    · next hunset =>
      refine (ih (hm.put name .minus)).trans ?_
      rw [hm.get_put]
      by_cases heq : other = name
      · simp [heq, hunset]
      · simp [heq]
    · next hset =>
      refine (ih hm).trans ?_
      by_cases heq : other = name
      · simp [heq, hset]
      · simp [heq]

/-- Clearing makes some features unset. -/
theorem WellFormed.get_clear {m : Matrix} (hm : m.WellFormed) (names : List String)
    (other : String) :
    (m.clear names).get other = if other ∈ names then .unset else m.get other := by
  induction names generalizing m with
  | nil => simp [Matrix.clear]
  | cons name rest ih =>
    rw [Matrix.clear, List.foldl_cons]
    refine (ih (hm.put name .unset)).trans ?_
    rw [hm.get_put]
    by_cases heq : other = name
    · simp [heq]
    · simp [heq]

end SoundLaw.Matrix
