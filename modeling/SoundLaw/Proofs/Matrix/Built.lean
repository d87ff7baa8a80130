import SoundLaw.Proofs.Interner.TwoWay
import SoundLaw.Proofs.Matrix.Qualities
import SoundLaw.Table.Registry

/-!
# Matrices as the operations build them

Every matrix that comes of the empty one and of single features by the operations on matrices is
well-formed. Between two such matrices sameness is agreement on every feature, so it is also seen in
the sorted lists of entries by which matrices are hashed, where a name counts by the number it was
entered under.

The operations look at the matrix they change through the qualities of its features only. So a
matrix may be replaced by one that is the same: what comes out is the same again.
-/

namespace SoundLaw

/-- The place of a quality in the order of qualities. -/
def Quality.rank (quality : Quality) : Nat :=
  all.idxOf quality

/-- Qualities in one place are one quality. -/
theorem Quality.rank_injective : Function.Injective rank := by
  intro a b h
  have hmem : a ∈ all := by cases a <;> decide
  exact (List.idxOf_inj hmem).mp h

/-- An entry as it is hashed: the number of its name, and its quality. -/
def Feature.numbered (interner : Interner) (entry : Feature) : Nat × Quality :=
  ((interner.intern entry.name).1, entry.quality)

/-- Whether a numbered entry comes no later than another: by its number, then by its quality. -/
def Feature.comesFirst (a b : Nat × Quality) : Bool :=
  a.1 < b.1 || (a.1 == b.1 && a.2.rank ≤ b.2.rank)

namespace Feature

/-- The order of numbered entries, spelled out. -/
theorem comesFirst_iff (a b : Nat × Quality) :
    comesFirst a b = true ↔ a.1 < b.1 ∨ (a.1 = b.1 ∧ a.2.rank ≤ b.2.rank) := by
  simp [comesFirst]

/-- The order of numbered entries carries over. -/
theorem comesFirst_trans (a b c : Nat × Quality) (hab : comesFirst a b = true)
    (hbc : comesFirst b c = true) : comesFirst a c = true := by
  rw [comesFirst_iff] at *
  omega

/-- Of two numbered entries one comes first. -/
theorem comesFirst_total (a b : Nat × Quality) :
    (comesFirst a b || comesFirst b a) = true := by
  rw [Bool.or_eq_true, comesFirst_iff, comesFirst_iff]
  omega

/-- Numbered entries that come before one another are one entry. -/
theorem comesFirst_antisymm {a b : Nat × Quality} (hab : comesFirst a b = true)
    (hba : comesFirst b a = true) : a = b := by
  rw [comesFirst_iff] at hab hba
  have hnumber : a.1 = b.1 := by omega
  have hrank : a.2.rank = b.2.rank := by omega
  exact Prod.ext hnumber (Quality.rank_injective hrank)

end Feature

namespace Matrix

/-- The entries of a matrix as they are hashed: numbered and sorted. -/
def hashed (interner : Interner) (m : Matrix) : List (Nat × Quality) :=
  (m.entries.map (·.numbered interner)).mergeSort Feature.comesFirst

/-- All names of a matrix have been entered. -/
def Interned (interner : Interner) (m : Matrix) : Prop :=
  ∀ entry ∈ m.entries, (interner.find? entry.name).isSome

/-- Lists of numbered entries are sorted alike exactly when they hold the same entries. -/
theorem hashed_eq_iff_perm (interner : Interner) (a b : Matrix) :
    a.hashed interner = b.hashed interner ↔
      (a.entries.map (·.numbered interner)).Perm (b.entries.map (·.numbered interner)) := by
  have hsorted (l : List (Nat × Quality)) :
      (l.mergeSort Feature.comesFirst).Pairwise fun a b => Feature.comesFirst a b = true :=
    List.pairwise_mergeSort Feature.comesFirst_trans Feature.comesFirst_total l
  constructor
  · intro h
    have hperm := List.mergeSort_perm (a.entries.map (·.numbered interner)) Feature.comesFirst
    exact hperm.symm.trans ((List.Perm.of_eq h).trans (List.mergeSort_perm _ _))
  · intro hperm
    refine List.Perm.eq_of_pairwise (fun _ _ _ _ => Feature.comesFirst_antisymm) (hsorted _)
      (hsorted _) ?_
    exact (List.mergeSort_perm _ _).trans (hperm.trans (List.mergeSort_perm _ _).symm)

/-- Matrices without repeated entries have the same numbered entries exactly when they have the same
entries. -/
theorem numbered_perm_iff {interner : Interner} {a b : Matrix} (ha : a.Interned interner)
    (hb : b.Interned interner) (hdistinct : a.entries.Nodup) (hdistinct' : b.entries.Nodup) :
    (a.entries.map (·.numbered interner)).Perm (b.entries.map (·.numbered interner)) ↔
      a.entries.Perm b.entries := by
  -- Numbering loses nothing, as all names have been entered.
  have hsubset {m n : Matrix} (hm : m.Interned interner) (hn : n.Interned interner)
      (hperm : (m.entries.map (·.numbered interner)).Perm (n.entries.map (·.numbered interner))) :
      ∀ entry ∈ m.entries, entry ∈ n.entries := by
    intro entry hentry
    obtain ⟨other, hother, heq⟩ :=
      List.mem_map.mp (hperm.subset (List.mem_map_of_mem hentry))
    obtain ⟨hnumber, hquality⟩ := Prod.mk.inj heq
    have hname := Interner.eq_of_intern_eq (hn other hother) (hm entry hentry) hnumber
    have hsame : other = entry := by
      cases other
      cases entry
      simp_all
    exact hsame ▸ hother
  constructor
  · intro hperm
    rw [List.perm_ext_iff_of_nodup hdistinct hdistinct']
    exact fun entry => ⟨hsubset ha hb hperm entry, hsubset hb ha hperm.symm entry⟩
  · exact fun hperm => hperm.map _

/-- The features on which phones agree make a well-formed matrix. -/
theorem wellFormed_commonFeatures (phones : List Phone) : (commonFeatures phones).WellFormed := by
  cases phones with
  | nil => exact .empty
  | cons first rest =>
    refine foldl_wellFormed _ (fun common entry hcommon => ?_) first.matrix.entries .empty
    split
    · exact hcommon.put _ _
    · exact hcommon

/-- The features by which two phones differ make a well-formed matrix. -/
theorem wellFormed_contrast (a b : Phone) : (contrast a b).WellFormed := by
  refine foldl_wellFormed _ (fun found entry hfound => ?_) b.matrix.entries .empty
  split
  · exact hfound.put _ _
  · exact hfound

/-- The matrices that come of the empty one and of single features by the operations. -/
inductive Built : Matrix → Prop
  | empty : Built empty
  | ofFeature (f : Feature) : Built (ofFeature f)
  | put {m : Matrix} (hm : Built m) (name : String) (quality : Quality) :
    Built (m.put name quality)
  | set {m : Matrix} (hm : Built m) (classes : MajorClasses) (name : String) (quality : Quality) :
    Built (m.set classes name quality)
  | transform {m delta : Matrix} (hm : Built m) (hdelta : Built delta) (classes : MajorClasses) :
    Built (m.transform classes delta)
  | union {m other : Matrix} (hm : Built m) (hother : Built other) : Built (m.union other)
  | substitute {m : Matrix} (hm : Built m) (pattern : Quality)
    (captured : List (String × Quality)) : Built (m.substitute pattern captured)
  | withoutVariables {m : Matrix} (hm : Built m) : Built m.withoutVariables
  | common {phones : List Phone} (hphones : ∀ phone ∈ phones, Built phone.matrix) :
    Built (commonFeatures phones)
  | contrast {a b : Phone} (ha : Built a.matrix) (hb : Built b.matrix) : Built (contrast a b)

/-- What the operations build is well-formed. -/
theorem Built.wellFormed {m : Matrix} (hm : Built m) : m.WellFormed := by
  induction hm with
  | empty => exact .empty
  | ofFeature f => exact WellFormed.empty.put f.name f.quality
  | put _ name quality ih => exact ih.put name quality
  | set _ classes name quality ih => exact ih.set classes name quality
  | transform _ _ classes ih _ => exact ih.transform classes _
  | union _ _ ih _ => exact ih.union _
  | substitute _ pattern captured ih => exact ih.substitute pattern captured
  | withoutVariables _ ih => exact ih.withoutVariables
  | common _ _ => exact wellFormed_commonFeatures _
  | contrast _ _ _ _ => exact wellFormed_contrast _ _

/-- Two well-formed matrices that give every feature the same quality. -/
structure Alike (a b : Matrix) : Prop where
  left : a.WellFormed
  right : b.WellFormed
  get : ∀ name, a.get name = b.get name

/-- Matrices that are alike are the same. -/
theorem Alike.beq {a b : Matrix} (h : a.Alike b) : (a == b) = true :=
  (h.left.beq_iff_get h.right).mpr h.get

/-- Writing one entry keeps matrices alike. -/
theorem Alike.put {a b : Matrix} (h : a.Alike b) (name : String) (quality : Quality) :
    (a.put name quality).Alike (b.put name quality) := by
  refine ⟨h.left.put name quality, h.right.put name quality, fun other => ?_⟩
  rw [h.left.get_put, h.right.get_put, h.get]

/-- Whatever every step of a fold keeps alike, the fold keeps alike. -/
theorem Alike.foldl {α : Type} {step : Matrix → α → Matrix}
    (hstep : ∀ a b item, Alike a b → Alike (step a item) (step b item)) (items : List α)
    {a b : Matrix} (h : a.Alike b) : (items.foldl step a).Alike (items.foldl step b) := by
  induction items generalizing a b with
  | nil => exact h
  | cons first rest ih => exact ih (hstep a b first h)

/-- Filling keeps matrices alike. -/
theorem Alike.fill {a b : Matrix} (h : a.Alike b) (names : List String) :
    (a.fill names).Alike (b.fill names) := by
  refine h.foldl (fun a b name h => ?_) names
  rw [h.get]
  split
  · exact h.put name .minus
  · exact h

/-- Clearing keeps matrices alike. -/
theorem Alike.clear {a b : Matrix} (h : a.Alike b) (names : List String) :
    (a.clear names).Alike (b.clear names) :=
  h.foldl (fun _ _ name h => h.put name .unset) names

/-- Setting a feature keeps matrices alike. -/
theorem Alike.set {a b : Matrix} (h : a.Alike b) (classes : MajorClasses) (name : String)
    (quality : Quality) : (a.set classes name quality).Alike (b.set classes name quality) := by
  have hwritten := h.put name quality
  unfold Matrix.set
  dsimp only
  split
  · exact hwritten
  · split
    · split
      · exact hwritten.fill _
      · exact hwritten.clear _
    · split
      · split
        · exact (hwritten.put _ .plus).fill _
        · exact hwritten
      · exact hwritten

/-- Replaying a change keeps matrices alike. -/
theorem Alike.transform {a b : Matrix} (h : a.Alike b) (classes : MajorClasses) (delta : Matrix) :
    (a.transform classes delta).Alike (b.transform classes delta) :=
  h.foldl (fun _ _ entry h => h.set classes entry.name entry.quality) delta.entries

/-- Joining another matrix keeps matrices alike. -/
theorem Alike.union {a b : Matrix} (h : a.Alike b) (other : Matrix) :
    (a.union other).Alike (b.union other) := by
  refine h.foldl (fun a b entry h => ?_) other.entries
  dsimp only
  rw [h.get]
  split
  · exact h.put _ _
  · split
    · exact h
    · exact h.put _ _

/-- A matrix that may stand in the place of another: nothing that is done to it tells them apart. -/
structure StandsFor (a b : Matrix) : Prop where
  get : ∀ name, a.get name = b.get name
  hasFeatures : ∀ pattern, a.hasFeatures pattern = b.hasFeatures pattern
  size : a.size = b.size
  set : ∀ classes name quality, (a.set classes name quality == b.set classes name quality) = true
  transform : ∀ classes delta, (a.transform classes delta == b.transform classes delta) = true
  union : ∀ other, (a.union other == b.union other) = true

/-- Matrices that are alike may stand for one another. -/
theorem Alike.standsFor {a b : Matrix} (h : a.Alike b) : a.StandsFor b where
  get := h.get
  hasFeatures pattern := by simp only [Matrix.hasFeatures, h.get]
  size := (h.left.entries_perm h.right h.get).length_eq
  set classes name quality := (h.set classes name quality).beq
  transform classes delta := (h.transform classes delta).beq
  union other := (h.union other).beq

/-- Matrices that the operations build have one entry for each feature and none that is unset. Two
of them are the same exactly when they agree on every feature, when one has the entries of the other
in some order, and when they are hashed alike; this is an equivalence, and a matrix may be replaced
by one that is the same. -/
theorem Built.sameness {a b : Matrix} (ha : Built a) (hb : Built b) :
    ((a.entries.map (·.name)).Nodup ∧ ∀ entry ∈ a.entries, entry.quality ≠ .unset) ∧
    ((a == b) = true ↔ ∀ name, a.get name = b.get name) ∧
    Equivalence (fun m n : {m : Matrix // Built m} => (m.1 == n.1) = true) ∧
    ((a == b) = true ↔ a.entries.Perm b.entries) ∧
    (∀ interner, a.Interned interner → b.Interned interner →
      ((a == b) = true ↔ a.hashed interner = b.hashed interner)) ∧
    ((a == b) = true → a.StandsFor b) := by
  have hleft := ha.wellFormed
  have hright := hb.wellFormed
  refine ⟨⟨hleft.distinct, hleft.specified⟩, hleft.beq_iff_get hright, ⟨?_, ?_, ?_⟩,
    hleft.beq_iff_perm hright, ?_, ?_⟩
  · exact fun m => m.2.wellFormed.beq_refl
  · exact fun {m n} => m.2.wellFormed.beq_symm n.2.wellFormed
  · exact fun {m n o} => m.2.wellFormed.beq_trans n.2.wellFormed o.2.wellFormed
  · intro interner hinterned hinterned'
    rw [hashed_eq_iff_perm, hleft.beq_iff_perm hright, numbered_perm_iff hinterned hinterned'
      hleft.entries_nodup hright.entries_nodup]
  · intro h
    have halike : a.Alike b := ⟨hleft, hright, (hleft.beq_iff_get hright).mp h⟩
    exact halike.standsFor

/-- A dependent that brings in its major feature and one that is set after it give the same matrix,
with its entries in another order. -/
theorem Built.sameness_of_order :
    let classes : MajorClasses := ⟨["COR"], [("COR", "ant")]⟩
    let a := (Matrix.empty.set classes "ant" .plus).set classes "voice" .minus
    let b := ((Matrix.empty.put "voice" .minus).set classes "COR" .plus).set classes "ant" .plus
    a.entries ≠ b.entries ∧ (a == b) = true ∧ a.StandsFor b ∧
      a.hashed ⟨["voice", "COR", "ant"]⟩ = b.hashed ⟨["voice", "COR", "ant"]⟩ := by
  intro classes a b
  have ha : Built a := (Built.empty.set classes "ant" .plus).set classes "voice" .minus
  have hb : Built b :=
    ((Built.empty.put "voice" .minus).set classes "COR" .plus).set classes "ant" .plus
  obtain ⟨-, -, -, -, hhashed, hstands⟩ := Built.sameness ha hb
  have hsame : (a == b) = true := by decide
  have hinterned (m : Matrix) (hm : m.entries.all fun entry =>
      (Interner.find? ⟨["voice", "COR", "ant"]⟩ entry.name).isSome) :
      m.Interned ⟨["voice", "COR", "ant"]⟩ := List.all_eq_true.mp hm
  exact ⟨by decide, hsame, hstands hsame,
    (hhashed _ (hinterned a (by decide)) (hinterned b (by decide))).mp hsame⟩

end Matrix

end SoundLaw
