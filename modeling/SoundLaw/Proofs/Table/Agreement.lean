import SoundLaw.Proofs.Matrix.Union
import SoundLaw.Proofs.Table.Contrast

/-!
# What phones agree on

The common features of some phones are read off the first of them, but they are those to which all
the phones give the same quality. So a pattern that every phone matches is one that the common
features match, and the other way round: finding phones by a pattern and taking what phones have in
common are adjoint. A wildcard asks for nothing in a pattern, while on phones it is a quality like
the others.
-/

namespace SoundLaw

/-- The common features are those entries of the first phone that the others have alike. -/
theorem mem_entries_commonFeatures {first : Phone} (hfirst : first.matrix.WellFormed)
    (rest : List Phone) (entry : Feature) :
    entry ∈ (commonFeatures (first :: rest)).entries ↔
      entry ∈ first.matrix.entries ∧
        ∀ phone ∈ rest, phone.matrix.get entry.name = entry.quality := by
  have hcommon := Matrix.foldl_put_eq_filter
    (fun entry => rest.all fun phone => phone.matrix.get entry.name == entry.quality) []
    hfirst.distinct hfirst.specified
  rw [commonFeatures, Matrix.empty, hcommon, List.nil_append, List.mem_filter, List.all_eq_true]
  simp only [beq_iff_eq]

section

variable {phones : List Phone} (hphones : phones ≠ [])
  (hwell : ∀ phone ∈ phones, phone.matrix.WellFormed)
include hphones hwell

/-- A feature has a quality in common exactly when every phone gives it that quality. -/
theorem get_commonFeatures_iff (name : String) {quality : Quality} (hset : quality ≠ .unset) :
    (commonFeatures phones).get name = quality ↔
      ∀ phone ∈ phones, phone.matrix.get name = quality := by
  cases phones with
  | nil => exact absurd rfl hphones
  | cons first rest =>
    have hfirst := hwell first List.mem_cons_self
    have hentry : ∀ {m : Matrix}, m.WellFormed →
        (m.get name = quality ↔ ⟨name, quality⟩ ∈ m.entries) := fun hm => by
      rw [hm.mem_entries_iff, and_iff_left hset]
    rw [hentry (Matrix.wellFormed_commonFeatures _), mem_entries_commonFeatures hfirst,
      ← hentry hfirst, List.forall_mem_cons]

/-- The common features match exactly the patterns that every phone matches. -/
theorem hasFeatures_commonFeatures_iff {pattern : Matrix}
    (hset : ∀ entry ∈ pattern.entries, entry.quality ≠ .unset) :
    (commonFeatures phones).hasFeatures pattern = true ↔
      ∀ phone ∈ phones, phone.matrix.hasFeatures pattern = true := by
  simp only [Matrix.hasFeatures_iff]
  constructor
  · intro h phone hphone entry hentry hany
    have hcommon := h entry hentry hany
    exact (get_commonFeatures_iff hphones hwell _ (hset entry hentry)).mp hcommon phone hphone
  · intro h entry hentry hany
    rw [get_commonFeatures_iff hphones hwell _ (hset entry hentry)]
    exact fun phone hphone => h phone hphone entry hentry hany

/-- Phones in another order have the same features in common. -/
theorem commonFeatures_beq_of_perm {others : List Phone} (hperm : phones.Perm others) :
    (commonFeatures phones == commonFeatures others) = true := by
  have hothers : others ≠ [] := fun hnil => hphones (hperm.trans (.of_eq hnil)).eq_nil
  have hwell' : ∀ phone ∈ others, phone.matrix.WellFormed :=
    fun phone hphone => hwell phone (hperm.mem_iff.mpr hphone)
  -- Both sides specify a feature alike, and so they leave open the same features.
  have hget {quality : Quality} (hset : quality ≠ .unset) (name : String) :
      (commonFeatures phones).get name = quality ↔ (commonFeatures others).get name = quality := by
    rw [get_commonFeatures_iff hphones hwell name hset,
      get_commonFeatures_iff hothers hwell' name hset]
    exact forall_congr' fun phone => imp_congr_left hperm.mem_iff
  rw [(Matrix.wellFormed_commonFeatures phones).beq_iff_get (Matrix.wellFormed_commonFeatures _)]
  intro name
  by_cases hset : (commonFeatures phones).get name = .unset
  · by_contra hdiffers
    have hset' : (commonFeatures others).get name ≠ .unset :=
      fun hunset => hdiffers (hset.trans hunset.symm)
    exact hdiffers ((hget hset' name).mpr rfl)
  · exact ((hget hset name).mp rfl).symm

end

/-- Patterns that are the same are matched alike. -/
theorem Matrix.WellFormed.hasFeatures_congr {a b : Matrix} (ha : a.WellFormed) (hb : b.WellFormed)
    (hsame : (a == b) = true) (m : Matrix) : m.hasFeatures a = m.hasFeatures b := by
  have hperm := (ha.beq_iff_perm hb).mp hsame
  rw [Bool.eq_iff_iff, Matrix.hasFeatures_iff, Matrix.hasFeatures_iff]
  exact forall_congr' fun entry => imp_congr_left hperm.mem_iff

/-- Taking the common features of some phones is adjoint to finding phones by a pattern: all of them
are found by a pattern exactly when their common features match it. So every phone matches the
common features, which match every pattern that all the phones match, and the order of the phones
does not matter for them, neither as a matrix nor as a pattern. -/
theorem commonFeatures_adjoint {phones : List Phone} (hphones : phones ≠ [])
    (hwell : ∀ phone ∈ phones, phone.matrix.WellFormed) :
    (∀ pattern : Matrix, (∀ entry ∈ pattern.entries, entry.quality ≠ .unset) →
      (phonesWith pattern phones = phones ↔
        (commonFeatures phones).hasFeatures pattern = true)) ∧
    (∀ phone ∈ phones, phone.matrix.hasFeatures (commonFeatures phones) = true) ∧
    (∀ m : Matrix, (∀ entry ∈ m.entries, entry.quality ≠ .unset) →
      (∀ phone ∈ phones, phone.matrix.hasFeatures m = true) →
        (commonFeatures phones).hasFeatures m = true) ∧
    ∀ others, phones.Perm others →
      (commonFeatures phones == commonFeatures others) = true ∧
      ∀ m : Matrix, m.hasFeatures (commonFeatures phones) =
        m.hasFeatures (commonFeatures others) := by
  have hcommon := Matrix.wellFormed_commonFeatures phones
  refine ⟨?_, ?_, ?_, ?_⟩
  · intro pattern hset
    rw [phonesWith, List.filter_eq_self, hasFeatures_commonFeatures_iff hphones hwell hset]
  · rw [← hasFeatures_commonFeatures_iff hphones hwell hcommon.specified, Matrix.hasFeatures_iff]
    exact fun entry hentry _ => hcommon.get_of_mem hentry
  · intro m hset hall
    exact (hasFeatures_commonFeatures_iff hphones hwell hset).mpr hall
  · intro others hperm
    have hsame := commonFeatures_beq_of_perm hphones hwell hperm
    exact ⟨hsame, hcommon.hasFeatures_congr (Matrix.wellFormed_commonFeatures others) hsame⟩

/-- Two phones that agree on two features and list them in another order. One of the features is a
wildcard on both phones, which a pattern may ask for in vain. -/
theorem commonFeatures_adjoint_wildcard :
    let d : Phone := ⟨"d", ⟨[⟨"voice", .plus⟩, ⟨"nasal", .minus⟩, ⟨"long", .any⟩]⟩⟩
    let n : Phone := ⟨"n", ⟨[⟨"long", .any⟩, ⟨"nasal", .plus⟩, ⟨"voice", .plus⟩]⟩⟩
    let voiced : Matrix := ⟨[⟨"voice", .plus⟩, ⟨"nasal", .any⟩]⟩
    phonesWith voiced [d, n] = [d, n] ∧
      (commonFeatures [d, n]).hasFeatures ⟨[⟨"long", .minus⟩]⟩ = false ∧
      phonesWith ⟨[⟨"long", .minus⟩]⟩ [d, n] ≠ [d, n] ∧
      n.matrix.hasFeatures (commonFeatures [d, n]) = true ∧
      (commonFeatures [d, n] == commonFeatures [n, d]) = true := by
  intro d n voiced
  obtain ⟨hfind, hall, -, horder⟩ := commonFeatures_adjoint
    (List.cons_ne_nil d [n])
    (List.forall_mem_cons.mpr ⟨⟨by decide, by decide⟩,
      List.forall_mem_singleton.mpr ⟨by decide, by decide⟩⟩)
  have hlong : (commonFeatures [d, n]).hasFeatures ⟨[⟨"long", .minus⟩]⟩ = false := by decide
  refine ⟨(hfind voiced (by decide)).mpr (by decide), hlong, ?_, ?_, ?_⟩
  · rw [Ne, hfind _ (by decide), hlong]
    exact Bool.false_ne_true
  · exact hall n (List.mem_cons_of_mem _ List.mem_cons_self)
  · exact (horder [n, d] (List.Perm.swap n d [])).1

end SoundLaw
