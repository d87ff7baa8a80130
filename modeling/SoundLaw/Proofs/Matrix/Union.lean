import SoundLaw.Proofs.Matrix.Qualities

/-!
# The union of matrices as a join

The qualities of a feature form a flat order with unset below all others and the wildcard above
them: in a join an unset quality gives way, and two others that differ become a wildcard. The union
of two matrices joins them feature by feature, although it writes its entries one after another. So
it has the laws of a join, up to the order of the entries.

Patterns that one phone matches never disagree on a feature. Their union has no wildcard that they
do not have, and the phone matches it too.
-/

namespace SoundLaw

namespace Quality

/-- The least quality above two others: an unset one gives way, and others that differ become a
wildcard. -/
def join (a b : Quality) : Quality :=
  if a = .unset then b
  else if b = .unset then a
  else if a = b then a
  else .any

@[simp] theorem join_unset (a : Quality) : a.join .unset = a := by
  cases a <;> rfl

theorem join_self (a : Quality) : a.join a = a := by
  simp [join]

theorem join_comm (a b : Quality) : a.join b = b.join a := by
  cases a <;> cases b <;> rfl

theorem join_assoc (a b c : Quality) : (a.join b).join c = a.join (b.join c) := by
  cases a <;> cases b <;> cases c <;> rfl

end Quality

namespace Matrix

/-- A quality is looked up entry by entry. -/
theorem get_cons (first : Feature) (rest : List Feature) (name : String) :
    get ⟨first :: rest⟩ name = if name = first.name then first.quality else get ⟨rest⟩ name := by
  by_cases hname : name = first.name
  · simp [get, hname]
  · simp [get, hname, Ne.symm hname]

/-- A pattern asks for its entries, wildcards apart. -/
theorem hasFeatures_iff (m pattern : Matrix) :
    m.hasFeatures pattern = true ↔
      ∀ entry ∈ pattern.entries, entry.quality ≠ .any → m.get entry.name = entry.quality := by
  simp [hasFeatures, List.all_filter, or_iff_not_imp_left]

/-- What is written to a matrix is the only new entry. -/
theorem mem_put {m : Matrix} {name : String} {quality : Quality} {entry : Feature}
    (hentry : entry ∈ (m.put name quality).entries) :
    entry = ⟨name, quality⟩ ∨ entry ∈ m.entries := by
  unfold put at hentry
  split at hentry
  · exact Or.inr (List.mem_of_mem_eraseP hentry)
  · exact mem_overwrite hentry

/-- A union takes in one entry after another. -/
theorem union_cons (m : Matrix) (first : Feature) (rest : List Feature) :
    m.union ⟨first :: rest⟩ = (m.union ⟨[first]⟩).union ⟨rest⟩ :=
  rfl

/-- Taking in one entry fills the feature, or leaves it, or makes a wildcard of it. -/
theorem union_singleton (m : Matrix) (entry : Feature) :
    m.union ⟨[entry]⟩ =
      if m.get entry.name = .unset then m.put entry.name entry.quality
      else if m.get entry.name = entry.quality then m
      else m.put entry.name .any :=
  rfl

/-- A matrix stays well-formed when its first entry is taken away. -/
theorem WellFormed.rest {first : Feature} {rest : List Feature}
    (h : WellFormed ⟨first :: rest⟩) : WellFormed ⟨rest⟩ := by
  refine ⟨?_, fun entry hentry => h.specified entry (List.mem_cons_of_mem first hentry)⟩
  exact (List.nodup_cons.mp h.distinct).2

/-- The first entry of a well-formed matrix is the only one of its feature. -/
theorem WellFormed.get_rest {first : Feature} {rest : List Feature}
    (h : WellFormed ⟨first :: rest⟩) : get ⟨rest⟩ first.name = .unset := by
  by_contra hset
  have hmem := List.mem_map_of_mem (f := Feature.name) (mem_entries_of_get hset)
  exact (List.nodup_cons.mp h.distinct).1 hmem

/-- Taking in one entry joins its quality to that of its feature. -/
theorem WellFormed.get_union_singleton {m : Matrix} (hm : m.WellFormed) {entry : Feature}
    (hentry : entry.quality ≠ .unset) (name : String) :
    (m.union ⟨[entry]⟩).get name =
      if name = entry.name then (m.get name).join entry.quality else m.get name := by
  rw [union_singleton]
  by_cases hname : name = entry.name
  · subst hname
    rw [if_pos rfl]
    split
    · next hunset => rw [hm.get_put, if_pos rfl, hunset, Quality.join, if_pos rfl]
    · next hset =>
      split
      · next hsame => rw [← hsame, Quality.join_self]
      · next hdiffers =>
        rw [hm.get_put, if_pos rfl, Quality.join, if_neg hset, if_neg hentry, if_neg hdiffers]
  · rw [if_neg hname]
    split
    · rw [hm.get_put, if_neg hname]
    · split
      · rfl
      · rw [hm.get_put, if_neg hname]

/-- A union joins two matrices feature by feature. -/
theorem WellFormed.get_union {a b : Matrix} (ha : a.WellFormed) (hb : b.WellFormed)
    (name : String) : (a.union b).get name = (a.get name).join (b.get name) := by
  obtain ⟨entries⟩ := b
  induction entries generalizing a with
  | nil => exact (a.get name).join_unset.symm
  | cons first rest ih =>
    have hfirst : first.quality ≠ .unset := hb.specified first List.mem_cons_self
    rw [union_cons, ih (ha.union _) hb.rest, ha.get_union_singleton hfirst, get_cons]
    by_cases hname : name = first.name
    · rw [if_pos hname, if_pos hname, hname, hb.get_rest, Quality.join_unset]
    · rw [if_neg hname, if_neg hname]

/-- The entries of a union are entries that a matrix has, if those of both sides are: where the
matrix has both, they do not disagree, and no wildcard arises. -/
theorem has_of_mem_union {m a b : Matrix}
    (ha : ∀ entry ∈ a.entries, m.get entry.name = entry.quality ∧ entry.quality ≠ .any)
    (hb : ∀ entry ∈ b.entries, m.get entry.name = entry.quality ∧ entry.quality ≠ .any) :
    ∀ entry ∈ (a.union b).entries, m.get entry.name = entry.quality ∧ entry.quality ≠ .any := by
  obtain ⟨entries⟩ := b
  induction entries generalizing a with
  | nil => exact ha
  | cons first rest ih =>
    obtain ⟨hfirst, hrest⟩ := List.forall_mem_cons.mp hb
    rw [union_cons]
    refine ih (fun entry hentry => ?_) hrest
    rw [union_singleton] at hentry
    split at hentry
    · rcases mem_put hentry with rfl | hold
      · exact hfirst
      · exact ha entry hold
    · next hset =>
      split at hentry
      · exact ha entry hentry
      · next hdiffers =>
        have hpresent := (ha _ (mem_entries_of_get hset)).1
        exact absurd (hpresent.symm.trans hfirst.1) hdiffers

/-- A matrix that has the features of a pattern without wildcards has all its entries. -/
theorem has_of_hasFeatures {m pattern : Matrix} (h : m.hasFeatures pattern = true)
    (hany : ∀ entry ∈ pattern.entries, entry.quality ≠ .any) :
    ∀ entry ∈ pattern.entries, m.get entry.name = entry.quality ∧ entry.quality ≠ .any :=
  fun entry hentry =>
    ⟨(hasFeatures_iff m pattern).mp h entry hentry (hany entry hentry), hany entry hentry⟩

/-- The union of matrices is a join. On well-formed matrices it joins the qualities of each feature,
it is commutative, associative and idempotent, and the empty matrix changes nothing. Patterns
without wildcards that one matrix has are compatible: it has their union, which has no wildcard
either. -/
theorem WellFormed.union_isJoin {a b c : Matrix} (ha : a.WellFormed) (hb : b.WellFormed)
    (hc : c.WellFormed) :
    (∀ name, (a.union b).get name = (a.get name).join (b.get name)) ∧
    (a.union b == b.union a) = true ∧
    ((a.union b).union c == a.union (b.union c)) = true ∧
    (a.union a == a) = true ∧
    (a.union Matrix.empty == a) = true ∧ (Matrix.empty.union a == a) = true ∧
    ∀ m p q : Matrix, (∀ entry ∈ p.entries, entry.quality ≠ .any) →
      (∀ entry ∈ q.entries, entry.quality ≠ .any) →
      m.hasFeatures p = true → m.hasFeatures q = true →
      m.hasFeatures (p.union q) = true ∧ ∀ entry ∈ (p.union q).entries, entry.quality ≠ .any := by
  refine ⟨ha.get_union hb, ?_, ?_, ?_, ?_, ?_, ?_⟩
  · rw [(ha.union b).beq_iff_get (hb.union a)]
    intro name
    rw [ha.get_union hb, hb.get_union ha, Quality.join_comm]
  · rw [((ha.union b).union c).beq_iff_get (ha.union _)]
    intro name
    rw [(ha.union b).get_union hc, ha.get_union hb, ha.get_union (hb.union c), hb.get_union hc,
      Quality.join_assoc]
  · rw [(ha.union a).beq_iff_get ha]
    intro name
    rw [ha.get_union ha, Quality.join_self]
  · exact ha.beq_refl
  · rw [(WellFormed.empty.union a).beq_iff_get ha]
    intro name
    rw [WellFormed.empty.get_union ha]
    rfl
  · intro m p q hp hq hmp hmq
    have hunion := has_of_mem_union (has_of_hasFeatures hmp hp) (has_of_hasFeatures hmq hq)
    refine ⟨(hasFeatures_iff m _).mpr fun entry hentry _ => (hunion entry hentry).1, ?_⟩
    exact fun entry hentry => (hunion entry hentry).2

/-- Three matrices that agree, disagree and differ in what they specify, a variable among them, and
two patterns of one phone. -/
theorem WellFormed.union_isJoin_conflicting :
    let a : Matrix := ⟨[⟨"voice", .plus⟩, ⟨"nasal", .alpha⟩]⟩
    let b : Matrix := ⟨[⟨"nasal", .alpha⟩, ⟨"voice", .minus⟩, ⟨"long", .minus⟩]⟩
    let c : Matrix := ⟨[⟨"long", .any⟩, ⟨"voice", .plus⟩]⟩
    let phone : Matrix := ⟨[⟨"voice", .plus⟩, ⟨"long", .minus⟩, ⟨"nasal", .minus⟩]⟩
    let p : Matrix := ⟨[⟨"long", .minus⟩, ⟨"voice", .plus⟩]⟩
    let q : Matrix := ⟨[⟨"voice", .plus⟩, ⟨"nasal", .minus⟩]⟩
    (a.union b).get "voice" = .any ∧ (a.union b).get "nasal" = .alpha ∧
      ((a.union b).union c == a.union (b.union c)) = true ∧
      phone.hasFeatures p = true ∧ phone.hasFeatures q = true ∧
      phone.hasFeatures (p.union q) = true ∧
      ∀ entry ∈ (p.union q).entries, entry.quality ≠ .any := by
  intro a b c phone p q
  obtain ⟨-, -, hassoc, -, -, -, hpatterns⟩ :=
    WellFormed.union_isJoin (a := a) (b := b) (c := c) ⟨by decide, by decide⟩
      ⟨by decide, by decide⟩ ⟨by decide, by decide⟩
  have hp : phone.hasFeatures p = true := by decide
  have hq : phone.hasFeatures q = true := by decide
  have hunion := hpatterns phone p q (by decide) (by decide) hp hq
  exact ⟨by decide, by decide, hassoc, hp, hq, hunion⟩

end Matrix

end SoundLaw
