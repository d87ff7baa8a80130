import SoundLaw.Proofs.Table.Derivations
import SoundLaw.Table.Registry

/-!
# The registered phones

Registering a derivation either finds the phone of its matrix or adds a phone. By induction over
the derivations, registered phones have different matrices, every derivation has a phone, and the
symbol of a phone is one that was derived for its matrix. So a phone is found again under every
matrix that is the same as its own.
-/

namespace SoundLaw

/-- The canonical one of two symbols is one of them. -/
theorem canonical_singleton (first other : String) :
    canonical first [other] = first ∨ canonical first [other] = other := by
  change (if precedes other first then other else first) = first ∨
    (if precedes other first then other else first) = other
  split
  · exact Or.inr rfl
  · exact Or.inl rfl

/-- Registering renames the first phone of the matrix, or adds one if there is none. -/
theorem register_cases (symbol : String) (matrix : Matrix) (phones : List Phone) :
    (∃ before phone after, phones = before ++ phone :: after ∧ (phone.matrix == matrix) = true ∧
      register symbol matrix phones =
        before ++ ⟨canonical phone.symbol [symbol], phone.matrix⟩ :: after) ∨
    ((∀ phone ∈ phones, (phone.matrix == matrix) = false) ∧
      register symbol matrix phones = phones ++ [⟨symbol, matrix⟩]) := by
  induction phones with
  | nil =>
    right
    exact ⟨fun _ hphone => absurd hphone List.not_mem_nil, rfl⟩
  | cons first rest ih =>
    by_cases hfirst : (first.matrix == matrix) = true
    · left
      exact ⟨[], first, rest, rfl, hfirst, by rw [register, if_pos hfirst]; rfl⟩
    · rw [register, if_neg hfirst]
      rcases ih with ⟨before, phone, after, hsplit, hphone, hregister⟩ | ⟨hnone, hregister⟩
      · left
        exact ⟨first :: before, phone, after, by rw [hsplit, List.cons_append], hphone,
          by rw [hregister, List.cons_append]⟩
      · right
        refine ⟨?_, by rw [hregister, List.cons_append]⟩
        intro phone hphone
        rcases List.mem_cons.mp hphone with rfl | hrest
        · exact Bool.eq_false_iff.mpr hfirst
        · exact hnone phone hrest

/-- What holds of the phones after some derivations were registered. -/
structure Registers (derivations : List (String × Matrix)) (phones : List Phone) : Prop where
  /-- No matrix is registered twice. -/
  distinct : (phones.map (·.matrix)).Pairwise fun a b => (a == b) = false
  /-- The matrix of a phone was derived. -/
  matrix_derived : ∀ phone ∈ phones, ∃ symbol, (symbol, phone.matrix) ∈ derivations
  /-- The symbol of a phone was derived for its matrix. -/
  symbol_derived : ∀ phone ∈ phones, ∃ matrix,
    (phone.symbol, matrix) ∈ derivations ∧ (phone.matrix == matrix) = true
  /-- Every derivation has a phone. -/
  complete : ∀ derived ∈ derivations, ∃ phone ∈ phones, (phone.matrix == derived.2) = true

/-- One more derivation is registered: a phone of its matrix was there. -/
theorem Registers.rename {derivations : List (String × Matrix)} {before after : List Phone}
    {phone : Phone} {symbol : String} {matrix : Matrix}
    (h : Registers derivations (before ++ phone :: after))
    (hphone : (phone.matrix == matrix) = true) :
    Registers (derivations ++ [(symbol, matrix)])
      (before ++ ⟨canonical phone.symbol [symbol], phone.matrix⟩ :: after) := by
  have hmatrices : (before ++ ⟨canonical phone.symbol [symbol], phone.matrix⟩ :: after).map
      (·.matrix) = (before ++ phone :: after).map (·.matrix) := by
    simp only [List.map_append, List.map_cons]
  -- The other phones were there before, and the renamed one takes one of two derived symbols.
  have hmem {other : Phone}
      (hother : other ∈ before ++ ⟨canonical phone.symbol [symbol], phone.matrix⟩ :: after) :
      other ∈ before ++ phone :: after ∨
        other = ⟨canonical phone.symbol [symbol], phone.matrix⟩ := by
    simp only [List.mem_append, List.mem_cons] at hother ⊢
    rcases hother with hbefore | heq | hafter
    · exact Or.inl (Or.inl hbefore)
    · exact Or.inr heq
    · exact Or.inl (Or.inr (Or.inr hafter))
  have hold : phone ∈ before ++ phone :: after := List.mem_append_right _ List.mem_cons_self
  refine ⟨by rw [hmatrices]; exact h.distinct, ?_, ?_, ?_⟩
  · intro other hother
    rcases hmem hother with hrest | rfl
    · obtain ⟨found, hfound⟩ := h.matrix_derived other hrest
      exact ⟨found, List.mem_append_left _ hfound⟩
    · obtain ⟨found, hfound⟩ := h.matrix_derived phone hold
      exact ⟨found, List.mem_append_left _ hfound⟩
  · intro other hother
    rcases hmem hother with hrest | rfl
    · obtain ⟨found, hfound, hsame⟩ := h.symbol_derived other hrest
      exact ⟨found, List.mem_append_left _ hfound, hsame⟩
    · rcases canonical_singleton phone.symbol symbol with hfirst | hother
      · obtain ⟨found, hfound, hsame⟩ := h.symbol_derived phone hold
        refine ⟨found, List.mem_append_left _ ?_, hsame⟩
        rw [hfirst]
        exact hfound
      · refine ⟨matrix, List.mem_append_right _ ?_, hphone⟩
        rw [hother]
        exact List.mem_singleton_self _
  · intro derived hderived
    -- A phone is found by its matrix, which renaming leaves alone.
    have hfind {other : Phone} (hother : other ∈ before ++ phone :: after) :
        ∃ found ∈ before ++ ⟨canonical phone.symbol [symbol], phone.matrix⟩ :: after,
          found.matrix = other.matrix := by
      have hmatrix : other.matrix ∈ (before ++ phone :: after).map (·.matrix) :=
        List.mem_map_of_mem hother
      rw [← hmatrices] at hmatrix
      exact List.mem_map.mp hmatrix
    rcases List.mem_append.mp hderived with hprevious | hnew
    · obtain ⟨other, hother, hsame⟩ := h.complete derived hprevious
      obtain ⟨found, hfound, heq⟩ := hfind hother
      exact ⟨found, hfound, heq ▸ hsame⟩
    · obtain ⟨found, hfound, heq⟩ := hfind hold
      rw [List.mem_singleton.mp hnew]
      exact ⟨found, hfound, heq ▸ hphone⟩

/-- One more derivation is registered: its matrix is new. -/
theorem Registers.add {derivations : List (String × Matrix)} {phones : List Phone}
    {symbol : String} {matrix : Matrix} (h : Registers derivations phones)
    (hmatrix : matrix.WellFormed) (hnew : ∀ phone ∈ phones, (phone.matrix == matrix) = false) :
    Registers (derivations ++ [(symbol, matrix)]) (phones ++ [⟨symbol, matrix⟩]) := by
  have hself : (symbol, matrix) ∈ derivations ++ [(symbol, matrix)] :=
    List.mem_append_right _ (List.mem_singleton_self _)
  refine ⟨?_, ?_, ?_, ?_⟩
  · rw [List.map_append, List.pairwise_append]
    refine ⟨h.distinct, List.pairwise_singleton _ _, ?_⟩
    intro a ha b hb
    obtain ⟨phone, hphone, rfl⟩ := List.mem_map.mp ha
    rw [List.mem_singleton.mp hb]
    exact hnew phone hphone
  · intro phone hphone
    rcases List.mem_append.mp hphone with hprevious | hadded
    · obtain ⟨found, hfound⟩ := h.matrix_derived phone hprevious
      exact ⟨found, List.mem_append_left _ hfound⟩
    · rw [List.mem_singleton.mp hadded]
      exact ⟨symbol, hself⟩
  · intro phone hphone
    rcases List.mem_append.mp hphone with hprevious | hadded
    · obtain ⟨found, hfound, hsame⟩ := h.symbol_derived phone hprevious
      exact ⟨found, List.mem_append_left _ hfound, hsame⟩
    · rw [List.mem_singleton.mp hadded]
      exact ⟨matrix, hself, hmatrix.beq_refl⟩
  · intro derived hderived
    rcases List.mem_append.mp hderived with hprevious | hadded
    · obtain ⟨phone, hphone, hsame⟩ := h.complete derived hprevious
      exact ⟨phone, List.mem_append_left _ hphone, hsame⟩
    · rw [List.mem_singleton.mp hadded]
      exact ⟨⟨symbol, matrix⟩, List.mem_append_right _ (List.mem_singleton_self _),
        hmatrix.beq_refl⟩

/-- Registering a well-formed derivation keeps the account of what was registered. -/
theorem Registers.register {derivations : List (String × Matrix)} {phones : List Phone}
    (h : Registers derivations phones) (symbol : String) {matrix : Matrix}
    (hmatrix : matrix.WellFormed) :
    Registers (derivations ++ [(symbol, matrix)]) (register symbol matrix phones) := by
  rcases register_cases symbol matrix phones with
    ⟨before, phone, after, rfl, hphone, hregister⟩ | ⟨hnew, hregister⟩
  · rw [hregister]
    exact h.rename hphone
  · rw [hregister]
    exact h.add hmatrix hnew

/-- Registering further derivations keeps the account of what was registered. -/
theorem Registers.foldl {derivations : List (String × Matrix)} {phones : List Phone}
    (h : Registers derivations phones) (more : List (String × Matrix))
    (hmore : ∀ derived ∈ more, derived.2.WellFormed) :
    Registers (derivations ++ more)
      (more.foldl (fun phones (symbol, matrix) => SoundLaw.register symbol matrix phones)
        phones) := by
  induction more generalizing derivations phones with
  | nil =>
    rw [List.append_nil]
    exact h
  | cons first rest ih =>
    rw [List.append_cons, List.foldl_cons]
    exact ih (h.register first.1 (hmore first List.mem_cons_self))
      fun derived hderived => hmore derived (List.mem_cons_of_mem _ hderived)

/-- The registry of well-formed derivations accounts for all of them. -/
theorem registry_registers (derivations : List (String × Matrix))
    (hwell : ∀ derived ∈ derivations, derived.2.WellFormed) :
    Registers derivations (registry derivations) := by
  have hnone : Registers [] [] := by
    refine ⟨List.Pairwise.nil, ?_, ?_, ?_⟩ <;> exact fun _ hmem => absurd hmem List.not_mem_nil
  exact hnone.foldl derivations hwell

/-- Among matrices of which no two are the same, the first that is the same as a given one is the
only one. -/
theorem find?_matrix_eq_some {phones : List Phone}
    (hdistinct : (phones.map (·.matrix)).Pairwise fun a b => (a == b) = false)
    (hwell : ∀ phone ∈ phones, phone.matrix.WellFormed) {phone : Phone} (hphone : phone ∈ phones)
    {matrix : Matrix} (hmatrix : matrix.WellFormed) (hsame : (phone.matrix == matrix) = true) :
    phones.find? (·.matrix == matrix) = some phone := by
  induction phones with
  | nil => exact absurd hphone List.not_mem_nil
  | cons first rest ih =>
    rw [List.map_cons, List.pairwise_cons] at hdistinct
    rcases List.mem_cons.mp hphone with rfl | hrest
    · exact List.find?_cons_of_pos hsame
    · have hfirst := hwell first List.mem_cons_self
      have hother := hwell phone hphone
      have hne : ¬ (first.matrix == matrix) = true := by
        intro heq
        have hboth := hfirst.beq_trans hmatrix hother heq (hother.beq_symm hmatrix hsame)
        rw [hdistinct.1 phone.matrix (List.mem_map_of_mem hrest)] at hboth
        cases hboth
      rw [List.find?_cons, Bool.eq_false_iff.mpr hne]
      exact ih hdistinct.2 (fun other hmem => hwell other (List.mem_cons_of_mem _ hmem)) hrest

/-- The registered phones of a table that was read account for its derivations. -/
theorem BaseTable.WellFormed.registers {base : BaseTable} (hbase : base.WellFormed) :
    Registers base.derivations (Table.ofBases base).phones :=
  registry_registers base.derivations hbase.derivations

/-- The registered phones of a table that was read have well-formed matrices. -/
theorem BaseTable.WellFormed.phones {base : BaseTable} (hbase : base.WellFormed) :
    ∀ phone ∈ (Table.ofBases base).phones, phone.matrix.WellFormed := by
  intro phone hphone
  obtain ⟨symbol, hderived⟩ := hbase.registers.matrix_derived phone hphone
  exact hbase.derivations _ hderived

/-- A registered phone is found under every matrix that is the same as its own. -/
theorem BaseTable.WellFormed.get?_eq_some {base : BaseTable} (hbase : base.WellFormed)
    {phone : Phone} (hphone : phone ∈ (Table.ofBases base).phones) {matrix : Matrix}
    (hmatrix : matrix.WellFormed) (hsame : (phone.matrix == matrix) = true) :
    (Table.ofBases base).get? matrix = some phone :=
  find?_matrix_eq_some hbase.registers.distinct hbase.phones hphone hmatrix hsame

end SoundLaw
