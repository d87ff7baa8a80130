import SoundLaw.Proofs.Table.Registration

/-!
# Canonical symbols

Looking a matrix up after a derivation was registered gives what registering did: a derivation of
the same matrix takes part in the choice of the symbol, every other one leaves the phone alone. By
induction over the derivations, the phone of a matrix has the preferred symbol among all the
derivations of that matrix and the matrix of the first of them. The registered phones stand in the
order in which their matrices first appear.
-/

namespace SoundLaw

/-- Whether a symbol comes no later than another: fewer characters, or as many and not the greater
one. -/
def NoLater (a b : String) : Prop :=
  a.length < b.length ∨ (a.length = b.length ∧ a ≤ b)

/-- A symbol comes no later than itself. -/
theorem NoLater.refl (a : String) : NoLater a a :=
  Or.inr ⟨rfl, String.le_refl a⟩

/-- The order of symbols carries over. -/
theorem NoLater.trans {a b c : String} (hab : NoLater a b) (hbc : NoLater b c) : NoLater a c := by
  rcases hab with hab | ⟨hab, hle⟩
  · left
    rcases hbc with hbc | ⟨hbc, -⟩ <;> omega
  · rcases hbc with hbc | ⟨hbc, hle'⟩
    · exact Or.inl (by omega)
    · exact Or.inr ⟨by omega, String.le_trans hle hle'⟩

/-- A symbol that is preferred to another comes no later. -/
theorem noLater_of_precedes {a b : String} (h : precedes a b = true) : NoLater a b := by
  simp only [precedes, Bool.or_eq_true, Bool.and_eq_true, decide_eq_true_eq, beq_iff_eq] at h
  rcases h with hlength | ⟨hlength, hlt⟩
  · exact Or.inl hlength
  · refine Or.inr ⟨hlength, ?_⟩
    rcases String.le_total a b with hle | hge
    · exact hle
    · exact absurd hlt (String.not_lt.mpr hge)

/-- Of two symbols the one that the other is not preferred to comes no later. -/
theorem noLater_of_not_precedes {a b : String} (h : ¬ precedes b a = true) : NoLater a b := by
  simp only [precedes, Bool.or_eq_true, Bool.and_eq_true, decide_eq_true_eq, beq_iff_eq,
    not_or, not_and] at h
  obtain ⟨hlength, hle⟩ := h
  rcases Nat.lt_or_eq_of_le (Nat.le_of_not_lt hlength) with hlt | heq
  · exact Or.inl hlt
  · exact Or.inr ⟨heq, String.not_lt.mp (hle heq.symm)⟩

/-- The canonical one of some symbols is one of them. -/
theorem canonical_mem (first : String) (others : List String) :
    canonical first others ∈ first :: others := by
  induction others generalizing first with
  | nil => exact List.mem_singleton_self first
  | cons symbol others ih =>
    change canonical (if precedes symbol first then symbol else first) others ∈ _
    split
    · exact List.mem_cons_of_mem _ (ih symbol)
    · rcases List.mem_cons.mp (ih first) with heq | hmem
      · rw [heq]
        exact List.mem_cons_self
      · exact List.mem_cons_of_mem _ (List.mem_cons_of_mem _ hmem)

/-- The canonical one of some symbols comes no later than any of them. -/
theorem canonical_noLater (first : String) (others : List String) :
    ∀ symbol ∈ first :: others, NoLater (canonical first others) symbol := by
  induction others generalizing first with
  | nil =>
    intro symbol hsymbol
    rw [List.mem_singleton.mp hsymbol]
    exact NoLater.refl first
  | cons next others ih =>
    intro symbol hsymbol
    change NoLater (canonical (if precedes next first then next else first) others) symbol
    by_cases hnext : precedes next first = true
    · rw [if_pos hnext]
      have hbest := ih next next List.mem_cons_self
      rcases List.mem_cons.mp hsymbol with rfl | hmem
      · exact hbest.trans (noLater_of_precedes hnext)
      · exact ih next symbol hmem
    · rw [if_neg hnext]
      have hbest := ih first first List.mem_cons_self
      rcases List.mem_cons.mp hsymbol with rfl | hmem
      · exact hbest
      · rcases List.mem_cons.mp hmem with rfl | hmem
        · exact hbest.trans (noLater_of_not_precedes hnext)
        · exact ih first symbol (List.mem_cons_of_mem _ hmem)

/-- What registering derivations of one matrix makes of the phone of that matrix: the first of
them brings the phone, if there is none, and each takes part in the choice of its symbol. -/
def settled : Option Phone → List (String × Matrix) → Option Phone
  | some phone, derived => some ⟨canonical phone.symbol (derived.map (·.1)), phone.matrix⟩
  | none, [] => none
  | none, (symbol, matrix) :: derived => some ⟨canonical symbol (derived.map (·.1)), matrix⟩

/-- Registering a derivation of a matrix settles the phone of that matrix, and leaves every other
one alone. -/
theorem find?_register (symbol : String) {matrix target : Matrix} (hmatrix : matrix.WellFormed)
    (htarget : target.WellFormed) {phones : List Phone}
    (hphones : ∀ phone ∈ phones, phone.matrix.WellFormed) :
    (register symbol matrix phones).find? (·.matrix == target) =
      if matrix == target then settled (phones.find? (·.matrix == target)) [(symbol, matrix)]
      else phones.find? (·.matrix == target) := by
  induction phones with
  | nil =>
    by_cases hsame : (matrix == target) = true
    · simp [register, settled, canonical, hsame]
    · simp [register, hsame]
  | cons first rest ih =>
    have hfirst := hphones first List.mem_cons_self
    have hrest := ih fun phone hphone => hphones phone (List.mem_cons_of_mem _ hphone)
    by_cases hregistered : (first.matrix == matrix) = true
    · -- The first phone has the matrix, so it is found exactly when the derivation is looked for.
      have hsame := hfirst.beq_congr hmatrix htarget hregistered
      rw [register, if_pos hregistered, List.find?_cons, List.find?_cons, hsame]
      cases (matrix == target) <;> rfl
    · rw [register, if_neg hregistered, List.find?_cons, List.find?_cons, hrest]
      cases hfound : (first.matrix == target) with
      | true =>
        have hother : ¬ (matrix == target) = true := by
          intro hsame
          exact hregistered (hfirst.beq_trans htarget hmatrix hfound (hmatrix.beq_symm htarget hsame))
        rw [if_neg hother, if_neg hother]
      | false => rfl

/-- Settling with one derivation and then with others is settling with all of them. -/
theorem settled_cons (phone : Option Phone) (derived : String × Matrix)
    (others : List (String × Matrix)) :
    settled (settled phone [derived]) others = settled phone (derived :: others) := by
  cases phone <;> rfl

/-- Settling with nothing changes nothing. -/
theorem settled_nil (phone : Option Phone) : settled phone [] = phone := by
  cases phone <;> rfl

/-- Registering a well-formed derivation brings in no matrix that is not well-formed. -/
theorem register_wellFormed {symbol : String} {matrix : Matrix} (hmatrix : matrix.WellFormed)
    {phones : List Phone} (hphones : ∀ phone ∈ phones, phone.matrix.WellFormed) :
    ∀ phone ∈ register symbol matrix phones, phone.matrix.WellFormed := by
  intro phone hphone
  rcases register_cases symbol matrix phones with
    ⟨before, found, after, rfl, -, hregister⟩ | ⟨-, hregister⟩
  · have hfound := hphones found (List.mem_append_right _ List.mem_cons_self)
    rw [hregister] at hphone
    rcases List.mem_append.mp hphone with hbefore | hphone
    · exact hphones phone (List.mem_append_left _ hbefore)
    · rcases List.mem_cons.mp hphone with rfl | hafter
      · exact hfound
      · exact hphones phone (List.mem_append_right _ (List.mem_cons_of_mem _ hafter))
  · rw [hregister] at hphone
    rcases List.mem_append.mp hphone with hold | hnew
    · exact hphones phone hold
    · rw [List.mem_singleton.mp hnew]
      exact hmatrix

/-- The phone of a matrix is settled by the derivations of that matrix. -/
theorem find?_foldl_register {target : Matrix} (htarget : target.WellFormed)
    (derivations : List (String × Matrix))
    (hderivations : ∀ derived ∈ derivations, derived.2.WellFormed) {phones : List Phone}
    (hphones : ∀ phone ∈ phones, phone.matrix.WellFormed) :
    (derivations.foldl (fun phones (symbol, matrix) => register symbol matrix phones) phones).find?
        (·.matrix == target) =
      settled (phones.find? (·.matrix == target)) (derivations.filter (·.2 == target)) := by
  induction derivations generalizing phones with
  | nil => exact (settled_nil _).symm
  | cons derived rest ih =>
    have hderived := hderivations derived List.mem_cons_self
    rw [List.foldl_cons,
      ih (fun other hother => hderivations other (List.mem_cons_of_mem _ hother))
        (register_wellFormed hderived hphones),
      find?_register derived.1 hderived htarget hphones, List.filter_cons]
    split
    · exact settled_cons _ _ _
    · rfl

/-- Registering adds a matrix at the end, unless one that is the same is there. -/
theorem map_matrix_register (symbol : String) (matrix : Matrix) (phones : List Phone) :
    (register symbol matrix phones).map (·.matrix) =
      if (phones.map (·.matrix)).any (· == matrix) then phones.map (·.matrix)
      else phones.map (·.matrix) ++ [matrix] := by
  induction phones with
  | nil => rfl
  | cons first rest ih =>
    by_cases hfirst : (first.matrix == matrix) = true
    · simp [register, hfirst]
    · rw [register, if_neg hfirst, List.map_cons, ih, List.map_cons, List.any_cons,
        Bool.eq_false_iff.mpr hfirst, Bool.false_or]
      split <;> rfl

/-- Registering derivations adds their matrices in the order in which they first appear, except
those that were there. -/
theorem map_matrix_foldl_register (derivations : List (String × Matrix))
    (hderivations : ∀ derived ∈ derivations, derived.2.WellFormed) (phones : List Phone) :
    (derivations.foldl (fun phones (symbol, matrix) => register symbol matrix phones) phones).map
        (·.matrix) =
      phones.map (·.matrix) ++
        ((derivations.map (·.2)).filter fun matrix =>
          !(phones.map (·.matrix)).any (· == matrix)).eraseDups := by
  induction derivations generalizing phones with
  | nil => simp
  | cons derived rest ih =>
    have hmatrix := hderivations derived List.mem_cons_self
    have hrest := fun other hother => hderivations other (List.mem_cons_of_mem _ hother)
    rw [List.foldl_cons, ih hrest, map_matrix_register, List.map_cons, List.filter_cons]
    cases hknown : (phones.map (·.matrix)).any (· == derived.2) with
    | true => rfl
    | false =>
      -- The new matrix is the first of its kind, and keeps its like from being added later.
      have hlater : ((rest.map (·.2)).filter fun matrix =>
            !(phones.map (·.matrix) ++ [derived.2]).any (· == matrix)) =
          ((rest.map (·.2)).filter fun matrix => !(phones.map (·.matrix)).any (· == matrix)).filter
            fun matrix => !(matrix == derived.2) := by
        rw [List.filter_filter]
        refine List.filter_congr fun matrix hmem => ?_
        obtain ⟨other, hother, rfl⟩ := List.mem_map.mp hmem
        rw [List.any_append, Bool.not_or, Bool.and_comm, List.any_cons, List.any_nil,
          Bool.or_false, hmatrix.beq_comm (hrest other hother)]
      simp only [Bool.false_eq_true, if_false, Bool.not_false, if_true]
      rw [hlater, List.append_assoc, List.singleton_append, List.eraseDups_cons]

/-- The matrices of the registered phones are those of the derivations in the order in which they
first appear. -/
theorem map_matrix_registry {derivations : List (String × Matrix)}
    (hderivations : ∀ derived ∈ derivations, derived.2.WellFormed) :
    (registry derivations).map (·.matrix) = (derivations.map (·.2)).eraseDups := by
  rw [registry, map_matrix_foldl_register derivations hderivations]
  simp

/-- The phone of a derivation has its matrix, and its symbol is one that was derived for the
matrix and comes no later than any other. -/
theorem exists_find?_registry {derivations : List (String × Matrix)}
    (hderivations : ∀ derived ∈ derivations, derived.2.WellFormed) {derived : String × Matrix}
    (hderived : derived ∈ derivations) :
    ∃ phone, (registry derivations).find? (·.matrix == derived.2) = some phone ∧
      (phone.matrix == derived.2) = true ∧
      (∃ matrix, (phone.symbol, matrix) ∈ derivations ∧ (matrix == derived.2) = true) ∧
      ∀ other ∈ derivations, (other.2 == derived.2) = true → NoLater phone.symbol other.1 := by
  have hself : derived ∈ derivations.filter (·.2 == derived.2) :=
    List.mem_filter.mpr ⟨hderived, (hderivations derived hderived).beq_refl⟩
  have hfind : (registry derivations).find? (·.matrix == derived.2) =
      settled none (derivations.filter (·.2 == derived.2)) :=
    find?_foldl_register (hderivations derived hderived) derivations hderivations
      fun _ hmem => absurd hmem List.not_mem_nil
  cases hlike : derivations.filter (·.2 == derived.2) with
  | nil =>
    rw [hlike] at hself
    exact absurd hself List.not_mem_nil
  | cons first others =>
    rw [hlike] at hfind
    have hmem {other : String × Matrix} :
        other ∈ first :: others ↔ other ∈ derivations ∧ (other.2 == derived.2) = true := by
      rw [← hlike, List.mem_filter]
    refine ⟨_, hfind, (hmem.mp List.mem_cons_self).2, ?_, ?_⟩
    · have hcanonical : canonical first.1 (others.map (·.1)) ∈ (first :: others).map (·.1) :=
        canonical_mem first.1 (others.map (·.1))
      obtain ⟨chosen, hchosen, hsymbol⟩ := List.mem_map.mp hcanonical
      exact ⟨chosen.2, hsymbol ▸ (hmem.mp hchosen).1, (hmem.mp hchosen).2⟩
    · intro other hother hsame
      have hsymbol : other.1 ∈ (first :: others).map (·.1) :=
        List.mem_map_of_mem (hmem.mpr ⟨hother, hsame⟩)
      exact canonical_noLater _ _ other.1 hsymbol

/-- The registered phones of a table that was read have different matrices, in the order in which
these first appear among the derivations, and every derivation is looked up as the phone of its
matrix whose symbol is the least of all those derived for the matrix. -/
theorem BaseTable.registry_is_canonical {source : String} {base : BaseTable}
    (hload : BaseTable.load source = .ok base) :
    ((Table.ofBases base).phones.map (·.matrix)).Pairwise (fun a b => (a == b) = false) ∧
    (Table.ofBases base).phones.map (·.matrix) = (base.derivations.map (·.2)).eraseDups ∧
    ∀ derived ∈ base.derivations, ∃ phone,
      (Table.ofBases base).get? derived.2 = some phone ∧ (phone.matrix == derived.2) = true ∧
      (∃ matrix, (phone.symbol, matrix) ∈ base.derivations ∧ (matrix == derived.2) = true) ∧
      ∀ other ∈ base.derivations, (other.2 == derived.2) = true →
        phone.symbol.length < other.1.length ∨
          (phone.symbol.length = other.1.length ∧ phone.symbol ≤ other.1) := by
  have hbase := BaseTable.load_wellFormed hload
  exact ⟨hbase.registers.distinct, map_matrix_registry hbase.derivations,
    fun _ hderived => exists_find?_registry hbase.derivations hderived⟩

/-- Of two rows with one matrix, the phone has the matrix of the first and a symbol that is as short
as the second. -/
theorem BaseTable.registry_is_canonical_twice :
    ∃ base, BaseTable.load "SEGMENT\tvoice\nbb\t+\nc\t+\nd\t-\n" = .ok base ∧
      (Table.ofBases base).phones.map (·.matrix) = (base.derivations.map (·.2)).eraseDups ∧
      ∃ phone, (Table.ofBases base).get? ⟨[⟨"voice", .plus⟩]⟩ = some phone ∧
        phone.symbol.length ≤ "c".length := by
  let voiced : Matrix := ⟨[⟨"voice", .plus⟩]⟩
  let base : BaseTable :=
    ⟨["voice"], .empty, [("bb", voiced), ("c", voiced), ("d", ⟨[⟨"voice", .minus⟩]⟩)]⟩
  have hload : BaseTable.load "SEGMENT\tvoice\nbb\t+\nc\t+\nd\t-\n" = .ok base := by
    with_unfolding_all rfl
  have hrow {symbol : String} (h : (symbol, voiced) ∈ base.bases) :
      (symbol, voiced) ∈ base.derivations := List.mem_append_left _ h
  obtain ⟨-, horder, hleast⟩ := BaseTable.registry_is_canonical hload
  obtain ⟨phone, hget, -, -, hnoLater⟩ := hleast ("bb", voiced) (hrow (by simp [base]))
  refine ⟨base, hload, horder, phone, hget, ?_⟩
  rcases hnoLater ("c", voiced) (hrow (by simp [base])) (by decide) with hlt | ⟨heq, -⟩
  · exact Nat.le_of_lt hlt
  · exact Nat.le_of_eq heq

end SoundLaw
