import SoundLaw.Eval.Assignment
import SoundLaw.Proofs.Outcome

/-!
# Paths into values

A path leads from a value through vectors and dictionaries to a value inside it. A missing key of a
dictionary counts as null, and nothing else can be walked into. An update at the end of a path
succeeds exactly if the path leads somewhere and the update succeeds there, and then the new value
alone decides what becomes of the container.

A value inside another one refers to nothing that the outer one does not refer to, and so does the
outcome of arithmetic with respect to its operands.
-/

namespace SoundLaw.Value

/-- The value one step below a vector or a dictionary. -/
def below? (value : Value) (step : Step) : Option Value :=
  match value with
  | vector elements =>
    (step.index.asIndex elements.length).toOption.map fun i => (elements[i]?).getD null
  | dictionary entries => some ((Value.entry? step.key entries).getD null)
  | _ => none

/-- The value at the end of a path. -/
def walk (value : Value) (path : List Step) : Option Value :=
  path.foldlM below? value

/-- A path of one more step. -/
theorem walk_append_singleton (value : Value) (path : List Step) (step : Step) :
    value.walk (path ++ [step]) = (value.walk path).bind (·.below? step) := by
  simp [walk]

/-- A path goes on from the value that its first step leads to. -/
theorem walk_cons (value : Value) (step : Step) (path : List Step) :
    value.walk (step :: path) = (value.below? step).bind (·.walk path) := by
  simp [walk]

/-- A path leads from null to nothing but null. -/
theorem walk_null {path : List Step} {value : Value} (h : null.walk path = some value) :
    value = null := by
  cases path with
  | nil =>
    cases h
    rfl
  | cons step rest =>
    rw [walk_cons] at h
    cases h

/-- The value in which another one stands at the end of a path. -/
def replaceAt (value : Value) (path : List Step) (written : Value) : Value :=
  (updateAt (fun _ => .ok written) path value).2

/-- An update below a container is an update below what the first step leads to. -/
theorem updateAt_cons {value inner : Value} {step : Step} (h : value.below? step = some inner)
    (rest : List Step) : ∃ rebuild : Value → Value, ∀ update,
      updateAt update (step :: rest) value =
        ((updateAt update rest inner).1, rebuild (updateAt update rest inner).2) := by
  cases value with
  | vector elements =>
    cases hindex : step.index.asIndex elements.length with
    | error fault =>
      rw [below?, hindex] at h
      cases h
    | ok i =>
      rw [below?, hindex] at h
      cases h
      refine ⟨fun element => vector (elements.set i element), fun update => ?_⟩
      rw [updateAt, hindex]
  | dictionary entries =>
    cases h
    exact ⟨fun entry => dictionary (insertEntry step.key entry entries), fun update => by
      rw [updateAt]⟩
  | _ => cases h

/-- An update below what cannot be walked into fails. -/
theorem updateAt_cons_of_none {value : Value} {step : Step} (h : value.below? step = none)
    (update : Value → Except Fault Value) (rest : List Step) :
    ∃ fault, updateAt update (step :: rest) value = (.error fault, value) := by
  cases value with
  | vector elements =>
    cases hindex : step.index.asIndex elements.length with
    | error fault =>
      refine ⟨fault, ?_⟩
      rw [updateAt, hindex]
    | ok i =>
      rw [below?, hindex] at h
      cases h
  | dictionary entries => cases h
  | _ => exact ⟨_, rfl⟩

/-- An update at the end of a path succeeds exactly if the path leads somewhere and the update
succeeds there. -/
theorem updateAt_eq_ok_iff {update : Value → Except Fault Value} {path : List Step}
    {value written value' : Value} :
    updateAt update path value = (.ok written, value') ↔
      ∃ current, value.walk path = some current ∧ update current = .ok written ∧
        value' = value.replaceAt path written := by
  induction path generalizing value value' with
  | nil =>
    rw [updateAt]
    cases hupdate : update value with
    | ok found =>
      constructor
      · intro h
        cases h
        exact ⟨value, rfl, hupdate, rfl⟩
      · rintro ⟨current, hwalk, hcurrent, rfl⟩
        cases hwalk
        rw [hupdate] at hcurrent
        cases hcurrent
        rfl
    | error fault =>
      constructor
      · intro h
        cases h
      · rintro ⟨current, hwalk, hcurrent, -⟩
        cases hwalk
        rw [hupdate] at hcurrent
        cases hcurrent
  | cons step rest ih =>
    rw [walk_cons]
    cases hbelow : value.below? step with
    | none =>
      obtain ⟨fault, hfailed⟩ := updateAt_cons_of_none hbelow update rest
      rw [hfailed]
      simp
    | some inner =>
      obtain ⟨rebuild, hupdate⟩ := updateAt_cons hbelow rest
      have hreplace : value.replaceAt (step :: rest) written =
          rebuild (inner.replaceAt rest written) := congrArg Prod.snd (hupdate _)
      rw [hupdate, hreplace, Option.bind_some]
      constructor
      · intro h
        obtain ⟨hok, rfl⟩ := Prod.mk.inj h
        obtain ⟨current, hwalk, hcurrent, hinner⟩ := ih.mp (Prod.ext hok rfl)
        exact ⟨current, hwalk, hcurrent, congrArg rebuild hinner⟩
      · rintro ⟨current, hwalk, hcurrent, rfl⟩
        rw [ih.mpr ⟨current, hwalk, hcurrent, rfl⟩]

/-- What several values refer to is what each of them refers to. -/
theorem mem_refsAll {ref : Ref} {values : List Value} :
    ref ∈ refsAll values ↔ ∃ value ∈ values, ref ∈ value.refs := by
  induction values with
  | nil => simp [refsAll]
  | cons value rest ih => simp [refsAll, ih]

/-- What entries refer to is what each of their values refers to. -/
theorem mem_refsEntries {ref : Ref} {entries : List (String × Value)} :
    ref ∈ refsEntries entries ↔ ∃ entry ∈ entries, ref ∈ entry.2.refs := by
  induction entries with
  | nil => simp [refsEntries]
  | cons entry rest ih => simp [refsEntries, ih]

/-- A value one step below a container refers to nothing else. -/
theorem refs_below? {value inner : Value} {step : Step} (h : value.below? step = some inner) :
    inner.refs ⊆ value.refs := by
  intro ref href
  cases value with
  | vector elements =>
    obtain ⟨i, -, rfl⟩ := Option.map_eq_some_iff.mp h
    cases hfound : elements[i]? with
    | none =>
      rw [hfound] at href
      cases href
    | some found =>
      rw [hfound] at href
      exact mem_refsAll.mpr ⟨found, List.mem_of_getElem? hfound, href⟩
  | dictionary entries =>
    cases h
    cases hfound : entry? step.key entries with
    | none =>
      rw [hfound] at href
      cases href
    | some found =>
      rw [hfound] at href
      obtain ⟨before, after, hentries, -⟩ := List.lookup_eq_some_iff.mp hfound
      refine mem_refsEntries.mpr ⟨(step.key, found), ?_, href⟩
      rw [hentries]
      exact List.mem_append_right _ List.mem_cons_self
  | _ => cases h

/-- A value at the end of a path refers to nothing that the outer value does not refer to. -/
theorem refs_walk {value inner : Value} {path : List Step} (h : value.walk path = some inner) :
    inner.refs ⊆ value.refs := by
  induction path generalizing value with
  | nil =>
    cases h
    exact List.Subset.refl _
  | cons step rest ih =>
    rw [walk_cons] at h
    obtain ⟨next, hbelow, hwalk⟩ := Option.bind_eq_some_iff.mp h
    exact List.Subset.trans (ih hwalk) (refs_below? hbelow)

/-- Which values go together in arithmetic, and what comes of them. -/
inductive Combines : Value → Value → Value → Prop
  | numbers {x y z : Float} : Combines (number x) (number y) (number z)
  | texts {x y : String} : Combines (text x) (text y) (text (x ++ y))
  | vectors {x y : List Value} : Combines (vector x) (vector y) (vector (x ++ y))
  | matrices {x y : Matrix} : Combines (matrix x) (matrix y) (matrix (x.union y))
  | words {x y : Word} : Combines (word x) (word y) (word (x.append y))

/-- A finite outcome is a number. -/
theorem eq_number_of_finite {operation : String} {x : Float} {c : Value}
    (h : finite operation x = .ok c) : ∃ y, c = number y := by
  rw [finite] at h
  split at h
  · cases h
    exact ⟨x, rfl⟩
  · cases h

/-- Arithmetic succeeds only on values that go together. -/
theorem Combines.of_arithmetic? {operator : Operator}
    {compute : Value → Value → Except Fault Value}
    (hoperator : arithmetic? operator = some compute) {a b c : Value}
    (h : compute a b = .ok c) : Combines a b c := by
  have hnumeric : ∀ operation f, numeric operation f a b = .ok c → Combines a b c := by
    intro operation f hc
    rw [numeric.eq_def] at hc
    split at hc
    · obtain ⟨z, rfl⟩ := eq_number_of_finite hc
      exact .numbers
    · cases hc
  cases operator with
  | add =>
    cases hoperator
    rw [add.eq_def] at h
    split at h
    · obtain ⟨z, rfl⟩ := eq_number_of_finite h
      exact .numbers
    · cases h
      exact .texts
    · cases h
      exact .vectors
    · cases h
      exact .matrices
    · cases h
      exact .words
    · cases h
  | subtract | multiply | divide | remainder | power =>
    cases hoperator
    exact hnumeric _ _ h
  | _ => cases hoperator

/-- The outcome of arithmetic refers to nothing that its operands do not refer to. -/
theorem Combines.refs {a b c : Value} (h : Combines a b c) {ref : Ref} (href : ref ∈ c.refs) :
    ref ∈ a.refs ∨ ref ∈ b.refs := by
  cases h with
  | vectors =>
    obtain ⟨value, hvalue, hmem⟩ := mem_refsAll.mp href
    refine (List.mem_append.mp hvalue).imp ?_ ?_
    · exact fun hx => mem_refsAll.mpr ⟨value, hx, hmem⟩
    · exact fun hy => mem_refsAll.mpr ⟨value, hy, hmem⟩
  | numbers | texts | matrices | words => cases href

end SoundLaw.Value
