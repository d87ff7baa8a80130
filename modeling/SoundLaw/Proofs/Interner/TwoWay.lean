import Mathlib.Data.List.Nodup
import SoundLaw.Interner

/-!
# The numbers of names

An interner is a list of names in which the number of a name is its place. It stands for a table
that is read both ways, from names to numbers and from numbers to names. Nothing is relied on but
the laws of the operations of such a table (`TwoWay.Lawful`), one of which says that an insertion
puts out every pair that has the name or the number of the new one. An interner loses no pair by it:
it enters a name only when it does not hold it, and its size is a number it has not handed out
(`TwoWay.Lawful.holds_insert`). A list of pairs obeys the laws (`Pairs.lawful`).
-/

namespace SoundLaw

namespace Interner

/-- A number that was handed out for a name stands for that name. -/
theorem resolve?_of_find? {interner : Interner} {name : String} {number : Nat}
    (h : interner.find? name = some number) : interner.resolve? number = some name := by
  obtain ⟨hnumber, hname, -⟩ := List.idxOf?_eq_some_iff.mp h
  rw [resolve?, List.getElem?_eq_getElem hnumber, hname]

/-- Names that have been entered have different numbers. -/
theorem eq_of_intern_eq {interner : Interner} {name other : String}
    (hname : (interner.find? name).isSome) (hother : (interner.find? other).isSome)
    (h : (interner.intern name).1 = (interner.intern other).1) : name = other := by
  obtain ⟨number, hfind⟩ := Option.isSome_iff_exists.mp hname
  obtain ⟨number', hfind'⟩ := Option.isSome_iff_exists.mp hother
  have heq : number = number' := by simpa only [intern, hfind, hfind'] using h
  have hresolve := resolve?_of_find? hfind
  rw [heq, resolve?_of_find? hfind'] at hresolve
  exact (Option.some.inj hresolve).symm

/-- A name is missing exactly when it has not been entered. -/
theorem find?_eq_none_iff {interner : Interner} {name : String} :
    interner.find? name = none ↔ name ∉ interner.names :=
  List.idxOf?_eq_none_iff

/-- Where no name has been entered twice, a number is found for the name it stands for. -/
theorem find?_of_resolve? {interner : Interner} (hdistinct : interner.names.Nodup)
    {name : String} {number : Nat} (h : interner.resolve? number = some name) :
    interner.find? name = some number := by
  obtain ⟨hnumber, hname⟩ := List.getElem?_eq_some_iff.mp h
  refine List.idxOf?_eq_some_iff.mpr ⟨hnumber, hname, fun earlier hearlier heq => ?_⟩
  have hplace := hdistinct.getElem_inj_iff.mp (heq.trans hname.symm)
  exact Nat.ne_of_lt hearlier hplace

/-- An entry finds the name, or it puts the name behind the others. -/
theorem enter_cases (interner : Interner) (name : String) :
    (∃ number, interner.find? name = some number ∧ interner.enter name = (number, interner)) ∨
      (name ∉ interner.names ∧
        interner.enter name = (interner.size, ⟨interner.names ++ [name]⟩)) := by
  cases hfind : interner.find? name with
  | some number => exact .inl ⟨number, rfl, by rw [enter, hfind]⟩
  | none => exact .inr ⟨find?_eq_none_iff.mp hfind, by rw [enter, hfind]⟩

/-- The search before an entry changes nothing, because an entry searches again. -/
theorem intern_eq_enter (interner : Interner) (name : String) :
    interner.intern name = interner.enter name := by
  unfold intern
  split
  · next hfind => rw [enter, hfind]
  · rfl

/-- A number and the name it stands for, after a new name has been put behind the others. -/
theorem resolve?_concat {interner : Interner} {name : String} (hname : name ∉ interner.names)
    {number : Nat} {other : String} :
    resolve? ⟨interner.names ++ [name]⟩ number = some other ↔
      (number = interner.size ∧ other = name) ∨
        (number ≠ interner.size ∧ other ≠ name ∧ interner.resolve? number = some other) := by
  unfold resolve? size
  rcases Nat.lt_trichotomy number interner.names.length with hless | rfl | hmore
  · have hother : interner.names[number]? = some other → other ≠ name := by
      rintro hresolve rfl
      exact hname (List.mem_of_getElem? hresolve)
    rw [List.getElem?_append_left hless]
    simp only [Nat.ne_of_lt hless, false_and, false_or, ne_eq, not_false_eq_true, true_and]
    exact ⟨fun hresolve => ⟨hother hresolve, hresolve⟩, And.right⟩
  · simp [eq_comm]
  · have hnone : interner.names[number]? = none := List.getElem?_eq_none (Nat.le_of_lt hmore)
    have hnone' : (interner.names ++ [name])[number]? = none :=
      List.getElem?_eq_none (by rwa [List.length_append, List.length_singleton])
    simp [hnone, hnone', Nat.ne_of_gt hmore]

/-- A name and its number, after a new name has been put behind the others. -/
theorem find?_concat {interner : Interner} {name : String} (hname : name ∉ interner.names)
    {number : Nat} {other : String} :
    find? ⟨interner.names ++ [name]⟩ other = some number ↔
      (other = name ∧ number = interner.size) ∨
        (other ≠ name ∧ number ≠ interner.size ∧ interner.find? other = some number) := by
  have hless : interner.find? other = some number → number ≠ interner.size := by
    intro hfind
    obtain ⟨hnumber, -⟩ := List.getElem?_eq_some_iff.mp (resolve?_of_find? hfind)
    exact Nat.ne_of_lt hnumber
  have hconcat : find? ⟨interner.names ++ [name]⟩ other =
      (interner.find? other).or (if other = name then some interner.size else none) := by
    unfold find? List.idxOf? size
    rw [List.findIdx?_append, List.findIdx?_singleton]
    obtain rfl | hother := eq_or_ne other name
    · simp
    · simp [hother, hother.symm]
  rw [hconcat]
  obtain rfl | hother := eq_or_ne other name
  · rw [find?_eq_none_iff.mpr hname]
    simp [eq_comm]
  · simpa [hother] using hless

end Interner

/-- The operations of a table of names and numbers that is read both ways. -/
structure TwoWay (τ : Type) where
  /-- The table without pairs. -/
  empty : τ
  /-- The number of a name. -/
  number? : τ → String → Option Nat
  /-- The name of a number. -/
  name? : τ → Nat → Option String
  /-- Puts a pair in and every pair out that has its name or its number. -/
  insert : τ → String → Nat → τ
  /-- How many pairs there are. -/
  size : τ → Nat

namespace TwoWay

variable {τ : Type} {ops : TwoWay τ} {table : τ} {interner : Interner} {name : String}

/-- The laws of a table that is read both ways. -/
structure Lawful (ops : TwoWay τ) : Prop where
  number?_empty : ∀ name, ops.number? ops.empty name = none
  name?_empty : ∀ number, ops.name? ops.empty number = none
  size_empty : ops.size ops.empty = 0
  number?_insert : ∀ table name number other other',
    ops.number? (ops.insert table name number) other = some other' ↔
      (other = name ∧ other' = number) ∨
        (other ≠ name ∧ other' ≠ number ∧ ops.number? table other = some other')
  name?_insert : ∀ table name number other other',
    ops.name? (ops.insert table name number) other = some other' ↔
      (other = number ∧ other' = name) ∨
        (other ≠ number ∧ other' ≠ name ∧ ops.name? table other = some other')
  /-- A pair that puts no pair out is one more. -/
  size_insert : ∀ table name number,
    ops.number? table name = none → ops.name? table number = none →
      ops.size (ops.insert table name number) = ops.size table + 1

/-- Puts a name in, unless it is there, with the number of the pairs as its number. -/
def enter (ops : TwoWay τ) (table : τ) (name : String) : Nat × τ :=
  match ops.number? table name with
  | some number => (number, table)
  | none => (ops.size table, ops.insert table name (ops.size table))

/-- A table reads as the names of an interner with their numbers. -/
structure Holds (ops : TwoWay τ) (table : τ) (interner : Interner) : Prop where
  number? : ∀ name, ops.number? table name = interner.find? name
  name? : ∀ number, ops.name? table number = interner.resolve? number
  size : ops.size table = interner.size

/-- The table without pairs holds no names. -/
theorem Lawful.holds_empty (h : ops.Lawful) : ops.Holds ops.empty .empty :=
  ⟨h.number?_empty, h.name?_empty, h.size_empty⟩

/-- To insert a new name with the next number puts no pair out. -/
theorem Lawful.holds_insert (h : ops.Lawful) (hholds : ops.Holds table interner)
    (hname : name ∉ interner.names) :
    ops.Holds (ops.insert table name interner.size) ⟨interner.names ++ [name]⟩ where
  number? other := by
    ext number
    rw [h.number?_insert, Interner.find?_concat hname, hholds.number?]
  name? other := by
    ext name'
    rw [h.name?_insert, Interner.resolve?_concat hname, hholds.name?]
  size := by
    have hfree : interner.resolve? interner.size = none := List.getElem?_eq_none (Nat.le_refl _)
    rw [h.size_insert, hholds.size]
    · rw [Interner.size, Interner.size, List.length_append, List.length_singleton]
    · rw [hholds.number?, Interner.find?_eq_none_iff.mpr hname]
    · rw [hholds.name?, hfree]

/-- To enter a name into a table is to enter it into the interner whose names the table holds. -/
theorem Lawful.enter (h : ops.Lawful) (hholds : ops.Holds table interner) (name : String) :
    (ops.enter table name).1 = (interner.enter name).1 ∧
      ops.Holds (ops.enter table name).2 (interner.enter name).2 := by
  unfold TwoWay.enter
  rw [hholds.number?, hholds.size]
  obtain ⟨number, hfind, henter⟩ | ⟨hmem, henter⟩ := interner.enter_cases name
  · rw [hfind, henter]
    exact ⟨rfl, hholds⟩
  · rw [Interner.find?_eq_none_iff.mpr hmem, henter]
    exact ⟨rfl, h.holds_insert hholds hmem⟩

end TwoWay

/-- Pairs of a name and a number of which no two have a name or a number in common. -/
structure Pairs where
  /-- The pairs, in the order of their insertion. -/
  pairs : List (String × Nat)
  names_nodup : (pairs.map Prod.fst).Nodup
  numbers_nodup : (pairs.map Prod.snd).Nodup

namespace Pairs

/-- No pairs. -/
def empty : Pairs :=
  ⟨[], List.nodup_nil, List.nodup_nil⟩

/-- The number of a name. -/
def number? (table : Pairs) (name : String) : Option Nat :=
  (table.pairs.find? fun pair => pair.1 = name).map (·.2)

/-- The name of a number. -/
def name? (table : Pairs) (number : Nat) : Option String :=
  (table.pairs.find? fun pair => pair.2 = number).map (·.1)

/-- The pairs that have neither a name nor a number. -/
def without (table : Pairs) (name : String) (number : Nat) : List (String × Nat) :=
  table.pairs.filter fun pair => pair.1 ≠ name ∧ pair.2 ≠ number

/-- The pairs that stay are those that share nothing with a pair. -/
theorem mem_without {table : Pairs} {name : String} {number : Nat} {pair : String × Nat} :
    pair ∈ table.without name number ↔
      pair ∈ table.pairs ∧ pair.1 ≠ name ∧ pair.2 ≠ number := by
  rw [without, List.mem_filter, decide_eq_true_iff]

/-- What no two pairs had in common no two of them have after an insertion, if the pairs that stay
do not share it with the new pair. -/
theorem nodup_insert {κ : Type} {key : String × Nat → κ} {table : Pairs} {name : String}
    {number : Nat} (hkeys : (table.pairs.map key).Nodup)
    (hnew : ∀ pair ∈ table.without name number, key pair ≠ key (name, number)) :
    ((table.without name number ++ [(name, number)]).map key).Nodup := by
  rw [List.map_append, List.map_singleton, List.nodup_append]
  refine ⟨hkeys.sublist (List.filter_sublist.map key), List.nodup_singleton _, ?_⟩
  intro k hk k' hk'
  obtain ⟨pair, hpair, rfl⟩ := List.mem_map.mp hk
  rw [List.mem_singleton.mp hk']
  exact hnew pair hpair

/-- Puts a pair in and every pair out that has its name or its number. -/
def insert (table : Pairs) (name : String) (number : Nat) : Pairs where
  pairs := table.without name number ++ [(name, number)]
  names_nodup := nodup_insert table.names_nodup fun _ hpair => (mem_without.mp hpair).2.1
  numbers_nodup := nodup_insert table.numbers_nodup fun _ hpair => (mem_without.mp hpair).2.2

/-- The pairs as a table that is read both ways. -/
def twoWay : TwoWay Pairs where
  empty := empty
  number? := number?
  name? := name?
  insert := insert
  size table := table.pairs.length

/-- A search for a key that no two members of a list have in common finds the member that has
it. -/
theorem map_find?_eq_some_iff {α β κ : Type} [DecidableEq κ] {key : α → κ} {list : List α}
    (hkeys : (list.map key).Nodup) {f : α → β} {k : κ} {b : β} :
    (list.find? fun a => key a = k).map f = some b ↔ ∃ a ∈ list, key a = k ∧ f a = b := by
  constructor
  · intro h
    obtain ⟨a, hfind, hb⟩ := Option.map_eq_some_iff.mp h
    exact ⟨a, List.mem_of_find?_eq_some hfind, by simpa using List.find?_some hfind, hb⟩
  · rintro ⟨a, hmem, rfl, rfl⟩
    cases hfind : list.find? fun other => key other = key a with
    | none =>
      rw [List.find?_eq_none] at hfind
      exact absurd (decide_eq_true rfl) (hfind a hmem)
    | some other =>
      have hkey : key other = key a := by simpa using List.find?_some hfind
      rw [List.inj_on_of_nodup_map hkeys (List.mem_of_find?_eq_some hfind) hmem hkey,
        Option.map_some]

/-- The number of a name is the number that it is paired with. -/
theorem number?_eq_some_iff {table : Pairs} {name : String} {number : Nat} :
    table.number? name = some number ↔ (name, number) ∈ table.pairs := by
  rw [number?, map_find?_eq_some_iff table.names_nodup]
  simp

/-- The name of a number is the name that it is paired with. -/
theorem name?_eq_some_iff {table : Pairs} {name : String} {number : Nat} :
    table.name? number = some name ↔ (name, number) ∈ table.pairs := by
  rw [name?, map_find?_eq_some_iff table.numbers_nodup]
  simp

/-- The pairs after an insertion. -/
theorem mem_insert {table : Pairs} {name other : String} {number other' : Nat} :
    (other, other') ∈ (table.insert name number).pairs ↔
      (other = name ∧ other' = number) ∨
        (other ≠ name ∧ other' ≠ number ∧ (other, other') ∈ table.pairs) := by
  rw [insert, List.mem_append, List.mem_singleton, Prod.mk.injEq, mem_without]
  tauto

/-- A list of pairs obeys the laws of a table that is read both ways. -/
theorem lawful : twoWay.Lawful where
  number?_empty _ := rfl
  name?_empty _ := rfl
  size_empty := rfl
  number?_insert table name number other other' := by
    rw [twoWay, number?_eq_some_iff, number?_eq_some_iff, mem_insert]
  name?_insert table name number other other' := by
    rw [twoWay, name?_eq_some_iff, name?_eq_some_iff, mem_insert]
    tauto
  size_insert table name number hname hnumber := by
    have hkept : table.without name number = table.pairs := by
      refine List.filter_eq_self.mpr fun pair hpair => decide_eq_true ⟨?_, ?_⟩
      · rintro rfl
        exact Option.ne_none_iff_exists'.mpr ⟨_, number?_eq_some_iff.mpr hpair⟩ hname
      · rintro rfl
        exact Option.ne_none_iff_exists'.mpr ⟨_, name?_eq_some_iff.mpr hpair⟩ hnumber
    change (table.without name number ++ [(name, number)]).length = table.pairs.length + 1
    rw [hkept, List.length_append, List.length_singleton]

/-- A pair with the number of an older pair puts that pair out. -/
example : ((empty.insert "voice" 0).insert "nasal" 0).pairs = [("nasal", 0)] := by
  decide

end Pairs

end SoundLaw
