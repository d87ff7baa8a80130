import SoundLaw.Proofs.Table.Derivations
import Mathlib.Data.List.FinRange

/-!
# The order of variants

The variants of a base phone are listed from a stack of unfinished derivations. What comes of one of
them does not depend on those below it, so the list is the one that a recursion over the indices of
the articulations writes: each articulation is tried in its turn, and where it may be applied, the
extended variant is followed by the variants built on it with the articulations behind.

A variant stands for the path of indices that leads to it. The paths are listed in lexicographic
order, where a path comes before its continuations, so every path that may be followed has one place
in the list.
-/

namespace SoundLaw

namespace Articulation

/-- The variants of a phone by recursion. Each articulation from an index on is tried in order; if
it may be applied, the variant that carries it is listed, and then those that carry more
articulations from behind that one. -/
def listing (articulations : List Articulation) (classes : MajorClasses) (symbol : String)
    (matrix : Matrix) (applied : List Diacritic) (index : Nat) : List (String × Matrix) :=
  (List.finRange articulations.length).flatMap fun (j : Fin articulations.length) =>
    let a := articulations[j]
    if index ≤ j.val ∧ a.canApply matrix applied then
      (symbol.push a.symbol, a.apply classes matrix) ::
        listing articulations classes (symbol.push a.symbol) (a.apply classes matrix)
          (applied ++ [a.kind]) (j.val + 1)
    else []
termination_by articulations.length - index
decreasing_by omega

/-- The paths of indices from an index on that may be followed, by the same recursion. -/
def paths (articulations : List Articulation) (classes : MajorClasses) (matrix : Matrix)
    (applied : List Diacritic) (index : Nat) : List (List (Fin articulations.length)) :=
  (List.finRange articulations.length).flatMap fun (j : Fin articulations.length) =>
    let a := articulations[j]
    if index ≤ j.val ∧ a.canApply matrix applied then
      ([] :: paths articulations classes (a.apply classes matrix) (applied ++ [a.kind])
        (j.val + 1)).map (j :: ·)
    else []
termination_by articulations.length - index
decreasing_by omega

/-- The variant at the end of a path, if each of its articulations may follow those before it. -/
def follow? (articulations : List Articulation) (classes : MajorClasses) (symbol : String)
    (matrix : Matrix) (applied : List Diacritic) (path : List (Fin articulations.length)) :
    Option (String × Matrix) :=
  stack? classes symbol matrix applied (path.map fun j => articulations[j])

/-- Of the indices from a given one on, that one comes first. -/
theorem flatMap_finRange_step {α : Type} {count index : Nat} (h : index < count)
    (f : Fin count → List α) :
    ((List.finRange count).flatMap fun j => if index ≤ j.val then f j else []) =
      f ⟨index, h⟩ ++
        (List.finRange count).flatMap fun j => if index + 1 ≤ j.val then f j else [] := by
  induction count generalizing index with
  | zero => omega
  | succ count ih =>
    rw [List.finRange_succ, List.flatMap_cons, List.flatMap_cons, List.flatMap_map,
      List.flatMap_map]
    cases index with
    | zero => simp
    | succ index =>
      have hrest := ih (Nat.lt_of_succ_lt_succ h) (fun j => f j.succ)
      simpa using hrest

section

variable (articulations : List Articulation) (classes : MajorClasses) (symbol : String)
  (matrix : Matrix) (applied : List Diacritic)

/-- Nothing is listed from behind the last articulation. -/
theorem listing_of_length_le {index : Nat} (h : articulations.length ≤ index) :
    listing articulations classes symbol matrix applied index = [] := by
  rw [listing, List.flatMap_eq_nil_iff]
  intro j _
  exact if_neg fun hindex => by omega

/-- The first articulation is tried, and then the others in their order. -/
theorem listing_step {index : Nat} (h : index < articulations.length) :
    listing articulations classes symbol matrix applied index =
      (if articulations[index].canApply matrix applied then
        (symbol.push articulations[index].symbol, articulations[index].apply classes matrix) ::
          listing articulations classes (symbol.push articulations[index].symbol)
            (articulations[index].apply classes matrix) (applied ++ [articulations[index].kind])
            (index + 1)
      else []) ++ listing articulations classes symbol matrix applied (index + 1) := by
  have hunfold (index : Nat) := listing.eq_1 articulations classes symbol matrix applied index
  simp only [ite_and] at hunfold
  rw [hunfold, flatMap_finRange_step h, ← hunfold]
  rfl

end

/-- A path may be followed from an index on: its indices increase from there, and each of its
articulations may follow those before it. -/
structure Follows (articulations : List Articulation) (classes : MajorClasses) (symbol : String)
    (matrix : Matrix) (applied : List Diacritic) (index : Nat)
    (path : List (Fin articulations.length)) : Prop where
  increasing : path.Pairwise (· < ·)
  from_index : ∀ j ∈ path, index ≤ j.val
  applicable : (follow? articulations classes symbol matrix applied path).isSome

section

variable {articulations : List Articulation} {classes : MajorClasses} {symbol : String}
  {matrix : Matrix} {applied : List Diacritic} {index : Nat}

/-- The first step of a path that may be followed. -/
theorem follow?_cons (classes : MajorClasses) (symbol : String) {j : Fin articulations.length}
    (hcan : articulations[j].canApply matrix applied) (path : List (Fin articulations.length)) :
    follow? articulations classes symbol matrix applied (j :: path) =
      follow? articulations classes (symbol.push articulations[j].symbol)
        (articulations[j].apply classes matrix) (applied ++ [articulations[j].kind]) path := by
  rw [follow?, List.map_cons, stack?, if_pos hcan, follow?]

/-- A path may be followed when its first articulation may be applied and the rest of it may be
followed from behind that one. -/
theorem follows_cons_iff (j : Fin articulations.length) (path : List (Fin articulations.length)) :
    Follows articulations classes symbol matrix applied index (j :: path) ↔
      (index ≤ j.val ∧ articulations[j].canApply matrix applied) ∧
        Follows articulations classes (symbol.push articulations[j].symbol)
          (articulations[j].apply classes matrix) (applied ++ [articulations[j].kind]) (j.val + 1)
          path := by
  constructor
  · rintro ⟨hincreasing, hindex, happlicable⟩
    rw [List.pairwise_cons] at hincreasing
    rw [List.forall_mem_cons] at hindex
    by_cases hcan : articulations[j].canApply matrix applied
    · rw [follow?_cons classes symbol hcan] at happlicable
      exact ⟨⟨hindex.1, hcan⟩, hincreasing.2, hincreasing.1, happlicable⟩
    · rw [follow?, List.map_cons, stack?, if_neg hcan] at happlicable
      cases happlicable
  · rintro ⟨⟨hindex, hcan⟩, hincreasing, hfrom, happlicable⟩
    refine ⟨List.pairwise_cons.mpr ⟨hfrom, hincreasing⟩, ?_, ?_⟩
    · refine List.forall_mem_cons.mpr ⟨hindex, fun k hk => ?_⟩
      have hlater := hfrom k hk
      omega
    · rw [follow?_cons classes symbol hcan]
      exact happlicable

/-- A path is listed under its first index. -/
theorem mem_paths {path : List (Fin articulations.length)} :
    path ∈ paths articulations classes matrix applied index ↔
      ∃ j rest, path = j :: rest ∧ (index ≤ j.val ∧ articulations[j].canApply matrix applied) ∧
        rest ∈ [] :: paths articulations classes (articulations[j].apply classes matrix)
          (applied ++ [articulations[j].kind]) (j.val + 1) := by
  rw [paths, List.mem_flatMap]
  constructor
  · rintro ⟨j, -, hpath⟩
    dsimp only at hpath
    split at hpath
    · next hcan =>
      obtain ⟨rest, hrest, rfl⟩ := List.mem_map.mp hpath
      exact ⟨j, rest, rfl, hcan, hrest⟩
    · exact absurd hpath List.not_mem_nil
  · rintro ⟨j, rest, rfl, hcan, hrest⟩
    refine ⟨j, List.mem_finRange j, ?_⟩
    dsimp only
    rw [if_pos hcan]
    exact List.mem_map_of_mem hrest

/-- The paths are those that may be followed, except the empty one. -/
theorem mem_paths_iff_follows (symbol : String) (path : List (Fin articulations.length)) :
    path ∈ paths articulations classes matrix applied index ↔
      path ≠ [] ∧ Follows articulations classes symbol matrix applied index path := by
  induction path generalizing symbol matrix applied index with
  | nil =>
    rw [mem_paths]
    simp
  | cons j path ih =>
    rw [mem_paths, follows_cons_iff]
    simp only [List.cons.injEq, List.mem_cons, ne_eq, reduceCtorEq, not_false_eq_true, true_and]
    constructor
    · rintro ⟨j, rest, ⟨rfl, rfl⟩, hcan, rfl | hrest⟩
      · exact ⟨hcan, List.Pairwise.nil, by simp, rfl⟩
      · exact ⟨hcan, ((ih _).mp hrest).2⟩
    · rintro ⟨hcan, hrest⟩
      refine ⟨j, path, ⟨rfl, rfl⟩, hcan, ?_⟩
      by_cases hnil : path = []
      · exact Or.inl hnil
      · exact Or.inr ((ih _).mpr ⟨hnil, hrest⟩)

/-- The paths stand in lexicographic order, each before its continuations. -/
theorem pairwise_paths : (paths articulations classes matrix applied index).Pairwise (· < ·) := by
  fun_induction paths articulations classes matrix applied index with
  | case1 matrix applied index ih =>
    rw [List.pairwise_flatMap]
    constructor
    · intro j _
      dsimp only
      split
      · next hcan =>
        rw [List.pairwise_map, List.pairwise_cons]
        constructor
        · intro rest hrest
          obtain ⟨k, later, rfl, -⟩ := mem_paths.mp hrest
          exact List.cons_lt_cons_iff.mpr (Or.inr ⟨rfl, List.nil_lt_cons k later⟩)
        · exact (ih j hcan).imp fun hlt => List.cons_lt_cons_iff.mpr (Or.inr ⟨rfl, hlt⟩)
      · exact List.Pairwise.nil
    · -- What is listed under an index begins with it.
      have hfirst {i : Fin articulations.length} {path : List (Fin articulations.length)}
          {rests : List (List (Fin articulations.length))} {can : Prop} [Decidable can]
          (hpath : path ∈ if can then rests.map (i :: ·) else []) : ∃ rest, path = i :: rest := by
        split at hpath
        · obtain ⟨rest, -, rfl⟩ := List.mem_map.mp hpath
          exact ⟨rest, rfl⟩
        · exact absurd hpath List.not_mem_nil
      refine (List.pairwise_lt_finRange articulations.length).imp ?_
      intro i j hij path hpath other hother
      obtain ⟨rest, rfl⟩ := hfirst hpath
      obtain ⟨rest', rfl⟩ := hfirst hother
      exact List.cons_lt_cons_iff.mpr (Or.inl hij)

/-- The recursion lists the variants at the ends of the paths. -/
theorem map_some_listing (symbol : String) :
    (listing articulations classes symbol matrix applied index).map some =
      (paths articulations classes matrix applied index).map
        (follow? articulations classes symbol matrix applied) := by
  fun_induction listing articulations classes symbol matrix applied index with
  | case1 symbol matrix applied index ih =>
    rw [paths, List.map_flatMap, List.map_flatMap]
    refine List.flatMap_congr fun j _ => ?_
    dsimp only
    split
    · next hcan =>
      have hfollow := follow?_cons classes symbol hcan.2
      rw [List.map_cons, List.map_map, List.map_cons, ih j hcan]
      simp only [Function.comp_def, hfollow]
      rfl
    · rfl

end

end Articulation

namespace Derivation

/-- What the recursion lists for an unfinished derivation, from the articulations that are still to
be tried on it. -/
def listed (articulations : List Articulation) (classes : MajorClasses) (d : Derivation) :
    List (String × Matrix) :=
  Articulation.listing articulations classes d.symbol d.matrix d.applied
    (articulations.length - d.pending.length)

section

variable {articulations : List Articulation} (classes : MajorClasses) (symbol : String)
  (matrix : Matrix) (applied : List Diacritic)

/-- Nothing is listed for a derivation without pending articulations. -/
theorem listed_of_pending_nil : listed articulations classes ⟨symbol, matrix, applied, []⟩ = [] :=
  Articulation.listing_of_length_le _ _ _ _ _ (Nat.le_refl _)

/-- The first pending articulation is tried, and then the others in their order. -/
theorem listed_of_pending_cons {a : Articulation} {later : List Articulation}
    (h : a :: later <:+ articulations) :
    listed articulations classes ⟨symbol, matrix, applied, a :: later⟩ =
      (if a.canApply matrix applied then
        (symbol.push a.symbol, a.apply classes matrix) :: listed articulations classes
          ⟨symbol.push a.symbol, a.apply classes matrix, applied ++ [a.kind], later⟩
      else []) ++ listed articulations classes ⟨symbol, matrix, applied, later⟩ := by
  obtain ⟨before, rfl⟩ := h
  have hindex : (before ++ a :: later).length - (a :: later).length = before.length := by simp
  have hnext : (before ++ a :: later).length - later.length = before.length + 1 := by
    rw [List.length_append, List.length_cons]
    omega
  have hlength : before.length < (before ++ a :: later).length := by simp
  have hget : (before ++ a :: later)[before.length] = a := by simp
  simp only [listed, hindex, hnext]
  rw [Articulation.listing_step _ _ _ _ _ hlength, hget]

end

/-- What the stack of unfinished derivations lists is what the recursion lists for each of them. -/
theorem listVariants_eq_flatMap_listed (articulations : List Articulation) (classes : MajorClasses)
    {work : List Derivation} (hwork : ∀ d ∈ work, d.pending <:+ articulations) :
    listVariants classes work = work.flatMap (listed articulations classes) := by
  induction work using listVariants.induct classes with
  | case1 => rw [listVariants, List.flatMap_nil]
  | case2 symbol matrix applied rest ih =>
    rw [List.forall_mem_cons] at hwork
    rw [listVariants, ih hwork.2, List.flatMap_cons, listed_of_pending_nil, List.nil_append]
  | case3 symbol matrix applied a later rest current hcan derived ih =>
    rw [List.forall_mem_cons] at hwork
    have hlater : later <:+ articulations := (List.suffix_cons a later).trans hwork.1
    have hnext : ∀ d ∈ derived :: current :: rest, d.pending <:+ articulations :=
      List.forall_mem_cons.mpr ⟨hlater, List.forall_mem_cons.mpr ⟨hlater, hwork.2⟩⟩
    rw [listVariants, List.flatMap_cons, listed_of_pending_cons _ _ _ _ hwork.1, if_pos hcan]
    dsimp only
    rw [if_pos hcan, ih hnext, List.flatMap_cons, List.flatMap_cons, List.cons_append,
      List.cons_append, List.append_assoc]
    rfl
  | case4 symbol matrix applied a later rest current hcan ih =>
    rw [List.forall_mem_cons] at hwork
    have hlater : later <:+ articulations := (List.suffix_cons a later).trans hwork.1
    have hnext : ∀ d ∈ current :: rest, d.pending <:+ articulations :=
      List.forall_mem_cons.mpr ⟨hlater, hwork.2⟩
    rw [listVariants, List.flatMap_cons, listed_of_pending_cons _ _ _ _ hwork.1, if_neg hcan,
      if_neg hcan, ih hnext, List.flatMap_cons, List.nil_append]

end Derivation

/-- The variants of a base phone are those that the recursion over the indices of the articulations
lists, in its order. They stand for the increasing paths of indices on which each articulation may
follow those before it: each such path has exactly one place in the list, a path comes before its
continuations and before every path that branches off it to a later index, and nothing else is
listed. -/
theorem Articulation.expand_eq_listing (articulations : List Articulation) (classes : MajorClasses)
    (symbol : String) (matrix : Matrix) :
    expand articulations classes symbol matrix =
      listing articulations classes symbol matrix [] 0 ∧
    ∃ paths : List (List (Fin articulations.length)),
      (expand articulations classes symbol matrix).map some =
        paths.map (follow? articulations classes symbol matrix []) ∧
      paths.Nodup ∧ paths.Pairwise (· < ·) ∧
      ∀ path, path ∈ paths ↔ path ≠ [] ∧ path.Pairwise (· < ·) ∧
        (follow? articulations classes symbol matrix [] path).isSome := by
  have hexpand : expand articulations classes symbol matrix =
      listing articulations classes symbol matrix [] 0 := by
    have hwork := Derivation.listVariants_eq_flatMap_listed articulations classes
      (List.forall_mem_singleton.mpr (List.suffix_refl articulations) :
        ∀ d ∈ [Derivation.mk symbol matrix [] articulations], d.pending <:+ articulations)
    rw [expand, hwork, List.flatMap_singleton, Derivation.listed, Nat.sub_self]
  refine ⟨hexpand, paths articulations classes matrix [] 0, ?_, ?_, pairwise_paths, ?_⟩
  · rw [hexpand, map_some_listing]
  · exact pairwise_paths.nodup
  · intro path
    rw [mem_paths_iff_follows symbol]
    constructor
    · rintro ⟨hne, hfollows⟩
      exact ⟨hne, hfollows.increasing, hfollows.applicable⟩
    · rintro ⟨hne, hincreasing, happlicable⟩
      exact ⟨hne, hincreasing, fun _ _ => Nat.zero_le _, happlicable⟩

end SoundLaw
