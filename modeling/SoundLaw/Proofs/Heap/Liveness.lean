import SoundLaw.Eval
import Std.Data.HashSet.Lemmas

/-!
# The living things

A collection of things sustains itself if everything in it is held from outside or referred to by
a member, and a thing is living if it is in such a collection. What refers to something is in the
heap, so the living things of the heap are those that are left when everything is removed that
nobody refers to: `isAlive` answers whether a thing of the heap is living.

To hold on to things that are living anyway brings nothing else to life. So an evaluation sees the
same living things whatever it holds of the values and variables that its scope leads to.
-/

namespace SoundLaw

namespace Heap

variable {heap : Heap} {roots : List Ref} {thing other : Ref}

/-- Everything in a collection is held from outside or referred to by a member. -/
def Sustains (heap : Heap) (roots : List Ref) (alive : Ref → Prop) : Prop :=
  ∀ thing, alive thing → thing ∈ roots ∨ ∃ other, alive other ∧ thing ∈ heap.refsOf other

/-- A thing belongs to a collection that sustains itself. -/
def Living (heap : Heap) (roots : List Ref) (thing : Ref) : Prop :=
  ∃ alive, heap.Sustains roots alive ∧ alive thing

/-- What is held from outside is living. -/
theorem Living.of_mem_roots (h : thing ∈ roots) : heap.Living roots thing :=
  ⟨(· ∈ roots), fun _ hroot => Or.inl hroot, h⟩

/-- All living things together sustain themselves. -/
theorem sustains_living (heap : Heap) (roots : List Ref) :
    heap.Sustains roots (heap.Living roots) := by
  rintro thing ⟨alive, hsustains, halive⟩
  rcases hsustains thing halive with hroot | ⟨other, hother, href⟩
  · exact Or.inl hroot
  · exact Or.inr ⟨other, ⟨alive, hsustains, hother⟩, href⟩

/-- What a living thing refers to is living. -/
theorem Living.refs (h : heap.Living roots other) (href : thing ∈ heap.refsOf other) :
    heap.Living roots thing := by
  refine ⟨fun t => heap.Living roots t ∨ t = thing, ?_, Or.inr rfl⟩
  rintro t (hliving | rfl)
  · refine (sustains_living heap roots t hliving).imp_right ?_
    rintro ⟨q, hq, hrefs⟩
    exact ⟨q, Or.inl hq, hrefs⟩
  · exact Or.inr ⟨other, Or.inl h, href⟩

/-- Holding on to living things brings nothing else to life. -/
theorem living_append {more : List Ref} (hmore : ∀ ref ∈ more, heap.Living roots ref) :
    heap.Living (more ++ roots) = heap.Living roots := by
  funext thing
  apply propext
  constructor
  · rintro ⟨alive, hsustains, halive⟩
    refine ⟨fun t => alive t ∨ heap.Living roots t, ?_, Or.inl halive⟩
    have hliving : ∀ t, heap.Living roots t →
        t ∈ roots ∨ ∃ q, (alive q ∨ heap.Living roots q) ∧ t ∈ heap.refsOf q := by
      intro t ht
      refine (sustains_living heap roots t ht).imp_right ?_
      rintro ⟨q, hq, hrefs⟩
      exact ⟨q, Or.inr hq, hrefs⟩
    rintro t (ht | ht)
    · rcases hsustains t ht with hroot | ⟨q, hq, hrefs⟩
      · rcases List.mem_append.mp hroot with hmem | hmem
        · exact hliving t (hmore t hmem)
        · exact Or.inl hmem
      · exact Or.inr ⟨q, Or.inl hq, hrefs⟩
    · exact hliving t ht
  · rintro ⟨alive, hsustains, halive⟩
    refine ⟨alive, fun t ht => (hsustains t ht).imp_left ?_, halive⟩
    exact List.mem_append_right more

/-- What refers to something is in the heap. -/
theorem mem_contents_of_mem_refsOf (h : thing ∈ heap.refsOf other) : other ∈ heap.contents := by
  cases other with
  | frame id =>
    cases hfound : heap.frames[id]? with
    | none =>
      rw [refsOf, bindings, hfound] at h
      cases h
    | some frame => simp [contents, (Array.getElem?_eq_some_iff.mp hfound).1]
  | cell id =>
    cases hfound : heap.cells[id]? with
    | none =>
      rw [refsOf, read, hfound] at h
      cases h
    | some cell => simp [contents, (Array.getElem?_eq_some_iff.mp hfound).1]
  | struct id =>
    cases hfound : heap.structs[id]? with
    | none =>
      rw [refsOf, hfound] at h
      cases h
    | some struct => simp [contents, (Array.getElem?_eq_some_iff.mp hfound).1]
  | task id =>
    cases hfound : heap.tasks[id]? with
    | none =>
      rw [refsOf, hfound] at h
      cases h
    | some task => simp [contents, (Array.getElem?_eq_some_iff.mp hfound).1]

/-- The things referred to are the roots and what some thing refers to. -/
theorem contains_referred {things : List Ref} :
    (heap.referred roots things).contains thing ↔
      thing ∈ roots ∨ ∃ other ∈ things, thing ∈ heap.refsOf other := by
  have hfold : ∀ set : Std.HashSet Ref,
      (things.foldl (fun set thing => set.insertMany (heap.refsOf thing)) set).contains thing ↔
        set.contains thing ∨ ∃ other ∈ things, thing ∈ heap.refsOf other := by
    induction things with
    | nil => simp
    | cons first rest ih =>
      intro set
      rw [List.foldl_cons, ih]
      simp [or_assoc]
  rw [referred, hfold]
  simp

/-- A collection that sustains itself survives every round of removal. -/
theorem mem_sustained_of_sustains {alive : Ref → Prop} (hsustains : heap.Sustains roots alive)
    {rounds : Nat} {things : List Ref} (hthings : ∀ t ∈ heap.contents, alive t → t ∈ things)
    (hthing : thing ∈ heap.contents) (halive : alive thing) :
    thing ∈ heap.sustained roots rounds things := by
  induction rounds generalizing things with
  | zero => exact hthings thing hthing halive
  | succ rounds ih =>
    rw [sustained]
    split
    · exact hthings thing hthing halive
    · refine ih fun t ht hmem => List.mem_filter.mpr ⟨hthings t ht hmem, ?_⟩
      rw [contains_referred]
      refine (hsustains t hmem).imp_right ?_
      rintro ⟨q, hq, hrefs⟩
      exact ⟨q, hthings q (mem_contents_of_mem_refsOf hrefs) hq, hrefs⟩

/-- What is left when there is nothing more to remove sustains itself. -/
theorem sustains_sustained {rounds : Nat} {things : List Ref} (hrounds : things.length < rounds) :
    heap.Sustains roots (· ∈ heap.sustained roots rounds things) := by
  induction rounds generalizing things with
  | zero => cases hrounds
  | succ rounds ih =>
    intro thing hthing
    simp only [sustained] at hthing ⊢
    split at hthing
    · next hlength =>
      rw [if_pos hlength]
      have hall := List.length_filter_eq_length_iff.mp hlength
      exact contains_referred.mp (hall thing hthing)
    · next hlength =>
      rw [if_neg hlength]
      have hless := Nat.lt_of_le_of_ne (List.length_filter_le _ _) hlength
      exact ih (Nat.lt_of_lt_of_le hless (Nat.le_of_lt_succ hrounds)) thing hthing

/-- What is reached from living things is living. -/
theorem Living.of_isReached {steps : Nat} {seen : Std.HashSet Ref} {refs : List Ref}
    (hrefs : ∀ ref ∈ refs, heap.Living roots ref)
    (h : heap.isReached thing steps seen refs = true) : heap.Living roots thing := by
  induction steps generalizing seen refs with
  | zero => cases h
  | succ steps ih =>
    cases refs with
    | nil => cases h
    | cons ref rest =>
      have hfirst := hrefs ref List.mem_cons_self
      have hrest : ∀ t ∈ rest, heap.Living roots t := fun t ht =>
        hrefs t (List.mem_cons_of_mem _ ht)
      rw [isReached] at h
      split at h
      · next heq => exact heq ▸ hfirst
      · split at h
        · exact ih hrest h
        · refine ih ?_ h
          intro t ht
          rcases List.mem_append.mp ht with ht | ht
          · exact hfirst.refs ht
          · exact hrest t ht

/-- What is found to be alive is living. -/
theorem Living.of_isAlive (h : heap.isAlive roots thing = true) : heap.Living roots thing := by
  rcases Bool.or_eq_true_iff.mp h with hreached | hkept
  · exact .of_isReached (fun _ => .of_mem_roots) hreached
  · exact ⟨_, sustains_sustained (Nat.lt_succ_self _), List.contains_iff_mem.mp hkept⟩

/-- A thing of the heap is alive exactly if it is living. -/
theorem isAlive_iff_living (hthing : thing ∈ heap.contents) :
    heap.isAlive roots thing = true ↔ heap.Living roots thing := by
  constructor
  · exact Living.of_isAlive
  · rintro ⟨alive, hsustains, halive⟩
    refine Bool.or_eq_true_iff.mpr (Or.inr (List.contains_iff_mem.mpr ?_))
    exact mem_sustained_of_sustains hsustains (fun _ ht _ => ht) hthing halive

/-- A structure that is there belongs to the heap. -/
theorem struct_mem_contents {id : StructId} (h : id < heap.structs.size) :
    .struct id ∈ heap.contents := by
  simp [contents, h]

/-- A variable that a living frame binds is living. -/
theorem Living.of_localCell? {frame : FrameId} {name : String} {cell : CellId}
    (hframe : heap.Living roots (.frame frame)) (h : heap.localCell? frame name = some cell) :
    heap.Living roots (.cell cell) := by
  obtain ⟨before, after, hbindings, -⟩ := List.lookup_eq_some_iff.mp h
  refine hframe.refs (List.mem_map.mpr ⟨(name, cell), ?_, rfl⟩)
  rw [hbindings]
  exact List.mem_append_right _ List.mem_cons_self

/-- The variable of a name is living if the scope is. -/
theorem Living.of_lookup? {scope : Scope} {name : String} {cell : CellId}
    (hscope : ∀ ref ∈ scope.refs, heap.Living roots ref)
    (h : heap.lookup? scope name = some cell) : heap.Living roots (.cell cell) := by
  obtain ⟨frame, hframe, hcell⟩ := List.exists_of_findSome?_eq_some h
  exact (hscope (.frame frame) (List.mem_map_of_mem hframe)).of_localCell? hcell

end Heap

namespace Eval

variable {env : Env} {s : State}

/-- What is living while an evaluation goes on. -/
def living (env : Env) (s : State) : Ref → Prop :=
  s.heap.Living (roots env s)

/-- Holding on to what is living anyway has no influence on what is living. -/
theorem living_holding {held : Held} (h : ∀ ref ∈ held.refs, living env s ref) :
    living { env with held := held :: env.held } s = living env s := by
  have hroots : roots { env with held := held :: env.held } s = held.refs ++ roots env s := by
    rw [roots, List.flatMap_cons, List.append_assoc]
    rfl
  rw [living, hroots]
  exact Heap.living_append h

end Eval

end SoundLaw
