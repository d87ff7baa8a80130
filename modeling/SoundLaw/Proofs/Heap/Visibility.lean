import SoundLaw.Proofs.Heap.Storage

/-!
# Where an assignment is seen

Scopes form a forest. Each of them is made without an outer one, or with a new frame inside one that
is there, so a scope that contains the innermost frame of another one lies inside it. Names are
bound to cells, and one cell may be bound under several names and in several frames.

A write is seen through exactly those names that are found in the written cell, whatever they are
called and wherever they stand. A name that is found nowhere is declared in the innermost frame; it
is seen from there and from the scopes inside, unless a frame in between binds the name.
-/

namespace SoundLaw.Heap

/-! ## Single changes -/

/-- A new frame binds no name. -/
theorem localCell?_newFrame (heap : Heap) (frame : FrameId) (name : String) :
    heap.newFrame.2.localCell? frame name = heap.localCell? frame name := by
  by_cases hframe : frame < heap.frames.size
  · rw [localCell?, bindings_newFrame hframe, localCell?]
  · have hframes : heap.newFrame.2.frames = heap.frames.push ⟨[], none⟩ := rfl
    rw [localCell?, localCell?, bindings, bindings, hframes, Array.getElem?_push,
      Array.getElem?_eq_none (Nat.le_of_not_lt hframe)]
    split
    · next hfound =>
      split at hfound
      · cases hfound
        rfl
      · cases hfound
    · rfl

/-- Binding a name changes where that name is found in that frame, and nothing else. -/
theorem localCell?_bind_eq {heap : Heap} {frame : FrameId} (hframe : frame < heap.frames.size)
    (name : String) (cell : CellId) (other : FrameId) (searched : String) :
    (heap.bind frame name cell).localCell? other searched =
      if other = frame ∧ searched = name then some cell else heap.localCell? other searched := by
  by_cases hother : other = frame
  · subst hother
    rw [localCell?_bind hframe]
    by_cases hname : searched = name
    · rw [if_pos hname, if_pos ⟨rfl, hname⟩]
    · rw [if_neg hname, if_neg fun h => hname h.2]
  · rw [localCell?, bindings_bind, if_neg fun h => hother h.1, if_neg fun h => hother h.1,
      localCell?]

/-- A new cell stands behind all others. -/
theorem size_cells_newCell (heap : Heap) (cell : Cell) :
    (heap.newCell cell).2.cells.size = heap.cells.size + 1 :=
  Array.size_push _

/-- A declaration binds one name of one frame to the new cell. -/
theorem localCell?_declare_eq {heap : Heap} {frame : FrameId} (hframe : frame < heap.frames.size)
    (name : String) (value : Value) (other : FrameId) (searched : String) :
    (heap.declare frame name value).2.localCell? other searched =
      if other = frame ∧ searched = name then some heap.cells.size
      else heap.localCell? other searched := by
  have hframe' : frame < (heap.newCell ⟨value, true⟩).2.frames.size := hframe
  exact localCell?_bind_eq hframe' name heap.cells.size other searched

/-- A declaration leaves the cells alone that are there. -/
theorem read_declare_of_lt {heap : Heap} {cell : CellId} (hcell : cell < heap.cells.size)
    (frame : FrameId) (name : String) (value : Value) :
    (heap.declare frame name value).2.read cell = heap.read cell := by
  have hcells : (heap.declare frame name value).2.cells = heap.cells.push ⟨value, true⟩ := rfl
  rw [read, hcells, Array.getElem?_push, if_neg (Nat.ne_of_lt hcell), read]

/-- A cell that may change is there. -/
theorem lt_size_of_isMutable {heap : Heap} {cell : CellId} (h : heap.isMutable cell = true) :
    cell < heap.cells.size := by
  rw [isMutable] at h
  split at h
  · next hfound => exact (Array.getElem?_eq_some_iff.mp hfound).1
  · cases h

/-- A write changes the value of one cell. -/
theorem read_put {heap : Heap} {cell : CellId} (hcell : cell < heap.cells.size) (value : Value)
    (other : CellId) :
    (heap.put cell value).read other = if other = cell then value else heap.read other := by
  have hcells : (heap.put cell value).cells =
      heap.cells.modify cell fun c => { c with value := value } := rfl
  rw [read, hcells, Array.getElem?_modify]
  by_cases hother : other = cell
  · subst hother
    rw [if_pos rfl, if_pos rfl, Array.getElem?_eq_getElem hcell]
    rfl
  · rw [if_neg (Ne.symm hother), if_neg hother, read]

/-! ## Forests of scopes -/

/-- A heap together with the scopes that were made in it, one step after another: scopes without an
outer one and scopes inside one another, cells that may change or are fixed, declarations, names
that are bound to a cell that is there, and assignments. -/
inductive Forest : Heap → List Scope → Prop
  | empty : Forest empty []
  | global {heap : Heap} {scopes : List Scope} (h : Forest heap scopes) :
    Forest heap.newGlobal.2 (heap.newGlobal.1 :: scopes)
  | child {heap : Heap} {scopes : List Scope} (h : Forest heap scopes) {scope : Scope}
    (hscope : scope ∈ scopes) : Forest (heap.newChild scope).2 ((heap.newChild scope).1 :: scopes)
  | newCell {heap : Heap} {scopes : List Scope} (h : Forest heap scopes) (cell : Cell) :
    Forest (heap.newCell cell).2 scopes
  | declare {heap : Heap} {scopes : List Scope} (h : Forest heap scopes) {scope : Scope}
    (hscope : scope ∈ scopes) (name : String) (value : Value) :
    Forest (heap.declare scope.frame name value).2 scopes
  | bind {heap : Heap} {scopes : List Scope} (h : Forest heap scopes) {scope : Scope}
    (hscope : scope ∈ scopes) (name : String) {cell : CellId} (hcell : cell < heap.cells.size) :
    Forest (heap.bind scope.frame name cell) scopes
  | assign {heap : Heap} {scopes : List Scope} (h : Forest heap scopes) {scope : Scope}
    (hscope : scope ∈ scopes) {name : String} {value : Value} {after : Heap}
    (hassign : heap.assign scope name value = .ok after) : Forest after scopes

/-- Scopes whose frames and cells are there, and which are nested in one another. -/
structure Nested (heap : Heap) (scopes : List Scope) : Prop where
  frames : ∀ scope ∈ scopes, ∀ frame ∈ scope.chain, frame < heap.frames.size
  distinct : ∀ scope ∈ scopes, scope.chain.Nodup
  /-- A scope that contains the innermost frame of another one lies inside it. -/
  inside : ∀ outer ∈ scopes, ∀ inner ∈ scopes, outer.frame ∈ inner.chain →
    outer.chain <:+ inner.chain
  cells : ∀ {frame name cell}, heap.localCell? frame name = some cell → cell < heap.cells.size

namespace Nested

variable {heap : Heap} {scopes : List Scope}

/-- A new scope is nested in the others if the frames around it are. -/
theorem newFrame (h : heap.Nested scopes) {outer : List FrameId}
    (hframes : ∀ frame ∈ outer, frame < heap.frames.size) (hdistinct : outer.Nodup)
    (hinside : ∀ scope ∈ scopes, scope.frame ∈ outer → scope.chain <:+ outer) :
    heap.newFrame.2.Nested (⟨heap.frames.size, outer⟩ :: scopes) := by
  have hsize : heap.newFrame.2.frames.size = heap.frames.size + 1 := Array.size_push _
  have hnew : heap.frames.size ∉ outer := fun hmem => Nat.lt_irrefl _ (hframes _ hmem)
  refine ⟨?_, ?_, ?_, fun hcell => ?_⟩
  · rw [List.forall_mem_cons, hsize]
    refine ⟨?_, fun scope hscope frame hframe => ?_⟩
    · rw [Scope.chain, List.forall_mem_cons]
      exact ⟨Nat.lt_succ_self _, fun frame hframe => Nat.lt_succ_of_lt (hframes frame hframe)⟩
    · exact Nat.lt_succ_of_lt (h.frames scope hscope frame hframe)
  · rw [List.forall_mem_cons]
    exact ⟨List.nodup_cons.mpr ⟨hnew, hdistinct⟩, h.distinct⟩
  · intro around haround inner hinner hmem
    rcases List.mem_cons.mp haround with rfl | haround
    · -- The new frame stands in no scope but the new one.
      rcases List.mem_cons.mp hinner with rfl | hinner
      · exact List.suffix_refl _
      · exact absurd (h.frames inner hinner _ hmem) (Nat.lt_irrefl _)
    · rcases List.mem_cons.mp hinner with rfl | hinner
      · have hold := h.frames around haround around.frame List.mem_cons_self
        rcases List.mem_cons.mp hmem with heq | hmem
        · exact absurd (heq ▸ hold) (Nat.lt_irrefl _)
        · exact (hinside around haround hmem).trans (List.suffix_cons _ _)
      · exact h.inside around haround inner hinner hmem
  · rw [localCell?_newFrame] at hcell
    exact h.cells hcell

/-- What adds no frame keeps scopes nested, if names are bound to cells that are there. -/
theorem of_size_frames (h : heap.Nested scopes) {after : Heap}
    (hsize : after.frames.size = heap.frames.size)
    (hcells : ∀ {frame name cell}, after.localCell? frame name = some cell →
      cell < after.cells.size) : after.Nested scopes :=
  ⟨fun scope hscope frame hframe => hsize ▸ h.frames scope hscope frame hframe, h.distinct,
    h.inside, hcells⟩

/-- The innermost frame of a scope is there. -/
theorem frame_lt (h : heap.Nested scopes) {scope : Scope} (hscope : scope ∈ scopes) :
    scope.frame < heap.frames.size :=
  h.frames scope hscope scope.frame List.mem_cons_self

/-- A new cell keeps scopes nested. -/
theorem newCell (h : heap.Nested scopes) (cell : Cell) : (heap.newCell cell).2.Nested scopes := by
  refine h.of_size_frames rfl fun hcell => ?_
  rw [size_cells_newCell]
  exact Nat.lt_succ_of_lt (h.cells hcell)

/-- Binding a name to a cell that is there keeps scopes nested. -/
theorem bind (h : heap.Nested scopes) {scope : Scope} (hscope : scope ∈ scopes) (name : String)
    {cell : CellId} (hcell : cell < heap.cells.size) :
    (heap.bind scope.frame name cell).Nested scopes := by
  refine h.of_size_frames (size_frames_bind ..) fun hfound => ?_
  rw [localCell?_bind_eq (h.frame_lt hscope)] at hfound
  split at hfound
  · cases hfound
    exact hcell
  · exact h.cells hfound

/-- A declaration keeps scopes nested. -/
theorem declare (h : heap.Nested scopes) {scope : Scope} (hscope : scope ∈ scopes)
    (name : String) (value : Value) : (heap.declare scope.frame name value).2.Nested scopes := by
  refine (h.newCell ⟨value, true⟩).bind hscope name ?_
  rw [size_cells_newCell]
  exact Nat.lt_succ_self _

/-- A write keeps scopes nested. -/
theorem put (h : heap.Nested scopes) (cell : CellId) (value : Value) :
    (heap.put cell value).Nested scopes := by
  refine h.of_size_frames rfl fun hcell => ?_
  have hsize : (heap.put cell value).cells.size = heap.cells.size := Array.size_modify
  rw [hsize]
  exact h.cells hcell

end Nested

/-- An assignment that succeeds has written to the cell of its name, which may change, or has
declared the name. -/
theorem assign_cases {heap after : Heap} {scope : Scope} {name : String} {value : Value}
    (h : heap.assign scope name value = .ok after) :
    (∃ cell, heap.lookup? scope name = some cell ∧ heap.isMutable cell = true ∧
      after = heap.put cell value) ∨
    (heap.lookup? scope name = none ∧ after = (heap.declare scope.frame name value).2) := by
  rw [assign] at h
  cases hlookup : heap.lookup? scope name with
  | none =>
    rw [hlookup] at h
    cases h
    exact Or.inr ⟨rfl, rfl⟩
  | some cell =>
    rw [hlookup] at h
    simp only [write] at h
    split at h
    · next hmutable =>
      cases h
      exact Or.inl ⟨cell, rfl, hmutable, rfl⟩
    · cases h

/-- The scopes of a forest are nested. -/
theorem Forest.nested {heap : Heap} {scopes : List Scope} (h : Forest heap scopes) :
    heap.Nested scopes := by
  induction h with
  | empty =>
    refine ⟨fun _ h => absurd h List.not_mem_nil, fun _ h => absurd h List.not_mem_nil,
      fun _ h => absurd h List.not_mem_nil, fun {frame name cell} hcell => ?_⟩
    cases hcell
  | global _ ih =>
    exact ih.newFrame (fun _ h => absurd h List.not_mem_nil) List.nodup_nil
      fun _ _ h => absurd h List.not_mem_nil
  | child _ hscope ih =>
    exact ih.newFrame (ih.frames _ hscope) (ih.distinct _ hscope)
      fun other hother => ih.inside other hother _ hscope
  | newCell _ cell ih => exact ih.newCell cell
  | declare _ hscope name value ih => exact ih.declare hscope name value
  | bind _ hscope name hcell ih => exact ih.bind hscope name hcell
  | assign _ hscope hassign ih =>
    rcases assign_cases hassign with ⟨cell, -, -, rfl⟩ | ⟨-, rfl⟩
    · exact ih.put cell _
    · exact ih.declare hscope _ _

/-! ## Reads after an assignment -/

/-- A scope is another one or lies inside it, and no frame in between binds a name. -/
def Unshadowed (heap : Heap) (name : String) (outer inner : Scope) : Prop :=
  ∃ between, inner.chain = between ++ outer.chain ∧
    ∀ frame ∈ between, heap.localCell? frame name = none

/-- The names that are affected have a value afterwards, and every other name has, seen from the
same scope, the value that it had. -/
def GivesExactly (before after : Heap) (scopes : List Scope) (affected : Scope → String → Prop)
    (value : Value) : Prop :=
  ∀ scope ∈ scopes, ∀ name,
    (affected scope name → after.get? scope name = some value) ∧
      (¬ affected scope name → after.get? scope name = before.get? scope name)

/-- A name is found where it was if each of some frames binds it as before. -/
theorem findSome?_localCell?_congr {before after : Heap} {frames : List FrameId} {name : String}
    (h : ∀ frame ∈ frames, after.localCell? frame name = before.localCell? frame name) :
    frames.findSome? (after.localCell? · name) = frames.findSome? (before.localCell? · name) := by
  induction frames with
  | nil => rfl
  | cons frame rest ih =>
    rw [List.forall_mem_cons] at h
    rw [List.findSome?_cons, List.findSome?_cons, h.1, ih h.2]

/-- A name is looked up in the frames between two scopes first. -/
theorem lookup?_of_chain_eq {inner outer : Scope} {between : List FrameId}
    (h : inner.chain = between ++ outer.chain) (heap : Heap) (name : String) :
    heap.lookup? inner name =
      (between.findSome? (heap.localCell? · name)).or (heap.lookup? outer name) := by
  rw [lookup?, h, List.findSome?_append, lookup?]

/-- A write gives its value to the names that are found in the written cell. -/
theorem givesExactly_put {heap : Heap} {cell : CellId} (hcell : heap.isMutable cell = true)
    (value : Value) (scopes : List Scope) :
    heap.GivesExactly (heap.put cell value) scopes
      (fun scope name => heap.lookup? scope name = some cell) value := by
  intro scope _ name
  have hread := read_put (lt_size_of_isMutable hcell) value
  have hlookup : (heap.put cell value).lookup? scope name = heap.lookup? scope name := rfl
  constructor
  · intro hfound
    rw [get?, hlookup, hfound, Option.map_some, hread, if_pos rfl]
  · intro hother
    rw [get?, get?, hlookup]
    cases hfound : heap.lookup? scope name with
    | none => rfl
    | some found =>
      have hne : found ≠ cell := fun heq => hother (heq ▸ hfound)
      rw [Option.map_some, Option.map_some, hread, if_neg hne]

namespace Nested

variable {heap : Heap} {scopes : List Scope}

/-- A name is found in a cell that is there. -/
theorem lt_of_lookup? (h : heap.Nested scopes) {scope : Scope} {name : String} {cell : CellId}
    (hlookup : heap.lookup? scope name = some cell) : cell < heap.cells.size := by
  obtain ⟨frame, -, hcell⟩ := List.exists_of_findSome?_eq_some hlookup
  exact h.cells hcell

/-- From a scope inside, a name that is declared is looked up in the frames in between, and then it
is the new variable. -/
theorem lookup?_declare_inside (h : heap.Nested scopes) {scope inner : Scope}
    (hscope : scope ∈ scopes) (hinner : inner ∈ scopes) {between : List FrameId}
    (hchain : inner.chain = between ++ scope.chain) (name : String) (value : Value) :
    (heap.declare scope.frame name value).2.lookup? inner name =
      (between.findSome? (heap.localCell? · name)).or (some heap.cells.size) := by
  have hlocal := localCell?_declare_eq (h.frame_lt hscope) name value
  -- No frame stands twice in a chain, so the one of the declaration is not in between.
  have hbetween : ∀ frame ∈ between, frame ≠ scope.frame := by
    have hdistinct := h.distinct inner hinner
    rw [hchain, List.nodup_append] at hdistinct
    exact fun frame hframe => hdistinct.2.2 frame hframe scope.frame List.mem_cons_self
  have hhere : (heap.declare scope.frame name value).2.lookup? scope name =
      some heap.cells.size := by
    refine lookup?_of_localCell? ?_
    rw [hlocal, if_pos ⟨rfl, rfl⟩]
  rw [lookup?_of_chain_eq hchain, hhere]
  congr 1
  refine findSome?_localCell?_congr fun frame hframe => ?_
  rw [hlocal, if_neg fun heq => hbetween frame hframe heq.1]

/-- A declaration changes where its name is found from the scopes in which nothing shadows it, and
nothing else. -/
theorem lookup?_declare_eq (h : heap.Nested scopes) {scope other : Scope} (hscope : scope ∈ scopes)
    (hother : other ∈ scopes) (name searched : String) (value : Value) :
    (searched = name ∧ heap.Unshadowed name scope other →
      (heap.declare scope.frame name value).2.lookup? other searched = some heap.cells.size) ∧
    (¬ (searched = name ∧ heap.Unshadowed name scope other) →
      (heap.declare scope.frame name value).2.lookup? other searched =
        heap.lookup? other searched) := by
  constructor
  · rintro ⟨rfl, between, hchain, hnone⟩
    rw [h.lookup?_declare_inside hscope hother hchain, List.findSome?_eq_none_iff.mpr hnone]
    rfl
  · intro hshadowed
    by_cases hinside : searched = name ∧ scope.frame ∈ other.chain
    · obtain ⟨rfl, hframe⟩ := hinside
      obtain ⟨between, hchain⟩ := h.inside scope hscope other hother hframe
      rw [h.lookup?_declare_inside hscope hother hchain.symm, lookup?_of_chain_eq hchain.symm]
      -- The search ends in between, where some frame binds the name.
      cases hbetween : between.findSome? (heap.localCell? · searched) with
      | none =>
        exact absurd ⟨rfl, between, hchain.symm, List.findSome?_eq_none_iff.mp hbetween⟩ hshadowed
      | some cell => rfl
    · have hlocal := localCell?_declare_eq (h.frame_lt hscope) name value
      refine findSome?_localCell?_congr fun frame hframe => ?_
      rw [hlocal, if_neg]
      rintro ⟨rfl, hname⟩
      exact hinside ⟨hname, hframe⟩

/-- A declaration gives its value to its name, seen from the scopes in which nothing shadows it. -/
theorem givesExactly_declare (h : heap.Nested scopes) {scope : Scope} (hscope : scope ∈ scopes)
    (name : String) (value : Value) :
    heap.GivesExactly (heap.declare scope.frame name value).2 scopes
      (fun other searched => searched = name ∧ heap.Unshadowed name scope other) value := by
  intro other hother searched
  obtain ⟨hseen, hunseen⟩ := h.lookup?_declare_eq hscope hother name searched value
  constructor
  · intro haffected
    rw [get?, hseen haffected, Option.map_some]
    exact congrArg some (read_declare_self heap scope.frame name value)
  · intro hunaffected
    rw [get?, get?, hunseen hunaffected]
    cases hfound : heap.lookup? other searched with
    | none => rfl
    | some cell =>
      rw [Option.map_some, Option.map_some, read_declare_of_lt (h.lt_of_lookup? hfound)]

end Nested

/-- An assignment in a forest of scopes is seen exactly where its name is found. If the name is
found in a fixed cell, the assignment fails, and there is no new heap. If it is found in a cell that
may change, the value is given to all names that are found in this cell. If it is found nowhere, the
value is given to the name itself, seen from the scope and from the scopes inside it with no binding
of the name in between. All other reads are as before. -/
theorem assign_givesExactly {heap : Heap} {scopes : List Scope}
    (hforest : Forest heap scopes) {scope : Scope} (hscope : scope ∈ scopes) (name : String)
    (value : Value) :
    (∀ cell, heap.lookup? scope name = some cell → heap.isMutable cell = false →
      heap.assign scope name value = .error (.raised .immutable)) ∧
    (∀ cell, heap.lookup? scope name = some cell → heap.isMutable cell = true →
      ∃ after, heap.assign scope name value = .ok after ∧
        heap.GivesExactly after scopes
          (fun other searched => heap.lookup? other searched = some cell) value) ∧
    (heap.lookup? scope name = none →
      ∃ after, heap.assign scope name value = .ok after ∧
        heap.GivesExactly after scopes
          (fun other searched => searched = name ∧ heap.Unshadowed name scope other) value) := by
  refine ⟨fun cell hfound hfixed => ?_, fun cell hfound hmutable => ?_, fun hnone => ?_⟩
  · rw [assign, hfound]
    exact if_neg (Bool.eq_false_iff.mp hfixed)
  · refine ⟨heap.put cell value, ?_, givesExactly_put hmutable value scopes⟩
    rw [assign, hfound]
    exact if_pos hmutable
  · refine ⟨(heap.declare scope.frame name value).2, ?_,
      hforest.nested.givesExactly_declare hscope name value⟩
    rw [assign, hnone]

/-- A global scope has the variable `x` and the fixed name `f`; a scope inside it shares `x` under
the name `r`, and a third scope lies inside that one. Writing to `r` from the innermost scope is
seen as `x`; a new name of the middle scope is seen from the innermost one and not from outside;
and `f` stays what it is. -/
theorem assign_givesExactly_shared :
    let outer : Scope := ⟨0, []⟩
    let middle : Scope := ⟨1, [0]⟩
    let inner : Scope := ⟨2, [1, 0]⟩
    let heap : Heap :=
      ⟨#[⟨[("x", 0), ("f", 1)], none⟩, ⟨[("r", 0)], none⟩, ⟨[], none⟩],
        #[⟨.text "a", true⟩, ⟨.text "fixed", false⟩], #[], #[], 0⟩
    Forest heap [inner, middle, outer] ∧
      heap.assign inner "f" (.text "b") = .error (.raised .immutable) ∧
      (∃ after, heap.assign inner "r" (.text "b") = .ok after ∧
        after.get? outer "x" = some (.text "b") ∧ after.get? outer "f" = some (.text "fixed")) ∧
      ∃ after, heap.assign middle "y" (.text "b") = .ok after ∧
        after.get? inner "y" = some (.text "b") ∧ after.get? outer "y" = none := by
  intro outer middle inner heap
  have houter : outer ∈ [inner, middle, outer] := by decide
  have hmiddle : middle ∈ [inner, middle, outer] := by decide
  have hinner : inner ∈ [inner, middle, outer] := by decide
  have hscopes : Forest _ [inner, middle, outer] :=
    (Forest.empty.global.child (List.mem_singleton_self outer)).child
      (show middle ∈ [middle, outer] from List.mem_cons_self)
  have hnames := ((hscopes.declare houter "x" (.text "a")).newCell ⟨.text "fixed", false⟩).bind
    houter "f" (show 1 < 2 by decide)
  have hforest : Forest heap [inner, middle, outer] :=
    hnames.bind hmiddle "r" (show 0 < 2 by decide)
  obtain ⟨hfixed, -, -⟩ := assign_givesExactly hforest hinner "f" (.text "b")
  obtain ⟨-, hshared, -⟩ := assign_givesExactly hforest hinner "r" (.text "b")
  obtain ⟨-, -, hnew⟩ := assign_givesExactly hforest hmiddle "y" (.text "b")
  refine ⟨hforest, hfixed 1 rfl rfl, ?_, ?_⟩
  · obtain ⟨after, hassign, hgives⟩ := hshared 0 rfl rfl
    exact ⟨after, hassign, (hgives outer houter "x").1 rfl,
      (hgives outer houter "f").2 (by decide)⟩
  · obtain ⟨after, hassign, hgives⟩ := hnew rfl
    refine ⟨after, hassign, (hgives inner hinner "y").1 ⟨rfl, [2], rfl, by decide⟩,
      (hgives outer houter "y").2 ?_⟩
    rintro ⟨-, between, hchain, -⟩
    have hlength := congrArg List.length hchain
    simp [outer, middle, Scope.chain] at hlength

end SoundLaw.Heap
