import SoundLaw.Heap

/-!
# What declaring and writing change

A write changes one cell and no binding. A declaration adds a cell behind all others and binds one
name of one frame to it. So a name that is looked up afterwards is found where it was before, or
it is the new variable.
-/

namespace SoundLaw.Heap

/-- Writing the value that a cell has changes nothing. -/
theorem put_read (heap : Heap) (cell : CellId) : heap.put cell (heap.read cell) = heap := by
  have hcells : heap.cells.modify cell (fun c => { c with value := heap.read cell }) =
      heap.cells := by
    apply Array.ext_getElem?
    intro i
    rw [Array.getElem?_modify]
    split
    · next hi =>
      subst hi
      rw [read]
      cases heap.cells[cell]? with
      | none => rfl
      | some found => rfl
    · rfl
  rw [put, hcells]

/-- After binding a name it has its new cell, and the others have the ones they had. -/
theorem lookup_rebind (name other : String) (cell : CellId) (bindings : List (String × CellId)) :
    (rebind name cell bindings).lookup other =
      if other = name then some cell else bindings.lookup other := by
  induction bindings with
  | nil =>
    rw [rebind, List.lookup_cons]
    by_cases h : other = name
    · simp [h]
    · simp [h, beq_eq_false_iff_ne.mpr h]
  | cons binding rest ih =>
    obtain ⟨bound, found⟩ := binding
    rw [rebind]
    by_cases hbound : bound = name
    · subst hbound
      rw [if_pos rfl, List.lookup_cons, List.lookup_cons]
      by_cases h : other = bound
      · simp [h]
      · simp [h, beq_eq_false_iff_ne.mpr h]
    · rw [if_neg hbound, List.lookup_cons, List.lookup_cons, ih]
      by_cases h : other = bound
      · subst h
        simp [hbound]
      · simp [beq_eq_false_iff_ne.mpr h]

/-- Binding a name adds no frame. -/
theorem size_frames_bind (heap : Heap) (frame : FrameId) (name : String) (cell : CellId) :
    (heap.bind frame name cell).frames.size = heap.frames.size :=
  Array.size_modify

/-- Binding a name changes the names of one frame. -/
theorem bindings_bind (heap : Heap) (frame other : FrameId) (name : String) (cell : CellId) :
    (heap.bind frame name cell).bindings other =
      if other = frame ∧ frame < heap.frames.size then rebind name cell (heap.bindings frame)
      else heap.bindings other := by
  have hframes : (heap.bind frame name cell).frames =
      heap.frames.modify frame fun f => { f with bindings := rebind name cell f.bindings } := rfl
  rw [bindings, hframes, Array.getElem?_modify]
  by_cases hframe : frame = other
  · subst hframe
    rw [if_pos rfl, bindings]
    cases hfound : heap.frames[frame]? with
    | none =>
      have hsize : ¬ frame < heap.frames.size :=
        Nat.not_lt.mpr (Array.getElem?_eq_none_iff.mp hfound)
      rw [if_neg (fun h => hsize h.2)]
      rfl
    | some found =>
      have hsize : frame < heap.frames.size := (Array.getElem?_eq_some_iff.mp hfound).1
      rw [if_pos ⟨rfl, hsize⟩]
      rfl
  · rw [if_neg hframe, if_neg (fun h => hframe h.1.symm)]
    rfl

/-- A new frame leaves the names of the others alone. -/
theorem bindings_newFrame {heap : Heap} {frame : FrameId} (hframe : frame < heap.frames.size) :
    heap.newFrame.2.bindings frame = heap.bindings frame := by
  have hframes : heap.newFrame.2.frames = heap.frames.push ⟨[], none⟩ := rfl
  rw [bindings, hframes, Array.getElem?_push, if_neg (Nat.ne_of_lt hframe), bindings]

/-- Marking the frame of an instance leaves all names alone. -/
theorem bindings_setOwner (heap : Heap) (frame other : FrameId) (struct : StructId) :
    (heap.setOwner frame struct).bindings other = heap.bindings other := by
  have hframes : (heap.setOwner frame struct).frames =
      heap.frames.modify frame fun f => { f with owner := f.owner.or (some struct) } := rfl
  rw [bindings, hframes, Array.getElem?_modify, bindings]
  by_cases hframe : frame = other
  · rw [if_pos hframe]
    cases heap.frames[other]? with
    | none => rfl
    | some found => rfl
  · rw [if_neg hframe]

/-- A frame in which a name is found is there. -/
theorem lt_size_of_localCell? {heap : Heap} {frame : FrameId} {name : String} {cell : CellId}
    (h : heap.localCell? frame name = some cell) : frame < heap.frames.size := by
  rw [localCell?, bindings] at h
  split at h
  · next hfound => exact (Array.getElem?_eq_some_iff.mp hfound).1
  · cases h

/-- In a frame that is there a name is found where it was bound last. -/
theorem localCell?_bind {heap : Heap} {frame : FrameId} (hframe : frame < heap.frames.size)
    (name other : String) (cell : CellId) :
    (heap.bind frame name cell).localCell? frame other =
      if other = name then some cell else heap.localCell? frame other := by
  rw [localCell?, bindings_bind, if_pos ⟨rfl, hframe⟩, lookup_rebind]
  rfl

/-- A declaration changes the names of one frame. -/
theorem bindings_declare (heap : Heap) (frame other : FrameId) (name : String) (value : Value) :
    (heap.declare frame name value).2.bindings other =
      if other = frame ∧ frame < heap.frames.size then
        rebind name heap.cells.size (heap.bindings frame)
      else heap.bindings other :=
  bindings_bind (heap.newCell ⟨value, true⟩).2 frame other name heap.cells.size

/-- A name that is declared is found in its frame as the new variable. -/
theorem localCell?_declare (heap : Heap) (frame other : FrameId) (name searched : String)
    (value : Value) :
    (heap.declare frame name value).2.localCell? other searched = some heap.cells.size ∨
      (heap.declare frame name value).2.localCell? other searched =
        heap.localCell? other searched := by
  rw [localCell?, bindings_declare]
  split
  · next hother =>
    obtain ⟨rfl, -⟩ := hother
    rw [lookup_rebind]
    split
    · exact Or.inl rfl
    · exact Or.inr rfl
  · exact Or.inr rfl

/-- A name is looked up as before a declaration, or it is the new variable. -/
theorem lookup?_declare (heap : Heap) (frame : FrameId) (name searched : String) (value : Value)
    (scope : Scope) :
    (heap.declare frame name value).2.lookup? scope searched = some heap.cells.size ∨
      (heap.declare frame name value).2.lookup? scope searched = heap.lookup? scope searched := by
  rw [lookup?, lookup?]
  induction scope.chain with
  | nil => exact Or.inr rfl
  | cons other rest ih =>
    rw [List.findSome?_cons, List.findSome?_cons]
    rcases localCell?_declare heap frame other name searched value with hnew | hsame
    · rw [hnew]
      exact Or.inl rfl
    · rw [hsame]
      cases heap.localCell? other searched with
      | some cell => exact Or.inr rfl
      | none => exact ih

/-- A name that is bound in the innermost frame is found there. -/
theorem lookup?_of_localCell? {heap : Heap} {scope : Scope} {name : String} {cell : CellId}
    (h : heap.localCell? scope.frame name = some cell) : heap.lookup? scope name = some cell := by
  rw [lookup?, Scope.chain, List.findSome?_cons, h]

/-- In a scope without outer frames a name is found in its only frame. -/
theorem lookup?_of_outer_eq_nil {scope : Scope} (hscope : scope.outer = []) (heap : Heap)
    (name : String) : heap.lookup? scope name = heap.localCell? scope.frame name := by
  rw [lookup?, Scope.chain, hscope, List.findSome?_cons, List.findSome?_nil]
  cases heap.localCell? scope.frame name with
  | none => rfl
  | some cell => rfl

/-- Declaring a variable with null changes the value of no cell; without the variable the cell is
read as null. -/
theorem read_declare_null (heap : Heap) (frame : FrameId) (name : String) (cell : CellId) :
    (heap.declare frame name .null).2.read cell = heap.read cell := by
  have hcells : (heap.declare frame name .null).2.cells = heap.cells.push ⟨.null, true⟩ := rfl
  rw [read, read, hcells, Array.getElem?_push]
  by_cases hcell : cell = heap.cells.size
  · rw [if_pos hcell, hcell, Array.getElem?_eq_none (Nat.le_refl _)]
  · rw [if_neg hcell]

/-- A variable that has just been declared has its value. -/
theorem read_declare_self (heap : Heap) (frame : FrameId) (name : String) (value : Value) :
    (heap.declare frame name value).2.read (heap.declare frame name value).1 = value := by
  have hcells : (heap.declare frame name value).2.cells = heap.cells.push ⟨value, true⟩ := rfl
  have hcell : (heap.declare frame name value).1 = heap.cells.size := rfl
  rw [read, hcells, hcell, Array.getElem?_push_size]

/-- A variable that has just been declared may change. -/
theorem isMutable_declare (heap : Heap) (frame : FrameId) (name : String) (value : Value) :
    (heap.declare frame name value).2.isMutable (heap.declare frame name value).1 = true := by
  have hcells : (heap.declare frame name value).2.cells = heap.cells.push ⟨value, true⟩ := rfl
  have hcell : (heap.declare frame name value).1 = heap.cells.size := rfl
  rw [isMutable, hcells, hcell, Array.getElem?_push_size]

/-- A name has the value that it had before a declaration, or it has been declared with null. -/
theorem get?_declare_null (heap : Heap) (frame : FrameId) (name searched : String)
    (scope : Scope) :
    (heap.declare frame name .null).2.get? scope searched = some .null ∨
      (heap.declare frame name .null).2.get? scope searched = heap.get? scope searched := by
  rw [get?, get?]
  rcases lookup?_declare heap frame name searched .null scope with hnew | hsame
  · refine Or.inl ?_
    rw [hnew, Option.map_some]
    exact congrArg some (read_declare_self heap frame name .null)
  · refine Or.inr ?_
    rw [hsame]
    congr 1
    funext cell
    exact read_declare_null heap frame name cell

/-- A declaration leaves the instances around a scope alone. -/
theorem owner?_declare (heap : Heap) (frame : FrameId) (name : String) (value : Value)
    (scope : Scope) : (heap.declare frame name value).2.owner? scope = heap.owner? scope := by
  have hframes : (heap.declare frame name value).2.frames =
      heap.frames.modify frame fun f =>
        { f with bindings := rebind name heap.cells.size f.bindings } := rfl
  rw [owner?, owner?, hframes]
  congr 1
  funext other
  rw [Array.getElem?_modify]
  split
  · next hother =>
    subst hother
    cases heap.frames[frame]? with
    | none => rfl
    | some found => rfl
  · rfl

end SoundLaw.Heap
