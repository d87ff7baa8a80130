import SoundLaw.Eval

/-!
# What holds when a computation ends

A computation ends with a value or is stopped, by a fault or because it is nested too deeply, and
in both cases in some state. What holds then is put together from its parts: a stop of a part is
a stop of the whole, and a value is handed on to the next part.
-/

namespace SoundLaw.Eval

variable {α β : Type}

/-- After a computation that gives a value comes what follows it. -/
theorem bind_of_done {m : Eval α} {env : Env} {s s' : State} {a : α}
    (h : m env s = .done a s') (k : α → Eval β) : (m >>= k) env s = k a env s' := by
  change Eval.bind m k env s = _
  rw [Eval.bind, h]

/-- A computation that uses up its depth leaves none for what follows it. -/
theorem bind_of_exhausted {m : Eval α} {env : Env} {s s' : State} (h : m env s = .exhausted s')
    (k : α → Eval β) : (m >>= k) env s = .exhausted s' := by
  change Eval.bind m k env s = _
  rw [Eval.bind, h]

/-- Two computations after one another give a value exactly when both do. -/
theorem bind_eq_done_iff {m : Eval α} {k : α → Eval β} {env : Env} {s s' : State} {b : β} :
    (m >>= k) env s = .done b s' ↔ ∃ a s₁, m env s = .done a s₁ ∧ k a env s₁ = .done b s' := by
  change Eval.bind m k env s = _ ↔ _
  rw [Eval.bind]
  cases hm : m env s with
  | done a s₁ =>
    refine ⟨fun h => ⟨a, s₁, rfl, h⟩, ?_⟩
    rintro ⟨_, _, heq, h⟩
    cases heq
    exact h
  | failed fault s₁ => simp
  | exhausted s₁ => simp

/-- Two computations after one another fail exactly when the first one does, or when it gives a
value with which the second one fails. -/
theorem bind_eq_failed_iff {m : Eval α} {k : α → Eval β} {env : Env} {s s' : State}
    {fault : Fault} :
    (m >>= k) env s = .failed fault s' ↔ m env s = .failed fault s' ∨
      ∃ a s₁, m env s = .done a s₁ ∧ k a env s₁ = .failed fault s' := by
  change Eval.bind m k env s = _ ↔ _
  rw [Eval.bind]
  cases hm : m env s with
  | done a s₁ =>
    constructor
    · exact fun h => Or.inr ⟨a, s₁, rfl, h⟩
    · rintro (heq | ⟨_, _, heq, h⟩)
      · cases heq
      · cases heq
        exact h
  | failed other s₁ => simp
  | exhausted s₁ => simp

/-- Giving faults a place has no influence on success. -/
theorem stamp_eq_done_iff {m : Eval α} {p : Position} {env : Env} {s s' : State}
    {a : α} : stamp p m env s = .done a s' ↔ m env s = .done a s' := by
  rw [stamp]
  cases m env s with
  | done | exhausted => exact Iff.rfl
  | failed => exact ⟨nofun, nofun⟩

/-- A plain computation gives a value exactly when it succeeds. -/
theorem ofExcept_eq_done_iff {x : Except Fault α} {env : Env} {s s' : State} {a : α} :
    ofExcept x env s = .done a s' ↔ x = .ok a ∧ s' = s := by
  cases x with
  | error fault => exact ⟨nofun, nofun⟩
  | ok b =>
    constructor
    · intro h
      cases h
      exact ⟨rfl, rfl⟩
    · rintro ⟨h, rfl⟩
      cases h
      rfl

/-- A change of the heap gives what comes with the new heap. -/
theorem modifyHeap_eq_done (change : Heap → α × Heap) (env : Env) (s : State) :
    modifyHeap change env s = .done (change s.heap).1 { s with heap := (change s.heap).2 } := rfl

/-- After an expression that has a value comes what follows it. -/
theorem andThen_of_done {m : Eval Flow} {k : Value → Eval Flow} {env : Env} {s s' : State}
    {value : Value} (h : m env s = .done (.value value) s') :
    andThen m k env s = k value env s' := by
  rw [andThen, bind_of_done h]

/-- After an expression that has a value comes what follows it, and the value is held. -/
theorem holdThen_of_done {m : Eval Flow} {k : Value → Eval Flow} {env : Env} {s s' : State}
    {value : Value} (h : m env s = .done (.value value) s') :
    holdThen m k env s = k value { env with held := .value value :: env.held } s' :=
  andThen_of_done h

/-- If a computation gives a value, `done` holds of it and of the state reached; if it is stopped,
`stopped` holds of that state. -/
def Ends (m : Eval α) (env : Env) (s : State) (done : α → State → Prop)
    (stopped : State → Prop) : Prop :=
  match m env s with
  | .done a s' => done a s'
  | .failed _ s' => stopped s'
  | .exhausted s' => stopped s'

namespace Ends

variable {m : Eval α} {env : Env} {s : State} {done : α → State → Prop} {stopped : State → Prop}

/-- The state in which a computation fails is one in which it may be stopped. -/
theorem of_failed (h : Ends m env s done stopped) {fault : Fault} {s' : State}
    (hfailed : m env s = .failed fault s') : stopped s' := by
  rw [Ends, hfailed] at h
  exact h

/-- Weaker statements hold at the end as well. -/
theorem mono (h : Ends m env s done stopped) {done' : α → State → Prop}
    {stopped' : State → Prop} (hdone : ∀ a s', done a s' → done' a s')
    (hstopped : ∀ s', stopped s' → stopped' s') : Ends m env s done' stopped' := by
  rw [Ends] at h ⊢
  split at h
  · exact hdone _ _ h
  · exact hstopped _ h
  · exact hstopped _ h

/-- A weaker statement holds when a computation is stopped. -/
theorem weaken (h : Ends m env s done stopped) {stopped' : State → Prop}
    (hstopped : ∀ s', stopped s' → stopped' s') : Ends m env s done stopped' :=
  h.mono (fun _ _ hdone => hdone) hstopped

/-- A computation goes on where its first part ended. -/
theorem bind (h : Ends m env s done stopped) {k : α → Eval β} {done' : β → State → Prop}
    (hk : ∀ a s', done a s' → Ends (k a) env s' done' stopped) :
    Ends (m >>= k) env s done' stopped := by
  rw [Ends] at h
  change Ends (Eval.bind m k) env s done' stopped
  rw [Ends, Eval.bind]
  cases hm : m env s with
  | done a s' =>
    rw [hm] at h
    exact hk a s' h
  | failed fault s' =>
    rw [hm] at h
    exact h
  | exhausted s' =>
    rw [hm] at h
    exact h

/-- A mere value leaves the state as it is. -/
theorem pure {a : α} (h : done a s) : Ends (pure a) env s done stopped := h

/-- A fault leaves the state as it is. -/
theorem fault {f : Fault} (h : stopped s) : Ends (Eval.fault f) env s done stopped := h

/-- After looking at the heap the state is as it was. -/
theorem inspect_bind {look : Heap → α} {k : α → Eval β} {done : β → State → Prop}
    (h : Ends (k (look s.heap)) env s done stopped) :
    Ends (Eval.inspect look >>= k) env s done stopped := h

/-- After changing the heap everything else is as it was. -/
theorem modifyHeap_bind {change : Heap → α × Heap} {k : α → Eval β} {done : β → State → Prop}
    (h : Ends (k (change s.heap).1) env { s with heap := (change s.heap).2 } done stopped) :
    Ends (Eval.modifyHeap change >>= k) env s done stopped := h

/-- After a declaration everything outside the heap is as it was. -/
theorem declare_bind {scope : Scope} {name : String} {value : Value} {k : CellId → Eval β}
    {done : β → State → Prop}
    (h : Ends (k (s.heap.declare scope.frame name value).1) env
      { s with heap := (s.heap.declare scope.frame name value).2 } done stopped) :
    Ends (Eval.declare scope name value >>= k) env s done stopped := h

/-- A declaration changes nothing but the heap. -/
theorem declare {scope : Scope} {name : String} {value : Value} {done : CellId → State → Prop}
    (h : done (s.heap.declare scope.frame name value).1
      { s with heap := (s.heap.declare scope.frame name value).2 }) :
    Ends (Eval.declare scope name value) env s done stopped := h

/-- After asking whether something is alive the state is as it was. -/
theorem isAlive_bind {thing : Ref} {k : Bool → Eval β} {done : β → State → Prop}
    (h : ∀ alive, Ends (k alive) env s done stopped) :
    Ends (Eval.isAlive thing >>= k) env s done stopped := by
  have halive : Ends (Eval.isAlive thing) env s (fun _ s' => s' = s) stopped := by
    rw [Ends, Eval.isAlive]
  refine halive.bind ?_
  rintro alive s' rfl
  exact h alive

/-- Holding on to something has no influence on the state. -/
theorem holding {held : Held} (h : Ends m { env with held := held :: env.held } s done stopped) :
    Ends (Eval.holding held m) env s done stopped := h

/-- Giving faults a place has no influence on the state. -/
theorem stamp (h : Ends m env s done stopped) (p : Position) :
    Ends (Eval.stamp p m) env s done stopped := by
  rw [Ends] at h
  rw [Ends, Eval.stamp]
  cases hm : m env s with
  | done a s' =>
    rw [hm] at h
    exact h
  | failed fault s' =>
    rw [hm] at h
    exact h
  | exhausted s' =>
    rw [hm] at h
    exact h

end Ends

end SoundLaw.Eval
