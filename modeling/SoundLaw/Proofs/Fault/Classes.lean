import SoundLaw.Fault
import SoundLaw.Proofs.Outcome

/-!
# What a computation fails with

What is known about the faults of a computation is put together from what is known about the faults
of its parts. In particular a plain computation belongs to one phase, and its faults are of the
class of that phase.
-/

namespace SoundLaw

variable {α β : Type}

/-- A computation that fails, fails with a fault that has the given property. -/
def FailsAs (P : Fault → Prop) (x : Except Fault α) : Prop :=
  ∀ fault, x = .error fault → P fault

namespace FailsAs

variable {P Q : Fault → Prop} {x : Except Fault α}

/-- A value is no fault. -/
theorem ok (a : α) : FailsAs P (.ok a) := by
  intro fault h
  cases h

/-- A fault with the property is one. -/
theorem error {fault : Fault} (h : P fault) : FailsAs P (.error fault : Except Fault α) := by
  intro other hother
  cases hother
  exact h

/-- Faults with a property have every weaker one. -/
theorem mono (hx : FailsAs P x) (hPQ : ∀ fault, P fault → Q fault) : FailsAs Q x := by
  intro fault h
  exact hPQ fault (hx fault h)

/-- Two computations after one another fail with what either fails with. -/
theorem bind (hx : FailsAs P x) {f : α → Except Fault β} (hf : ∀ a, FailsAs P (f a)) :
    FailsAs P (x >>= f) := by
  cases x with
  | error fault => exact error (hx fault rfl)
  | ok a => exact hf a

/-- Changing a value has no influence on faults. -/
theorem map (hx : FailsAs P x) (f : α → β) : FailsAs P (x.map f) := by
  cases x with
  | error fault => exact error (hx fault rfl)
  | ok a => exact ok (f a)

/-- Changed faults have the property that the change gives them. -/
theorem mapError {f : Fault → Fault} (hf : ∀ fault, P (f fault)) (x : Except Fault α) :
    FailsAs P (x.mapError f) := by
  cases x with
  | error fault => exact error (hf fault)
  | ok a => exact ok a

/-- Computations for all elements of a list fail with what one of them fails with. -/
theorem mapM {f : α → Except Fault β} (hf : ∀ a, FailsAs P (f a)) (as : List α) :
    FailsAs P (as.mapM f) := by
  induction as with
  | nil => exact ok []
  | cons a rest ih =>
    rw [List.mapM_cons]
    exact (hf a).bind fun b => ih.bind fun bs => ok (b :: bs)

/-- A loop over a list fails with what a round of it fails with. -/
theorem foldlM {f : β → α → Except Fault β} (hf : ∀ b a, FailsAs P (f b a)) (b : β)
    (as : List α) : FailsAs P (as.foldlM f b) := by
  induction as generalizing b with
  | nil => exact ok b
  | cons a rest ih =>
    rw [List.foldlM_cons]
    exact (hf b a).bind fun b => ih b

end FailsAs

/-- A computation that fails, fails with a fault of the given class. -/
def FailsWith (phase : FaultClass) (x : Except Fault α) : Prop :=
  ∀ fault, x = .error fault → fault.faultClass = phase

namespace FailsWith

variable {phase : FaultClass} {x : Except Fault α}

/-- A value is no fault. -/
theorem ok (a : α) : FailsWith phase (.ok a) :=
  FailsAs.ok a

/-- A fault of the class is one. -/
theorem error {fault : Fault} (h : fault.faultClass = phase) :
    FailsWith phase (.error fault : Except Fault α) :=
  FailsAs.error h

/-- Two computations after one another fail with what either fails with. -/
theorem bind (hx : FailsWith phase x) {f : α → Except Fault β}
    (hf : ∀ a, FailsWith phase (f a)) : FailsWith phase (x >>= f) :=
  FailsAs.bind hx hf

/-- Changing a value has no influence on faults. -/
theorem map (hx : FailsWith phase x) (f : α → β) : FailsWith phase (x.map f) :=
  FailsAs.map hx f

/-- Changed faults are of the class that the change gives them. -/
theorem mapError {f : Fault → Fault} (hf : ∀ fault, (f fault).faultClass = phase)
    (x : Except Fault α) : FailsWith phase (x.mapError f) :=
  FailsAs.mapError hf x

/-- Computations for all elements of a list fail with what one of them fails with. -/
theorem mapM {f : α → Except Fault β} (hf : ∀ a, FailsWith phase (f a)) (as : List α) :
    FailsWith phase (as.mapM f) :=
  FailsAs.mapM hf as

/-- A loop over a list fails with what a round of it fails with. -/
theorem foldlM {f : β → α → Except Fault β} (hf : ∀ b a, FailsWith phase (f b a)) (b : β)
    (as : List α) : FailsWith phase (as.foldlM f b) :=
  FailsAs.foldlM hf b as

end FailsWith

end SoundLaw
