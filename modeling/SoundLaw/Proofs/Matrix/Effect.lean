import SoundLaw.Proofs.Matrix.Qualities

/-!
# What a change does to a single feature

Setting a feature treats every feature of a matrix by itself, whatever the matrix: it writes a
quality to it, makes it absent if it is unset, or leaves it alone. One such effect after another is
such an effect again, so a whole change has one effect on each feature, however its entries undo one
another. An effect that has been had once changes nothing the second time, and so it is with a
change.

Nothing is assumed about the classes here: a feature may belong to several classes, be added to one
twice, or be a major feature and a dependent at once. Nor is anything assumed about the change. The
matrix that is changed is well-formed, as is every matrix that the operations build.
-/

namespace SoundLaw

/-- What a change does to the quality of one feature. -/
inductive Effect where
  /-- The quality stays as it is. -/
  | keep
  /-- The feature becomes absent if it is unset. -/
  | fill
  /-- The feature takes a quality, or loses its own when that is unset. -/
  | write (quality : Quality)
deriving DecidableEq, Repr

namespace Effect

/-- The quality that an effect makes of another. -/
def on : Effect → Quality → Quality
  | keep, old => old
  | fill, old => if old = .unset then .minus else old
  | write quality, _ => quality

/-- One effect and then another, as one effect. -/
def andThen (first : Effect) : Effect → Effect
  | keep => first
  | fill =>
    match first with
    | write quality => write (fill.on quality)
    | _ => fill
  | write quality => write quality

/-- An effect changes nothing the second time. -/
@[simp] theorem on_on (effect : Effect) (old : Quality) :
    effect.on (effect.on old) = effect.on old := by
  cases effect with
  | keep => rfl
  | fill => cases old <;> rfl
  | write quality => rfl

/-- Effects are had in their order. -/
@[simp] theorem on_andThen (first second : Effect) (old : Quality) :
    (first.andThen second).on old = second.on (first.on old) := by
  cases second with
  | keep => rfl
  | write quality => rfl
  | fill =>
    cases first with
    | keep => rfl
    | fill => exact (fill.on_on old).symm
    | write quality => rfl

/-- Some effects in their order, as one effect. -/
def total : List Effect → Effect
  | [] => keep
  | first :: rest => first.andThen (total rest)

/-- A quality that every effect leaves alone is left alone by all of them together. -/
theorem on_total_of_forall {effects : List Effect} {old : Quality}
    (h : ∀ effect ∈ effects, effect.on old = old) : (total effects).on old = old := by
  induction effects with
  | nil => rfl
  | cons first rest ih =>
    rw [List.forall_mem_cons] at h
    rw [total, on_andThen, h.1, ih h.2]

/-- Effects that all keep the quality keep it together. -/
theorem total_eq_keep {effects : List Effect} (h : ∀ effect ∈ effects, effect = keep) :
    total effects = keep := by
  induction effects with
  | nil => rfl
  | cons first rest ih =>
    rw [List.forall_mem_cons] at h
    rw [total, h.1, ih h.2]
    rfl

/-- What is written last counts: a quality is written, and what comes after leaves it alone. -/
theorem total_eq_write {quality : Quality} (before : List Effect) {after : List Effect}
    (hafter : ∀ effect ∈ after, effect.on quality = quality) :
    total (before ++ write quality :: after) = write quality := by
  induction before with
  | nil =>
    have hlater := on_total_of_forall hafter
    rw [List.nil_append, total]
    cases htotal : total after with
    | keep => rfl
    | fill =>
      rw [htotal] at hlater
      exact congrArg write hlater
    | write other =>
      rw [htotal] at hlater
      exact congrArg write hlater
  | cons first rest ih =>
    rw [List.cons_append, total, ih]
    rfl

/-- A quality that one effect writes and all the others leave alone is written by them together. -/
theorem total_eq_write_of_mem {quality : Quality} {effects : List Effect}
    (hwrite : write quality ∈ effects) (h : ∀ effect ∈ effects, effect.on quality = quality) :
    total effects = write quality := by
  obtain ⟨before, after, rfl⟩ := List.append_of_mem hwrite
  apply total_eq_write
  intro effect heffect
  exact h effect (List.mem_append_right _ (List.mem_cons_of_mem _ heffect))

/-- Effects none of which writes a quality fill an unset one if one of them does. -/
theorem total_eq_fill {effects : List Effect} (hfill : fill ∈ effects)
    (h : ∀ effect ∈ effects, effect = keep ∨ effect = fill) : total effects = fill := by
  induction effects with
  | nil => exact absurd hfill List.not_mem_nil
  | cons first rest ih =>
    rw [List.forall_mem_cons] at h
    by_cases hrest : fill ∈ rest
    · rw [total, ih hrest h.2]
      rcases h.1 with rfl | rfl <;> rfl
    · have hfirst : first = fill := ((List.mem_cons.mp hfill).resolve_right hrest).symm
      have hkeep : ∀ effect ∈ rest, effect = keep := by
        intro effect heffect
        apply (h.2 effect heffect).resolve_right
        rintro rfl
        exact hrest heffect
      rw [total, hfirst, total_eq_keep hkeep]
      rfl

/-- What writing to a feature does to a feature. -/
def ofPut (written : String) (quality : Quality) (name : String) : Effect :=
  if name = written then write quality else keep

/-- What filling some features does to a feature. -/
def ofFill (filled : List String) (name : String) : Effect :=
  if name ∈ filled then fill else keep

/-- What clearing some features does to a feature. -/
def ofClear (cleared : List String) (name : String) : Effect :=
  if name ∈ cleared then write .unset else keep

end Effect

/-- What setting an entry does to a feature. -/
def Feature.effect (classes : MajorClasses) (entry : Feature) (name : String) : Effect :=
  let written := Effect.ofPut entry.name entry.quality name
  if entry.quality.isVariable then written
  else if classes.isMajor entry.name then
    if entry.quality = .plus then
      written.andThen (Effect.ofFill (classes.dependents entry.name) name)
    else written.andThen (Effect.ofClear (classes.dependents entry.name) name)
  else if entry.quality = .plus then
    match classes.governor entry.name with
    | some major =>
      (written.andThen (Effect.ofPut major .plus name)).andThen
        (Effect.ofFill (classes.dependents major) name)
    | none => written
  else written

namespace Matrix

/-- What a whole change does to a feature. -/
def effect (delta : Matrix) (classes : MajorClasses) (name : String) : Effect :=
  Effect.total (delta.entries.map fun entry => entry.effect classes name)

section

variable {m : Matrix} (hm : m.WellFormed)
include hm

/-- Writing an entry has its effect on each feature. -/
theorem WellFormed.get_put_eq_on (written : String) (quality : Quality) (name : String) :
    (m.put written quality).get name = (Effect.ofPut written quality name).on (m.get name) := by
  rw [hm.get_put, Effect.ofPut]
  split <;> rfl

/-- Filling has its effect on each feature. -/
theorem WellFormed.get_fill_eq_on (filled : List String) (name : String) :
    (m.fill filled).get name = (Effect.ofFill filled name).on (m.get name) := by
  rw [hm.get_fill, Effect.ofFill]
  by_cases hfilled : name ∈ filled
  · simp [hfilled, Effect.on]
  · simp [hfilled, Effect.on]

/-- Clearing has its effect on each feature. -/
theorem WellFormed.get_clear_eq_on (cleared : List String) (name : String) :
    (m.clear cleared).get name = (Effect.ofClear cleared name).on (m.get name) := by
  rw [hm.get_clear, Effect.ofClear]
  split <;> rfl

/-- Setting an entry has its effect on each feature. -/
theorem WellFormed.get_set_eq_on (classes : MajorClasses) (entry : Feature) (name : String) :
    (m.set classes entry.name entry.quality).get name =
      (entry.effect classes name).on (m.get name) := by
  have hwritten := hm.put entry.name entry.quality
  have hput := hm.get_put_eq_on entry.name entry.quality name
  unfold Matrix.set Feature.effect
  dsimp only
  split
  · exact hput
  · split
    · split
      · rw [hwritten.get_fill_eq_on, hput, Effect.on_andThen]
      · rw [hwritten.get_clear_eq_on, hput, Effect.on_andThen]
    · split
      · cases classes.governor entry.name with
        | some major =>
          have hopened := hwritten.put major .plus
          dsimp only
          rw [hopened.get_fill_eq_on, hwritten.get_put_eq_on, hput, Effect.on_andThen,
            Effect.on_andThen]
        | none => exact hput
      · exact hput

/-- A change has one effect on each feature, the same for every matrix. -/
theorem WellFormed.get_transform_eq_on (classes : MajorClasses) (delta : Matrix) (name : String) :
    (m.transform classes delta).get name = (delta.effect classes name).on (m.get name) := by
  obtain ⟨entries⟩ := delta
  unfold Matrix.transform effect
  dsimp only
  induction entries generalizing m with
  | nil => rfl
  | cons entry rest ih =>
    rw [List.foldl_cons, ih (hm.set classes entry.name entry.quality),
      hm.get_set_eq_on classes entry name, List.map_cons, Effect.total, Effect.on_andThen]

/-- A change that has been made changes nothing when it is made again, whatever the classes and
whatever the order of its entries. -/
theorem WellFormed.transform_idempotent (classes : MajorClasses) (delta : Matrix) :
    ((m.transform classes delta).transform classes delta == m.transform classes delta) = true := by
  have honce := hm.transform classes delta
  rw [(honce.transform classes delta).beq_iff_get honce]
  intro name
  rw [honce.get_transform_eq_on, hm.get_transform_eq_on, Effect.on_on]

end

/-- A dependent of two classes makes one major feature present, the other one is cleared with the
class above it, and a variable replaces the first: all of this happens once. -/
theorem WellFormed.transform_idempotent_nested :
    let classes : MajorClasses :=
      ⟨["PLACE"], [("PLACE", "COR"), ("COR", "ant"), ("COR", "ant"), ("DOR", "ant")]⟩
    let delta : Matrix := ⟨[⟨"ant", .plus⟩, ⟨"PLACE", .minus⟩, ⟨"DOR", .alpha⟩]⟩
    let m : Matrix := ⟨[⟨"COR", .plus⟩, ⟨"ant", .minus⟩]⟩
    m.WellFormed ∧ (m.transform classes delta).entries =
        [⟨"ant", .plus⟩, ⟨"DOR", .alpha⟩, ⟨"PLACE", .minus⟩] ∧
      ((m.transform classes delta).transform classes delta ==
        m.transform classes delta) = true := by
  intro classes delta m
  have hm : m.WellFormed := ⟨by decide, by decide⟩
  exact ⟨hm, rfl, hm.transform_idempotent classes delta⟩

end Matrix

end SoundLaw
