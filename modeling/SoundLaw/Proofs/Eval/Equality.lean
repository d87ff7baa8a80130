import SoundLaw.Eval.Expression
import SoundLaw.Proofs.Eval.Text

/-!
# Equality with and without methods

An instance may have a method by which it is compared. Where no instance inside a value has one, no
method is called: two values are equal exactly if they are the same, and finding this out changes
nothing. With the texts and the keys of values it is the same.

Vectors are compared element by element, so instances inside them are asked at any depth. A
dictionary is not taken apart: two dictionaries are equal exactly if they are the same, whatever the
instances inside them have to say.
-/

namespace SoundLaw

namespace Value

/-- Dictionaries with the same keys are the same if their values are. -/
theorem sameEntries_of_keys {as bs : List (String × Value)}
    (hkeys : as.map (·.1) = bs.map (·.1)) :
    sameEntries as bs = sameAll (as.map (·.2)) (bs.map (·.2)) := by
  induction as generalizing bs with
  | nil =>
    cases bs with
    | nil => rfl
    | cons entry rest => cases hkeys
  | cons entry rest ih =>
    cases bs with
    | nil => cases hkeys
    | cons other others =>
      obtain ⟨hkey, hkeys⟩ := List.cons.inj hkeys
      rw [sameEntries, List.map_cons, List.map_cons, sameAll, ih hkeys, beq_iff_eq.mpr hkey,
        Bool.true_and]

/-- Lists hold the same values if they are of one length and agree at each place. -/
theorem sameAll_eq_all_zip (as bs : List Value) :
    sameAll as bs = (as.length == bs.length && (as.zip bs).all fun pair => pair.1.same pair.2) := by
  induction as generalizing bs with
  | nil => cases bs <;> rfl
  | cons a rest ih =>
    cases bs with
    | nil => rfl
    | cons b others =>
      have hlength : ((a :: rest).length == (b :: others).length) =
          (rest.length == others.length) := by simp
      rw [sameAll, ih, List.zip_cons_cons, List.all_cons, hlength, Bool.and_left_comm]

/-- The structures inside the entries of a dictionary are those inside its values. -/
theorem structsOfAll_values (entries : List (String × Value)) :
    structsOfAll (entries.map (·.2)) = structsOfEntries entries := by
  induction entries with
  | nil => rfl
  | cons entry rest ih => rw [List.map_cons, structsOfAll, structsOfEntries, ih]

/-- No instance inside a value has a method for its text, for comparing it or for its key. -/
def Unhooked (heap : Heap) (value : Value) : Prop :=
  ∀ id ∈ value.structs, ∀ hooks ∈ heap.hooks? id,
    hooks.text = none ∧ hooks.equals = none ∧ hooks.key = none

/-- Without methods no instance has a say in the text or in the key. -/
theorem Unhooked.silent {heap : Heap} {value : Value} (h : value.Unhooked heap) :
    value.Silent heap := by
  intro id hid
  simp only [Option.bind_eq_none_iff]
  exact ⟨fun hooks hhooks => (h id hid hooks hhooks).1,
    fun hooks hhooks => (h id hid hooks hhooks).2.2⟩

end Value

namespace Evaluator

variable (e : Evaluator) (env : Env) (s : State)

mutual

/-- Values are equal if they are the same, provided that no instance inside the left one has a
method for comparing it. -/
theorem equals_eq_same : ∀ a b : Value,
    (∀ id ∈ a.structs, (s.heap.hooks? id).bind (·.equals) = none) →
      e.equals a b env s = .done (a.same b) s
  | .struct id, b, hunasked => by
    have hhook : hook? (·.equals) id env s = .done none s := by
      rw [← hunasked id List.mem_cons_self]
      rfl
    rw [equals, Eval.bind_of_done hhook]
    rfl
  | .vector as, b, hunasked => by
    cases b with
    | vector bs =>
      rw [equals, Value.same]
      by_cases hlength : as.length = bs.length
      · rw [if_pos hlength]
        exact equalsAll_eq_sameAll as bs hunasked hlength
      · rw [if_neg hlength, Value.sameAll_eq_all_zip, beq_eq_false_iff_ne.mpr hlength]
        rfl
    | _ => rfl
  | .null, _, _ | .bool _, _, _ | .number _, _, _ | .text _, _, _ | .dictionary _, _, _
  | .matrix _, _, _ | .feature _, _, _ | .phone _, _, _ | .word _, _, _ | .rule _, _, _
  | .function _, _, _ | .task _, _, _ => rfl

/-- Lists of one length are equal place by place if they hold the same values. -/
theorem equalsAll_eq_sameAll : ∀ as bs : List Value,
    (∀ id ∈ Value.structsOfAll as, (s.heap.hooks? id).bind (·.equals) = none) →
      as.length = bs.length → e.equalsAll as bs env s = .done (Value.sameAll as bs) s
  | [], [], _, _ => rfl
  | a :: as, b :: bs, hunasked, hlength => by
    have hfirst := equals_eq_same a b fun id hid => hunasked id (List.mem_append_left _ hid)
    have hrest := equalsAll_eq_sameAll as bs
      (fun id hid => hunasked id (List.mem_append_right _ hid)) (Nat.succ.inj hlength)
    rw [equalsAll, Eval.bind_of_done hfirst, Value.sameAll]
    cases a.same b with
    | true => exact hrest
    | false => rfl

end

/-- Texts, keys and comparisons of values without methods are the plain ones, and finding them
changes nothing. -/
theorem plain_of_unhooked :
    (∀ value : Value, value.Unhooked s.heap →
      e.textOf value env s = .done (value.render s.heap.describe) s ∧
        e.keyOf value env s = .done (value.render s.heap.describe) s) ∧
    ∀ a b : Value, a.Unhooked s.heap → b.Unhooked s.heap →
      e.equals a b env s = .done (a.same b) s := by
  refine ⟨fun value hvalue => ⟨?_, ?_⟩, fun a b ha _ => ?_⟩
  · exact textOf_eq_render e env s value fun id hid => (hvalue.silent id hid).1
  · exact keyOf_eq_render e env hvalue.silent
  · refine equals_eq_same e env s a b fun id hid => ?_
    exact Option.bind_eq_none_iff.mpr fun hooks hhooks => (ha id hid hooks hhooks).2.1

/-- An instance that only knows its length, beside a dictionary that holds a template: both are
written by name, and the vector is equal to itself but not to one with another instance. -/
theorem plain_of_unhooked_measured :
    let size : Callable := .script ⟨0, ⟨[], .leaf .start .null⟩, .held ⟨0, []⟩⟩
    let measured : Struct := .object "A" ⟨1, [0]⟩ ⟨none, none, none, some size, none⟩ false
    let s : State :=
      ⟨⟨#[⟨[], none⟩, ⟨[], some 0⟩], #[],
        #[measured, measured, .template "B" (.leaf .start .null) ⟨0, []⟩], #[], 1⟩, [], false, #[]⟩
    let value (id : StructId) : Value := .vector [.struct id, .dictionary [("k", .struct 2)]]
    let e : Evaluator := ⟨3, SoundLaw.evaluate [] 3, SoundLaw.invoke [] 3, textWithin [] 3⟩
    let env : Env := ⟨.empty, []⟩
    (∀ id < 2, (value id).Unhooked s.heap) ∧
      e.textOf (value 0) env s = .done "[A, \x7bk: <struct B>\x7d]" s ∧
      e.keyOf (value 0) env s = .done "[A, \x7bk: <struct B>\x7d]" s ∧
      e.equals (value 0) (value 0) env s = .done true s ∧
      e.equals (value 0) (value 1) env s = .done false s := by
  intro size measured s value e env
  have hunhooked : ∀ id < 2, (value id).Unhooked s.heap := by
    unfold Value.Unhooked
    decide
  obtain ⟨htexts, hequals⟩ := plain_of_unhooked e env s
  have hzero := hunhooked 0 (by decide)
  exact ⟨hunhooked, (htexts _ hzero).1, (htexts _ hzero).2, hequals _ _ hzero hzero,
    hequals _ _ hzero (hunhooked 1 (by decide))⟩

/-! ## Containers -/

mutual

/-- Two values are equal by their parts: comparing them says so, or they are vectors of one length,
or dictionaries with the same keys, whose parts are equal in this way. A comparison may call methods
and leads from one state to the next. Only dictionaries that `opened` admits are taken apart. -/
inductive EqualByParts (e : Evaluator) (env : Env) (opened : State → List (String × Value) → Prop) :
    State → Value → Value → State → Prop
  | equal {s s' : State} {a b : Value} (h : e.equals a b env s = .done true s') :
    EqualByParts e env opened s a b s'
  | vector {s s' : State} {as bs : List Value} (h : EqualInTurn e env opened s as bs s') :
    EqualByParts e env opened s (.vector as) (.vector bs) s'
  | dictionary {s s' : State} {as bs : List (String × Value)} (hopened : opened s as)
    (hkeys : as.map (·.1) = bs.map (·.1))
    (h : EqualInTurn e env opened s (as.map (·.2)) (bs.map (·.2)) s') :
    EqualByParts e env opened s (.dictionary as) (.dictionary bs) s'

/-- As many values on the left as on the right are equal by their parts, one after another. -/
inductive EqualInTurn (e : Evaluator) (env : Env) (opened : State → List (String × Value) → Prop) :
    State → List Value → List Value → State → Prop
  | nil {s : State} : EqualInTurn e env opened s [] [] s
  | cons {s between s' : State} {a b : Value} {as bs : List Value}
    (hfirst : EqualByParts e env opened s a b between)
    (hrest : EqualInTurn e env opened between as bs s') :
    EqualInTurn e env opened s (a :: as) (b :: bs) s'

end

/-- No instance inside the entries of a dictionary has a method for comparing it. -/
def Unasked (s : State) (entries : List (String × Value)) : Prop :=
  ∀ id ∈ Value.structsOfEntries entries, (s.heap.hooks? id).bind (·.equals) = none

variable {e env}

mutual

/-- Values that are equal by their parts are equal, where no instance in a dictionary that is taken
apart has a method for comparing it. -/
theorem EqualByParts.equals_eq_true {s s' : State} {a b : Value} :
    e.EqualByParts env Unasked s a b s' → e.equals a b env s = .done true s'
  | .equal h => h
  | .vector h => by
    obtain ⟨hlength, hequal⟩ := h.equalsAll_eq_true
    rw [equals, if_pos hlength]
    exact hequal
  | @EqualByParts.dictionary _ _ _ _ _ as bs hunasked hkeys h => by
    -- Nobody is asked about the values, so they are the same, and nothing has changed.
    obtain ⟨hlength, hequal⟩ := h.equalsAll_eq_true
    have hplain := equalsAll_eq_sameAll e env s (as.map (·.2)) (bs.map (·.2))
      (by rwa [Value.structsOfAll_values]) hlength
    rw [hplain, Result.done.injEq] at hequal
    obtain ⟨hsame, rfl⟩ := hequal
    have hentries := (Value.sameEntries_of_keys hkeys).trans hsame
    change Result.done (Value.sameEntries as bs) s = _
    rw [hentries]

/-- Values that are equal by their parts, one after another, are equal place by place. -/
theorem EqualInTurn.equalsAll_eq_true {s s' : State} {as bs : List Value} :
    e.EqualInTurn env Unasked s as bs s' →
      as.length = bs.length ∧ e.equalsAll as bs env s = .done true s'
  | .nil => ⟨rfl, rfl⟩
  | .cons hfirst hrest => by
    obtain ⟨hlength, hequal⟩ := hrest.equalsAll_eq_true
    refine ⟨congrArg (· + 1) hlength, ?_⟩
    rw [equalsAll, Eval.bind_of_done hfirst.equals_eq_true]
    exact hequal

end

variable (e env)

/-- Containers are compared by comparing their parts, except that dictionaries are not taken apart.
Values that are equal by their parts, to any depth, are equal if no instance in a dictionary on the
way has a method for comparing it. Two dictionaries with the same keys are equal exactly if their
values are the same, and no instance inside them is asked. -/
theorem equals_containers :
    (∀ {s s' : State} {a b : Value},
      e.EqualByParts env Unasked s a b s' → e.equals a b env s = .done true s') ∧
    ∀ (s : State) {as bs : List (String × Value)}, as.map (·.1) = bs.map (·.1) →
      e.equals (.dictionary as) (.dictionary bs) env s =
        .done (((as.map (·.2)).zip (bs.map (·.2))).all fun pair => pair.1.same pair.2) s := by
  refine ⟨EqualByParts.equals_eq_true, fun s as bs hkeys => ?_⟩
  have hlength : (as.map (·.2)).length = (bs.map (·.2)).length := by
    simpa using congrArg List.length hkeys
  change Result.done (Value.sameEntries as bs) s = _
  rw [Value.sameEntries_of_keys hkeys, Value.sameAll_eq_all_zip, beq_iff_eq.mpr hlength,
    Bool.true_and]

/-- The state with two instances whose method for comparing them says that they are equal to
everything, and one instance without methods. -/
def agreeable : State :=
  let agree : Callable := .script ⟨0, ⟨[⟨"o", .value⟩], .leaf .start (.bool true)⟩, .held ⟨0, []⟩⟩
  let agreeing : Struct := .object "A" ⟨0, []⟩ ⟨none, some agree, none, none, none⟩ false
  let plain : Struct := .object "B" ⟨0, []⟩ ⟨none, none, none, none, none⟩ false
  ⟨⟨#[⟨[], none⟩], #[], #[agreeing, agreeing, plain], #[], 1⟩, [], false, #[]⟩

/-- Vectors of vectors with different instances that agree, and with the same instance in a
dictionary, are equal. A dictionary is equal to itself, and the instance inside it is not asked. -/
theorem equals_containers_nested :
    let e : Evaluator := ⟨2, SoundLaw.evaluate [] 2, SoundLaw.invoke [] 2, textWithin [] 2⟩
    let env : Env := ⟨.empty, []⟩
    let value (id : StructId) : Value :=
      .vector [.vector [.struct id], .dictionary [("k", .struct 2)], .struct id]
    let entries : List (String × Value) := [("k", .struct 0)]
    (∃ s', e.EqualByParts env Unasked agreeable (value 0) (value 1) s' ∧
      e.equals (value 0) (value 1) env agreeable = .done true s') ∧
    e.equals (.dictionary entries) (.dictionary entries) env agreeable = .done true agreeable := by
  intro e env value entries
  have hparts : ∃ s', e.EqualByParts env Unasked agreeable (value 0) (value 1) s' :=
    ⟨_, .vector (.cons (.vector (.cons (.equal (by with_unfolding_all rfl)) .nil))
      (.cons (.dictionary (by unfold Unasked; decide) rfl
        (.cons (.equal (by with_unfolding_all rfl)) .nil))
      (.cons (.equal (by with_unfolding_all rfl)) .nil)))⟩
  obtain ⟨s', hparts⟩ := hparts
  obtain ⟨hequal, hdictionary⟩ := equals_containers e env
  exact ⟨⟨s', hparts, hequal hparts⟩, hdictionary agreeable rfl⟩

/-- Dictionaries that hold different instances under one key are not equal, although the instances
are. -/
theorem equals_dictionary_unasked :
    let e : Evaluator := ⟨2, SoundLaw.evaluate [] 2, SoundLaw.invoke [] 2, textWithin [] 2⟩
    let env : Env := ⟨.empty, []⟩
    let value (id : StructId) : Value := .dictionary [("k", .struct id)]
    (∃ s', e.equals (.struct 0) (.struct 1) env agreeable = .done true s' ∧
      e.EqualByParts env (fun _ _ => True) agreeable (value 0) (value 1) s') ∧
    e.equals (value 0) (value 1) env agreeable = .done false agreeable := by
  intro e env value
  have hinstances : ∃ s', e.equals (.struct 0) (.struct 1) env agreeable = .done true s' :=
    ⟨_, by with_unfolding_all rfl⟩
  obtain ⟨s', hequal⟩ := hinstances
  exact ⟨⟨s', hequal, .dictionary trivial rfl (.cons (.equal hequal) .nil)⟩, rfl⟩

end Evaluator

end SoundLaw
