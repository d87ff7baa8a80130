import SoundLaw.Eval.Operation
import SoundLaw.Proofs.Eval.Endings
import SoundLaw.Proofs.Matrix.Variables
import SoundLaw.Proofs.Rule.Writing
import SoundLaw.Proofs.Table.RoundTrip

/-!
# Where variables end up

Pattern variables belong into rules. The phones of a table that was read have none, and a rule that
writes no variable itself brings none into a word: a replacement pattern loses the variables for
which nothing was captured before it is applied. A change that is applied to a phone directly keeps
its variables. They end up on an unknown phone, since no registered phone has them, exactly when the
change leaves one.
-/

namespace SoundLaw

/-- A phone as words have it: its matrix is well-formed and has no variable. -/
structure Phone.Concrete (phone : Phone) : Prop where
  wellFormed : phone.matrix.WellFormed
  literal : phone.matrix.hasVariables = false

/-- A change without variables keeps a phone concrete. -/
theorem Phone.Concrete.transform {phone : Phone} (hphone : phone.Concrete) (symbol : String)
    (classes : MajorClasses) {delta : Matrix} (hdelta : delta.hasVariables = false) :
    Concrete ⟨symbol, phone.matrix.transform classes delta⟩ := by
  refine ⟨hphone.wellFormed.transform classes delta, ?_⟩
  rw [hphone.wellFormed.hasVariables_transform hphone.literal]
  exact Matrix.leavesVariable_eq_false classes hdelta

namespace BaseTable

/-- The base phones of a table that was read are concrete. -/
theorem load_concrete {source : String} {base : BaseTable} (h : load source = .ok base) :
    ∀ row ∈ base.bases, Phone.Concrete ⟨row.1, row.2⟩ := by
  intro row hrow
  obtain ⟨changes, -, hliteral, hmatrix⟩ := (load_loaded h).rows row hrow
  rw [hmatrix]
  have hempty : Phone.Concrete ⟨row.1, .empty⟩ := ⟨.empty, rfl⟩
  exact hempty.transform row.1 base.classes
    ((Matrix.hasVariables_eq_false_iff ⟨changes⟩).mpr hliteral)

/-- What a table that was read derives is concrete. -/
theorem derivations_concrete {source : String} {base : BaseTable} (h : load source = .ok base) :
    ∀ derived ∈ base.derivations, Phone.Concrete ⟨derived.1, derived.2⟩ := by
  intro derived hderived
  obtain ⟨row, hrow, stack, hsublist, hstack⟩ := (base.mem_derivations_iff derived).mp hderived
  have hkeeps : ∀ a ∈ stack, ∀ m, Phone.Concrete ⟨derived.1, m⟩ →
      Phone.Concrete ⟨derived.1, a.apply base.classes m⟩ := by
    intro a ha m hm
    obtain ⟨kind, -, rfl⟩ := List.mem_map.mp (hsublist.subset ha)
    exact hm.transform derived.1 base.classes (Articulation.hasVariables_delta kind)
  have hbase := load_concrete h row hrow
  exact Articulation.stack?_keeps hkeeps ⟨hbase.wellFormed, hbase.literal⟩ hstack

end BaseTable

namespace Table

/-- The registered phones of a table are concrete. -/
def Concrete (table : Table) : Prop :=
  ∀ phone ∈ table.phones, phone.Concrete

/-- The registered phones of a table that was read are concrete. -/
theorem concrete_of_ofText {source : String} {table : Table} (h : ofText source = .ok table) :
    table.Concrete := by
  obtain ⟨base, hload, rfl⟩ := exists_load_of_ofText h
  intro phone hphone
  have hregisters := (BaseTable.load_wellFormed hload).registers
  obtain ⟨symbol, hderived⟩ := hregisters.matrix_derived phone hphone
  have hconcrete := BaseTable.derivations_concrete hload _ hderived
  exact ⟨hconcrete.wellFormed, hconcrete.literal⟩

/-- A matrix under which a registered phone is found has no variable. -/
theorem Concrete.hasVariables_of_get? {table : Table} (htable : table.Concrete) {m : Matrix}
    (hm : m.WellFormed) {phone : Phone} (h : table.get? m = some phone) :
    m.hasVariables = false := by
  have hphone := htable phone (List.mem_of_find?_eq_some h)
  have hsame : (phone.matrix == m) = true := by simpa using List.find?_some h
  rw [Bool.eq_false_iff, ne_eq, hm.hasVariables_iff]
  rintro ⟨name, hvariable⟩
  rw [← (hphone.wellFormed.beq_iff_get hm).mp hsame,
    Matrix.isVariable_get hphone.literal] at hvariable
  cases hvariable

/-- A matrix whose features a registered phone has has no variable. -/
theorem Concrete.hasVariables_of_fuzzySearch {table : Table} (htable : table.Concrete)
    {m : Matrix} {phone : Phone} (h : table.fuzzySearch m = some phone) :
    m.hasVariables = false := by
  have hphone := htable phone (List.mem_of_find?_eq_some h)
  have hfeatures : phone.matrix.hasFeatures m = true := by simpa using List.find?_some h
  rw [Matrix.hasVariables_eq_false_iff]
  intro entry hentry
  by_cases hany : entry.quality = .any
  · rw [hany]
    rfl
  · have hfound := List.all_eq_true.mp hfeatures entry
      (List.mem_filter.mpr ⟨hentry, by simpa using hany⟩)
    rw [← eq_of_beq hfound]
    exact Matrix.isVariable_get hphone.literal entry.name

/-- Looking up a well-formed matrix gives a concrete phone exactly when the matrix has no
variable. -/
theorem Concrete.lookUp_iff {table : Table} (htable : table.Concrete) {m : Matrix}
    (hm : m.WellFormed) : (table.lookUp m true).Concrete ↔ m.hasVariables = false := by
  unfold lookUp
  split
  · next phone hget =>
    exact iff_of_true (htable phone (List.mem_of_find?_eq_some hget))
      (htable.hasVariables_of_get? hm hget)
  · rw [if_pos rfl]
    split
    · next phone hfuzzy =>
      exact iff_of_true (htable phone (List.mem_of_find?_eq_some hfuzzy))
        (htable.hasVariables_of_fuzzySearch hfuzzy)
    · exact ⟨fun h => h.literal, fun h => ⟨hm, h⟩⟩

/-- A change makes a concrete phone of a concrete phone exactly when it leaves no variable. -/
theorem Concrete.transform_iff {table : Table} (htable : table.Concrete) {phone : Phone}
    (hphone : phone.Concrete) (delta : Matrix) :
    (table.transform phone delta true).Concrete ↔ delta.leavesVariable table.classes = false := by
  rw [transform, htable.lookUp_iff (hphone.wellFormed.transform table.classes delta),
    hphone.wellFormed.hasVariables_transform hphone.literal]

end Table

/-- The phones of a word are concrete. -/
def Word.Concrete (word : Word) : Prop :=
  ∀ slot ∈ word.slots, slot.2.Concrete

namespace Rule

/-- The phones that a rule writes out are concrete. -/
def WritesConcrete (rule : Rule) : Prop :=
  ∀ phone, .literal phone ∈ rule.replacement → phone.Concrete

/-- What a replacement makes of a concrete phone is concrete. -/
theorem realize_concrete {table : Table} (htable : table.Concrete) {phone : Phone}
    (hphone : phone.Concrete) (captures : Captures) {segment : Segment}
    (hsegment : ∀ literal, segment = .literal literal → literal.Concrete) :
    (realize table captures phone segment).Concrete := by
  cases segment with
  | literal literal => exact hsegment literal rfl
  | pattern pattern =>
    rw [realize, htable.transform_iff hphone]
    exact Matrix.leavesVariable_eq_false _ (Matrix.hasVariables_withoutVariables _)

/-- A rule keeps a word concrete. -/
theorem transform_concrete {rule : Rule} (hrule : rule.WritesConcrete) {table : Table}
    (htable : table.Concrete) {word : Word} (hword : word.Concrete) :
    (rule.transform table word).Concrete := by
  refine forall_transform (fun captures phone hphone segment hsegment => ?_) hword
  exact realize_concrete htable hphone captures fun literal heq => hrule literal (heq ▸ hsegment)

end Rule

namespace Value

/-- The phones of a value that is a phone or a word are concrete. -/
def Concrete : Value → Prop
  | phone p => p.Concrete
  | word w => w.Concrete
  | _ => True

/-- The phones that a value writes out as a change are concrete: a rule, or rules in a vector, bring
their literals into the words they change. -/
def WritesConcrete : Value → Prop
  | rule r => r.WritesConcrete
  | vector rules => ∀ r, rule r ∈ rules → r.WritesConcrete
  | _ => True

/-- Rules applied one after another keep a word concrete. -/
theorem applyRules_concrete {table : Table} (htable : table.Concrete) {rules : List Value}
    (hrules : ∀ r, rule r ∈ rules → r.WritesConcrete) {w w' : Word} (hw : w.Concrete)
    (h : applyRules table w rules = .ok w') : w'.Concrete := by
  induction rules generalizing w with
  | nil =>
    cases h
    exact hw
  | cons first rest ih =>
    obtain ⟨next, hfirst, hrest⟩ := bind_eq_ok_iff.mp h
    refine ih (fun r hr => hrules r (List.mem_cons_of_mem _ hr)) ?_ hrest
    dsimp only at hfirst
    split at hfirst
    · next r =>
      cases hfirst
      exact Rule.transform_concrete (hrules r List.mem_cons_self) htable hw
    · cases hfirst

/-- What a change makes of a concrete value is concrete, unless a phone is changed by a pattern that
leaves a variable. -/
theorem transform_concrete_iff {table : Table} (htable : table.Concrete)
    {target change result : Value} (htarget : target.Concrete) (hchange : change.WritesConcrete)
    (h : target.transform table change = .ok result) :
    result.Concrete ↔ ∀ p delta, target = phone p → change.pattern? = some delta →
      delta.leavesVariable table.classes = false := by
  unfold transform at h
  split at h
  · next p r =>
    cases h
    have hword : Word.Concrete (.ofPhones [p]) := List.forall_mem_singleton.mpr htarget
    refine iff_of_true (Rule.transform_concrete hchange htable hword) ?_
    rintro _ _ - hpattern
    cases hpattern
  · next w r =>
    cases h
    refine iff_of_true (Rule.transform_concrete hchange htable htarget) ?_
    rintro _ _ hphone
    cases hphone
  · next w rules =>
    obtain ⟨w', hrules, rfl⟩ := map_eq_ok_iff.mp h
    refine iff_of_true (applyRules_concrete htable hchange htarget hrules) ?_
    rintro _ _ hphone
    cases hphone
  · next p _ =>
    split at h
    · next delta hpattern =>
      cases h
      refine (htable.transform_iff htarget delta).trans ?_
      constructor
      · rintro hdelta _ _ - hother
        rw [hpattern] at hother
        cases hother
        exact hdelta
      · exact fun hall => hall p delta rfl hpattern
    · cases h
  · next m change =>
    split at h
    · cases h
      refine iff_of_true trivial ?_
      rintro _ _ hphone
      cases hphone
    · cases h
  · cases h

end Value

namespace Evaluator

/-- A value that the transformation operator gives is what the change makes of its target. -/
theorem transform_eq_ok_of_binaryValue {e : Evaluator} {target change result : Value} {env : Env}
    {s s' : State} (h : e.binaryValue .transform target change env s = .done result s') :
    target.transform env.table change = .ok result := by
  change transformBy target change env s = .done result s' at h
  have hplain : ∀ s₁, (do Eval.ofExcept (target.transform (← Eval.table) change)) env s₁ =
      .done result s' → target.transform env.table change = .ok result := by
    intro s₁ h
    obtain ⟨table, s₂, htable, h⟩ := Eval.bind_eq_done_iff.mp h
    cases htable
    cases houtcome : target.transform env.table change with
    | error fault =>
      rw [houtcome] at h
      cases h
    | ok value =>
      rw [houtcome] at h
      cases h
      rfl
  unfold transformBy at h
  split at h
  · obtain ⟨_, s₁, _, hrest⟩ := Eval.bind_eq_done_iff.mp h
    exact hplain s₁ hrest
  · exact hplain s h

/-- With a table that was read, the transformation operator makes concrete phones of concrete
phones, and brings in no variable by rules whose literals are concrete, except when it changes a
phone by a matrix or a feature that leaves a variable: then the phone it makes has one. -/
theorem binaryValue_transform_concrete_iff {source : String} {e : Evaluator}
    {target change result : Value} {env : Env} {s s' : State}
    (htable : Table.ofText source = .ok env.table) (htarget : target.Concrete)
    (hchange : change.WritesConcrete)
    (h : e.binaryValue .transform target change env s = .done result s') :
    result.Concrete ↔ ∀ p delta, target = .phone p → change.pattern? = some delta →
      delta.leavesVariable env.table.classes = false :=
  Value.transform_concrete_iff (Table.concrete_of_ofText htable) htarget hchange
    (transform_eq_ok_of_binaryValue h)

/-- A voiced phone is made voiceless and stays concrete. -/
theorem binaryValue_transform_concrete_devoiced :
    ∃ table, Table.ofText "SEGMENT\tvoice\nb\t+\np\t-\n" = .ok table ∧
      ∀ e : Evaluator, ∀ s, ∃ result,
        e.binaryValue .transform (.phone ⟨"b", ⟨[⟨"voice", .plus⟩]⟩⟩) (.feature ⟨"voice", .minus⟩)
          ⟨table, []⟩ s = .done result s ∧ result.Concrete := by
  let base : BaseTable :=
    ⟨["voice"], .empty, [("b", ⟨[⟨"voice", .plus⟩]⟩), ("p", ⟨[⟨"voice", .minus⟩]⟩)]⟩
  let target : Value := .phone ⟨"b", ⟨[⟨"voice", .plus⟩]⟩⟩
  let change : Value := .feature ⟨"voice", .minus⟩
  have htable : Table.ofText "SEGMENT\tvoice\nb\t+\np\t-\n" = .ok (.ofBases base) := by
    with_unfolding_all rfl
  have htarget : target.Concrete := ⟨⟨by simp, by simp⟩, rfl⟩
  have hchange : change.WritesConcrete := trivial
  refine ⟨_, htable, fun e s => ?_⟩
  obtain ⟨result, hresult⟩ : ∃ result,
      e.binaryValue .transform target change ⟨.ofBases base, []⟩ s = .done result s := ⟨_, rfl⟩
  refine ⟨result, hresult,
    (binaryValue_transform_concrete_iff htable htarget hchange hresult).mpr ?_⟩
  rintro _ _ - hpattern
  cases hpattern
  rfl

/-- A voiced phone whose voice is made a variable becomes a phone with that variable. -/
theorem binaryValue_transform_variable :
    ∃ table, Table.ofText "SEGMENT\tvoice\nb\t+\np\t-\n" = .ok table ∧
      ⟨"b", ⟨[⟨"voice", .plus⟩]⟩⟩ ∈ table.phones ∧
      ∀ e : Evaluator, ∀ s,
        e.binaryValue .transform (.phone ⟨"b", ⟨[⟨"voice", .plus⟩]⟩⟩) (.feature ⟨"voice", .alpha⟩)
          ⟨table, []⟩ s = .done (.phone ⟨"*", ⟨[⟨"voice", .alpha⟩]⟩⟩) s := by
  let base : BaseTable :=
    ⟨["voice"], .empty, [("b", ⟨[⟨"voice", .plus⟩]⟩), ("p", ⟨[⟨"voice", .minus⟩]⟩)]⟩
  have htable : Table.ofText "SEGMENT\tvoice\nb\t+\np\t-\n" = .ok (.ofBases base) := by
    with_unfolding_all rfl
  have hphones : (Table.ofBases base).phones =
      [⟨"b", ⟨[⟨"voice", .plus⟩]⟩⟩, ⟨"p", ⟨[⟨"voice", .minus⟩]⟩⟩] := by cbv
  have htransform : (Table.ofBases base).transform ⟨"b", ⟨[⟨"voice", .plus⟩]⟩⟩
      (.ofFeature ⟨"voice", .alpha⟩) true = ⟨"*", ⟨[⟨"voice", .alpha⟩]⟩⟩ := by cbv
  refine ⟨_, htable, by simp [hphones], fun e s => ?_⟩
  exact congrArg (fun phone => Result.done (Value.phone phone) s) htransform

end Evaluator

end SoundLaw
