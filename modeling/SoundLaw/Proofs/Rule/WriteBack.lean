import SoundLaw.Proofs.Matrix.Effect
import SoundLaw.Proofs.Matrix.Propagation
import SoundLaw.Proofs.Rule.Captures
import SoundLaw.Proofs.Rule.Simultaneous
import SoundLaw.Proofs.Value.Concrete

/-!
# Writing captured values back

A rule may capture the values of some features of a phone and write them back to the same phone.
Setting a feature has consequences for its class, so this could change other features. It does not
when every class of the phone is specified as a whole or not at all: what the class would be filled
with or cleared of is there already. The phone is then found again in the registry under its own
matrix, and the word stays as it is.
-/

namespace SoundLaw

namespace Matrix

/-- Every class of a matrix is specified as a whole or not at all. -/
structure Complete (classes : MajorClasses) (m : Matrix) : Prop where
  /-- A present major feature has all its dependents specified. -/
  filled : ∀ {major dependent}, dependent ∈ classes.dependents major → m.get major = .plus →
    m.get dependent ≠ .unset
  /-- Any other major feature has none of its dependents specified. -/
  cleared : ∀ {major dependent}, dependent ∈ classes.dependents major → m.get major ≠ .plus →
    m.get dependent = .unset

/-- Setting a feature of a complete matrix to the quality that it has leaves every feature alone. -/
theorem Complete.on_effect {classes : MajorClasses} {m : Matrix} (hm : m.Complete classes)
    {entry : Feature} (hentry : m.get entry.name = entry.quality) (hset : entry.quality ≠ .unset)
    (name : String) : (entry.effect classes name).on (m.get name) = m.get name := by
  have hput {written : String} {quality : Quality} (hwritten : m.get written = quality) :
      (Effect.ofPut written quality name).on (m.get name) = m.get name := by
    unfold Effect.ofPut
    split
    · next heq => rw [heq, hwritten, Effect.on]
    · rfl
  have hfill {major : String} (hmajor : m.get major = .plus) :
      (Effect.ofFill (classes.dependents major) name).on (m.get name) = m.get name := by
    unfold Effect.ofFill
    split
    · next hdependent => rw [Effect.on, if_neg (hm.filled hdependent hmajor)]
    · rfl
  have hclear {major : String} (hmajor : m.get major ≠ .plus) :
      (Effect.ofClear (classes.dependents major) name).on (m.get name) = m.get name := by
    unfold Effect.ofClear
    split
    · next hdependent => rw [Effect.on, hm.cleared hdependent hmajor]
    · rfl
  unfold Feature.effect
  dsimp only
  split
  · exact hput hentry
  · split
    · split
      · next hplus => rw [Effect.on_andThen, hput hentry, hfill (hentry.trans hplus)]
      · next hplus =>
        rw [Effect.on_andThen, hput hentry, hclear (hentry.symm ▸ hplus)]
    · split
      · cases hgovernor : classes.governor entry.name with
        | none => exact hput hentry
        | some major =>
          -- A dependent that is specified has its major feature present.
          have hmajor : m.get major = .plus := by
            by_contra hother
            have hmember := MajorClasses.mem_dependents_of_governor hgovernor
            exact hset (hentry.symm.trans (hm.cleared hmember hother))
          dsimp only
          rw [Effect.on_andThen, Effect.on_andThen, hput hentry, hput hmajor, hfill hmajor]
      · exact hput hentry

/-- A change that asks a complete matrix for nothing but what it has leaves every feature alone. -/
theorem Complete.get_transform {classes : MajorClasses} {m : Matrix} (hm : m.Complete classes)
    (hwell : m.WellFormed) {delta : Matrix}
    (hdelta : ∀ entry ∈ delta.entries, m.get entry.name = entry.quality ∧ entry.quality ≠ .unset)
    (name : String) : (m.transform classes delta).get name = m.get name := by
  rw [hwell.get_transform_eq_on]
  refine Effect.on_total_of_forall (List.forall_mem_map.mpr fun entry hentry => ?_)
  exact hm.on_effect (hdelta entry hentry).1 (hdelta entry hentry).2 name

end Matrix

/-- A registered phone is found when a change gives some phone all its features. -/
theorem BaseTable.WellFormed.transform_eq_of_get {base : BaseTable} (hbase : base.WellFormed)
    {phone other : Phone} (hphone : phone ∈ (Table.ofBases base).phones)
    (hother : other.matrix.WellFormed) {delta : Matrix}
    (hdelta : ∀ name, (other.matrix.transform base.classes delta).get name = phone.matrix.get name)
    (search : Bool) : (Table.ofBases base).transform other delta search = phone := by
  have hmatrix := hbase.phones phone hphone
  have hchanged := hother.transform base.classes delta
  have hsame : (phone.matrix == other.matrix.transform base.classes delta) = true :=
    (hmatrix.beq_iff_get hchanged).mpr fun name => (hdelta name).symm
  have hfound := hbase.get?_eq_some hphone hchanged hsame
  unfold Table.transform Table.lookUp
  rw [show (Table.ofBases base).classes = base.classes from rfl, hfound]

/-- A registered phone is found again when a change leaves all its features alone. -/
theorem BaseTable.WellFormed.transform_eq_self {base : BaseTable} (hbase : base.WellFormed)
    {phone : Phone} (hphone : phone ∈ (Table.ofBases base).phones) {delta : Matrix}
    (hdelta : ∀ name, (phone.matrix.transform base.classes delta).get name = phone.matrix.get name)
    (search : Bool) : (Table.ofBases base).transform phone delta search = phone :=
  hbase.transform_eq_of_get hphone (hbase.phones phone hphone) hdelta search

namespace Rule

/-- A simple rule that writes every phone as it was writes the rest of the word as it was. -/
theorem changeFrom_eq_append_drop {rule : Rule} (hkind : rule.kind = .simple) {table : Table}
    {word : Word} (hblock : ∀ index (h : index < word.slots.length),
      rule.block table word index = [word.slots[index]])
    (index : Nat) (output : List (Marker × Phone)) :
    rule.changeFrom table word index output = output ++ word.slots.drop index := by
  induction hleft : word.slots.length - index generalizing index output with
  | zero =>
    rw [changeFrom, dif_neg (by omega), List.drop_eq_nil_of_le (by omega), List.append_nil]
  | succ left ih =>
    have h : index < word.slots.length := by omega
    rw [changeFrom_step hkind table word h, hblock index h, ih (index + 1) _ (by omega),
      List.append_assoc, List.drop_eq_getElem_cons h, List.singleton_append]

/-- What is captured for the first variable and written back is what the phone has. -/
theorem instantiate_of_alpha {rule : Rule} {search written : Matrix}
    (hsearch : rule.search = some (.pattern search)) (hwell : written.WellFormed)
    (hwritten : ∀ entry ∈ written.entries,
      entry.quality = .alpha ∧ search.marks .alpha entry.name = true)
    {word : Word} (hword : word.Literal) {index : Nat} {phone : Phone}
    (hphone : word.phone? index = some phone) :
    ∀ entry ∈ ((rule.captures word index).instantiate written).entries,
      phone.matrix.get entry.name = entry.quality ∧ entry.quality ≠ .unset := by
  intro entry hentry
  rw [(rule.captures_closed hword index).instantiate_entries hwell, List.mem_filterMap] at hentry
  obtain ⟨origin, horigin, hsettle⟩ := hentry
  obtain ⟨halpha, hmarks⟩ := hwritten origin horigin
  have hvalue : (rule.captures word index).value? .alpha origin.name =
      some (phone.matrix.get origin.name) := by
    rw [value?_captures]
    simp [source?, hphone, patternsOf, hsearch, hmarks]
  rw [Captures.settle, halpha, hvalue] at hsettle
  dsimp only at hsettle
  unfold Feature.written at hsettle
  split at hsettle
  · cases hsettle
  · next hset =>
    cases hsettle
    exact ⟨rfl, hset⟩

/-- Captured values that are written back change nothing. A simple rule searches for a pattern that
captures values of the matched phone, and writes them, and nothing else, back to the phone. In a
word of registered phones whose classes are each specified as a whole or not at all, every phone and
every marker stays as it is, whatever the contexts of the rule. -/
theorem transform_writes_back {source : String} {table : Table}
    (hsource : Table.ofText source = .ok table) {rule : Rule} (hkind : rule.kind = .simple)
    {search written : Matrix} (hsearch : rule.search = some (.pattern search))
    (hreplacement : rule.replacement = [.pattern written]) (hwell : written.WellFormed)
    (hwritten : ∀ entry ∈ written.entries,
      entry.quality = .alpha ∧ search.marks .alpha entry.name = true)
    {word : Word} (hregistered : ∀ phone ∈ word.phones, phone ∈ table.phones)
    (hcomplete : ∀ phone ∈ word.phones, phone.matrix.Complete table.classes) :
    rule.transform table word = word := by
  have hconcrete := Table.concrete_of_ofText hsource
  have hliteral : word.Literal := fun phone hphone =>
    (hconcrete phone (hregistered phone hphone)).literal
  obtain ⟨base, hload, rfl⟩ := Table.exists_load_of_ofText hsource
  have hbase := BaseTable.load_wellFormed hload
  have hblock : ∀ index (h : index < word.slots.length),
      rule.block (Table.ofBases base) word index = [word.slots[index]] := by
    intro index h
    have hphone := Word.phone?_eq_some h
    have hmem := Word.mem_phones_of_phone? hphone
    have hinstance := instantiate_of_alpha hsearch hwell hwritten hliteral hphone
    have hrealize : realize (Table.ofBases base) (rule.captures word index) word.slots[index].2
        (.pattern written) = word.slots[index].2 := by
      refine hbase.transform_eq_self (hregistered _ hmem) ?_ true
      refine (hcomplete _ hmem).get_transform (hbase.phones _ (hregistered _ hmem)) ?_
      exact fun entry hentry => hinstance entry (List.mem_of_mem_filter hentry)
    rw [block_eq rule _ word h, replaced_eq, hreplacement, hsearch, List.map_singleton, hrealize]
    simp [Word.marked]
  rw [transform, changeFrom_eq_append_drop hkind hblock, List.nil_append, List.drop_zero]

/-- A rule before the end of a word writes the place of the last phone back: a coronal keeps its
dependent, and another phone has none that is written. -/
theorem transform_writes_back_coronal :
    ∃ table, Table.ofText "SEGMENT\tCOR\tant\nt\t+\t-\nk\t-\t0\n" = .ok table ∧
      let place : Matrix := ⟨[⟨"ant", .alpha⟩, ⟨"COR", .alpha⟩]⟩
      let rule : Rule :=
        ⟨.simple, some (.pattern place), [], [.boundary .wordEnd], [.pattern place]⟩
      let coronal : Phone := ⟨"t", ⟨[⟨"COR", .plus⟩, ⟨"ant", .minus⟩]⟩⟩
      let dorsal : Phone := ⟨"k", ⟨[⟨"COR", .minus⟩]⟩⟩
      let word : Word := ⟨[(.plain, dorsal), (.syllable, coronal)]⟩
      (∀ phone ∈ word.phones, phone ∈ table.phones) ∧
      (∀ phone ∈ word.phones, phone.matrix.Complete table.classes) ∧
      rule.applies word 1 (rule.captures word 1) = true ∧ rule.transform table word = word := by
  let classes : MajorClasses := ⟨["COR"], [("COR", "ant")]⟩
  let coronal : Phone := ⟨"t", ⟨[⟨"COR", .plus⟩, ⟨"ant", .minus⟩]⟩⟩
  let dorsal : Phone := ⟨"k", ⟨[⟨"COR", .minus⟩]⟩⟩
  let base : BaseTable :=
    ⟨["COR", "ant"], classes, [("t", coronal.matrix), ("k", dorsal.matrix)]⟩
  have hsource : Table.ofText "SEGMENT\tCOR\tant\nt\t+\t-\nk\t-\t0\n" =
      .ok (Table.ofBases base) := by with_unfolding_all rfl
  have hphones : (Table.ofBases base).phones = [coronal, dorsal] := by with_unfolding_all rfl
  have hregistered : ∀ phone ∈ [dorsal, coronal], phone ∈ (Table.ofBases base).phones := by
    intro phone hphone
    rw [hphones]
    simpa [or_comm] using hphone
  have hmember {major dependent : String} (h : dependent ∈ classes.dependents major) :
      major = "COR" ∧ dependent = "ant" := by
    simpa [MajorClasses.mem_dependents_iff, classes] using h
  have hcomplete : ∀ phone ∈ [dorsal, coronal], phone.matrix.Complete classes := by
    intro phone hphone
    have hcases : phone = dorsal ∨ phone = coronal := by simpa using hphone
    rcases hcases with rfl | rfl
    all_goals
      constructor
      all_goals
        intro major dependent h
        obtain ⟨rfl, rfl⟩ := hmember h
        decide
  refine ⟨_, hsource, hregistered, hcomplete, by decide, ?_⟩
  exact transform_writes_back hsource rfl rfl rfl ⟨by decide, by decide⟩ (by decide) hregistered
    hcomplete

end Rule

end SoundLaw
