import SoundLaw.Rule
import SoundLaw.Value.Phonology

/-!
# What rules write

Every phone of a changed word stood in the word before, or a replacement of the rule made it: the
phone is written out, or it is looked up in the table under the features that the change asks for.
So whatever holds of the phones of a word and of all that the replacements make holds of the changed
word, however the rule drops and skips phones, and after any number of rules.

Looking up gives a registered phone, or an unknown one when no registered phone has the features
asked for. Words of such phones therefore stay words of such phones.
-/

namespace SoundLaw

namespace Rule

/-- What holds of a matched phone and of all that the replacements make of it holds of what is
written for it. -/
theorem forall_replaced {motive : Phone → Prop} {rule : Rule} {table : Table} {captures : Captures}
    {phone : Phone} (hphone : motive phone)
    (hmade : ∀ segment ∈ rule.replacement, motive (realize table captures phone segment))
    (marker : Marker) : ∀ slot ∈ rule.replaced table captures marker phone, motive slot.2 := by
  have hwritten : ∀ other ∈ rule.replacement.map (realize table captures phone), motive other :=
    List.forall_mem_map.mpr hmade
  have hphones : ∀ other ∈ (if rule.search.isNone then
      rule.replacement.map (realize table captures phone) ++ [phone]
      else rule.replacement.map (realize table captures phone)), motive other := by
    split
    · exact List.forall_mem_append.mpr ⟨hwritten, List.forall_mem_singleton.mpr hphone⟩
    · exact hwritten
  unfold replaced
  dsimp only
  split
  · exact fun _ hslot => absurd hslot List.not_mem_nil
  · next first rest heq =>
    rw [heq, List.forall_mem_cons] at hphones
    rw [List.forall_mem_cons]
    exact ⟨hphones.1, List.forall_mem_map.mpr hphones.2⟩

/-- What holds of a word, of what has been written and of all that the replacements make holds when
the word has been changed from an index on. -/
theorem forall_changeFrom {motive : Phone → Prop} {rule : Rule} {table : Table}
    (hmade : ∀ captures phone, motive phone → ∀ segment ∈ rule.replacement,
      motive (realize table captures phone segment))
    {word : Word} (hword : ∀ slot ∈ word.slots, motive slot.2) (index : Nat)
    {output : List (Marker × Phone)} (houtput : ∀ slot ∈ output, motive slot.2) :
    ∀ slot ∈ rule.changeFrom table word index output, motive slot.2 := by
  fun_induction changeFrom rule table word index output with
  | case1 index output hindex marker phone hslot captures happlies kept next ih =>
    have hphone : motive phone := by
      have hmem := hword _ (List.getElem_mem hindex)
      rw [hslot] at hmem
      exact hmem
    have hkept : ∀ slot ∈ kept, motive slot.2 := by
      intro slot hmem
      simp only [kept] at hmem
      split at hmem
      · exact houtput slot (List.dropLast_subset output hmem)
      · exact houtput slot hmem
    exact ih (List.forall_mem_append.mpr
      ⟨hkept, forall_replaced hphone (hmade captures phone hphone) marker⟩)
  | case2 index output hindex marker phone hslot captures happlies ih =>
    refine ih (List.forall_mem_append.mpr ⟨houtput, List.forall_mem_singleton.mpr ?_⟩)
    rw [← hslot]
    exact hword _ (List.getElem_mem hindex)
  | case3 index output hindex => exact houtput

/-- What holds of a word and of all that the replacements make holds of the changed word. -/
theorem forall_transform {motive : Phone → Prop} {rule : Rule} {table : Table}
    (hmade : ∀ captures phone, motive phone → ∀ segment ∈ rule.replacement,
      motive (realize table captures phone segment))
    {word : Word} (hword : ∀ slot ∈ word.slots, motive slot.2) :
    ∀ slot ∈ (rule.transform table word).slots, motive slot.2 :=
  forall_changeFrom hmade hword 0 fun _ hslot => absurd hslot List.not_mem_nil

end Rule

namespace Table

/-- A phone is settled in a table when it is a registered phone under the symbol it is registered
with, or an unknown phone whose features no registered phone has. -/
def Settled (table : Table) (phone : Phone) : Prop :=
  (∃ registered ∈ table.phones, registered.symbol = phone.symbol ∧
    ∀ name, registered.matrix.get name = phone.matrix.get name) ∨
  (phone.symbol = unknownSymbol ∧
    ∀ registered ∈ table.phones, registered.matrix.hasFeatures phone.matrix = false)

/-- A registered phone is settled. -/
theorem settled_of_mem {table : Table} {phone : Phone} (hphone : phone ∈ table.phones) :
    table.Settled phone :=
  Or.inl ⟨phone, hphone, rfl, fun _ => rfl⟩

/-- Looking up a matrix with a search gives a registered phone, or the unknown phone of a matrix
whose features no registered phone has. -/
theorem lookUp_cases (table : Table) (asked : Matrix) :
    table.lookUp asked true ∈ table.phones ∨
      (table.lookUp asked true = ⟨unknownSymbol, asked⟩ ∧
        ∀ registered ∈ table.phones, registered.matrix.hasFeatures asked = false) := by
  unfold lookUp
  split
  · next phone hget => exact Or.inl (List.mem_of_find?_eq_some hget)
  · rw [if_pos rfl]
    split
    · next phone hfuzzy => exact Or.inl (List.mem_of_find?_eq_some hfuzzy)
    · next hfuzzy =>
      refine Or.inr ⟨rfl, fun registered hregistered => ?_⟩
      exact Bool.eq_false_iff.mpr (List.find?_eq_none.mp hfuzzy registered hregistered)

/-- What is looked up with a search is settled. -/
theorem settled_lookUp (table : Table) (asked : Matrix) :
    table.Settled (table.lookUp asked true) := by
  rcases table.lookUp_cases asked with hregistered | ⟨hunknown, hnone⟩
  · exact settled_of_mem hregistered
  · rw [hunknown]
    exact Or.inr ⟨rfl, hnone⟩

/-- Where no phone is registered under the symbol of unknown phones, a settled phone with that
symbol is one whose features no registered phone has. -/
theorem Settled.hasFeatures_eq_false {table : Table} {phone : Phone} (hphone : table.Settled phone)
    (hsymbols : ∀ registered ∈ table.phones, registered.symbol ≠ unknownSymbol)
    (hunknown : phone.symbol = unknownSymbol) :
    ∀ registered ∈ table.phones, registered.matrix.hasFeatures phone.matrix = false := by
  rcases hphone with ⟨registered, hregistered, hsymbol, -⟩ | ⟨-, hnone⟩
  · exact absurd (hsymbol.trans hunknown) (hsymbols registered hregistered)
  · exact hnone

/-- The phones that a rule writes out are settled. -/
def SettlesRule (table : Table) (rule : Rule) : Prop :=
  ∀ literal, .literal literal ∈ rule.replacement → table.Settled literal

end Table

/-- What a replacement makes is settled when the phones that the rule writes out are. -/
theorem Rule.settled_realize {table : Table} {rule : Rule} (hrule : table.SettlesRule rule)
    (captures : Captures) (phone : Phone) {segment : Segment}
    (hsegment : segment ∈ rule.replacement) :
    table.Settled (realize table captures phone segment) := by
  cases segment with
  | literal literal => exact hrule literal hsegment
  | pattern pattern => exact table.settled_lookUp _

/-- Rules applied one after another keep the phones of a word settled. -/
theorem Rule.settled_foldl_transform {table : Table} {rules : List Rule}
    (hrules : ∀ rule ∈ rules, table.SettlesRule rule) {word : Word}
    (hword : ∀ slot ∈ word.slots, table.Settled slot.2) :
    ∀ slot ∈ (rules.foldl (fun word rule => rule.transform table word) word).slots,
      table.Settled slot.2 := by
  induction rules generalizing word with
  | nil => exact hword
  | cons rule rest ih =>
    rw [List.forall_mem_cons] at hrules
    refine ih hrules.2 (Rule.forall_transform ?_ hword)
    exact fun captures phone _ _ hsegment => settled_realize hrules.1 captures phone hsegment

namespace Value

/-- A vector of rules is applied rule by rule. -/
theorem applyRules_map_rule (table : Table) (w : Word) (rules : List Rule) :
    applyRules table w (rules.map rule) =
      .ok (rules.foldl (fun w r => r.transform table w) w) := by
  induction rules generalizing w with
  | nil => rfl
  | cons r rest ih => exact ih (r.transform table w)

/-- A word of settled phones that is changed by a vector of rules becomes a word of settled phones,
if the phones that the rules write out are settled. So an unknown phone stands only where no
registered phone has the features that were asked for, provided no phone is registered under the
symbol of unknown phones. -/
theorem transform_keeps_settled (table : Table) {rules : List Rule}
    (hrules : ∀ rule ∈ rules, ∀ literal, .literal literal ∈ rule.replacement →
      table.Settled literal)
    {w : Word} (hw : ∀ phone ∈ w.phones, table.Settled phone) :
    ∃ result, (word w).transform table (vector (rules.map rule)) = .ok (word result) ∧
      result = rules.foldl (fun w r => r.transform table w) w ∧
      (∀ phone ∈ result.phones, table.Settled phone) ∧
      ((∀ registered ∈ table.phones, registered.symbol ≠ Table.unknownSymbol) →
        ∀ phone ∈ result.phones, phone.symbol = Table.unknownSymbol →
          ∀ registered ∈ table.phones, registered.matrix.hasFeatures phone.matrix = false) := by
  have hsettled : ∀ phone ∈ (rules.foldl (fun w r => r.transform table w) w).phones,
      table.Settled phone :=
    List.forall_mem_map.mpr
      (Rule.settled_foldl_transform hrules (List.forall_mem_map.mp hw))
  refine ⟨_, ?_, rfl, hsettled, ?_⟩
  · rw [transform, applyRules_map_rule]
    rfl
  · exact fun hsymbols phone hphone => (hsettled phone hphone).hasFeatures_eq_false hsymbols

/-- A voiced stop that is nasalized becomes an unknown phone, as no registered phone is nasal. It
stays unknown when it is devoiced, and is found again as the voiceless stop when it loses its
nasality. -/
theorem transform_keeps_settled_nasal :
    let voiced : Phone := ⟨"b", ⟨[⟨"voice", .plus⟩, ⟨"nasal", .minus⟩]⟩⟩
    let voiceless : Phone := ⟨"p", ⟨[⟨"voice", .minus⟩, ⟨"nasal", .minus⟩]⟩⟩
    let table : Table := ⟨["voice", "nasal"], .empty, [], [voiced, voiceless], []⟩
    let become (name : String) (quality : Quality) : Rule :=
      ⟨.simple, some (.pattern .empty), [], [], [.pattern ⟨[⟨name, quality⟩]⟩]⟩
    let nasalize := become "nasal" .plus
    let devoice := become "voice" .minus
    (∀ phone ∈ Word.phones ⟨[(.plain, voiced)]⟩, table.Settled phone) ∧
      (∃ result, (word ⟨[(.plain, voiced)]⟩).transform table
          (vector ([nasalize, devoice].map rule)) = .ok (word result) ∧
        result.phones.map (·.symbol) = ["*"] ∧ ∀ phone ∈ result.phones, table.Settled phone) ∧
      ∃ result, (word ⟨[(.plain, voiced)]⟩).transform table
          (vector ([nasalize, devoice, become "nasal" .minus].map rule)) = .ok (word result) ∧
        result.phones.map (·.symbol) = ["p"] ∧ ∀ phone ∈ result.phones, table.Settled phone := by
  intro voiced voiceless table become nasalize devoice
  have hw : ∀ phone ∈ Word.phones ⟨[(.plain, voiced)]⟩, table.Settled phone :=
    List.forall_mem_singleton.mpr (Table.settled_of_mem List.mem_cons_self)
  -- None of the rules writes a phone out.
  have hrules (rules : List (String × Quality)) :
      ∀ rule ∈ rules.map fun change => become change.1 change.2,
        ∀ literal, .literal literal ∈ rule.replacement → table.Settled literal := by
    intro rule hrule literal hliteral
    obtain ⟨change, -, rfl⟩ := List.mem_map.mp hrule
    cases List.mem_singleton.mp hliteral
  obtain ⟨nasal, hnasal, hfold, hsettled, -⟩ :=
    transform_keeps_settled table (hrules [("nasal", .plus), ("voice", .minus)]) hw
  obtain ⟨oral, horal, hfold', hsettled', -⟩ :=
    transform_keeps_settled table
      (hrules [("nasal", .plus), ("voice", .minus), ("nasal", .minus)]) hw
  refine ⟨hw, ⟨nasal, hnasal, ?_, hsettled⟩, oral, horal, ?_, hsettled'⟩
  · rw [hfold]
    decide +kernel
  · rw [hfold']
    decide +kernel

/-- A row may be written under the symbol of unknown phones. Where a sonorant is registered under
it, an obstruent that is made sonorant becomes that phone, which has all the features that were
asked for. -/
theorem transform_finds_star :
    ¬ ∀ (source : String) (table : Table) (rules : List Rule) (w : Word),
      Table.ofText source = .ok table →
      (∀ rule ∈ rules, ∀ literal, .literal literal ∈ rule.replacement → table.Settled literal) →
      (∀ phone ∈ w.phones, table.Settled phone) →
      ∃ result, (word w).transform table (vector (rules.map rule)) = .ok (word result) ∧
        (∀ phone ∈ result.phones, table.Settled phone) ∧
        ∀ phone ∈ result.phones, phone.symbol = Table.unknownSymbol →
          ∀ registered ∈ table.phones, registered.matrix.hasFeatures phone.matrix = false := by
  let sonorant : Phone := ⟨"*", ⟨[⟨"son", .plus⟩]⟩⟩
  let obstruent : Phone := ⟨"t", ⟨[⟨"son", .minus⟩]⟩⟩
  let base : BaseTable := ⟨["son"], .empty, [("*", sonorant.matrix), ("t", obstruent.matrix)]⟩
  let change : Rule :=
    ⟨.simple, some (.literal obstruent), [], [], [.pattern ⟨[⟨"son", .plus⟩]⟩]⟩
  have hsource : Table.ofText "SEGMENT\tson\n*\t+\nt\t-\n" = .ok (.ofBases base) := by
    with_unfolding_all rfl
  have hphones : (Table.ofBases base).phones = [sonorant, obstruent] := by with_unfolding_all rfl
  have hchange : change.transform (.ofBases base) ⟨[(.plain, obstruent)]⟩ =
      ⟨[(.plain, sonorant)]⟩ := by with_unfolding_all rfl
  have hwrites : ∀ rule ∈ [change], ∀ literal, .literal literal ∈ rule.replacement →
      (Table.ofBases base).Settled literal := by
    intro rule hrule literal hliteral
    rw [List.mem_singleton.mp hrule] at hliteral
    cases List.mem_singleton.mp hliteral
  have hword : ∀ phone ∈ Word.phones ⟨[(.plain, obstruent)]⟩, (Table.ofBases base).Settled phone :=
    List.forall_mem_singleton.mpr (Table.settled_of_mem (by simp [hphones]))
  intro h
  obtain ⟨result, hresult, -, hnone⟩ := h _ _ [change] _ hsource hwrites hword
  have hchanged : change.transform (.ofBases base) ⟨[(.plain, obstruent)]⟩ = result :=
    word.inj (Except.ok.inj hresult)
  rw [hchange] at hchanged
  subst hchanged
  have hfound := hnone sonorant (List.mem_singleton_self _) rfl sonorant (by simp [hphones])
  exact absurd hfound (by decide)

end Value

end SoundLaw
