import SoundLaw.Proofs.Rule.Simultaneous

/-!
# What a change conserves

The boundaries of a word are the markers that stand before its phones. A change never makes a
boundary and never brings two of them out of order: what is written for a phone carries at most the
marker of that phone. A boundary is lost with a phone that is deleted, skipped or dropped, so a
simple rule that writes something for every phone keeps all of them.

The length of a word changed by a simple rule is a matter of counting: each match writes the
replacements, and takes its phone away if the rule has a search.
-/

namespace SoundLaw

namespace Word

/-- The boundaries of a word in order. -/
def boundaries (word : Word) : List Marker :=
  word.markers.filter (· ≠ .plain)

/-- The boundaries of slots written after one another. -/
theorem boundaries_append (slots others : List (Marker × Phone)) :
    boundaries ⟨slots ++ others⟩ = boundaries ⟨slots⟩ ++ boundaries ⟨others⟩ := by
  simp [boundaries, markers]

/-- Slots that are left out take their boundaries away, and nothing else happens to them. -/
theorem boundaries_sublist {slots others : List (Marker × Phone)} (h : slots.Sublist others) :
    (boundaries ⟨slots⟩).Sublist (boundaries ⟨others⟩) :=
  (h.map _).filter _

/-- The boundary before a group of phones is the one that its marker is. -/
theorem boundaries_marked (marker : Marker) {phones : List Phone} (h : phones ≠ [])
    (phone : Phone) : boundaries ⟨marked marker phones⟩ = boundaries ⟨[(marker, phone)]⟩ := by
  cases phones with
  | nil => exact absurd rfl h
  | cons first rest =>
    have hrest : boundaries ⟨rest.map fun phone => (Marker.plain, phone)⟩ = [] := by
      simp [boundaries, markers]
    calc boundaries ⟨(marker, first) :: rest.map fun phone => (Marker.plain, phone)⟩
      _ = boundaries ⟨[(marker, first)]⟩ ++
          boundaries ⟨rest.map fun phone => (Marker.plain, phone)⟩ :=
        boundaries_append [(marker, first)] _
      _ = boundaries ⟨[(marker, phone)]⟩ := by
        rw [hrest, List.append_nil]
        rfl

end Word

namespace Rule

/-- Whether a rule writes something for every phone that it applies to. -/
def Writes (rule : Rule) : Prop :=
  rule.search = none ∨ rule.replacement ≠ []

/-- The number of phones of a word that a rule applies to. -/
def matchCount (rule : Rule) (word : Word) : Nat :=
  (List.range word.length).countP fun index => rule.applies word index (rule.captures word index)

/-- The phones written for a matched one stand behind its marker. -/
theorem replaced_eq_marked (rule : Rule) (table : Table) (captures : Captures) (marker : Marker)
    (phone : Phone) :
    rule.replaced table captures marker phone =
      Word.marked marker (rule.replacement.map (realize table captures phone) ++
        if rule.search.isSome then [] else [phone]) := by
  rw [replaced_eq]
  cases rule.search with
  | some segment => simp
  | none => cases rule.replacement <;> simp [Word.marked]

/-- What is written for a matched phone carries the boundary before it, if it is anything. -/
theorem Writes.boundaries_replaced {rule : Rule} (hwrites : rule.Writes) (table : Table)
    (captures : Captures) (marker : Marker) (phone : Phone) :
    Word.boundaries ⟨rule.replaced table captures marker phone⟩ =
      Word.boundaries ⟨[(marker, phone)]⟩ := by
  rw [replaced_eq_marked]
  refine Word.boundaries_marked marker ?_ phone
  rcases hwrites with hsearch | hreplacement
  · simp [hsearch]
  · simp [hreplacement]

/-- What is written for a matched phone carries no boundary but the one before it. -/
theorem boundaries_replaced_sublist (rule : Rule) (table : Table) (captures : Captures)
    (marker : Marker) (phone : Phone) :
    (Word.boundaries ⟨rule.replaced table captures marker phone⟩).Sublist
      (Word.boundaries ⟨[(marker, phone)]⟩) := by
  by_cases hwrites : rule.Writes
  · have hsame := hwrites.boundaries_replaced table captures marker phone
    exact hsame ▸ List.Sublist.refl _
  · obtain ⟨hsearch, hreplacement⟩ := not_or.mp hwrites
    have hsome : rule.search.isSome := Option.isSome_iff_ne_none.mpr hsearch
    have hnothing : rule.replaced table captures marker phone = [] := by
      rw [replaced_eq, if_pos hsome, Decidable.not_not.mp hreplacement]
      rfl
    rw [hnothing]
    exact List.nil_sublist _

/-- The boundaries from an index on are those before the phone there and those behind it. -/
theorem boundaries_drop {word : Word} {index : Nat} (h : index < word.slots.length) :
    Word.boundaries ⟨word.slots.drop index⟩ =
      Word.boundaries ⟨[word.slots[index]]⟩ ++ Word.boundaries ⟨word.slots.drop (index + 1)⟩ := by
  rw [List.drop_eq_getElem_cons h]
  exact Word.boundaries_append [word.slots[index]] _

/-- A change of a word from an index on leaves, behind the boundaries of what was written before,
only boundaries of the phones that it met. -/
theorem boundaries_changeFrom_sublist (rule : Rule) (table : Table) (word : Word) (index : Nat)
    (output : List (Marker × Phone)) :
    (Word.boundaries ⟨rule.changeFrom table word index output⟩).Sublist
      (Word.boundaries ⟨output⟩ ++ Word.boundaries ⟨word.slots.drop index⟩) := by
  fun_induction changeFrom rule table word index output with
  | case1 index output hindex marker phone hslot captures happlies kept next ih =>
    have hkept : (Word.boundaries ⟨kept⟩).Sublist (Word.boundaries ⟨output⟩) := by
      refine Word.boundaries_sublist ?_
      simp only [kept]
      split
      · exact List.dropLast_sublist output
      · exact List.Sublist.refl output
    have hnext : (Word.boundaries ⟨word.slots.drop next⟩).Sublist
        (Word.boundaries ⟨word.slots.drop (index + 1)⟩) := by
      refine Word.boundaries_sublist (List.drop_sublist_drop_left _ ?_)
      simp only [next]
      split <;> omega
    rw [boundaries_drop hindex, hslot, ← List.append_assoc]
    rw [Word.boundaries_append] at ih
    refine ih.trans (List.Sublist.append (hkept.append ?_) hnext)
    exact boundaries_replaced_sublist rule table captures marker phone
  | case2 index output hindex marker phone hslot captures happlies ih =>
    rw [← hslot] at ih ⊢
    rwa [Word.boundaries_append, List.append_assoc, ← boundaries_drop hindex] at ih
  | case3 index output hindex => exact List.sublist_append_left _ _

/-- The block of a phone carries the boundary before it, if the rule writes anything. -/
theorem Writes.boundaries_block {rule : Rule} (hwrites : rule.Writes) (table : Table) {word : Word}
    {index : Nat} (h : index < word.slots.length) :
    Word.boundaries ⟨rule.block table word index⟩ = Word.boundaries ⟨[word.slots[index]]⟩ := by
  rw [block_eq rule table word h]
  split
  · exact hwrites.boundaries_replaced table _ _ _
  · rfl

/-- A simple rule that writes something for every phone leaves the boundaries from an index on as
they are. -/
theorem Writes.boundaries_changeFrom {rule : Rule} (hwrites : rule.Writes)
    (hkind : rule.kind = .simple) (table : Table) (word : Word) (index : Nat)
    (output : List (Marker × Phone)) :
    Word.boundaries ⟨rule.changeFrom table word index output⟩ =
      Word.boundaries ⟨output⟩ ++ Word.boundaries ⟨word.slots.drop index⟩ := by
  induction hleft : word.slots.length - index generalizing index output with
  | zero =>
    rw [changeFrom, dif_neg (by omega), List.drop_eq_nil_of_le (by omega)]
    exact (List.append_nil _).symm
  | succ left ih =>
    have hindex : index < word.slots.length := by omega
    rw [changeFrom_step hkind table word hindex, ih (index + 1) _ (by omega),
      Word.boundaries_append, hwrites.boundaries_block table hindex, List.append_assoc,
      ← boundaries_drop hindex]

/-- A block is as long as what is written for a match, and one phone long otherwise. -/
theorem length_block (rule : Rule) (table : Table) {word : Word} {index : Nat}
    (h : index < word.slots.length) :
    (rule.block table word index).length =
      if rule.applies word index (rule.captures word index) then
        rule.replacement.length + if rule.search.isSome then 0 else 1
      else 1 := by
  rw [block_eq rule table word h, replaced_eq_marked]
  split
  · cases rule.search <;> cases rule.replacement <;> simp [Word.marked]
  · rfl

/-- The blocks of some phones have a place for each phone that the rule does not apply to, and one
for each phone that it writes. -/
theorem length_flatMap_block (rule : Rule) (table : Table) (word : Word) {indices : List Nat}
    (h : ∀ index ∈ indices, index < word.slots.length) :
    let matched index := rule.applies word index (rule.captures word index)
    (indices.flatMap (rule.block table word)).length + indices.countP matched =
      indices.length + indices.countP matched *
        (rule.replacement.length + if rule.search.isSome then 0 else 1) := by
  intro matched
  induction indices with
  | nil => simp
  | cons index rest ih =>
    rw [List.forall_mem_cons] at h
    have hrest := ih h.2
    rw [List.flatMap_cons, List.length_append, List.length_cons, length_block rule table h.1]
    by_cases hmatched : matched index = true
    · rw [List.countP_cons_of_pos hmatched, if_pos hmatched, Nat.succ_mul]
      omega
    · rw [List.countP_cons_of_neg hmatched, if_neg hmatched]
      omega

/-- A rule conserves boundaries and accounts for the length of what it changes. Whatever the rule,
the boundaries of the changed word are among those of the word, in their order; a simple rule that
has no search or some replacement keeps them all. A simple rule writes its replacements for every
match, and takes the matched phone away if it has a search. -/
theorem transform_conserves (rule : Rule) (table : Table) (word : Word) :
    (rule.transform table word).boundaries.Sublist word.boundaries ∧
      (rule.kind = .simple →
        (rule.search = none ∨ rule.replacement ≠ [] →
          (rule.transform table word).boundaries = word.boundaries) ∧
        (rule.search.isSome →
          (rule.transform table word).length + rule.matchCount word =
            word.length + rule.matchCount word * rule.replacement.length) ∧
        (rule.search = none →
          (rule.transform table word).length =
            word.length + rule.matchCount word * rule.replacement.length)) := by
  refine ⟨rule.boundaries_changeFrom_sublist table word 0 [], fun hkind => ⟨?_, ?_⟩⟩
  · exact fun hwrites => Writes.boundaries_changeFrom hwrites hkind table word 0 []
  · have hblocks : (rule.transform table word).slots =
        (List.range word.length).flatMap (rule.block table word) := by
      rw [transform, changeFrom_eq_flatMap hkind, List.range_eq_range']
      rfl
    have hlength : (rule.transform table word).length + rule.matchCount word =
        word.length + rule.matchCount word *
          (rule.replacement.length + if rule.search.isSome then 0 else 1) := by
      have hinside : ∀ index ∈ List.range word.length, index < word.slots.length :=
        fun index => List.mem_range.mp
      have hcount := rule.length_flatMap_block table word hinside
      rwa [← hblocks, List.length_range] at hcount
    refine ⟨fun hsome => ?_, fun hnone => ?_⟩
    · rwa [if_pos hsome] at hlength
    · rw [hnone] at hlength
      simp only [Option.isSome_none, Bool.false_eq_true, if_false, Nat.mul_succ] at hlength
      omega

/-- Every vowel is written as a vowel and a stop. A simple rule lengthens the word by one phone for
each vowel and keeps both boundaries; one that skips the next phone loses the boundary before it. -/
theorem transform_conserves_breaking :
    let stop : Phone := ⟨"b", ⟨[⟨"syl", .minus⟩]⟩⟩
    let vowel : Phone := ⟨"a", ⟨[⟨"syl", .plus⟩]⟩⟩
    let table : Table := ⟨["syl"], .empty, [], [stop, vowel], []⟩
    let word : Word := ⟨[(.plain, stop), (.syllable, vowel), (.morpheme, vowel)]⟩
    let breaking (kind : RuleKind) : Rule :=
      ⟨kind, some (.literal vowel), [], [], [.literal vowel, .literal stop]⟩
    ((breaking .simple).transform table word).boundaries = [.syllable, .morpheme] ∧
      ((breaking .simple).transform table word).length = 5 ∧
      ((breaking .assimilateForward).transform table word).boundaries = [.syllable] ∧
      [Marker.syllable].Sublist [.syllable, .morpheme] := by
  intro stop vowel table word breaking
  have hboundaries : word.boundaries = [.syllable, .morpheme] := rfl
  have hcount : (breaking .simple).matchCount word = 2 := by decide
  obtain ⟨-, hsimple⟩ := transform_conserves (breaking .simple) table word
  obtain ⟨hkept, hlength, -⟩ := hsimple rfl
  obtain ⟨hsublist, -⟩ := transform_conserves (breaking .assimilateForward) table word
  have hlost : ((breaking .assimilateForward).transform table word).boundaries = [.syllable] := by
    decide +kernel
  rw [hlost, hboundaries] at hsublist
  refine ⟨(hkept (Or.inr (List.cons_ne_nil _ _))).trans hboundaries, ?_, hlost, hsublist⟩
  have hlength := hlength rfl
  rw [hcount] at hlength
  exact Nat.add_right_cancel (hlength.trans rfl)

end Rule

end SoundLaw
