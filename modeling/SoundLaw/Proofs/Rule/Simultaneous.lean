import SoundLaw.Proofs.Word.Slots
import SoundLaw.Rule

/-!
# Simultaneous change

A simple rule writes a block for every phone of a word, and the changed word is the blocks one
after another. What a block holds is decided by the word as it was: no condition is tested on, and
no value is taken from, a phone that the rule has written.
-/

namespace SoundLaw

namespace Rule

/-- What a simple rule writes for the phone at an index of a word. A phone that the rule does not
apply to is kept as it is. Otherwise the replacements are written, the first behind the marker of
the phone, and after them the phone itself if the rule has no search. -/
def block (rule : Rule) (table : Table) (word : Word) (index : Nat) : List (Marker × Phone) :=
  match word.phone? index with
  | none => []
  | some phone =>
    let captures := rule.captures word index
    if rule.applies word index captures then
      Word.marked (word.marker index) (rule.replacement.map (realize table captures phone)) ++
        if rule.search.isSome then []
        else [(if rule.replacement.isEmpty then word.marker index else .plain, phone)]
    else [(word.marker index, phone)]

/-- What is written for a matched phone are the replacements and, without a search, the phone. -/
theorem replaced_eq (rule : Rule) (table : Table) (captures : Captures) (marker : Marker)
    (phone : Phone) :
    rule.replaced table captures marker phone =
      Word.marked marker (rule.replacement.map (realize table captures phone)) ++
        if rule.search.isSome then []
        else [(if rule.replacement.isEmpty then marker else .plain, phone)] := by
  unfold replaced
  cases hsearch : rule.search with
  | some segment => cases hwritten : rule.replacement <;> simp [Word.marked]
  | none => cases hwritten : rule.replacement <;> simp [Word.marked]

/-- The block of a phone is what one step of a simple rule writes. -/
theorem block_eq (rule : Rule) (table : Table) (word : Word) {index : Nat}
    (h : index < word.slots.length) :
    rule.block table word index =
      if rule.applies word index (rule.captures word index) then
        rule.replaced table (rule.captures word index) word.slots[index].1 word.slots[index].2
      else [word.slots[index]] := by
  simp only [block, Word.phone?_eq_some h, Word.marker_eq h, replaced_eq]

/-- One step of a simple rule writes the block of a phone and goes on with the next phone. -/
theorem changeFrom_step {rule : Rule} (hkind : rule.kind = .simple) (table : Table) (word : Word)
    {index : Nat} (h : index < word.slots.length) (output : List (Marker × Phone)) :
    rule.changeFrom table word index output =
      rule.changeFrom table word (index + 1) (output ++ rule.block table word index) := by
  rw [changeFrom, dif_pos h, block_eq rule table word h]
  simp only [hkind, reduceCtorEq, if_false]
  split <;> rfl

/-- From an index on, a simple rule writes the blocks of the phones that are left. -/
theorem changeFrom_eq_flatMap {rule : Rule} (hkind : rule.kind = .simple) (table : Table)
    (word : Word) (index : Nat) (output : List (Marker × Phone)) :
    rule.changeFrom table word index output =
      output ++ (List.range' index (word.slots.length - index)).flatMap
        (rule.block table word) := by
  induction hleft : word.slots.length - index generalizing index output with
  | zero =>
    rw [changeFrom, dif_neg (by omega)]
    simp
  | succ left ih =>
    rw [changeFrom_step hkind table word (by omega), ih (index + 1) _ (by omega), List.range'_succ,
      List.flatMap_cons, List.append_assoc]

/-- A simple rule changes all phones of a word at once: the changed word is the blocks of its
phones in order, each decided by the word as it was. -/
theorem transform_eq_flatMap_block {rule : Rule} (hkind : rule.kind = .simple) (table : Table)
    (word : Word) :
    (rule.transform table word).slots =
      (List.range word.length).flatMap (rule.block table word) := by
  rw [transform, changeFrom_eq_flatMap hkind, List.range_eq_range']
  rfl

/-- Devoicing after a voiced phone changes the last two of three voiced phones: the last one still
stands after a voiced phone, although that phone is written as a voiceless one. -/
theorem transform_eq_flatMap_block_devoicing :
    let voiced : Phone := ⟨"b", ⟨[⟨"voice", .plus⟩]⟩⟩
    let voiceless : Phone := ⟨"p", ⟨[⟨"voice", .minus⟩]⟩⟩
    let rule : Rule := ⟨.simple, some (.pattern voiced.matrix),
      [.segment (.pattern voiced.matrix)], [], [.pattern voiceless.matrix]⟩
    let table : Table := ⟨["voice"], .empty, [], [voiced, voiceless], []⟩
    rule.kind = .simple ∧
      (rule.transform table ⟨[(.plain, voiced), (.syllable, voiced), (.plain, voiced)]⟩).slots =
        [(.plain, voiced), (.syllable, voiceless), (.plain, voiceless)] := by
  refine ⟨rfl, (transform_eq_flatMap_block rfl _ _).trans ?_⟩
  rfl

end Rule

end SoundLaw
