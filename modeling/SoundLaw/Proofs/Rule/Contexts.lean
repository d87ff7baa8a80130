import SoundLaw.Proofs.Word.Slots
import SoundLaw.Rule

/-!
# What the context of a rule says

A context is looked at by walking away from the matched phone: on the left from the last entry to
the first, on the right from the first to the last. Only segments move the walk on. So every entry
has a gap of its own, which is as far from the matched phone as there are segments between them, and
a rule applies exactly when its search matches and every entry holds at its own gap, however
segments and boundaries are mixed. A walk never leaves the word: what would stand outside does not
hold.
-/

namespace SoundLaw

/-- A segment matches a phone: a literal has the same matrix, and of a pattern, with the captured
values in place of its variables, the phone has all features. -/
def Segment.Matches (captures : Captures) (phone : Phone) : Segment → Prop
  | literal other => (other.matrix == phone.matrix) = true
  | pattern matrix => phone.matrix.hasFeatures (captures.instantiate matrix) = true

/-- The segments that fit a phone are those that match it. -/
theorem Captures.fits_iff_matches (captures : Captures) (phone : Phone) (segment : Segment) :
    captures.fits phone segment = true ↔ segment.Matches captures phone := by
  cases segment <;> exact Iff.rfl

namespace ContextEntry

/-- Whether an entry is a segment. -/
def isSegment : ContextEntry → Bool
  | segment _ => true
  | boundary _ => false

/-- The number of segments in a context. -/
def segmentCount (entries : List ContextEntry) : Nat :=
  entries.countP isSegment

@[simp]
theorem segmentCount_nil : segmentCount [] = 0 := rfl

@[simp]
theorem segmentCount_boundary (b : Boundary) (rest : List ContextEntry) :
    segmentCount (boundary b :: rest) = segmentCount rest :=
  List.countP_cons_of_neg Bool.false_ne_true

@[simp]
theorem segmentCount_segment (s : Segment) (rest : List ContextEntry) :
    segmentCount (segment s :: rest) = segmentCount rest + 1 :=
  List.countP_cons_of_pos rfl

@[simp]
theorem segmentCount_reverse (entries : List ContextEntry) :
    segmentCount entries.reverse = segmentCount entries :=
  List.countP_reverse

/-- An entry of a left context holds at a gap: a boundary holds there, and a segment matches the
phone before it. -/
def StandsBefore (captures : Captures) (word : Word) (gap : Nat) : ContextEntry → Prop
  | boundary b => b.holdsAt word gap = true
  | segment s => 1 ≤ gap ∧ ∃ phone, word.phone? (gap - 1) = some phone ∧ s.Matches captures phone

/-- An entry of a right context holds at a gap: a boundary holds there, and a segment matches the
phone behind it. -/
def StandsAfter (captures : Captures) (word : Word) (gap : Nat) : ContextEntry → Prop
  | boundary b => b.holdsAt word gap = true
  | segment s =>
    gap < word.length ∧ ∃ phone, word.phone? gap = some phone ∧ s.Matches captures phone

/-- To say something of every entry of a list and of those before it is to say it of the first entry
and of every entry behind that. -/
theorem forall_split_cons {P : List ContextEntry → ContextEntry → Prop} {first : ContextEntry}
    {rest : List ContextEntry} :
    (∀ before entry after, first :: rest = before ++ entry :: after → P before entry) ↔
      P [] first ∧
        ∀ before entry after, rest = before ++ entry :: after → P (first :: before) entry := by
  constructor
  · intro h
    refine ⟨h [] first rest rfl, fun before entry after hrest => ?_⟩
    exact h (first :: before) entry after (by rw [hrest, List.cons_append])
  · rintro ⟨hfirst, hrest⟩ before entry after heq
    cases before with
    | nil =>
      cases heq
      exact hfirst
    | cons _ before =>
      cases heq
      exact hrest before entry after rfl

end ContextEntry

namespace Rule

open ContextEntry

variable {captures : Captures} {word : Word}

/-- A left context, nearest entry first, holds before a gap exactly when every entry holds at the
gap that is as many phones further back as there are segments nearer than it. -/
theorem holdsBefore_iff {gap : Nat} {entries : List ContextEntry} :
    holdsBefore captures word gap entries = true ↔
      ∀ nearer entry further, entries = nearer ++ entry :: further →
        entry.StandsBefore captures word (gap - segmentCount nearer) := by
  induction entries generalizing gap with
  | nil => simp [holdsBefore]
  | cons first rest ih =>
    rw [forall_split_cons (P := fun nearer entry =>
      entry.StandsBefore captures word (gap - segmentCount nearer))]
    cases first with
    | boundary b => simp [holdsBefore, StandsBefore, ih]
    | segment s =>
      cases gap with
      | zero => simp [holdsBefore, StandsBefore]
      | succ gap =>
        -- The phone before the gap is the one that the segment has to match.
        cases hphone : word.phone? gap with
        | none => simp [holdsBefore, StandsBefore, hphone]
        | some phone =>
          simp [holdsBefore, StandsBefore, hphone, ih, captures.fits_iff_matches]

/-- A right context holds after a gap exactly when every entry holds at the gap that is as many
phones further on as there are segments before it. -/
theorem holdsAfter_iff {gap : Nat} {entries : List ContextEntry} :
    holdsAfter captures word gap entries = true ↔
      ∀ before entry after, entries = before ++ entry :: after →
        entry.StandsAfter captures word (gap + segmentCount before) := by
  induction entries generalizing gap with
  | nil => simp [holdsAfter]
  | cons first rest ih =>
    rw [forall_split_cons (P := fun before entry =>
      entry.StandsAfter captures word (gap + segmentCount before))]
    cases first with
    | boundary b => simp [holdsAfter, StandsAfter, ih]
    | segment s =>
      have hnext (before : List ContextEntry) :
          gap + (segmentCount before + 1) = gap + 1 + segmentCount before := by omega
      cases hphone : word.phone? gap with
      | none => simp [holdsAfter, StandsAfter, hphone]
      | some phone =>
        have hgap := Word.lt_length_of_phone? hphone
        simp [holdsAfter, StandsAfter, hphone, hgap, hnext, ih, captures.fits_iff_matches]

/-- There are as many phones before a gap as a left context that holds there has segments. -/
theorem segmentCount_le_of_holdsBefore {gap : Nat} {entries : List ContextEntry}
    (h : holdsBefore captures word gap entries = true) : segmentCount entries ≤ gap := by
  fun_induction holdsBefore captures word gap entries with
  | case1 => exact Nat.zero_le _
  | case2 gap b rest ih =>
    rw [segmentCount_boundary]
    exact ih (Bool.and_eq_true_iff.mp h).2
  | case4 gap s rest phone hphone ih =>
    rw [segmentCount_segment]
    exact Nat.succ_le_succ (ih (Bool.and_eq_true_iff.mp h).2)
  | case3 | case5 => cases h

/-- There are as many phones behind a gap as a right context that holds there has segments. -/
theorem segmentCount_le_of_holdsAfter {gap : Nat} {entries : List ContextEntry}
    (h : holdsAfter captures word gap entries = true) (hgap : gap ≤ word.length) :
    gap + segmentCount entries ≤ word.length := by
  fun_induction holdsAfter captures word gap entries with
  | case1 => exact hgap
  | case2 gap b rest ih =>
    rw [segmentCount_boundary]
    exact ih (Bool.and_eq_true_iff.mp h).2 hgap
  | case3 gap s rest phone hphone ih =>
    have hrest := ih (Bool.and_eq_true_iff.mp h).2 (Word.lt_length_of_phone? hphone)
    rw [segmentCount_segment]
    omega
  | case4 => cases h

/-- The left context of a rule, in the order of writing, holds before a gap exactly when every entry
holds at the gap that is as many phones further back as there are segments to its right. -/
theorem holdsBefore_reverse_iff {gap : Nat} {entries : List ContextEntry} :
    holdsBefore captures word gap entries.reverse = true ↔
      ∀ before entry after, entries = before ++ entry :: after →
        entry.StandsBefore captures word (gap - segmentCount after) := by
  rw [holdsBefore_iff]
  constructor
  · intro h before entry after heq
    have hstands := h after.reverse entry before.reverse (by simp [heq])
    rwa [segmentCount_reverse] at hstands
  · intro h nearer entry further heq
    have hstands := h further.reverse entry nearer.reverse
      (by rw [List.reverse_eq_iff] at heq; simp [heq])
    rwa [segmentCount_reverse] at hstands

/-- A rule applies to a phone when its search matches and its contexts hold on both sides. -/
theorem applies_iff {rule : Rule} {index : Nat} {current : Phone}
    (hcurrent : word.phone? index = some current) :
    rule.applies word index captures = true ↔
      (∀ search ∈ rule.search, ∃ phone, word.phone? index = some phone ∧
        search.Matches captures phone) ∧
      holdsBefore captures word index rule.left.reverse = true ∧
      holdsAfter captures word (rule.afterFocus index) rule.right = true := by
  cases hsearch : rule.search with
  | none => simp [applies, hcurrent, hsearch]
  | some search =>
    simp [applies, hcurrent, hsearch, captures.fits_iff_matches, and_assoc]

/-- A rule applies to a phone exactly when its search, if it has one, matches the phone, every entry
of its left context holds at the gap before the phone less the segments to the right of the entry,
and every entry of its right context holds at the gap behind the phone, or before it if nothing is
searched, plus the segments to the left of the entry. All these gaps are then inside the word. -/
theorem applies_iff_entries (rule : Rule) {word : Word} {index : Nat} (h : index < word.length)
    (captures : Captures) :
    (rule.applies word index captures = true ↔
      (∀ search ∈ rule.search, ∃ phone, word.phone? index = some phone ∧
        search.Matches captures phone) ∧
      (∀ before entry after, rule.left = before ++ entry :: after →
        entry.StandsBefore captures word (index - segmentCount after)) ∧
      ∀ before entry after, rule.right = before ++ entry :: after →
        entry.StandsAfter captures word
          ((if rule.search.isSome then index + 1 else index) + segmentCount before)) ∧
    (rule.applies word index captures = true →
      segmentCount rule.left ≤ index ∧
        (if rule.search.isSome then index + 1 else index) + segmentCount rule.right ≤
          word.length) := by
  have hcurrent := Word.phone?_eq_some h
  have hafter : rule.afterFocus index ≤ word.length := by
    unfold afterFocus
    split <;> omega
  rw [applies_iff hcurrent]
  refine ⟨?_, fun ⟨_, hleft, hright⟩ => ⟨?_, segmentCount_le_of_holdsAfter hright hafter⟩⟩
  · rw [holdsBefore_reverse_iff, holdsAfter_iff]
    rfl
  · rw [← segmentCount_reverse]
    exact segmentCount_le_of_holdsBefore hleft

/-- The rule that inserts a phone between a `b` at the start and a `p` at the end of a word applies
to the second phone of `bp`: the entries on its left hold at the gaps 0 and 1, those on its right at
the gaps 1 and 2. -/
theorem applies_iff_entries_insertion :
    let b : Phone := ⟨"b", ⟨[⟨"voice", .plus⟩]⟩⟩
    let p : Phone := ⟨"p", ⟨[⟨"voice", .minus⟩]⟩⟩
    let word : Word := .ofPhones [b, p]
    let rule : Rule := ⟨.simple, none, [.boundary .wordStart, .segment (.literal b)],
      [.segment (.pattern p.matrix), .boundary .wordEnd], [.literal p]⟩
    let captures := rule.captures word 1
    rule.applies word 1 captures = true ∧
      (ContextEntry.boundary .wordStart).StandsBefore captures word 0 ∧
      (ContextEntry.segment (.literal b)).StandsBefore captures word 1 ∧
      (ContextEntry.segment (.pattern p.matrix)).StandsAfter captures word 1 ∧
      (ContextEntry.boundary .wordEnd).StandsAfter captures word 2 := by
  intro b p word rule captures
  have happlies : rule.applies word 1 captures = true := by decide
  have hindex : 1 < word.length := by decide
  obtain ⟨-, hleft, hright⟩ := (applies_iff_entries rule hindex captures).1.mp happlies
  refine ⟨happlies, ?_, ?_, ?_, ?_⟩
  · exact hleft [] _ [.segment (.literal b)] rfl
  · exact hleft [.boundary .wordStart] _ [] rfl
  · exact hright [] _ [.boundary .wordEnd] rfl
  · exact hright [.segment (.pattern p.matrix)] _ [] rfl

end Rule

end SoundLaw
