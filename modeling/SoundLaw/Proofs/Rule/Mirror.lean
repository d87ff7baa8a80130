import SoundLaw.Proofs.Rule.Captures
import SoundLaw.Proofs.Rule.Simultaneous

/-!
# Rules and their mirror images

The mirror image of a rule reads words from the other end: its contexts change sides, its
replacements are written from the last to the first, the start and the end of the word change
places, and so do the variables for the phone before and the phone after.

A simple rule that replaces phones treats both directions alike: changing a word and reversing it
is the same as reversing it and changing it by the mirror image. The word must be free of
variables, because a phone with a variable of its own could be taken for one side of a pattern.
-/

namespace SoundLaw

namespace Quality

/-- The quality with the phone before and the phone after exchanged. -/
def mirror : Quality → Quality
  | beta => gamma
  | gamma => beta
  | other => other

/-- Two mirror images undo each other. -/
theorem mirror_mirror (q : Quality) : q.mirror.mirror = q := by
  cases q <;> rfl

/-- The mirror image of a variable is a variable. -/
theorem isVariable_mirror (q : Quality) : q.mirror.isVariable = q.isVariable := by
  cases q <;> rfl

/-- What is no variable is its own mirror image. -/
theorem mirror_of_not_variable {q : Quality} (h : q.isVariable = false) : q.mirror = q := by
  cases q with
  | beta => cases h
  | gamma => cases h
  | _ => rfl

/-- Qualities are told apart by their mirror images. -/
theorem mirror_beq_mirror (q r : Quality) : (q.mirror == r.mirror) = (q == r) := by
  cases q <;> cases r <;> rfl

/-- What is no variable equals a quality exactly when it equals the mirror image. -/
theorem beq_mirror {q : Quality} (h : q.isVariable = false) (r : Quality) :
    (q == r.mirror) = (q == r) := by
  rw [← mirror_beq_mirror q r, mirror_of_not_variable h]

end Quality

/-- The feature with the phone before and the phone after exchanged. -/
def Feature.mirror (f : Feature) : Feature :=
  ⟨f.name, f.quality.mirror⟩

namespace Matrix

/-- The matrix with the phone before and the phone after exchanged. -/
def mirror (m : Matrix) : Matrix :=
  ⟨m.entries.map Feature.mirror⟩

/-- The mirror image of a well-formed matrix is well-formed. -/
theorem WellFormed.mirror {m : Matrix} (hm : m.WellFormed) : m.mirror.WellFormed := by
  refine ⟨?_, ?_⟩
  · have hnames : m.mirror.entries.map (·.name) = m.entries.map (·.name) := by
      rw [Matrix.mirror, List.map_map]
      rfl
    rw [hnames]
    exact hm.distinct
  · intro entry hentry
    obtain ⟨original, horiginal, rfl⟩ := List.mem_map.mp hentry
    intro hunset
    have himage : original.quality.mirror.mirror = Quality.unset.mirror :=
      congrArg Quality.mirror hunset
    rw [Quality.mirror_mirror] at himage
    exact hm.specified original horiginal himage

/-- A matrix marks a feature with a variable exactly when its mirror image marks it with the
mirror image. -/
theorem marks_mirror (m : Matrix) (pattern : Quality) (name : String) :
    m.mirror.marks pattern.mirror name = m.marks pattern name := by
  simp only [marks, mirror, List.any_map, Function.comp_def, Feature.mirror,
    Quality.mirror_beq_mirror]

/-- A matrix without variables does not tell a pattern from its mirror image. -/
theorem hasFeatures_mirror {m : Matrix} (hm : m.hasVariables = false) (pattern : Matrix) :
    m.hasFeatures pattern.mirror = m.hasFeatures pattern := by
  have hany (entry : Feature) : (entry.mirror.quality != .any) = (entry.quality != .any) :=
    congrArg not (Quality.mirror_beq_mirror entry.quality .any)
  have hget (entry : Feature) : (m.get entry.mirror.name == entry.mirror.quality) =
      (m.get entry.name == entry.quality) :=
    Quality.beq_mirror (isVariable_get hm entry.name) entry.quality
  simp only [hasFeatures, mirror, List.filter_map, List.all_map, Function.comp_def, hany, hget]

/-- A matrix and its mirror image differ in their variables only. -/
theorem withoutVariables_mirror (m : Matrix) : m.mirror.withoutVariables = m.withoutVariables := by
  have hvariable (entry : Feature) : (!entry.mirror.quality.isVariable) =
      !entry.quality.isVariable :=
    congrArg not (Quality.isVariable_mirror entry.quality)
  simp only [withoutVariables, mirror, List.filter_map, Function.comp_def, hvariable]
  congr 1
  rw [List.map_congr_left (g := id), List.map_id]
  intro entry hentry
  have hplain : entry.quality.isVariable = false := by
    simpa using (List.mem_filter.mp hentry).2
  rw [Feature.mirror, Quality.mirror_of_not_variable hplain]
  rfl

end Matrix

namespace Captures

/-- Whether captures are the mirror image of others: the values of the two sides are exchanged. -/
def Mirrors (captures mirrored : Captures) : Prop :=
  ∀ pattern name, mirrored.value? pattern.mirror name = captures.value? pattern name

/-- The mirror image of captures without variables has no variables. -/
theorem Mirrors.closed {captures mirrored : Captures} (hmirror : captures.Mirrors mirrored)
    (hclosed : captures.Closed) : mirrored.Closed := by
  intro pattern name value hvalue
  rw [← pattern.mirror_mirror, hmirror] at hvalue
  exact hclosed _ _ _ hvalue

/-- What becomes of the mirror image of an entry is the mirror image of what becomes of it. -/
theorem Mirrors.settle {captures mirrored : Captures} (hmirror : captures.Mirrors mirrored)
    (hclosed : captures.Closed) (entry : Feature) :
    mirrored.settle entry.mirror = (captures.settle entry).map Feature.mirror := by
  have hvalue : mirrored.value? entry.mirror.quality entry.mirror.name =
      captures.value? entry.quality entry.name := hmirror entry.quality entry.name
  unfold Captures.settle
  rw [hvalue]
  split
  · next value hfound =>
    have hplain := hclosed _ _ value hfound
    unfold Feature.written
    split
    · rfl
    · change some (⟨entry.name, value⟩ : Feature) = some ⟨entry.name, value.mirror⟩
      rw [Quality.mirror_of_not_variable hplain]
  · rfl

/-- The instance of the mirror image of a pattern is the mirror image of its instance. -/
theorem Mirrors.instantiate {captures mirrored : Captures} (hmirror : captures.Mirrors mirrored)
    (hclosed : captures.Closed) {pattern : Matrix} (hpattern : pattern.WellFormed) :
    mirrored.instantiate pattern.mirror = (captures.instantiate pattern).mirror := by
  have hentries : (mirrored.instantiate pattern.mirror).entries =
      (captures.instantiate pattern).entries.map Feature.mirror := by
    rw [(hmirror.closed hclosed).instantiate_entries hpattern.mirror,
      hclosed.instantiate_entries hpattern, Matrix.mirror, List.filterMap_map,
      List.map_filterMap]
    exact List.filterMap_congr fun entry _ => hmirror.settle hclosed entry
  exact congrArg Matrix.mk hentries

end Captures

/-- The boundary with the start and the end of the word exchanged. -/
def Boundary.mirror : Boundary → Boundary
  | wordStart => wordEnd
  | wordEnd => wordStart
  | other => other

/-- A boundary holds at a gap exactly when its mirror image holds at the gap of the reversed
word. -/
theorem Boundary.holdsAt_mirror (boundary : Boundary) {word : Word} {gap : Nat}
    (h : gap ≤ word.length) :
    boundary.mirror.holdsAt word.reverse (word.length - gap) = boundary.holdsAt word gap := by
  have hstart : (word.length - gap == 0) = (gap == word.length) := by
    rw [Bool.eq_iff_iff, beq_iff_eq, beq_iff_eq]
    omega
  have hend : (word.length - gap == word.length) = (gap == 0) := by
    rw [Bool.eq_iff_iff, beq_iff_eq, beq_iff_eq]
    omega
  by_cases hinside : 0 < gap ∧ gap < word.length
  · have hmarker : word.reverse.marker (word.length - gap) = word.marker gap := by
      rw [Word.marker_reverse_of_pos (by omega) (by omega)]
      congr 1
      omega
    cases boundary <;>
      simp only [mirror, holdsAt, Word.length_reverse, hstart, hend, hmarker, Bool.or_comm]
  · -- At the ends of the word the markers are not looked at.
    have hedge : (gap == 0 || gap == word.length) = true := by
      simp only [Bool.or_eq_true, beq_iff_eq]
      omega
    cases boundary <;>
      simp only [mirror, holdsAt, Word.length_reverse, hstart, hend, hedge, Bool.or_comm,
        Bool.true_or]

namespace Segment

/-- The segment with the phone before and the phone after exchanged in its pattern. -/
def mirror : Segment → Segment
  | pattern matrix => pattern matrix.mirror
  | literal phone => literal phone

/-- The pattern of the segment, if it is one, is well-formed. -/
def WellFormed : Segment → Prop
  | pattern matrix => matrix.WellFormed
  | literal _ => True

end Segment

namespace ContextEntry

/-- The mirror image of an element of a context. -/
def mirror : ContextEntry → ContextEntry
  | segment s => segment s.mirror
  | boundary b => boundary b.mirror

/-- The pattern of the element, if it is one, is well-formed. -/
def WellFormed : ContextEntry → Prop
  | segment s => s.WellFormed
  | boundary _ => True

/-- The patterns of the mirror image of a context are the mirror images of its patterns. -/
theorem filterMap_pattern?_mirror (entries : List ContextEntry) :
    (entries.map mirror).filterMap pattern? = (entries.filterMap pattern?).map Matrix.mirror := by
  rw [List.filterMap_map, List.map_filterMap]
  refine List.filterMap_congr fun entry _ => ?_
  cases entry with
  | boundary => rfl
  | segment s => cases s <;> rfl

/-- A variable is marked in a context exactly when its mirror image is marked in the mirror
image. -/
theorem any_marks_mirror (entries : List ContextEntry) (pattern : Quality) (name : String) :
    (((entries.map mirror).reverse).filterMap pattern?).any (·.marks pattern.mirror name) =
      (entries.filterMap pattern?).any (·.marks pattern name) := by
  rw [List.filterMap_reverse, List.any_reverse, filterMap_pattern?_mirror, List.any_map]
  simp only [Function.comp_def, Matrix.marks_mirror]

end ContextEntry

namespace Captures

/-- A segment fits a phone without variables exactly when its mirror image does. -/
theorem Mirrors.fits {captures mirrored : Captures} (hmirror : captures.Mirrors mirrored)
    (hclosed : captures.Closed) {phone : Phone} (hphone : phone.matrix.hasVariables = false)
    {segment : Segment} (hsegment : segment.WellFormed) :
    mirrored.fits phone segment.mirror = captures.fits phone segment := by
  cases segment with
  | literal literal => rfl
  | pattern pattern =>
    have hinstance := hmirror.instantiate hclosed (show pattern.WellFormed from hsegment)
    rw [Segment.mirror, Captures.fits, Captures.fits, hinstance, Matrix.hasFeatures_mirror hphone]

/-- A replacement makes the same phone as its mirror image. -/
theorem Mirrors.realize {captures mirrored : Captures} (hmirror : captures.Mirrors mirrored)
    (hclosed : captures.Closed) (table : Table) (phone : Phone) {segment : Segment}
    (hsegment : segment.WellFormed) :
    Rule.realize table mirrored phone segment.mirror =
      Rule.realize table captures phone segment := by
  cases segment with
  | literal literal => rfl
  | pattern pattern =>
    have hinstance := hmirror.instantiate hclosed (show pattern.WellFormed from hsegment)
    rw [Segment.mirror, Rule.realize, Rule.realize, hinstance, Matrix.withoutVariables_mirror]

end Captures

namespace Rule

/-- The rule that reads words from the other end. -/
def mirror (rule : Rule) : Rule where
  kind := rule.kind
  search := rule.search.map Segment.mirror
  left := (rule.right.map ContextEntry.mirror).reverse
  right := (rule.left.map ContextEntry.mirror).reverse
  replacement := (rule.replacement.map Segment.mirror).reverse

/-- The patterns of the rule are well-formed. -/
structure WellFormed (rule : Rule) : Prop where
  search : ∀ segment ∈ rule.search, segment.WellFormed
  left : ∀ entry ∈ rule.left, entry.WellFormed
  right : ∀ entry ∈ rule.right, entry.WellFormed
  replacement : ∀ segment ∈ rule.replacement, segment.WellFormed

/-- What holds before a gap holds, as the mirror image, after the gap of the reversed word. -/
theorem holdsAfter_mirror {captures mirrored : Captures} (hmirror : captures.Mirrors mirrored)
    (hclosed : captures.Closed) {word : Word} (hword : word.Literal) {entries : List ContextEntry}
    (hentries : ∀ entry ∈ entries, entry.WellFormed) {gap : Nat} (h : gap ≤ word.length) :
    holdsAfter mirrored word.reverse (word.length - gap) (entries.map ContextEntry.mirror) =
      holdsBefore captures word gap entries := by
  induction entries generalizing gap with
  | nil => simp [holdsAfter, holdsBefore]
  | cons entry rest ih =>
    have hentry := hentries entry List.mem_cons_self
    have hrest {gap : Nat} (h : gap ≤ word.length) :=
      ih (fun other hother => hentries other (List.mem_cons_of_mem _ hother)) h
    cases entry with
    | boundary boundary =>
      rw [List.map_cons, ContextEntry.mirror, holdsAfter, holdsBefore, boundary.holdsAt_mirror h,
        hrest h]
    | segment segment =>
      rw [List.map_cons, ContextEntry.mirror, holdsAfter]
      cases gap with
      | zero =>
        rw [holdsBefore, Word.phone?_eq_none (by rw [Word.length_reverse]; omega)]
      | succ gap =>
        have hindex : word.length - 1 - (word.length - (gap + 1)) = gap := by omega
        have hnext : word.length - (gap + 1) + 1 = word.length - gap := by omega
        rw [holdsBefore, Word.phone?_reverse (by omega), hindex, hnext]
        cases hphone : word.phone? gap with
        | none => rfl
        | some phone =>
          have hliteral := hword phone (Word.mem_phones_of_phone? hphone)
          dsimp only
          rw [hmirror.fits hclosed hliteral hentry, hrest (by omega)]

/-- What holds after a gap holds, as the mirror image, before the gap of the reversed word. -/
theorem holdsBefore_mirror {captures mirrored : Captures} (hmirror : captures.Mirrors mirrored)
    (hclosed : captures.Closed) {word : Word} (hword : word.Literal) {entries : List ContextEntry}
    (hentries : ∀ entry ∈ entries, entry.WellFormed) {gap : Nat} (h : gap ≤ word.length) :
    holdsBefore mirrored word.reverse (word.length - gap) (entries.map ContextEntry.mirror) =
      holdsAfter captures word gap entries := by
  induction entries generalizing gap with
  | nil => simp [holdsAfter, holdsBefore]
  | cons entry rest ih =>
    have hentry := hentries entry List.mem_cons_self
    have hrest {gap : Nat} (h : gap ≤ word.length) :=
      ih (fun other hother => hentries other (List.mem_cons_of_mem _ hother)) h
    cases entry with
    | boundary boundary =>
      rw [List.map_cons, ContextEntry.mirror, holdsBefore, holdsAfter, boundary.holdsAt_mirror h,
        hrest h]
    | segment segment =>
      rw [List.map_cons, ContextEntry.mirror, holdsAfter]
      cases hleft : word.length - gap with
      | zero => rw [holdsBefore, Word.phone?_eq_none (by omega)]
      | succ left =>
        have hindex : word.length - 1 - left = gap := by omega
        have hnext : left = word.length - (gap + 1) := by omega
        rw [holdsBefore, Word.phone?_reverse (by omega), hindex]
        cases hphone : word.phone? gap with
        | none => rfl
        | some phone =>
          have hliteral := hword phone (Word.mem_phones_of_phone? hphone)
          dsimp only
          rw [hmirror.fits hclosed hliteral hentry, hnext, hrest (by omega)]

/-- A rule looks for a phone exactly when its mirror image does. -/
theorem afterFocus_mirror (rule : Rule) (index : Nat) :
    rule.mirror.afterFocus index = rule.afterFocus index := by
  simp [afterFocus, mirror]

/-- A variable takes its values from the phone that its mirror image takes them from in the
reversed word. -/
theorem source?_mirror {rule : Rule} (hsearch : rule.search.isSome) {word : Word} {index : Nat}
    (h : index < word.length) (pattern : Quality) :
    rule.mirror.source? word.reverse (word.length - 1 - index) pattern.mirror =
      rule.source? word index pattern := by
  have hafter (index : Nat) : rule.afterFocus index = index + 1 := if_pos hsearch
  cases pattern with
  | alpha =>
    have hindex : word.length - 1 - (word.length - 1 - index) = index := by omega
    simp only [Quality.mirror, source?]
    rw [Word.phone?_reverse (by omega), hindex]
  | beta =>
    simp only [Quality.mirror, source?, afterFocus_mirror, hafter]
    by_cases hfirst : index = 0
    · rw [if_pos hfirst, Word.phone?_eq_none (by rw [Word.length_reverse]; omega)]
    · have hindex : word.length - 1 - (word.length - 1 - index + 1) = index - 1 := by omega
      rw [if_neg hfirst, Word.phone?_reverse (by omega), hindex]
  | gamma =>
    simp only [Quality.mirror, source?, hafter]
    by_cases hlast : word.length - 1 - index = 0
    · rw [if_pos hlast, Word.phone?_eq_none (by omega)]
    · have hindex : word.length - 1 - (word.length - 1 - index - 1) = index + 1 := by omega
      rw [if_neg hlast, Word.phone?_reverse (by omega), hindex]
  | _ => rfl

/-- A feature is marked with a variable in the patterns of a rule exactly when it is marked with
the mirror image in those of the mirror image. -/
theorem any_patternsOf_mirror (rule : Rule) (pattern : Quality) (name : String) :
    (rule.mirror.patternsOf pattern.mirror).any (·.marks pattern.mirror name) =
      (rule.patternsOf pattern).any (·.marks pattern name) := by
  cases pattern with
  | alpha =>
    obtain ⟨kind, search, left, right, replacement⟩ := rule
    rcases search with - | (search | literal)
    · rfl
    · have hmarks := search.marks_mirror .alpha name
      simp only [patternsOf, mirror, Option.map_some, Segment.mirror, Quality.mirror,
        List.any_cons, List.any_nil] at hmarks ⊢
      rw [hmarks]
    · rfl
  | beta => exact ContextEntry.any_marks_mirror rule.left .beta name
  | gamma => exact ContextEntry.any_marks_mirror rule.right .gamma name
  | _ => rfl

/-- The mirror image of a rule captures the mirror image of what the rule captures. -/
theorem captures_mirror {rule : Rule} (hsearch : rule.search.isSome) {word : Word} {index : Nat}
    (h : index < word.length) :
    (rule.captures word index).Mirrors
      (rule.mirror.captures word.reverse (word.length - 1 - index)) := by
  intro pattern name
  rw [value?_captures, value?_captures, source?_mirror hsearch h, any_patternsOf_mirror]

/-- A rule applies to a phone exactly when its mirror image applies to it in the reversed word. -/
theorem applies_mirror {rule : Rule} (hrule : rule.WellFormed) (hsearch : rule.search.isSome)
    {word : Word} (hword : word.Literal) {index : Nat} (h : index < word.length) :
    rule.mirror.applies word.reverse (word.length - 1 - index)
        (rule.mirror.captures word.reverse (word.length - 1 - index)) =
      rule.applies word index (rule.captures word index) := by
  have hclosed := rule.captures_closed hword index
  have hmirror := captures_mirror hsearch h
  obtain ⟨segment, hsegment⟩ := Option.isSome_iff_exists.mp hsearch
  have hcurrent := Word.phone?_eq_some h
  have hreversed : word.reverse.phone? (word.length - 1 - index) = some word.slots[index].2 := by
    have hindex : word.length - 1 - (word.length - 1 - index) = index := by omega
    rw [Word.phone?_reverse (by omega), hindex, hcurrent]
  have hfits := hmirror.fits hclosed (hword _ (Word.mem_phones_of_phone? hcurrent))
    (hrule.search segment hsegment)
  have hmirrored : rule.mirror.search = some segment.mirror := by
    rw [mirror, hsegment]
    rfl
  have hafter (index : Nat) : rule.afterFocus index = index + 1 := if_pos hsearch
  -- The gap behind the phone is the one before it in the reversed word, and the other way round.
  have hleft : rule.mirror.left.reverse = rule.right.map ContextEntry.mirror :=
    List.reverse_reverse _
  have hbefore := holdsBefore_mirror hmirror hclosed hword hrule.right
    (show index + 1 ≤ word.length from h)
  have hright : rule.mirror.right = rule.left.reverse.map ContextEntry.mirror :=
    List.map_reverse.symm
  have hbehind := holdsAfter_mirror hmirror hclosed hword
    (fun entry hentry => hrule.left entry (List.mem_reverse.mp hentry)) (Nat.le_of_lt h)
  have hgap : word.length - (index + 1) = word.length - 1 - index := by omega
  have hgap' : word.length - index = word.length - 1 - index + 1 := by omega
  rw [hgap, ← hleft] at hbefore
  rw [hgap', ← hright] at hbehind
  simp only [applies, hcurrent, hreversed, hsegment, hmirrored, afterFocus_mirror, hafter, hfits,
    hbefore, hbehind]
  rw [Bool.and_assoc, Bool.and_assoc, Bool.and_comm (holdsAfter _ _ _ _)]

/-- The phones that a rule with a search writes for the phone at an index. -/
def rewritten (rule : Rule) (table : Table) (word : Word) (index : Nat) : List Phone :=
  match word.phone? index with
  | none => []
  | some phone =>
    if rule.applies word index (rule.captures word index) then
      rule.replacement.map (realize table (rule.captures word index) phone)
    else [phone]

/-- The block of a phone under a rule with a search is what is written for it, behind the marker
of the phone. -/
theorem block_eq_marked {rule : Rule} (hsearch : rule.search.isSome) (table : Table) (word : Word)
    (index : Nat) :
    rule.block table word index =
      Word.marked (word.marker index) (rule.rewritten table word index) := by
  unfold block rewritten
  cases word.phone? index with
  | none => rfl
  | some phone =>
    simp only [if_pos hsearch, List.append_nil]
    split <;> rfl

/-- Something is written for every phone if the rule has a replacement. -/
theorem rewritten_ne_nil {rule : Rule} (hreplacement : rule.replacement ≠ []) (table : Table)
    {word : Word} {index : Nat} (h : index < word.length) :
    rule.rewritten table word index ≠ [] := by
  rw [rewritten, Word.phone?_eq_some h]
  dsimp only
  split
  · simpa using hreplacement
  · exact List.cons_ne_nil _ _

/-- What is written for a phone is written from the other end by the mirror image. -/
theorem rewritten_mirror {rule : Rule} (hrule : rule.WellFormed) (hsearch : rule.search.isSome)
    (table : Table) {word : Word} (hword : word.Literal) {index : Nat} (h : index < word.length) :
    rule.mirror.rewritten table word.reverse (word.length - 1 - index) =
      (rule.rewritten table word index).reverse := by
  have hclosed := rule.captures_closed hword index
  have hmirror := captures_mirror hsearch h
  have hindex : word.length - 1 - (word.length - 1 - index) = index := by omega
  unfold rewritten
  rw [Word.phone?_reverse (by omega), hindex, Word.phone?_eq_some h]
  dsimp only
  rw [applies_mirror hrule hsearch hword h]
  split
  · rw [mirror, List.map_reverse, List.map_map]
    congr 1
    refine List.map_congr_left fun segment hsegment => ?_
    exact hmirror.realize hclosed table _ (hrule.replacement segment hsegment)
  · rfl

/-- The marker before the blocks that follow a phone is that of the gap behind it. -/
theorem leading_blocks {rule : Rule} (hsearch : rule.search.isSome)
    (hreplacement : rule.replacement ≠ []) (table : Table) {word : Word} {left : Nat}
    (h : left < word.length) :
    Word.leading ((List.range' (word.length - left) left).flatMap (rule.block table word)) =
      word.reverse.marker left := by
  cases left with
  | zero =>
    rw [Word.marker_reverse_zero h]
    rfl
  | succ left =>
    rw [Word.marker_reverse_of_pos (Nat.succ_pos left) h, List.range'_succ, List.flatMap_cons,
      block_eq_marked hsearch]
    exact Word.leading_marked_append _ (rewritten_ne_nil hreplacement table (by omega)) _

/-- The blocks of the last phones of a word, reversed, are the first blocks of the mirror image on
the reversed word. -/
theorem reverse_blocks {rule : Rule} (hrule : rule.WellFormed) (hsearch : rule.search.isSome)
    (hreplacement : rule.replacement ≠ []) (table : Table) {word : Word} (hword : word.Literal)
    {left : Nat} (h : left ≤ word.length) :
    (Word.reverse ⟨(List.range' (word.length - left) left).flatMap
        (rule.block table word)⟩).slots =
      (List.range left).flatMap (rule.mirror.block table word.reverse) := by
  induction left with
  | zero => rfl
  | succ left ih =>
    have hindex : word.length - (left + 1) < word.length := by omega
    have hnext : word.length - (left + 1) + 1 = word.length - left := by omega
    have hleft : word.length - 1 - (word.length - (left + 1)) = left := by omega
    have hwritten := rewritten_mirror hrule hsearch table hword hindex
    have hmirrored : rule.mirror.search.isSome := by
      rw [mirror, Option.isSome_map, hsearch]
    rw [hleft] at hwritten
    rw [List.range'_succ, hnext, List.flatMap_cons, block_eq_marked hsearch,
      Word.reverse_marked_append, ih (by omega), leading_blocks hsearch hreplacement table h,
      List.range_succ, List.flatMap_append, List.flatMap_singleton, block_eq_marked hmirrored,
      hwritten]

/-- Changing a word by a simple rule that replaces phones and then reversing it is reversing it and
then changing it by the mirror image of the rule. -/
theorem reverse_transform {rule : Rule} (hkind : rule.kind = .simple)
    (hsearch : rule.search.isSome) (hreplacement : rule.replacement ≠ [])
    (hrule : rule.WellFormed) (table : Table) (word : Word)
    (hword : ∀ phone ∈ word.phones, phone.matrix.hasVariables = false) :
    (rule.transform table word).reverse = rule.mirror.transform table word.reverse := by
  have hmirrored : rule.mirror.kind = .simple := hkind
  have hblocks := reverse_blocks hrule hsearch hreplacement table hword (Nat.le_refl word.length)
  have hlength : word.reverse.slots.length = word.slots.length := word.length_reverse
  rw [Nat.sub_self, List.range_eq_range'] at hblocks
  rw [transform, transform, changeFrom_eq_flatMap hkind, changeFrom_eq_flatMap hmirrored, hlength]
  exact congrArg Word.mk hblocks

/-- At the end of a word a voiced phone takes the voice of the phone before it, and a voiced phone is
added behind it. The mirror image does the same at the start of the reversed word. -/
theorem reverse_transform_final_voice :
    let voiced : Phone := ⟨"b", ⟨[⟨"voice", .plus⟩]⟩⟩
    let voiceless : Phone := ⟨"p", ⟨[⟨"voice", .minus⟩]⟩⟩
    let before : Matrix := ⟨[⟨"voice", .beta⟩]⟩
    let rule : Rule := ⟨.simple, some (.pattern voiced.matrix), [.segment (.pattern before)],
      [.boundary .wordEnd], [.pattern before, .literal voiced]⟩
    let table : Table := ⟨["voice"], .empty, [], [voiced, voiceless], []⟩
    let word : Word := ⟨[(.syllable, voiceless), (.morpheme, voiced)]⟩
    (rule.kind = .simple ∧ rule.search.isSome ∧ rule.replacement ≠ [] ∧ rule.WellFormed ∧
      ∀ phone ∈ word.phones, phone.matrix.hasVariables = false) ∧
    (rule.transform table word).reverse = rule.mirror.transform table word.reverse ∧
    rule.mirror.transform table word.reverse =
      ⟨[(.plain, voiced), (.plain, voiceless), (.morpheme, voiceless)]⟩ := by
  intro voiced voiceless before rule table word
  have hvoiced : voiced.matrix.WellFormed := ⟨by decide, by decide⟩
  have hbefore : before.WellFormed := ⟨by decide, by decide⟩
  have hrule : rule.WellFormed := by
    refine ⟨?_, ?_, ?_, ?_⟩
    · intro segment hsegment
      rw [← Option.some.inj hsegment]
      exact hvoiced
    · intro entry hentry
      rw [List.mem_singleton.mp hentry]
      exact hbefore
    · intro entry hentry
      rw [List.mem_singleton.mp hentry]
      trivial
    · intro segment hsegment
      rcases List.mem_cons.mp hsegment with rfl | hsegment
      · exact hbefore
      · rw [List.mem_singleton.mp hsegment]
        trivial
  have hword : ∀ phone ∈ word.phones, phone.matrix.hasVariables = false := by
    intro phone hphone
    rcases List.mem_cons.mp hphone with rfl | hphone
    · rfl
    · rw [List.mem_singleton.mp hphone]
      rfl
  exact ⟨⟨rfl, rfl, List.cons_ne_nil _ _, hrule, hword⟩,
    reverse_transform rfl rfl (List.cons_ne_nil _ _) hrule table word hword,
    by rw [transform, changeFrom_eq_flatMap rfl]; rfl⟩

end Rule

end SoundLaw
