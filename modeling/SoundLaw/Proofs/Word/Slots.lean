import SoundLaw.Word

/-!
# Slots of a word

The phone and the marker at an index, for a word and for its reverse. Gaps are counted from the
other end in the reverse, and a marker inside a word stays in its gap.

A word that is written in groups of phones, each group behind one marker, is reversed group by
group: the phones of a group are reversed, and the marker of the next group goes before them.
-/

namespace SoundLaw.Word

/-- The phone at an index inside a word. -/
theorem phone?_eq_some {word : Word} {index : Nat} (h : index < word.slots.length) :
    word.phone? index = some word.slots[index].2 := by
  rw [phone?, List.getElem?_eq_getElem h]
  rfl

/-- The marker at an index inside a word. -/
theorem marker_eq {word : Word} {index : Nat} (h : index < word.slots.length) :
    word.marker index = word.slots[index].1 := by
  rw [marker, List.getElem?_eq_getElem h]

/-- The phone at an index is that of the list of phones. -/
theorem phone?_eq_getElem? (word : Word) (index : Nat) :
    word.phone? index = word.phones[index]? := by
  rw [phone?, phones, List.getElem?_map]

/-- The marker at an index is that of the list of markers. -/
theorem marker_eq_getD (word : Word) (index : Nat) :
    word.marker index = word.markers[index]?.getD .plain := by
  rw [marker, markers, List.getElem?_map]
  cases word.slots[index]? <;> rfl

/-- A word has as many phones as it is long. -/
theorem length_phones (word : Word) : word.phones.length = word.length :=
  List.length_map _

/-- A word has as many markers as it is long. -/
theorem length_markers (word : Word) : word.markers.length = word.length :=
  List.length_map _

/-- There is no phone behind the end of a word. -/
theorem phone?_eq_none {word : Word} {index : Nat} (h : word.length ≤ index) :
    word.phone? index = none := by
  rw [phone?_eq_getElem?, List.getElem?_eq_none (by rwa [length_phones])]

/-- A phone is found inside a word only. -/
theorem lt_length_of_phone? {word : Word} {index : Nat} {phone : Phone}
    (h : word.phone? index = some phone) : index < word.length := by
  refine Nat.lt_of_not_le fun hout => ?_
  rw [phone?_eq_none hout] at h
  cases h

/-- A phone found at an index is one of the word. -/
theorem mem_phones_of_phone? {word : Word} {index : Nat} {phone : Phone}
    (h : word.phone? index = some phone) : phone ∈ word.phones := by
  rw [phone?_eq_getElem?] at h
  exact List.mem_of_getElem? h

/-- The markers of the gaps behind the phones of a word; there is none behind the last one. -/
def following (word : Word) : List Marker :=
  word.markers.drop 1 ++ [.plain]

/-- Every phone has a gap behind it. -/
theorem length_following {word : Word} (h : 0 < word.length) :
    word.following.length = word.length := by
  rw [following, List.length_append, List.length_drop, length_markers, List.length_singleton]
  omega

/-- The gap behind a phone is the one before the next phone. -/
theorem following_getElem? {word : Word} {index : Nat} (h : index + 1 < word.length) :
    word.following[index]? = word.markers[index + 1]? := by
  rw [following, List.getElem?_append_left, List.getElem?_drop, Nat.add_comm]
  rw [List.length_drop, length_markers]
  omega

/-- There is no marker behind a word. -/
theorem following_getElem?_last {word : Word} {index : Nat} (h : index + 1 = word.length) :
    word.following[index]? = some .plain := by
  have hindex : index = (word.markers.drop 1).length := by
    rw [List.length_drop, length_markers]
    omega
  rw [following, hindex, List.getElem?_concat_length]

/-- The phones of a reversed word are those of the word from the last to the first. -/
theorem phones_reverse (word : Word) : word.reverse.phones = word.phones.reverse := by
  by_cases hslots : word.slots = []
  · simp [reverse, phones, hslots]
  · have hlength := length_following (List.length_pos_iff.mpr hslots)
    have hle : word.phones.length ≤ word.following.length :=
      Nat.le_of_eq (by rw [hlength, length_phones])
    rw [phones, reverse, List.map_reverse]
    exact congrArg List.reverse (List.map_snd_zip hle)

/-- The markers of a reversed word are those of the gaps behind the phones, from the last to the
first. -/
theorem markers_reverse {word : Word} (h : 0 < word.length) :
    word.reverse.markers = word.following.reverse := by
  have hle : word.following.length ≤ word.phones.length :=
    Nat.le_of_eq (by rw [length_following h, length_phones])
  rw [markers, reverse, List.map_reverse]
  exact congrArg List.reverse (List.map_fst_zip hle)

/-- A reversed word is as long as the word. -/
theorem length_reverse (word : Word) : word.reverse.length = word.length := by
  rw [← length_phones, phones_reverse, List.length_reverse, length_phones]

/-- The phones of a reversed word are counted from the other end. -/
theorem phone?_reverse {word : Word} {index : Nat} (h : index < word.length) :
    word.reverse.phone? index = word.phone? (word.length - 1 - index) := by
  rw [phone?_eq_getElem?, phones_reverse, List.getElem?_reverse (by rwa [length_phones]),
    length_phones, phone?_eq_getElem?]

/-- The markers of a reversed word are those of the gaps behind the phones, counted from the other
end. -/
theorem marker_reverse {word : Word} {index : Nat} (h : index < word.length) :
    word.reverse.marker index = word.following[word.length - 1 - index]?.getD .plain := by
  have hlength := length_following (Nat.zero_lt_of_lt h)
  rw [marker_eq_getD, markers_reverse (Nat.zero_lt_of_lt h),
    List.getElem?_reverse (by rwa [hlength]), hlength]

/-- A marker inside a reversed word stands in the gap where it stands in the word. -/
theorem marker_reverse_of_pos {word : Word} {gap : Nat} (hpos : 0 < gap) (h : gap < word.length) :
    word.reverse.marker gap = word.marker (word.length - gap) := by
  have hgap : word.length - 1 - gap + 1 = word.length - gap := by omega
  rw [marker_reverse h, following_getElem? (by omega), hgap, marker_eq_getD]

/-- No marker stands before the first phone of a reversed word. -/
theorem marker_reverse_zero {word : Word} (h : 0 < word.length) :
    word.reverse.marker 0 = .plain := by
  rw [marker_reverse h, following_getElem?_last (by omega)]
  rfl

/-- Some phones, the first of them behind a marker and the others without one. -/
def marked (marker : Marker) : List Phone → List (Marker × Phone)
  | [] => []
  | first :: rest => (marker, first) :: rest.map fun phone => (.plain, phone)

/-- One more phone stands behind the marker only if it is the first. -/
theorem marked_append_singleton (marker : Marker) (phones : List Phone) (phone : Phone) :
    marked marker (phones ++ [phone]) =
      marked marker phones ++ [(if phones = [] then marker else .plain, phone)] := by
  cases phones <;> simp [marked]

/-- The marker before some slots. -/
def leading : List (Marker × Phone) → Marker
  | [] => .plain
  | slot :: _ => slot.1

/-- The marker before a group of phones is its own, unless the group is empty. -/
theorem leading_marked_append (marker : Marker) {phones : List Phone} (h : phones ≠ [])
    (rest : List (Marker × Phone)) : leading (marked marker phones ++ rest) = marker := by
  cases phones with
  | nil => exact absurd rfl h
  | cons first others => rfl

/-- The first slot of a word becomes the last one of its reverse, behind the marker that stood
between it and the next. -/
theorem reverse_cons (slot : Marker × Phone) (rest : List (Marker × Phone)) :
    (reverse ⟨slot :: rest⟩).slots = (reverse ⟨rest⟩).slots ++ [(leading rest, slot.2)] := by
  cases rest <;> simp [reverse, markers, phones, leading]

/-- Phones without markers are reversed behind the marker that follows them. -/
theorem reverse_plain_append (phones : List Phone) (rest : List (Marker × Phone)) :
    (reverse ⟨phones.map (fun phone => (Marker.plain, phone)) ++ rest⟩).slots =
      (reverse ⟨rest⟩).slots ++ marked (leading rest) phones.reverse := by
  induction phones with
  | nil => simp [marked]
  | cons first others ih =>
    rw [List.map_cons, List.cons_append, reverse_cons, ih, List.reverse_cons,
      marked_append_singleton, List.append_assoc]
    cases others <;> simp [leading]

/-- A group of phones behind one marker is reversed behind the marker that follows it. -/
theorem reverse_marked_append (marker : Marker) (phones : List Phone)
    (rest : List (Marker × Phone)) :
    (reverse ⟨marked marker phones ++ rest⟩).slots =
      (reverse ⟨rest⟩).slots ++ marked (leading rest) phones.reverse := by
  cases phones with
  | nil => simp [marked]
  | cons first others =>
    -- The marker of the first phone plays no part in the reverse.
    have hplain := reverse_plain_append (first :: others) rest
    rw [List.map_cons, List.cons_append, reverse_cons] at hplain
    rw [marked, List.cons_append, reverse_cons]
    exact hplain

end SoundLaw.Word
