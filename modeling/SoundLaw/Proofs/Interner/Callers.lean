import Mathlib.Data.List.Induction
import Mathlib.Logic.Function.Basic
import SoundLaw.Proofs.Interner.TwoWay

/-!
# Callers that share an interner

Several callers intern names in one interner at once. A call looks for its name, and if the search
fails the caller takes the interner to itself, searches again and enters the name. Before it does so
other callers may have entered names, the same name among them. A call therefore takes one turn or
two, and the turns of different callers come in any order.

In every order the answers number the names: the numbers are the first ones without a gap, equal
names and only they share a number, and a name and its number lead to each other at every later
point (`Interner.run_isNumbering`).
-/

namespace SoundLaw

/-- A table that numbers names. -/
structure Numbering (σ : Type) where
  /-- The table without names. -/
  empty : σ
  /-- The number of a name, if it has been entered. -/
  find? : σ → String → Option Nat
  /-- Enters a name unless it is there, and gives its number. -/
  enter : σ → String → Nat × σ

/-- An interner as a table that numbers names. -/
def Interner.numbering : Numbering Interner :=
  ⟨empty, find?, enter⟩

/-- A table read both ways as a table that numbers names. -/
def TwoWay.numbering {τ : Type} (ops : TwoWay τ) : Numbering τ :=
  ⟨ops.empty, ops.number?, ops.enter⟩

/-- What a caller has still to do. -/
structure Caller where
  /-- The name that it has looked for in vain and has yet to enter. -/
  missed : Option String
  /-- The names that it will ask for after that. -/
  ahead : List String

namespace Caller

/-- The names that the caller has no answer for. -/
def unanswered (caller : Caller) : List String :=
  caller.missed.toList ++ caller.ahead

/-- The turns that suffice for the calls of the caller. -/
def turnsLeft (caller : Caller) : Nat :=
  caller.missed.toList.length + 2 * caller.ahead.length

/-- To answer the next call saves a turn. -/
theorem turnsLeft_of_unanswered {caller : Caller} {name : String} {ahead : List String}
    (h : caller.unanswered = name :: ahead) : 2 * ahead.length < caller.turnsLeft := by
  obtain ⟨missed, names⟩ := caller
  cases missed with
  | none =>
    obtain rfl : names = name :: ahead := h
    simp only [turnsLeft, Option.toList_none, List.length_nil, List.length_cons]
    omega
  | some other =>
    obtain ⟨-, rfl⟩ : other = name ∧ names = ahead := List.cons.inj h
    simp only [turnsLeft, Option.toList_some, List.length_singleton]
    omega

/-- A caller with no turns left has all its answers. -/
theorem unanswered_of_turnsLeft {caller : Caller} (h : caller.turnsLeft = 0) :
    caller.unanswered = [] := by
  cases hnames : caller.unanswered with
  | nil => rfl
  | cons name ahead =>
    have hleft := turnsLeft_of_unanswered hnames
    omega

end Caller

/-- An answer to a call. -/
structure Answer (ι : Type) where
  /-- Who asked. -/
  caller : ι
  /-- The name that was asked for. -/
  name : String
  /-- The number that was given for it. -/
  number : Nat
deriving DecidableEq

/-- Callers that share a table, in the course of their calls. -/
structure Sharing (σ ι : Type) where
  /-- The table. -/
  table : σ
  /-- The callers. -/
  callers : ι → Caller
  /-- The answers given so far, the first one first. -/
  answers : List (Answer ι)

namespace Sharing

variable {σ τ ι : Type} [DecidableEq ι]

/-- The names that a caller has been answered, in the order of its calls. -/
def answered (s : Sharing σ ι) (caller : ι) : List String :=
  (s.answers.filter (·.caller = caller)).map (·.name)

/-- Answers a call with a number, and leaves a table behind. -/
def answer (s : Sharing σ ι) (caller : ι) (name : String) (ahead : List String)
    (entry : Nat × σ) : Sharing σ ι where
  table := entry.2
  callers := Function.update s.callers caller ⟨none, ahead⟩
  answers := s.answers ++ [⟨caller, name, entry.1⟩]

/-- A caller's turn: it enters the name that it has missed, or it looks for its next name. To search
again and to enter is one turn, because no other caller reads or writes meanwhile. -/
def turn (numbering : Numbering σ) (s : Sharing σ ι) (caller : ι) : Sharing σ ι :=
  match s.callers caller with
  | ⟨some name, ahead⟩ => s.answer caller name ahead (numbering.enter s.table name)
  | ⟨none, name :: ahead⟩ =>
    match numbering.find? s.table name with
    | some number => s.answer caller name ahead (number, s.table)
    | none => { s with callers := Function.update s.callers caller ⟨some name, ahead⟩ }
  | ⟨none, []⟩ => s

/-- The callers before their first turns. -/
def start (numbering : Numbering σ) (calls : ι → List String) : Sharing σ ι :=
  ⟨numbering.empty, fun caller => ⟨none, calls caller⟩, []⟩

/-- The callers after turns in some order. -/
def run (numbering : Numbering σ) (calls : ι → List String) (order : List ι) : Sharing σ ι :=
  order.foldl (turn numbering) (start numbering calls)

/-- The same callers with the same answers, over a table that holds the names of an interner. -/
structure Mirrors (ops : TwoWay τ) (s : Sharing τ ι) (t : Sharing Interner ι) : Prop where
  callers : s.callers = t.callers
  answers : s.answers = t.answers
  table : ops.Holds s.table t.table

/-! ## What a turn does -/

section Turns

variable {numbering : Numbering σ} {s : Sharing σ ι} {caller : ι} {name : String}
  {ahead : List String}

/-- A caller that has missed a name enters it. -/
theorem turn_enters (h : s.callers caller = ⟨some name, ahead⟩) :
    turn numbering s caller = s.answer caller name ahead (numbering.enter s.table name) := by
  simp only [turn, h]

/-- A caller that finds its next name is answered. -/
theorem turn_finds {number : Nat} (h : s.callers caller = ⟨none, name :: ahead⟩)
    (hfind : numbering.find? s.table name = some number) :
    turn numbering s caller = s.answer caller name ahead (number, s.table) := by
  simp only [turn, h, hfind]

/-- A caller that does not find its next name has missed it. -/
theorem turn_misses (h : s.callers caller = ⟨none, name :: ahead⟩)
    (hfind : numbering.find? s.table name = none) :
    turn numbering s caller =
      { s with callers := Function.update s.callers caller ⟨some name, ahead⟩ } := by
  simp only [turn, h, hfind]

/-- A caller without calls does nothing. -/
theorem turn_rests (h : s.callers caller = ⟨none, []⟩) : turn numbering s caller = s := by
  simp only [turn, h]

end Turns

/-- In its turn a caller has nothing to do, or it misses a name, or it is answered: with the number
that it has found, or by an entry. -/
theorem turn_cases (numbering : Numbering σ) (s : Sharing σ ι) (caller : ι) :
    s.callers caller = ⟨none, []⟩ ∧ turn numbering s caller = s ∨
      (∃ name ahead, s.callers caller = ⟨none, name :: ahead⟩ ∧
        turn numbering s caller =
          { s with callers := Function.update s.callers caller ⟨some name, ahead⟩ }) ∨
      ∃ name ahead entry, (s.callers caller).unanswered = name :: ahead ∧
        (numbering.find? s.table name = some entry.1 ∧ entry.2 = s.table ∨
          entry = numbering.enter s.table name) ∧
        turn numbering s caller = s.answer caller name ahead entry := by
  match hcaller : s.callers caller with
  | ⟨some name, ahead⟩ =>
    exact .inr (.inr ⟨name, ahead, _, rfl, .inr rfl, turn_enters hcaller⟩)
  | ⟨none, name :: ahead⟩ =>
    cases hfind : numbering.find? s.table name with
    | some number =>
      exact .inr (.inr ⟨name, ahead, _, rfl, .inl ⟨hfind, rfl⟩, turn_finds hcaller hfind⟩)
    | none => exact .inr (.inl ⟨name, ahead, rfl, turn_misses hcaller hfind⟩)
  | ⟨none, []⟩ => exact .inl ⟨rfl, turn_rests hcaller⟩

/-- A call that no turn of another caller comes into is answered as the interner answers it. -/
theorem turn_turn_eq_intern {s : Sharing Interner ι} {caller : ι} {name : String}
    {ahead : List String} (h : s.callers caller = ⟨none, name :: ahead⟩) :
    turn Interner.numbering s caller = s.answer caller name ahead (s.table.intern name) ∨
      turn Interner.numbering (turn Interner.numbering s caller) caller =
        s.answer caller name ahead (s.table.intern name) := by
  cases hfind : s.table.find? name with
  | some number =>
    left
    rw [turn_finds h hfind, Interner.intern, hfind]
  | none =>
    right
    rw [turn_misses h hfind, turn_enters (Function.update_self ..), Interner.intern_eq_enter]
    simp only [answer, Function.update_idem]
    rfl

/-- A turn keeps the names that a caller asks for, those that are answered in front. -/
theorem answered_turn (numbering : Numbering σ) (s : Sharing σ ι) (caller other : ι) :
    (turn numbering s caller).answered other ++
        ((turn numbering s caller).callers other).unanswered =
      s.answered other ++ (s.callers other).unanswered := by
  obtain ⟨-, hturn⟩ | ⟨name, ahead, hcaller, hturn⟩ |
    ⟨name, ahead, entry, hcaller, -, hturn⟩ := turn_cases numbering s caller
  · rw [hturn]
  · rw [hturn]
    obtain rfl | hother := eq_or_ne other caller
    · simp [answered, hcaller, Caller.unanswered]
    · simp [answered, Function.update_of_ne hother]
  · rw [hturn]
    obtain rfl | hother := eq_or_ne other caller
    · rw [hcaller]
      simp [answered, answer, Caller.unanswered]
    · simp [answered, answer, Function.update_of_ne hother, hother.symm]

/-- The caller whose turn it is has a turn less left, unless it has none. -/
theorem turnsLeft_turn (numbering : Numbering σ) (s : Sharing σ ι) (caller other : ι) :
    ((turn numbering s caller).callers other).turnsLeft ≤
      (s.callers other).turnsLeft - if caller = other then 1 else 0 := by
  obtain ⟨hcaller, hturn⟩ | ⟨name, ahead, hcaller, hturn⟩ |
    ⟨name, ahead, entry, hcaller, -, hturn⟩ := turn_cases numbering s caller
  · rw [hturn]
    split
    · next heq =>
      rw [← heq, hcaller]
      exact Nat.zero_le _
    · exact Nat.le_refl _
  · rw [hturn]
    obtain rfl | hother := eq_or_ne other caller
    · rw [if_pos rfl, hcaller]
      simp only [Function.update_self, Caller.turnsLeft, Option.toList_some, Option.toList_none,
        List.length_nil, List.length_cons]
      omega
    · simp [Function.update_of_ne hother, hother.symm]
  · rw [hturn]
    obtain rfl | hother := eq_or_ne other caller
    · have hleft := Caller.turnsLeft_of_unanswered hcaller
      rw [if_pos rfl]
      simp only [answer, Function.update_self, Caller.turnsLeft, Option.toList_none,
        List.length_nil] at hleft ⊢
      omega
    · simp [answer, Function.update_of_ne hother, hother.symm]

/-- No turn takes an answer back. -/
theorem answers_prefix_turn (numbering : Numbering σ) (s : Sharing σ ι) (caller : ι) :
    s.answers <+: (turn numbering s caller).answers := by
  obtain ⟨-, hturn⟩ | ⟨name, ahead, -, hturn⟩ | ⟨name, ahead, entry, -, -, hturn⟩ :=
    turn_cases numbering s caller
  · simp only [hturn, List.prefix_rfl]
  · simp only [hturn, List.prefix_rfl]
  · rw [hturn]
    exact List.prefix_append ..

/-! ## What the turns of all callers come to -/

/-- Turns after one another. -/
theorem run_append (numbering : Numbering σ) (calls : ι → List String) (earlier later : List ι) :
    run numbering calls (earlier ++ later) = later.foldl (turn numbering)
      (run numbering calls earlier) :=
  List.foldl_append

/-- What every turn preserves holds after any turns. -/
theorem foldl_turn {numbering : Numbering σ} {P : Sharing σ ι → Prop} {s : Sharing σ ι}
    (hturn : ∀ t caller, P t → P (turn numbering t caller)) (h : P s) (order : List ι) :
    P (order.foldl (turn numbering) s) :=
  List.foldlRecOn order _ h fun t ht caller _ => hturn t caller ht

/-- What a caller asks for is what it has been answered and what it has no answer for. -/
theorem answered_run (numbering : Numbering σ) (calls : ι → List String) (order : List ι)
    (caller : ι) :
    (run numbering calls order).answered caller ++
      ((run numbering calls order).callers caller).unanswered = calls caller :=
  foldl_turn (P := fun s => s.answered caller ++ (s.callers caller).unanswered = calls caller)
    (fun s other h => (answered_turn numbering s other caller).trans h) rfl order

/-- Every turn of a caller brings it closer to the end of its calls. -/
theorem turnsLeft_run (numbering : Numbering σ) (calls : ι → List String) (order : List ι)
    (caller : ι) :
    ((run numbering calls order).callers caller).turnsLeft ≤
      2 * (calls caller).length - order.count caller := by
  induction order using List.reverseRecOn with
  | nil =>
    rw [List.count_nil, Nat.sub_zero]
    exact Nat.le_of_eq (Nat.zero_add _)
  | append_singleton rest other ih =>
    rw [run_append, List.count_append, List.count_singleton]
    have hturn := turnsLeft_turn numbering (run numbering calls rest) other caller
    simp only [beq_iff_eq]
    exact Nat.le_trans hturn (by omega)

/-- After two turns for each of its calls a caller has all its answers. -/
theorem answered_eq_calls (numbering : Numbering σ) {calls : ι → List String} {order : List ι}
    {caller : ι} (h : 2 * (calls caller).length ≤ order.count caller) :
    (run numbering calls order).answered caller = calls caller := by
  have hleft := turnsLeft_run numbering calls order caller
  rw [Nat.sub_eq_zero_of_le h, Nat.le_zero] at hleft
  have hrun := answered_run numbering calls order caller
  rwa [Caller.unanswered_of_turnsLeft hleft, List.append_nil] at hrun

/-- No answer is ever taken back. -/
theorem answers_prefix_run (numbering : Numbering σ) (calls : ι → List String)
    (earlier later : List ι) :
    (run numbering calls earlier).answers <+: (run numbering calls (earlier ++ later)).answers := by
  rw [run_append]
  exact foldl_turn (P := fun t => (run numbering calls earlier).answers <+: t.answers)
    (fun t caller h => h.trans (answers_prefix_turn numbering t caller)) List.prefix_rfl later

end Sharing

/-! ## The numbers of an interner -/

namespace Interner

open Sharing

variable {ι : Type} {s : Sharing Interner ι}

/-- The answers given so far number the names in the interner. -/
structure Numbers (s : Sharing Interner ι) : Prop where
  /-- No name has been entered twice. -/
  distinct : s.table.names.Nodup
  /-- A number that was given for a name stands for it. -/
  resolves : ∀ answer ∈ s.answers, s.table.resolve? answer.number = some answer.name
  /-- Every number below the size has been given. -/
  given : ∀ number < s.table.size, ∃ answer ∈ s.answers, answer.number = number

namespace Numbers

/-- Before the first turn there is nothing to number. -/
theorem start (calls : ι → List String) : Numbers (Sharing.start numbering calls) where
  distinct := List.nodup_nil
  resolves := by simp [Sharing.start]
  given := by simp [Sharing.start, numbering, empty, size]

/-- The number of a name is found where it has been given for the name. -/
theorem finds (h : Numbers s) : ∀ answer ∈ s.answers,
    s.table.find? answer.name = some answer.number :=
  fun answer hanswer => find?_of_resolve? h.distinct (h.resolves answer hanswer)

/-- A number that has been given is below the size. -/
theorem number_lt (h : Numbers s) : ∀ answer ∈ s.answers, answer.number < s.table.size :=
  fun answer hanswer => (List.getElem?_eq_some_iff.mp (h.resolves answer hanswer)).1

variable [DecidableEq ι] {caller : ι} {name : String} {ahead : List String}

/-- Giving the number that a name has been found to have keeps the numbering. -/
theorem answer_found (h : Numbers s) {number : Nat} (hfind : s.table.find? name = some number) :
    Numbers (s.answer caller name ahead (number, s.table)) where
  distinct := h.distinct
  resolves := by
    intro answer hanswer
    obtain hold | hnew := List.mem_append.mp hanswer
    · exact h.resolves answer hold
    · rw [List.mem_singleton.mp hnew]
      exact resolve?_of_find? hfind
  given := by
    intro other hother
    obtain ⟨answer, hanswer, hnumber⟩ := h.given other hother
    exact ⟨answer, List.mem_append_left _ hanswer, hnumber⟩

/-- Giving the next number to a new name keeps the numbering. -/
theorem answer_new (h : Numbers s) (hname : name ∉ s.table.names) :
    Numbers (s.answer caller name ahead (s.table.size, ⟨s.table.names ++ [name]⟩)) where
  distinct :=
    h.distinct.append (List.nodup_singleton name) (List.disjoint_singleton.mpr hname)
  resolves := by
    intro answer hanswer
    obtain hold | hnew := List.mem_append.mp hanswer
    · rw [resolve?, ← h.resolves answer hold]
      exact List.getElem?_append_left (h.number_lt answer hold)
    · rw [List.mem_singleton.mp hnew]
      exact List.getElem?_concat_length
  given := by
    intro other hother
    have hlength : other < s.table.names.length + 1 := by
      simpa [size, Sharing.answer] using hother
    obtain hless | heq := Nat.lt_succ_iff_lt_or_eq.mp hlength
    · obtain ⟨answer, hanswer, hnumber⟩ := h.given other hless
      exact ⟨answer, List.mem_append_left _ hanswer, hnumber⟩
    · exact ⟨_, List.mem_append_right _ (List.mem_singleton_self _), heq.symm⟩

/-- A turn keeps the numbering. An entry searches again, so it does not matter what has been entered
since the search that failed. -/
theorem turn (h : Numbers s) (caller : ι) : Numbers (Sharing.turn numbering s caller) := by
  obtain ⟨-, hturn⟩ | ⟨name, ahead, -, hturn⟩ |
    ⟨name, ahead, ⟨number, table⟩, -, ⟨hfind, htable⟩ | hentry, hturn⟩ :=
    turn_cases numbering s caller
  · rwa [hturn]
  · rw [hturn]
    exact ⟨h.distinct, h.resolves, h.given⟩
  · obtain rfl : table = s.table := htable
    rw [hturn]
    exact h.answer_found hfind
  · rw [hturn]
    obtain ⟨found, hfind, henter⟩ | ⟨hname, henter⟩ := s.table.enter_cases name
    · rw [hentry.trans henter]
      exact h.answer_found hfind
    · rw [hentry.trans henter]
      exact h.answer_new hname

/-- In whatever order the turns come, the answers number the names. -/
theorem run (calls : ι → List String) (order : List ι) :
    Numbers (Sharing.run numbering calls order) :=
  foldl_turn (fun _ caller h => h.turn caller) (start calls) order

end Numbers

/-- An entry only adds to the names. -/
theorem names_prefix_enter (interner : Interner) (name : String) :
    interner.names <+: (interner.enter name).2.names := by
  obtain ⟨number, -, henter⟩ | ⟨-, henter⟩ := interner.enter_cases name
  · simp only [henter, List.prefix_rfl]
  · rw [henter]
    exact List.prefix_append ..

variable [DecidableEq ι]

/-- A turn only adds to the names. -/
theorem names_prefix_turn (s : Sharing Interner ι) (caller : ι) :
    s.table.names <+: (turn numbering s caller).table.names := by
  obtain ⟨-, hturn⟩ | ⟨name, ahead, -, hturn⟩ |
    ⟨name, ahead, entry, -, ⟨-, htable⟩ | hentry, hturn⟩ := turn_cases numbering s caller
  · simp only [hturn, List.prefix_rfl]
  · simp only [hturn, List.prefix_rfl]
  · simp only [hturn, answer, htable, List.prefix_rfl]
  · rw [hturn, hentry]
    exact s.table.names_prefix_enter name

/-- Turns only add to the names. -/
theorem names_prefix_run (calls : ι → List String) (earlier later : List ι) :
    (run numbering calls earlier).table.names <+:
      (run numbering calls (earlier ++ later)).table.names := by
  rw [run_append]
  exact foldl_turn (P := fun t => (run numbering calls earlier).table.names <+: t.table.names)
    (fun t caller h => h.trans (names_prefix_turn t caller)) List.prefix_rfl later

/-- A turn takes the same course over a table that is read both ways. -/
theorem mirrors_turn {τ : Type} {ops : TwoWay τ} (hops : ops.Lawful) {s : Sharing τ ι}
    {t : Sharing Interner ι} (h : Mirrors ops s t) (caller : ι) :
    Mirrors ops (turn ops.numbering s caller) (turn numbering t caller) := by
  have hsame : s.callers caller = t.callers caller := by rw [h.callers]
  have hanswer {name : String} {ahead : List String} {entry : Nat × τ} {entry' : Nat × Interner}
      (hnumber : entry.1 = entry'.1) (htable : ops.Holds entry.2 entry'.2) :
      Mirrors ops (s.answer caller name ahead entry) (t.answer caller name ahead entry') :=
    ⟨by simp only [answer, h.callers], by simp only [answer, h.answers, hnumber], htable⟩
  match hcaller : t.callers caller with
  | ⟨some name, ahead⟩ =>
    rw [turn_enters hcaller, turn_enters (hsame.trans hcaller)]
    obtain ⟨hnumber, htable⟩ := hops.enter h.table name
    exact hanswer hnumber htable
  | ⟨none, name :: ahead⟩ =>
    have hfind : ops.numbering.find? s.table name = t.table.find? name := h.table.number? name
    cases hnumber : t.table.find? name with
    | some number =>
      rw [turn_finds hcaller hnumber, turn_finds (hsame.trans hcaller) (hfind.trans hnumber)]
      exact hanswer rfl h.table
    | none =>
      rw [turn_misses hcaller hnumber, turn_misses (hsame.trans hcaller) (hfind.trans hnumber)]
      exact ⟨by simp only [h.callers], h.answers, h.table⟩
  | ⟨none, []⟩ =>
    rwa [turn_rests hcaller, turn_rests (hsame.trans hcaller)]

/-- The callers take the same course over a table that is read both ways. -/
theorem mirrors_run {τ : Type} {ops : TwoWay τ} (hops : ops.Lawful) (calls : ι → List String)
    (order : List ι) : Mirrors ops (run ops.numbering calls order) (run numbering calls order) := by
  induction order using List.reverseRecOn with
  | nil => exact ⟨rfl, rfl, hops.holds_empty⟩
  | append_singleton rest caller ih =>
    rw [run_append, run_append]
    exact mirrors_turn hops ih caller

/-- Callers that intern names at once number them together, in whatever order their turns come.
At every point the numbers given are those below the size, and names are only added. Two answers
have the same number exactly when they are for the same name, and from then on the number stands for
the name and is found for it. Every caller is answered in the order of its calls, for all of them
once it has had two turns for each. And none of this comes of the names being a list: over any table
that obeys the laws of a table read both ways, where an insertion may put older pairs out, the calls
take the same course, and the table reads as the names with their numbers. -/
theorem run_isNumbering (calls : ι → List String) (earlier later : List ι) :
    let s : Sharing Interner ι := run numbering calls earlier
    let t : Sharing Interner ι := run numbering calls (earlier ++ later)
    (∀ number, (∃ answer ∈ s.answers, answer.number = number) ↔ number < s.table.size) ∧
      (∀ first ∈ s.answers, ∀ second ∈ t.answers,
        first.number = second.number ↔ first.name = second.name) ∧
      (∀ answer ∈ s.answers, answer ∈ t.answers ∧
        t.table.resolve? answer.number = some answer.name ∧
        t.table.find? answer.name = some answer.number) ∧
      s.table.names <+: t.table.names ∧
      (∀ caller, s.answered caller <+: calls caller ∧
        (2 * (calls caller).length ≤ earlier.count caller → s.answered caller = calls caller)) ∧
      ∀ (τ : Type) (ops : TwoWay τ), ops.Lawful →
        Mirrors ops (run ops.numbering calls earlier) s := by
  intro s t
  have hs : Numbers s := .run calls earlier
  have ht : Numbers t := .run calls (earlier ++ later)
  have hkept {answer : Answer ι} (hanswer : answer ∈ s.answers) : answer ∈ t.answers :=
    (answers_prefix_run numbering calls earlier later).subset hanswer
  refine ⟨fun number => ⟨?_, hs.given number⟩, ?_, ?_, names_prefix_run calls earlier later, ?_,
    fun τ ops hops => mirrors_run hops calls earlier⟩
  · rintro ⟨answer, hanswer, rfl⟩
    exact hs.number_lt answer hanswer
  · intro first hfirst second hsecond
    have hfound := ht.finds first (hkept hfirst)
    have hresolved := ht.resolves first (hkept hfirst)
    constructor
    · intro heq
      rw [heq, ht.resolves second hsecond] at hresolved
      exact (Option.some.inj hresolved).symm
    · intro heq
      rw [heq, ht.finds second hsecond] at hfound
      exact (Option.some.inj hfound).symm
  · intro answer hanswer
    exact ⟨hkept hanswer, ht.resolves answer (hkept hanswer), ht.finds answer (hkept hanswer)⟩
  · intro caller
    exact ⟨⟨_, answered_run numbering calls earlier caller⟩, answered_eq_calls numbering⟩

/-- Both callers miss the name before either enters it into the list of pairs, and both get its one
number. -/
theorem run_isNumbering_both_miss :
    Pairs.twoWay.Lawful ∧
      (run Pairs.twoWay.numbering (fun _ : Bool => ["voice"]) [true, false, true, false]).answers =
        [⟨true, "voice", 0⟩, ⟨false, "voice", 0⟩] := by
  obtain ⟨-, -, -, -, -, hmirrors⟩ :=
    run_isNumbering (fun _ : Bool => ["voice"]) [true, false, true, false] []
  refine ⟨Pairs.lawful, ?_⟩
  rw [(hmirrors Pairs Pairs.twoWay Pairs.lawful).answers]
  decide

end Interner

end SoundLaw
