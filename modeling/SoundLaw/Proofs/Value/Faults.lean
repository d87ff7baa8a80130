import SoundLaw.Eval.Assignment
import SoundLaw.Eval.Native
import SoundLaw.Proofs.Fault.Classes

/-!
# Faults of operations on values

Operations on values, and readings of transcriptions, fail with evaluation faults only.
-/

namespace SoundLaw

open FailsWith

namespace Table

/-- Diacritics fail to apply with evaluation faults. -/
theorem failsWith_applyMarks (table : Table) (symbol : String) (matrix : Matrix)
    (applied : List Diacritic) (marks : List Char) :
    FailsWith .evaluation (table.applyMarks symbol matrix applied marks) := by
  induction marks generalizing symbol matrix applied with
  | nil => exact ok _
  | cons mark rest ih =>
    unfold applyMarks
    split
    · exact ih _ _ _
    · exact error rfl

/-- A segment fails to be read with an evaluation fault. -/
theorem failsWith_readSegment (table : Table) (run : String) (marks : List Char) :
    FailsWith .evaluation (table.readSegment run marks) := by
  unfold readSegment
  split
  · exact error rfl
  · exact (table.failsWith_applyMarks _ _ _ marks).bind fun _ => ok _

/-- A round of reading fails with an evaluation fault. -/
theorem Reading.failsWith_advance (table : Table) (reading : Reading) :
    FailsWith .evaluation (reading.advance table) := by
  unfold advance
  split
  · exact ok _
  · split
    · exact ok _
    · dsimp only
      split
      · next fault hfault => exact error (table.failsWith_readSegment _ _ fault hfault)
      · exact ok _

/-- A reading that is over failed, if it did, with an evaluation fault. -/
theorem failsWith_readOn (table : Table) (reading : Reading) (outcome : Except Fault Reading)
    (houtcome : table.readOn reading = some outcome) : FailsWith .evaluation outcome := by
  refine readOn.partial_correctness table (fun _ outcome => FailsWith .evaluation outcome) ?_
    reading outcome houtcome
  intro readOn ih reading outcome houtcome
  split at houtcome
  · cases houtcome
    exact ok reading
  · split at houtcome
    · next fault hfault =>
      cases houtcome
      exact error (reading.failsWith_advance table fault hfault)
    · exact ih _ _ houtcome

/-- A transcription fails to be read with an evaluation fault. -/
theorem failsWith_readWord {table : Table} {transcription : String} {outcome : Except Fault Word}
    (houtcome : table.readWord transcription = some outcome) : FailsWith .evaluation outcome := by
  obtain ⟨last, hlast, rfl⟩ := Option.map_eq_some_iff.mp houtcome
  refine (table.failsWith_readOn _ last hlast).bind fun reading => ?_
  unfold Reading.conclude
  split
  · exact ok _
  · exact error rfl

end Table

namespace Value

/-- A value that is no truth value is refused. -/
theorem failsWith_asBool (operation : String) (value : Value) :
    FailsWith .evaluation (value.asBool operation) := by
  unfold asBool
  split
  · exact ok _
  · exact error rfl

/-- A value that is no number is refused. -/
theorem failsWith_asNumber (operation : String) (value : Value) :
    FailsWith .evaluation (value.asNumber operation) := by
  unfold asNumber
  split
  · exact ok _
  · exact error rfl

/-- A value that is no index is refused. -/
theorem failsWith_asIndex (length : Nat) (value : Value) :
    FailsWith .evaluation (value.asIndex length) := by
  refine (value.failsWith_asNumber _).bind fun number => ?_
  split
  · exact ok _
  · exact error rfl

/-- A number that is not finite is refused. -/
theorem failsWith_finite (operation : String) (x : Float) :
    FailsWith .evaluation (finite operation x) := by
  unfold finite
  split
  · exact ok _
  · exact error rfl

/-- An operation on numbers refuses everything else. -/
theorem failsWith_numeric (operation : String) (f : Float → Float → Float) (a b : Value) :
    FailsWith .evaluation (numeric operation f a b) := by
  unfold numeric
  split
  · exact failsWith_finite _ _
  · exact error rfl

/-- An addition refuses values that do not go together. -/
theorem failsWith_add (a b : Value) : FailsWith .evaluation (a.add b) := by
  unfold add
  split
  case h_1 => exact failsWith_finite _ _
  case h_6 => exact error rfl
  all_goals exact ok _

/-- The arithmetic of an operator fails with evaluation faults. -/
theorem failsWith_arithmetic {operator : Operator} {f : Value → Value → Except Fault Value}
    (hf : arithmetic? operator = some f) (a b : Value) : FailsWith .evaluation (f a b) := by
  unfold arithmetic? at hf
  split at hf
  case h_1 =>
    cases hf
    exact a.failsWith_add b
  case h_7 => cases hf
  all_goals
    cases hf
    exact failsWith_numeric _ _ a b

/-- A comparison refuses values without an order. -/
theorem failsWith_compare (accepts : Ordering → Bool) (a b : Value) :
    FailsWith .evaluation (compare accepts a b) := by
  refine map ?_ _
  unfold order?
  split
  · exact ok _
  · exact ok _
  · exact error rfl

/-- A bound that is not whole is refused. -/
theorem failsWith_rangeBound (x : Float) : FailsWith .evaluation (rangeBound x) := by
  unfold rangeBound
  split
  · exact ok _
  · exact error rfl

/-- A range that is too long is refused. -/
theorem failsWith_range (first last : Float) : FailsWith .evaluation (range first last) := by
  refine (failsWith_rangeBound first).bind fun start => ?_
  refine (failsWith_rangeBound last).bind fun stop => ?_
  dsimp only
  split
  · exact error rfl
  · exact ok _

/-- A matrix is made of features and matrices only. -/
theorem failsWith_matrixOf (table : Table) (elements : List Value) :
    FailsWith .evaluation (matrixOf table elements) := by
  refine foldlM (fun m element => ?_) _ _
  split
  · exact ok _
  · exact ok _
  · exact error rfl

/-- Something that has no phones is refused. -/
theorem failsWith_phonesOf (operation : String) (value : Value) :
    FailsWith .evaluation (value.phonesOf operation) := by
  unfold phonesOf
  split
  · exact ok _
  · exact ok _
  · refine mapM (fun element => ?_) _
    unfold asPhone
    split
    · exact ok _
    · exact error rfl
  · exact error rfl

/-- A change that does not suit what is to be changed is refused. -/
theorem failsWith_transform (table : Table) (a b : Value) :
    FailsWith .evaluation (a.transform table b) := by
  unfold transform
  split
  · exact ok _
  · exact ok _
  · refine map (foldlM (fun w value => ?_) _ _) _
    split
    · exact ok _
    · exact error rfl
  · split
    · exact ok _
    · exact error rfl
  · split
    · exact ok _
    · exact error rfl
  · exact error rfl

/-- Only phones are contrasted. -/
theorem failsWith_contrast (a b : Value) : FailsWith .evaluation (a.contrast b) := by
  unfold contrast
  split
  · exact ok _
  · exact error rfl

/-- Only phones are searched. -/
theorem failsWith_among (pattern phones : Value) :
    FailsWith .evaluation (pattern.among phones) := by
  unfold among
  split
  · exact (phones.failsWith_phonesOf _).map _
  · exact error rfl

/-- Something that spells no word is refused. -/
theorem failsWith_wordOf {table : Table} {value : Value} {outcome : Except Fault Word}
    (houtcome : value.wordOf table = some outcome) : FailsWith .evaluation outcome := by
  unfold wordOf at houtcome
  split at houtcome
  · cases houtcome
    exact ok _
  · exact Table.failsWith_readWord houtcome
  · cases houtcome
    exact (failsWith_phonesOf _ _).map _

/-- Something that is no segment is refused in a rule. -/
theorem failsWith_asSegment (value : Value) : FailsWith .evaluation value.asSegment := by
  unfold asSegment
  split
  case h_4 => exact error rfl
  all_goals exact ok _

/-- Something that is neither a segment nor a boundary is refused in a context. -/
theorem failsWith_asEntry (side : Side) (value : Value) :
    FailsWith .evaluation (value.asEntry side) := by
  unfold asEntry
  split
  · refine map ?_ _
    unfold Boundary.read
    split
    case h_7 => exact error rfl
    all_goals exact ok _
  · exact (failsWith_asSegment _).map _

/-- A context is refused when an entry of it is. -/
theorem failsWith_asContext (side : Side) (value : Value) :
    FailsWith .evaluation (value.asContext side) := by
  unfold asContext
  split
  · exact ok _
  · exact mapM (failsWith_asEntry side) _
  · exact ok _
  · exact (failsWith_asEntry side _).map _

/-- A rule is refused when a part of it is. -/
theorem failsWith_ruleOf (kind : RuleKind) (search replacement left right : Value) :
    FailsWith .evaluation (ruleOf kind search replacement left right) := by
  have hsearch : FailsWith .evaluation search.asSearch := by
    unfold asSearch
    split
    · exact ok _
    · exact (failsWith_asSegment _).map _
  have hreplacement : FailsWith .evaluation replacement.asReplacement := by
    unfold asReplacement
    split
    · exact ok _
    · exact mapM failsWith_asSegment _
    · exact ok _
    · exact (failsWith_asSegment _).map _
  refine hsearch.bind fun _ => hreplacement.bind fun _ => ?_
  refine (left.failsWith_asContext _).bind fun _ => (right.failsWith_asContext _).bind fun _ => ?_
  exact ok _

/-- Something without elements is refused. -/
theorem failsWith_elements (operation : String) (value : Value) :
    FailsWith .evaluation (value.elements operation) := by
  unfold elements
  split
  case h_7 => exact error rfl
  all_goals exact ok _

/-- Something that writes no number is refused. -/
theorem failsWith_numberOf (value : Value) : FailsWith .evaluation value.numberOf := by
  unfold numberOf
  split
  · exact ok _
  · exact ok _
  · split
    · exact ok _
    · exact error rfl
  · exact error rfl

/-- Something that is no matrix and no part of one is refused. -/
theorem failsWith_matrixFrom (table : Table) (value : Value) :
    FailsWith .evaluation (value.matrixFrom table) := by
  unfold matrixFrom
  split
  · exact ok _
  · exact failsWith_matrixOf table _
  · exact failsWith_matrixOf table _

/-- Something without parts is refused. -/
theorem failsWith_size (value : Value) : FailsWith .evaluation value.size := by
  unfold size
  split
  case h_6 => exact error rfl
  all_goals exact ok _

/-- A part that is not there is refused. -/
theorem failsWith_part (table : Table) (value index : Value) :
    FailsWith .evaluation (value.part table index) := by
  unfold part
  split
  · exact (index.failsWith_asIndex _).bind fun _ => ok _
  · exact (index.failsWith_asIndex _).bind fun _ => ok _
  · exact (index.failsWith_asIndex _).bind fun _ => ok _
  · split
    · split
      · exact ok _
      · exact error rfl
    · exact error rfl
  · exact error rfl

/-- A walk below a variable fails with evaluation faults when the update at its end does. -/
theorem failsWith_updateAt {update : Value → Except Fault Value}
    (hupdate : ∀ value, FailsWith .evaluation (update value)) (path : List Step)
    (current : Value) : FailsWith .evaluation (updateAt update path current).1 := by
  fun_induction updateAt update path current with
  | case1 current value hvalue => exact ok value
  | case2 current fault hfault => exact error (hupdate current fault hfault)
  | case3 step rest elements fault hfault => exact error (failsWith_asIndex _ _ fault hfault)
  | case4 step rest elements i hindex outcome element heq ih =>
    rw [heq] at ih
    exact ih
  | case5 step rest entries outcome value heq ih =>
    rw [heq] at ih
    exact ih
  | case6 => exact error rfl

end Value

/-- The update of an assignment fails with evaluation faults. -/
theorem Operator.failsWith_updated (operator : Operator) (assigned current : Value) :
    FailsWith .evaluation (operator.updated assigned current) := by
  unfold updated
  split
  · next f hf =>
    obtain ⟨_, -, hf⟩ := Option.bind_eq_some_iff.mp hf
    exact Value.failsWith_arithmetic hf current assigned
  · exact ok _

/-- A second argument is refused. -/
theorem failsWith_oneArgument (arguments : List Value) :
    FailsWith .evaluation (oneArgument arguments) := by
  unfold oneArgument
  split
  · exact ok _
  · exact ok _
  · exact error rfl

/-- A third argument is refused. -/
theorem failsWith_twoArguments (arguments : List Value) :
    FailsWith .evaluation (twoArguments arguments) := by
  unfold twoArguments
  split
  case h_4 => exact error rfl
  all_goals exact ok _

/-- A function on numbers fails with evaluation faults. -/
theorem failsWith_numericCommand (name : String) (f : Float → Float) (arguments : List Value) :
    FailsWith .evaluation (numericCommand name f arguments) := by
  refine (failsWith_oneArgument arguments).bind fun argument => ?_
  exact (argument.failsWith_asNumber name).bind fun x => Value.failsWith_finite name (f x)

end SoundLaw
