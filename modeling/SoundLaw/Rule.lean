import SoundLaw.Table.Registry

/-!
# Sound changes

A rule changes the phones of a word that match its search between its left and right context.
The context is a list of segments and boundaries on each side; boundaries hold at the gap that
the segments between them and the matched phone leave. Variables in the patterns take their
values from the matched phone and its neighbours. A word is changed in a single pass from left
to right, and matching always looks at the word as it was.
-/

namespace SoundLaw

/-- How a match affects its neighbours. -/
inductive RuleKind where
  | simple
  /-- The next phone is skipped after a match. -/
  | assimilateForward
  /-- The last phone written is dropped before the replacement. -/
  | assimilateBackward
deriving DecidableEq, Repr, Inhabited

namespace RuleKind

/-- The name that starts a rule of the kind. -/
def name : RuleKind → String
  | simple => "S"
  | assimilateForward => "Af"
  | assimilateBackward => "Ab"

/-- The kind of a given name. -/
def ofName? (text : String) : Option RuleKind :=
  [simple, assimilateForward, assimilateBackward].find? (·.name == text)

end RuleKind

/-- A condition on the gap between two phones. -/
inductive Boundary where
  | wordStart
  | wordEnd
  | syllableEdge
  | morphemeEdge
deriving DecidableEq, Repr, Inhabited

namespace Boundary

/-- Whether a boundary holds at the gap before the phone with index `gap`. -/
def holdsAt (boundary : Boundary) (word : Word) (gap : Nat) : Bool :=
  let edge := gap == 0 || gap == word.length
  match boundary with
  | wordStart => gap == 0
  | wordEnd => gap == word.length
  | syllableEdge => edge || word.marker gap == .syllable || word.marker gap == .morpheme
  | morphemeEdge => edge || word.marker gap == .morpheme

/-- The written form of a boundary. -/
def symbol : Boundary → String
  | wordStart | wordEnd => "#"
  | syllableEdge => "$"
  | morphemeEdge => "+"

end Boundary

/-- A phone literal or a feature pattern. -/
inductive Segment where
  | pattern (matrix : Matrix)
  | literal (phone : Phone)
deriving Repr, Inhabited

namespace Segment

/-- Segments are the same when both are patterns or both literals with the same matrix. -/
def same : Segment → Segment → Bool
  | pattern a, pattern b => a == b
  | literal a, literal b => a == b
  | _, _ => false

instance : BEq Segment := ⟨same⟩

/-- The written form of a segment. -/
def render : Segment → String
  | pattern matrix => matrix.render
  | literal phone => phone.symbol

end Segment

/-- An element of a context. -/
inductive ContextEntry where
  | segment (segment : Segment)
  | boundary (boundary : Boundary)
deriving Repr, Inhabited

namespace ContextEntry

/-- Entries are the same when both are the same segment or the same boundary. -/
def same : ContextEntry → ContextEntry → Bool
  | segment a, segment b => a == b
  | boundary a, boundary b => a == b
  | _, _ => false

instance : BEq ContextEntry := ⟨same⟩

/-- The written form of an entry. -/
def render : ContextEntry → String
  | segment s => s.render
  | boundary b => b.symbol

/-- The pattern of an entry, if it is one. -/
def pattern? : ContextEntry → Option Matrix
  | segment (.pattern matrix) => some matrix
  | _ => none

end ContextEntry

/-- The values that pattern variables take around one phone. -/
structure Captures where
  /-- Values on the matched phone. -/
  alpha : List (String × Quality)
  /-- Values on the phone before. -/
  beta : List (String × Quality)
  /-- Values on the phone after. -/
  gamma : List (String × Quality)
deriving Repr, Inhabited

namespace Captures

/-- The values that a phone gives to the features which a pattern marks with a variable. -/
def ofPattern (variableMark : Quality) (source : Phone) (pattern : Matrix) :
    List (String × Quality) :=
  (pattern.entries.filter (·.quality == variableMark)).map fun entry =>
    (entry.name, source.matrix.get entry.name)

/-- A pattern with the captured values in place of its variables. -/
def instantiate (captures : Captures) (pattern : Matrix) : Matrix :=
  ((pattern.substitute .alpha captures.alpha).substitute .beta captures.beta).substitute .gamma
    captures.gamma

/-- Whether a segment matches a phone. -/
def fits (captures : Captures) (phone : Phone) : Segment → Bool
  | .literal literal => literal == phone
  | .pattern pattern => phone.matrix.hasFeatures (captures.instantiate pattern)

end Captures

/-- A sound change. -/
structure Rule where
  /-- How a match affects its neighbours. -/
  kind : RuleKind
  /-- What is changed; a rule without it inserts phones before the matched one. -/
  search : Option Segment
  /-- What has to stand before, in the order of writing. -/
  left : List ContextEntry
  /-- What has to stand after. -/
  right : List ContextEntry
  /-- What is written instead. -/
  replacement : List Segment
deriving Repr, Inhabited

namespace Rule

/-- Rules are the same when all their parts are. -/
def same (a b : Rule) : Bool :=
  a.kind == b.kind && a.search == b.search && a.left == b.left && a.right == b.right &&
    a.replacement == b.replacement

instance : BEq Rule := ⟨same⟩

/-- The index of the first phone of the right context when the phone at `index` is matched. -/
def afterFocus (rule : Rule) (index : Nat) : Nat :=
  if rule.search.isSome then index + 1 else index

/-- The values that the variables of a rule take around the phone at an index. -/
def captures (rule : Rule) (word : Word) (index : Nat) : Captures where
  alpha :=
    match rule.search, word.phone? index with
    | some (.pattern search), some current => Captures.ofPattern .alpha current search
    | _, _ => []
  beta :=
    match if index = 0 then none else word.phone? (index - 1) with
    | some preceding =>
      (rule.left.filterMap ContextEntry.pattern?).flatMap (Captures.ofPattern .beta preceding)
    | none => []
  gamma :=
    match word.phone? (rule.afterFocus index) with
    | some following =>
      (rule.right.filterMap ContextEntry.pattern?).flatMap (Captures.ofPattern .gamma following)
    | none => []

/-- Whether a left context, nearest entry first, holds before a gap. -/
def holdsBefore (captures : Captures) (word : Word) : Nat → List ContextEntry → Bool
  | _, [] => true
  | gap, .boundary boundary :: rest =>
    boundary.holdsAt word gap && holdsBefore captures word gap rest
  | 0, .segment _ :: _ => false
  | gap + 1, .segment segment :: rest =>
    match word.phone? gap with
    | some phone => captures.fits phone segment && holdsBefore captures word gap rest
    | none => false

/-- Whether a right context holds after a gap. -/
def holdsAfter (captures : Captures) (word : Word) : Nat → List ContextEntry → Bool
  | _, [] => true
  | gap, .boundary boundary :: rest =>
    boundary.holdsAt word gap && holdsAfter captures word gap rest
  | gap, .segment segment :: rest =>
    match word.phone? gap with
    | some phone => captures.fits phone segment && holdsAfter captures word (gap + 1) rest
    | none => false

/-- Whether the rule applies to the phone at an index. -/
def applies (rule : Rule) (word : Word) (index : Nat) (captures : Captures) : Bool :=
  match word.phone? index with
  | none => false
  | some current =>
    (match rule.search with
      | some search => captures.fits current search
      | none => true) &&
      holdsBefore captures word index rule.left.reverse &&
      holdsAfter captures word (rule.afterFocus index) rule.right

/-- The phone that a replacement segment makes of the matched phone. -/
def realize (table : Table) (captures : Captures) (phone : Phone) : Segment → Phone
  | .literal literal => literal
  | .pattern pattern =>
    table.transform phone (captures.instantiate pattern).withoutVariables true

/-- What is written for a matched phone: the replacements, then the phone itself if the rule
only inserts. The marker goes to the first of them. -/
def replaced (rule : Rule) (table : Table) (captures : Captures) (marker : Marker)
    (phone : Phone) : List (Marker × Phone) :=
  let written := rule.replacement.map (realize table captures phone)
  let phones := if rule.search.isNone then written ++ [phone] else written
  match phones with
  | [] => []
  | first :: rest => (marker, first) :: rest.map fun phone => (Marker.plain, phone)

/-- Changes a word from an index on, given what has been written so far. -/
def changeFrom (rule : Rule) (table : Table) (word : Word) (index : Nat)
    (output : List (Marker × Phone)) : List (Marker × Phone) :=
  if h : index < word.slots.length then
    let (marker, phone) := word.slots[index]
    let captures := rule.captures word index
    if rule.applies word index captures then
      let kept := if rule.kind = .assimilateBackward then output.dropLast else output
      let next := if rule.kind = .assimilateForward then index + 2 else index + 1
      changeFrom rule table word next (kept ++ rule.replaced table captures marker phone)
    else changeFrom rule table word (index + 1) (output ++ [(marker, phone)])
  else output
termination_by word.slots.length - index
decreasing_by
  · split <;> omega
  · omega

/-- Applies a rule across a word. -/
def transform (rule : Rule) (table : Table) (word : Word) : Word :=
  ⟨rule.changeFrom table word 0 []⟩

/-- The written form of a rule. -/
def render (rule : Rule) : String :=
  let search :=
    match rule.search with
    | some segment => segment.render
    | none => "null"
  let side (entries : List ContextEntry) : String :=
    " ".intercalate (entries.map ContextEntry.render)
  let change := rule.kind.name ++ " |> " ++ search ++ " -> (" ++
    ", ".intercalate (rule.replacement.map Segment.render) ++ ")"
  if rule.left.isEmpty && rule.right.isEmpty then change
  else change ++ " / " ++ side rule.left ++ " _ " ++ side rule.right

end Rule

end SoundLaw
