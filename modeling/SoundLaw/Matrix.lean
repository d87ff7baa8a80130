import SoundLaw.Feature
import SoundLaw.MajorClasses

/-!
# Feature matrices

A matrix specifies finitely many features. Its entries keep the order in which they were
written, which shows when the matrix is printed and when it is replayed as a change, but two
matrices are the same when they specify the same features alike.

Setting a feature keeps the classes consistent: a present major feature specifies all its
dependents, any other value of it clears them, and a present dependent makes its major present.
-/

namespace SoundLaw

/-- A finite specification of features. -/
structure Matrix where
  /-- The specified features in the order of writing. -/
  entries : List Feature
deriving Repr, Inhabited

namespace Matrix

/-- The matrix that specifies nothing. -/
def empty : Matrix := ⟨[]⟩

/-- The quality of a feature, unset if it has no entry. -/
def get (m : Matrix) (name : String) : Quality :=
  match m.entries.find? (·.name == name) with
  | some entry => entry.quality
  | none => .unset

/-- The number of specified features. -/
def size (m : Matrix) : Nat :=
  m.entries.length

/-- Whether some entry is a pattern variable. -/
def hasVariables (m : Matrix) : Bool :=
  m.entries.any (·.quality.isVariable)

/-- Overwrites the first entry of a feature, or appends one. -/
def overwrite (name : String) (quality : Quality) : List Feature → List Feature
  | [] => [⟨name, quality⟩]
  | entry :: rest =>
    if entry.name = name then ⟨name, quality⟩ :: rest
    else entry :: overwrite name quality rest

/-- Writes one entry without looking at the classes; writing unset removes it. -/
def put (m : Matrix) (name : String) (quality : Quality) : Matrix :=
  if quality = .unset then ⟨m.entries.eraseP (·.name == name)⟩
  else ⟨overwrite name quality m.entries⟩

/-- Makes the unspecified ones among some features absent. -/
def fill (m : Matrix) (names : List String) : Matrix :=
  names.foldl (fun m name => if m.get name = .unset then m.put name .minus else m) m

/-- Removes the entries of some features. -/
def clear (m : Matrix) (names : List String) : Matrix :=
  names.foldl (fun m name => m.put name .unset) m

/-- Sets a feature and keeps its class consistent. A variable stands for a value that is not
known yet, so it has no consequences. -/
def set (m : Matrix) (classes : MajorClasses) (name : String) (quality : Quality) : Matrix :=
  let written := m.put name quality
  if quality.isVariable then written
  else if classes.isMajor name then
    if quality = .plus then written.fill (classes.dependents name)
    else written.clear (classes.dependents name)
  else if quality = .plus then
    match classes.governor name with
    | some major => (written.put major .plus).fill (classes.dependents major)
    | none => written
  else written

/-- Replays the entries of a change one after another. -/
def transform (m : Matrix) (classes : MajorClasses) (delta : Matrix) : Matrix :=
  delta.entries.foldl (fun m entry => m.set classes entry.name entry.quality) m

/-- Whether every entry of a pattern, wildcards apart, is found here alike. -/
def hasFeatures (m pattern : Matrix) : Bool :=
  (pattern.entries.filter (·.quality != .any)).all fun entry => m.get entry.name == entry.quality

/-- The entries of both matrices; features on which they differ become wildcards. -/
def union (m other : Matrix) : Matrix :=
  other.entries.foldl
    (fun result entry =>
      let present := result.get entry.name
      if present = .unset then result.put entry.name entry.quality
      else if present = entry.quality then result
      else result.put entry.name .any)
    m

/-- Replaces a pattern variable by the captured value of each feature that has one. -/
def substitute (m : Matrix) (pattern : Quality) (captured : List (String × Quality)) : Matrix :=
  m.entries.foldl
    (fun result entry =>
      if entry.quality = pattern then
        match captured.lookup entry.name with
        | some value => result.put entry.name value
        | none => result
      else result)
    m

/-- The matrix without its variables. -/
def withoutVariables (m : Matrix) : Matrix :=
  ⟨m.entries.filter (!·.quality.isVariable)⟩

/-- The matrix with one feature. -/
def ofFeature (f : Feature) : Matrix :=
  empty.put f.name f.quality

/-- Whether two matrices specify the same features alike, in whatever order. -/
def same (a b : Matrix) : Bool :=
  a.entries.length == b.entries.length &&
    a.entries.all fun entry => b.get entry.name == entry.quality

instance : BEq Matrix := ⟨same⟩

/-- The written form of a matrix. -/
def render (m : Matrix) : String :=
  "[" ++ ", ".intercalate (m.entries.map Feature.render) ++ "]"

end Matrix

end SoundLaw
