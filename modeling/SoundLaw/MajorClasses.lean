/-!
# Major classes

Some features govern others: a place such as the coronals governs the features that only make
sense for it. A class is opened by its major feature, and dependents are added to it one after
another. When a dependent is added to several classes, the latest one governs it.
-/

namespace SoundLaw

/-- Which features govern which. -/
structure MajorClasses where
  /-- The features that were opened as classes. -/
  majors : List String
  /-- The additions in order, each a class and its new dependent. -/
  members : List (String × String)
deriving DecidableEq, Repr, Inhabited

namespace MajorClasses

/-- No class at all. -/
def empty : MajorClasses := ⟨[], []⟩

/-- Opens a class; opening it twice changes nothing. -/
def addClass (classes : MajorClasses) (major : String) : MajorClasses :=
  if classes.majors.contains major then classes
  else { classes with majors := classes.majors ++ [major] }

/-- Adds a dependent to a class, opening the class if need be. -/
def addDependent (classes : MajorClasses) (major dependent : String) : MajorClasses :=
  let opened := classes.addClass major
  { opened with members := opened.members ++ [(major, dependent)] }

/-- Whether a feature is the major feature of a class. -/
def isMajor (classes : MajorClasses) (feature : String) : Bool :=
  classes.majors.contains feature || classes.members.any (·.1 == feature)

/-- The dependents of a class in the order of their addition. -/
def dependents (classes : MajorClasses) (major : String) : List String :=
  (classes.members.filter (·.1 == major)).map (·.2)

/-- The class that governs a feature: the one it was added to last. -/
def governor (classes : MajorClasses) (feature : String) : Option String :=
  (classes.members.reverse.find? (·.2 == feature)).map (·.1)

end MajorClasses

end SoundLaw
