import SoundLaw.Session

/-!
# The shell

The shell runs scripts and shows their outcome: nothing for null, one line for each element of a
vector, and one line for anything else, faults included. Printed lines and shown lines appear in
the order in which they come about.
-/

namespace SoundLaw.Shell

open Eval

/-- Shows the text of one value on a line of its own, or the fault in finding it. -/
def showValue (host : Host) (value : Value) : Eval Unit := do
  match ← outcome (textWithin host Session.depth value) with
  | .ok text => say text
  | .error fault => say fault.message

/-- Shows several values. -/
def showValues (host : Host) : List Value → Eval Unit
  | [] => return ()
  | value :: rest => do
    showValue host value
    showValues host rest

/-- Shows the outcome of a unit and holds on to it until all of it is shown. -/
def showOutcome (host : Host) (value : Value) : Eval Unit :=
  holding (.value value) <|
    match value with
    | .null => return ()
    | .vector elements => showValues host elements
    | other => showValue host other

/-- Runs a unit and shows its outcome. -/
def showUnit (session : Session) (source : String) : Session :=
  match session.run source with
  | (.ok value, session) => (session.perform (showOutcome session.host value)).2
  | (.error halt, session) => (session.perform (say halt.message)).2

/-- The script that the shell is given. -/
inductive Script where
  /-- None. -/
  | absent
  /-- One that cannot be read, and why. -/
  | unreadable (path reason : String)
  | source (text : String)

/-- What the shell is given as its phone table. -/
inductive TableSource where
  /-- One that cannot be read, and why. -/
  | unreadable (path reason : String)
  | source (text : String)

/-- The table that the shell works with. -/
def TableSource.load : TableSource → Except Fault Table
  | unreadable path reason => .error (.startup (.unavailable path reason))
  | source text => Table.ofText text

/-- A session in which the script has been run and shown, or the complaint that ends the shell. -/
def start (source : TableSource) (phonology : Bool) (script : Script) : Except String Session :=
  match source.load with
  | .error fault => .error fault.message
  | .ok table =>
    let session := Session.start table phonology
    match script with
    | .absent => .ok session
    | .unreadable path reason =>
      .error ("Cannot read script " ++ backquoted path ++ ": " ++ reason)
    | .source text => .ok (showUnit session text)

end SoundLaw.Shell
