import SoundLaw.Shell
import SoundLaw.Shell.Arguments

/-!
# The command line

Reads the phone table and the script, shows the outcome of the script, and then shows the
outcome of each line that is read, until the input ends.
-/

namespace SoundLaw.Shell

/-- The text in a file, or why it cannot be read. -/
def readText (path : String) : IO (Except String String) := do
  try
    return .ok (← IO.FS.readFile path)
  catch problem =>
    return .error (toString problem)

/-- The phone table in a file. -/
def readTable (path : String) : IO TableSource := do
  match ← readText path with
  | .ok text => return .source text
  | .error reason => return .unreadable path reason

/-- The script in a file. -/
def readScript : Option String → IO Script
  | none => return .absent
  | some path => do
    match ← readText path with
    | .ok text => return .source text
    | .error reason => return .unreadable path reason

/-- Writes the lines that a session has printed. -/
def writePrinted (session : Session) : IO Session := do
  let (lines, session) := session.takePrinted
  for line in lines do
    IO.println line
  return session

/-- Shows the outcome of each line that is read. -/
partial def readLines (input : IO.FS.Stream) (session : Session) : IO Unit := do
  IO.print ">>> "
  (← IO.getStdout).flush
  let line ← input.getLine
  if line.isEmpty then return ()
  let session ← writePrinted (showUnit session line)
  readLines input session

/-- Does what the arguments ask for and gives back the status of the program. -/
def perform (arguments : Arguments) : IO UInt32 := do
  let table ← readTable (arguments.phones.getD "")
  let script ← readScript arguments.script
  match Shell.start table arguments.phonology script with
  | .error complaint =>
    IO.eprintln complaint
    return 1
  | .ok session =>
    let session ← writePrinted session
    if arguments.reads then
      readLines (← IO.getStdin) session
      IO.println "Exiting"
    return 0

end SoundLaw.Shell

/-- Runs the shell. -/
def main (words : List String) : IO UInt32 := do
  match SoundLaw.Shell.Arguments.read words with
  | .error complaint =>
    IO.eprintln ("error: " ++ complaint)
    return 2
  | .ok arguments => SoundLaw.Shell.perform arguments
