/-!
# Arguments of the shell

The shell takes the path of a phone table and some options in any order. What follows two
dashes on their own is never an option.
-/

namespace SoundLaw.Shell

/-- What the shell is asked to do. -/
structure Arguments where
  /-- The path of the phone table. -/
  phones : Option String
  /-- The path of a script to run first. -/
  script : Option String
  /-- Whether phonological notation is accepted. -/
  phonology : Bool
  /-- Whether details of the evaluation are wanted; there are none to show. -/
  isVerbose : Bool
  /-- Whether lines are read after the script. -/
  reads : Bool
deriving DecidableEq, Repr

namespace Arguments

/-- What the shell does when it is not asked for anything. -/
def unasked : Arguments := ⟨none, none, true, false, true⟩

/-- Takes the path of the phone table. -/
def takePath (arguments : Arguments) (path : String) : Except String Arguments :=
  match arguments.phones with
  | none => .ok { arguments with phones := some path }
  | some _ => .error ("unexpected argument '" ++ path ++ "' found")

/-- Takes the path of the script. -/
def takeScript (arguments : Arguments) (path : String) : Except String Arguments :=
  match arguments.script with
  | none => .ok { arguments with script := some path }
  | some _ => .error "the argument '--script <SCRIPT>' cannot be used multiple times"

/-- Takes an option without a value, or the path of the phone table. -/
def takeWord (arguments : Arguments) (word : String) : Except String Arguments :=
  if word = "--no-phonology" then .ok { arguments with phonology := false }
  else if word = "--no-repl" then .ok { arguments with reads := false }
  else if word = "--verbose" || word = "-v" then .ok { arguments with isVerbose := true }
  else if word.startsWith "--script=" then
    arguments.takeScript (String.ofList (word.toList.drop "--script=".length))
  else if word.startsWith "-" && word != "-" then
    .error ("unexpected argument '" ++ word ++ "' found")
  else arguments.takePath word

/-- Takes words one after another. -/
def takeAll (arguments : Arguments) : List String → Except String Arguments
  | [] => .ok arguments
  | "--" :: rest => rest.foldlM takePath arguments
  | "--script" :: path :: rest | "-s" :: path :: rest => do
    takeAll (← arguments.takeScript path) rest
  | ["--script"] | ["-s"] => .error "a value is required for '--script <SCRIPT>'"
  | word :: rest => do takeAll (← arguments.takeWord word) rest

/-- Reads the words of a command line. -/
def read (words : List String) : Except String Arguments := do
  let arguments ← unasked.takeAll words
  if arguments.phones.isNone then throw "the path of a phone table is required"
  return arguments

end Arguments

end SoundLaw.Shell
