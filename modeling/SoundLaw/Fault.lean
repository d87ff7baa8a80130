import SoundLaw.Position

/-!
# Faults

Every way in which reading a table, compiling a unit or evaluating it can fail. A compilation
fault always knows its place. An evaluation fault receives its place from the innermost
expression that was being evaluated, and keeps the first place it is given. Only evaluation
faults can be handled by a script.
-/

namespace SoundLaw

/-- Why a unit cannot be compiled. -/
inductive CompilationCause where
  /-- A literal without its closing delimiter. -/
  | unclosedLiteral (delimiter : Char)
  /-- A backslash followed by something that is no escape. -/
  | malformedEscape (escape : String)
  /-- A character that starts no token. -/
  | unknownToken (token : String)
  /-- A bracket without its partner. -/
  | unmatchedBracket (bracket : Char)
  /-- An operator with fewer operands than it takes. -/
  | missingOperand (operator : String)
  /-- A feature literal that names no feature of the table. -/
  | malformedFeature (literal : String)
  /-- A literal that cannot be read. -/
  | invalidLiteral (reason : String)
  /-- A construct whose operands have the wrong shape. -/
  | malformedSyntax (message : String)
  /-- Phonological notation while phonology is switched off. -/
  | phonologyDisabled
deriving DecidableEq, Repr

/-- Why an evaluation stops. -/
inductive EvaluationCause where
  /-- An operation on a value of the wrong kind. -/
  | typeMismatch (operation found : String)
  /-- An index past the end of a sized value. -/
  | indexOutOfRange (index : String) (length : Nat)
  /-- A name without a binding. -/
  | unresolvedVariable (name : String)
  /-- Arithmetic that leaves the finite numbers. -/
  | nonFinite (operation : String)
  /-- A call with too many arguments. -/
  | arityMismatch (expected found : Nat)
  /-- A write to a binding that cannot change. -/
  | immutable
  /-- A segment that no base phone spells. -/
  | unknownPhone (segment : String)
  /-- A diacritic that the phone before it does not take. -/
  | inapplicableDiacritic (diacritic base : String)
  /-- A transcription that ends in a boundary. -/
  | danglingBoundary (transcription : String)
  /-- A fault that a script raises itself. -/
  | thrown (message : String)
  /-- Any other failure. -/
  | failure (message : String)
deriving DecidableEq, Repr

/-- Why a phone table cannot be used. -/
inductive TableCause where
  /-- The table cannot be read at all. -/
  | unavailable (path reason : String)
  /-- A line of the table breaks its rules. -/
  | malformed (line : Nat) (reason : String)
deriving DecidableEq, Repr

/-- A failure together with the place where it happened, as far as it is known. -/
inductive Fault where
  /-- The unit cannot be compiled. -/
  | compilation (cause : CompilationCause) (position : Position)
  /-- The evaluation stopped. -/
  | evaluation (cause : EvaluationCause) (position : Option Position)
  /-- The evaluation was cancelled from outside. -/
  | cancelled
  /-- The phone table cannot be used. -/
  | startup (cause : TableCause)
deriving DecidableEq, Repr

/-- The broad kind of a fault, which decides who may see it. -/
inductive FaultClass where
  | compilation
  | evaluation
  | cancelled
  | startup
deriving DecidableEq, Repr

/-- A text between back quotes. -/
def backquoted (text : String) : String :=
  "\x60" ++ text ++ "\x60"

/-- What a compilation fault says before its place. -/
def CompilationCause.text : CompilationCause → String
  | unclosedLiteral delimiter => "unclosed " ++ delimiter.toString ++ " literal"
  | malformedEscape escape => "malformed escape " ++ backquoted escape
  | unknownToken token => "unknown token " ++ backquoted token
  | unmatchedBracket bracket => "unmatched " ++ backquoted bracket.toString
  | missingOperand operator => backquoted operator ++ " is missing an operand"
  | malformedFeature literal => "malformed feature literal " ++ backquoted literal
  | invalidLiteral reason => reason
  | malformedSyntax message => message
  | phonologyDisabled => "phonological operations are disabled"

/-- What an evaluation fault says before its place. -/
def EvaluationCause.text : EvaluationCause → String
  | typeMismatch operation found => "cannot " ++ operation ++ " " ++ found
  | indexOutOfRange index length =>
    "index " ++ index ++ " is out of range for length " ++ toString length
  | unresolvedVariable name => backquoted name ++ " is not within scope"
  | nonFinite operation => operation ++ " produced a non-finite number"
  | arityMismatch expected found =>
    "expected at most " ++ toString expected ++ " arguments but found " ++ toString found
  | immutable => "cannot modify immutable value"
  | unknownPhone segment => backquoted segment ++ " is not a recognised phone"
  | inapplicableDiacritic diacritic base =>
    "diacritic " ++ backquoted diacritic ++ " cannot be applied to " ++ backquoted base
  | danglingBoundary transcription =>
    backquoted transcription ++ " ends with a boundary marker"
  | thrown message => message
  | failure message => message

/-- What a fault of the phone table says. -/
def TableCause.text : TableCause → String
  | unavailable path reason => "Cannot read phone table " ++ backquoted path ++ ": " ++ reason
  | malformed line reason =>
    "Malformed phone table at line " ++ toString line ++ ": " ++ reason

namespace Fault

/-- The class of a fault. -/
def faultClass : Fault → FaultClass
  | compilation .. => .compilation
  | evaluation .. => .evaluation
  | cancelled => .cancelled
  | startup _ => .startup

/-- The place of a fault, if it is known. -/
def position? : Fault → Option Position
  | compilation _ position => some position
  | evaluation _ position => position
  | cancelled => none
  | startup _ => none

/-- The full text of a fault. -/
def message : Fault → String
  | compilation cause position =>
    "COMPILATION ERROR: " ++ cause.text ++ " at " ++ position.text
  | evaluation cause none => "RUNTIME ERROR: " ++ cause.text
  | evaluation cause (some position) =>
    "RUNTIME ERROR: " ++ cause.text ++ " at " ++ position.text
  | cancelled => "Evaluation cancelled"
  | startup cause => cause.text

/-- The text that a handler sees: a fault raised by a script shows its bare message. -/
def caughtText : Fault → String
  | evaluation (.thrown message) _ => message
  | other => other.message

/-- Gives an evaluation fault a place unless it has one. -/
def stamp (position : Position) : Fault → Fault
  | evaluation cause none => evaluation cause (some position)
  | other => other

/-- Whether a script may handle the fault. -/
def isCatchable (fault : Fault) : Bool :=
  fault.faultClass == .evaluation

/-- An evaluation fault whose place is not known yet. -/
def raised (cause : EvaluationCause) : Fault :=
  evaluation cause none

/-- An operation on a value of the wrong kind. -/
def mismatch (operation found : String) : Fault :=
  raised (.typeMismatch operation found)

/-- An evaluation failure with a text of its own. -/
def failed (message : String) : Fault :=
  raised (.failure message)

end Fault

end SoundLaw
