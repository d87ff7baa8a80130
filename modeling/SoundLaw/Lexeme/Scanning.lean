import SoundLaw.Lexeme

/-!
# Scanning

Scanning walks through a source text from its start. At every place the next character decides
what kind of lexeme begins there, and the lexeme takes as many characters as it can: the whole
run of a name or number, a fraction after a whole number, the longest spelling of an operator.
-/

namespace SoundLaw.Lexeme

/-- Whether a character may stand in a name or a number. -/
def isNameChar (c : Char) : Bool :=
  Text.isAlphanumeric c || c == '_'

/-- The character that a backslash and a letter or delimiter stand for. -/
def plainEscape? : Char → Option Char
  | 'n' => some '\n'
  | 't' => some '\t'
  | 'r' => some '\r'
  | '\\' => some '\\'
  | c => if (LiteralKind.ofDelimiter? c).isSome then some c else none

/-- A fault at a backslash that starts no escape. -/
def malformedEscape (position : Position) (escape : List Char) : Fault :=
  .compilation (.malformedEscape (String.ofList escape)) position

/-- The text of a literal up to its closing delimiter, the place after it and what follows. -/
def takeQuoted (delimiter : Char) (start : Position) :
    Position → List Char → Except Fault (List Char × Position × List Char)
  | _, [] => .error (.compilation (.unclosedLiteral delimiter) start)
  | p, c :: rest =>
    if c = delimiter then .ok ([], p.after c, rest)
    else if c = '\\' then
      match rest with
      | [] => .error (malformedEscape p [c])
      | e :: rest =>
        match plainEscape? e with
        | some decoded =>
          (takeQuoted delimiter start (p.afterAll [c, e]) rest).map fun (text, place, rest) =>
            (decoded :: text, place, rest)
        | none =>
          if e.isDigit then
            match rest with
            | [] => .error (malformedEscape p [c, e])
            | [second] => .error (malformedEscape p [c, e, second])
            | second :: third :: rest =>
              if !second.isDigit then .error (malformedEscape p [c, e, second])
              else if !third.isDigit then .error (malformedEscape p [c, e, second, third])
              else
                let decoded := Char.ofNat (Decimal.ofDigits [e, second, third])
                (takeQuoted delimiter start (p.afterAll [c, e, second, third]) rest).map
                  fun (text, place, rest) => (decoded :: text, place, rest)
          else .error (malformedEscape p [c, e])
    else
      (takeQuoted delimiter start (p.after c) rest).map fun (text, place, rest) =>
        (c :: text, place, rest)

/-- The characters of a name or number: a run, and behind a run of digits also a fraction. -/
def takeRun (cs : List Char) : List Char × List Char :=
  let run := cs.takeWhile isNameChar
  let rest := cs.dropWhile isNameChar
  match rest with
  | '.' :: digit :: _ =>
    if digit.isDigit && run.all Char.isDigit then
      (run ++ '.' :: rest.tail.takeWhile Char.isDigit, rest.tail.dropWhile Char.isDigit)
    else (run, rest)
  | _ => (run, rest)

/-- The lexeme that a run of characters is: a number if it starts with a digit, else a name. -/
def ofRun (position : Position) (run : List Char) : Except Fault LexemeKind :=
  let text := String.ofList run
  if run.head?.any Char.isDigit then
    match Decimal.read text with
    | some value => .ok (.number value)
    | none => .error (.compilation (.invalidLiteral (backquoted text ++ " is not a number")) position)
  else .ok (.name text)

/-- The longest operator spelled by a run and the characters after it, with its length. -/
def longestOperator (run : List Char) (best : Option (Operator × Nat)) :
    List Char → Option (Operator × Nat)
  | [] => best
  | c :: rest =>
    let run := run ++ [c]
    if Operator.startsSpelling run then
      let best :=
        match Operator.ofSpelling? (String.ofList run) with
        | some operator => some (operator, run.length)
        | none => best
      longestOperator run best rest
    else best

/-- The mark that a character is outside every operator. -/
def mark? : Char → Option LexemeKind
  | '@' => some .featureSign
  | '|' => some .pipe
  | '~' => some .tilde
  | _ => none

/-- The lexeme that starts with a character which is neither blank nor a comment sign, the place
after it and what follows. -/
def takeLexeme (p : Position) (c : Char) (rest : List Char) :
    Except Fault (LexemeKind × Position × List Char) :=
  match LiteralKind.ofDelimiter? c with
  | some kind =>
    (takeQuoted c p (p.after c) rest).map fun (text, place, rest) =>
      (.literal kind (String.ofList text), place, rest)
  | none =>
    match Bracket.ofOpening? c, Bracket.ofClosing? c with
    | some bracket, _ => .ok (.opening bracket, p.after c, rest)
    | none, some bracket => .ok (.closing bracket, p.after c, rest)
    | none, none =>
      if isNameChar c then
        let (run, rest) := takeRun (c :: rest)
        (ofRun p run).map fun kind => (kind, p.afterAll run, rest)
      else
        match longestOperator [] none (c :: rest) with
        | some (operator, length) =>
          .ok (.symbol operator, p.afterAll ((c :: rest).take length), (c :: rest).drop length)
        | none =>
          match mark? c with
          | some kind => .ok (kind, p.after c, rest)
          | none => .error (.compilation (.unknownToken c.toString) p)

/-- Dropping characters makes a list no longer. -/
theorem length_dropWhile_le (test : Char → Bool) (cs : List Char) :
    (cs.dropWhile test).length ≤ cs.length := by
  induction cs with
  | nil => simp
  | cons c rest ih =>
    rw [List.dropWhile_cons]
    split
    · exact Nat.le_succ_of_le ih
    · exact Nat.le_refl _

/-- What a mapped outcome leaves over is what the outcome left over. -/
theorem exists_of_map_eq_ok {α β : Type} {f : α → β} {outcome : Except Fault (α × Position × List Char)}
    {b : β} {place : Position} {rest : List Char}
    (h : (outcome.map fun (a, place, rest) => (f a, place, rest)) = .ok (b, place, rest)) :
    ∃ a, outcome = .ok (a, place, rest) := by
  cases outcome with
  | error fault => cases h
  | ok triple =>
    obtain ⟨a, place', rest'⟩ := triple
    cases h
    exact ⟨a, rfl⟩

/-- A literal takes at least its closing delimiter. -/
theorem length_lt_of_takeQuoted {delimiter : Char} {start p place : Position}
    {cs text rest : List Char}
    (h : takeQuoted delimiter start p cs = .ok (text, place, rest)) :
    rest.length < cs.length := by
  fun_induction takeQuoted delimiter start p cs generalizing text place rest with
  | case1 => cases h
  | case2 =>
    cases h
    simp
  | case4 | case9 | case11 =>
    rename_i ih
    obtain ⟨_, found⟩ := exists_of_map_eq_ok h
    have := ih found
    simp only [List.length_cons]
    omega
  | _ => cases h

/-- A run that starts with a name character takes that character. -/
theorem length_lt_of_takeRun {c : Char} (rest : List Char) (h : isNameChar c = true) :
    (takeRun (c :: rest)).2.length < (c :: rest).length := by
  have shorter : ((c :: rest).dropWhile isNameChar).length < (c :: rest).length := by
    rw [List.dropWhile_cons, if_pos h]
    exact Nat.lt_succ_of_le (length_dropWhile_le ..)
  simp only [takeRun]
  split
  · rename_i digit after found
    split
    · rw [found] at shorter ⊢
      have := length_dropWhile_le Char.isDigit (digit :: after)
      simp only [List.tail_cons, List.length_cons] at *
      omega
    · exact shorter
  · exact shorter

/-- The longest operator is at least as long as the run it starts from, or the best so far. -/
theorem longestOperator_length {run cs : List Char} {best : Option (Operator × Nat)}
    {operator : Operator} {length : Nat}
    (h : longestOperator run best cs = some (operator, length)) :
    run.length < length ∨ best = some (operator, length) := by
  induction cs generalizing run best with
  | nil => exact .inr h
  | cons c rest ih =>
    rw [longestOperator] at h
    split at h
    · rcases ih h with longer | found
      · simp only [List.length_append, List.length_singleton] at longer
        exact .inl (by omega)
      · split at found
        · cases found
          exact .inl (by simp)
        · exact .inr found
    · exact .inr h

/-- Every lexeme takes at least one character. -/
theorem length_lt_of_takeLexeme {p place : Position} {c : Char} {rest after : List Char}
    {kind : LexemeKind} (h : takeLexeme p c rest = .ok (kind, place, after)) :
    after.length < (c :: rest).length := by
  unfold takeLexeme at h
  split at h
  · rename_i literal _
    obtain ⟨_, found⟩ :=
      exists_of_map_eq_ok (f := fun text => LexemeKind.literal literal (String.ofList text)) h
    have := length_lt_of_takeQuoted found
    simp only [List.length_cons]
    omega
  · split at h
    · cases h
      simp
    · cases h
      simp
    · split at h
      · rename_i named
        have shorter := length_lt_of_takeRun rest named
        cases found : ofRun p (takeRun (c :: rest)).1 with
        | error fault => simp [found, Except.map] at h
        | ok kind =>
          simp only [found, Except.map, Except.ok.injEq, Prod.mk.injEq] at h
          exact h.2.2 ▸ shorter
      · split at h
        · rename_i length found
          cases h
          rcases longestOperator_length found with longer | none
          · simp only [List.length_drop, List.length_cons, List.length_nil] at *
            omega
          · cases none
        · split at h
          · cases h
            simp
          · cases h

/-- The lexemes of a text that starts at a given place. -/
def scanFrom (p : Position) (cs : List Char) : Except Fault (List Lexeme) :=
  match cs with
  | [] => .ok []
  | c :: rest =>
    if Text.isBlank c then scanFrom (p.after c) rest
    else if c = '#' then
      scanFrom (p.afterAll (c :: rest.takeWhile (· != '\n'))) (rest.dropWhile (· != '\n'))
    else
      match found : takeLexeme p c rest with
      | .error fault => .error fault
      | .ok (kind, place, after) =>
        have := length_lt_of_takeLexeme found
        (scanFrom place after).map (⟨kind, p⟩ :: ·)
termination_by cs.length
decreasing_by
  · simp
  · exact Nat.lt_succ_of_le (length_dropWhile_le ..)
  · assumption

/-- The lexemes of a source text. -/
def scan (source : String) : Except Fault (List Lexeme) :=
  scanFrom .start source.toList

end SoundLaw.Lexeme
