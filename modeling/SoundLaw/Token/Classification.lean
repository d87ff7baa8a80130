import SoundLaw.Table.Registry
import SoundLaw.Token
import SoundLaw.Lexeme.Scanning

/-!
# From lexemes to tokens

Classification settles what depends on the neighbours of a lexeme: signs that start a feature
literal or stand alone before an operand, calls and indices written as brackets after an
operand, the end of a statement after a block, and the slash and underscore that belong to a
rule. The last step supplies the operands that a rule or a return may leave out.

A rule is open from its sign to the separator that ends it at the same bracket depth, or to the
bracket that closes around it. Only the innermost open rule is tracked.
-/

namespace SoundLaw

namespace LexemeKind

/-- The quality that a feature literal starting with the lexeme has. -/
def quality? : LexemeKind → Option Quality
  | symbol .add => some .plus
  | symbol .subtract => some .minus
  | tilde => some .any
  | number value => if value == 0.0 then some .unset else none
  | name text =>
    match text.toList with
    | [c] => (Quality.ofSymbol? c).filter (·.isVariable)
    | _ => none
  | _ => none

end LexemeKind

/-- What the reader of a source has to know: the features of the table, and whether
phonological notation is allowed. -/
structure Dialect where
  /-- The features that literals may name. -/
  features : List String
  /-- Whether phonological notation is allowed. -/
  phonology : Bool
deriving Repr, Inhabited

namespace Dialect

/-- The dialect of a phone table. -/
def ofTable (table : Table) (phonology : Bool) : Dialect :=
  ⟨table.features, phonology⟩

/-- The rest of a feature literal whose quality was just read: a bar, which may be left out
unless `needsPipe`, and the name of a feature. -/
def stitch? (dialect : Dialect) (quality : Quality) (needsPipe : Bool) (lexemes : List Lexeme) :
    Option (Feature × List Lexeme) :=
  if !dialect.phonology then none
  else
    match lexemes with
    | ⟨.pipe, _⟩ :: ⟨.name name, _⟩ :: rest =>
      if dialect.features.contains name then some (⟨name, quality⟩, rest) else none
    | ⟨.name name, _⟩ :: rest =>
      if !needsPipe && dialect.features.contains name then some (⟨name, quality⟩, rest) else none
    | _ => none

/-- A feature literal is not empty. -/
theorem length_lt_of_stitch? {dialect : Dialect} {quality : Quality} {needsPipe : Bool}
    {lexemes rest : List Lexeme} {feature : Feature}
    (h : dialect.stitch? quality needsPipe lexemes = some (feature, rest)) :
    rest.length < lexemes.length := by
  unfold stitch? at h
  split at h
  · cases h
  · split at h
    · split at h
      · cases h
        simp only [List.length_cons]
        omega
      · cases h
    · split at h
      · cases h
        simp
      · cases h
    · cases h

/-- The feature literal that a quality starts here, or else the given token. -/
def featureOr (dialect : Dialect) (quality : Option Quality) (needsPipe : Bool)
    (rest : List Lexeme) (other : TokenKind) : TokenKind × List Lexeme :=
  match quality.bind (dialect.stitch? · needsPipe rest) with
  | some (feature, after) => (.feature feature, after)
  | none => (other, rest)

/-- A feature literal takes no lexeme back. -/
theorem length_featureOr_le (dialect : Dialect) (quality : Option Quality) (needsPipe : Bool)
    (rest : List Lexeme) (other : TokenKind) :
    (dialect.featureOr quality needsPipe rest other).2.length ≤ rest.length := by
  unfold featureOr
  split
  · rename_i found
    obtain ⟨quality, _, stitched⟩ := Option.bind_eq_some_iff.mp found
    exact Nat.le_of_lt (length_lt_of_stitch? stitched)
  · exact Nat.le_refl _

/-- Lets phonological notation pass only where it is allowed. -/
def requirePhonology (dialect : Dialect) (position : Position) : Except Fault Unit :=
  if dialect.phonology then .ok () else .error (.compilation .phonologyDisabled position)

end Dialect

/-- What classification remembers of the tokens so far. -/
structure Surroundings where
  /-- The last token. -/
  previous : Option TokenKind
  /-- How many brackets are open. -/
  depth : Nat
  /-- The depth at which the innermost open rule started. -/
  ruleDepth : Option Nat
deriving Repr, Inhabited

namespace Surroundings

/-- The surroundings of the first lexeme. -/
def start : Surroundings := ⟨none, 0, none⟩

/-- Whether a sign here belongs to the operand after it. -/
def expectsOperand (s : Surroundings) : Bool :=
  match s.previous with
  | none | some (.operator _) | some (.opening _) => true
  | some _ => false

/-- The operator that an opening bracket here stands for besides itself. -/
def implied? (s : Surroundings) (bracket : Bracket) : Option Operator :=
  match bracket, s.previous with
  | .round, some (.identifier _) => some .call
  | .round, some (.closing .round) => some .call
  | .round, some (.closing .square) => some .call
  | .square, some (.identifier _) => some .index
  | .square, some (.closing _) => some .index
  | .square, some (.literal .text _) => some .index
  | .square, some (.literal .word _) => some .index
  | _, _ => none

/-- The surroundings after a token that is no bracket. -/
def afterToken (s : Surroundings) (kind : TokenKind) : Surroundings :=
  let ruleDepth :=
    match kind with
    | .operator .rule => some s.depth
    | .operator .comma | .operator .semicolon =>
      if s.ruleDepth = some s.depth then none else s.ruleDepth
    | _ => s.ruleDepth
  { s with previous := some kind, ruleDepth := ruleDepth }

/-- The surroundings after an opening bracket. -/
def afterOpening (s : Surroundings) (bracket : Bracket) : Surroundings :=
  { s with previous := some (.opening bracket), depth := s.depth + 1 }

/-- The surroundings after a closing bracket, which ends the rules opened inside it. -/
def afterClosing (s : Surroundings) (bracket : Bracket) : Surroundings :=
  let depth := s.depth - 1
  { previous := some (.closing bracket)
    depth := depth
    ruleDepth := s.ruleDepth.filter (· ≤ depth) }

end Surroundings

/-- Whether a closing curly bracket before the next lexeme ends a statement. -/
def closesStatement (next : Option Lexeme) : Bool :=
  match next with
  | none => false
  | some ⟨.opening .square, _⟩ | some ⟨.closing _, _⟩ => false
  | some lexeme =>
    match lexeme.kind.operator? with
    | some .otherwise | some .rescue => false
    | some operator =>
      !operator.isSeparator && (operator.isUnary || operator.isRightAssociative)
    | none => true

namespace Lexeme

/-- The operator or name that a word is read as. -/
def readName (s : Surroundings) (name : String) : TokenKind :=
  if s.ruleDepth.isSome && name == "_" then .operator .focus
  else
    match Operator.ofSpelling? name with
    | some operator => .operator operator
    | none => .identifier name

/-- The token that a lexeme, or a feature literal that starts with it, is read as, and the lexemes
after it. Brackets are read as themselves. -/
def readToken (dialect : Dialect) (s : Surroundings) (lexeme : Lexeme) (rest : List Lexeme) :
    Except Fault (TokenKind × List Lexeme) :=
  match lexeme.kind with
  | .number value => .ok (dialect.featureOr lexeme.kind.quality? true rest (.number value))
  | .literal .text text => .ok (.literal .text text, rest)
  | .literal kind text =>
    (dialect.requirePhonology lexeme.position).map fun _ => (.literal kind text, rest)
  | .featureSign => do
    dialect.requirePhonology lexeme.position
    match rest.head?.bind (·.kind.quality?.bind (dialect.stitch? · false rest.tail)) with
    | some (feature, after) => .ok (.feature feature, after)
    | none =>
      let literal := "@" ++ String.join ((rest.take 3).map (·.kind.text))
      .error (.compilation (.malformedFeature literal) lexeme.position)
  | .tilde => do
    dialect.requirePhonology lexeme.position
    match dialect.stitch? .any false rest with
    | some (feature, after) => .ok (.feature feature, after)
    | none => .error (.compilation (.malformedFeature "~") lexeme.position)
  | .pipe => .error (.compilation (.unknownToken "|") lexeme.position)
  | .name name => .ok (dialect.featureOr lexeme.kind.quality? true rest (readName s name))
  | .symbol .add =>
    if s.expectsOperand then .ok (dialect.featureOr (some .plus) false rest (.operator .affirm))
    else .ok (.operator .add, rest)
  | .symbol .subtract =>
    if s.expectsOperand then .ok (dialect.featureOr (some .minus) false rest (.operator .negate))
    else .ok (.operator .subtract, rest)
  | .symbol .divide =>
    .ok (.operator (if s.ruleDepth.isSome then .ruleContext else .divide), rest)
  | .symbol .rule =>
    (dialect.requirePhonology lexeme.position).map fun _ => (.operator .rule, rest)
  | .symbol operator => .ok (.operator operator, rest)
  | .opening bracket => .ok (.opening bracket, rest)
  | .closing bracket => .ok (.closing bracket, rest)

/-- The tokens that an opening bracket is read as. -/
def readOpening (s : Surroundings) (bracket : Bracket) (position : Position) :
    List Token × Surroundings :=
  let implied := (s.implied? bracket).toList.map fun operator => ⟨.operator operator, position⟩
  (implied ++ [⟨.opening bracket, position⟩], s.afterOpening bracket)

/-- The tokens that a closing bracket is read as. -/
def readClosing (s : Surroundings) (bracket : Bracket) (position : Position)
    (rest : List Lexeme) : List Token × Surroundings :=
  let closing : Token := ⟨.closing bracket, position⟩
  let closed := s.afterClosing bracket
  if bracket = .curly && closesStatement rest.head? then
    ([closing, ⟨.operator .semicolon, position⟩], closed.afterToken (.operator .semicolon))
  else ([closing], closed)

/-- A token takes no lexeme back. -/
theorem length_le_of_readToken {dialect : Dialect} {s : Surroundings} {lexeme : Lexeme}
    {rest after : List Lexeme} {kind : TokenKind}
    (h : readToken dialect s lexeme rest = .ok (kind, after)) :
    after.length ≤ rest.length := by
  have ofFeature {quality needsPipe other}
      (found : (.ok (dialect.featureOr quality needsPipe rest other) : Except Fault _) =
        .ok (kind, after)) : after.length ≤ rest.length := by
    have := dialect.length_featureOr_le quality needsPipe rest other
    rw [Except.ok.inj found] at this
    exact this
  have ofRest {token} (found : (.ok (token, rest) : Except Fault _) = .ok (kind, after)) :
      after.length ≤ rest.length := by
    cases found
    exact Nat.le_refl _
  unfold readToken at h
  split at h
  · exact ofFeature h
  · exact ofRest h
  · unfold Dialect.requirePhonology at h
    split at h
    · exact ofRest h
    · cases h
  · unfold Dialect.requirePhonology at h
    split at h
    · simp only [bind, Except.bind] at h
      split at h
      · rename_i found
        cases h
        obtain ⟨next, head, stitched⟩ := Option.bind_eq_some_iff.mp found
        obtain ⟨quality, _, stitched⟩ := Option.bind_eq_some_iff.mp stitched
        have := Dialect.length_lt_of_stitch? stitched
        have := List.length_tail (l := rest)
        omega
      · cases h
    · cases h
  · unfold Dialect.requirePhonology at h
    split at h
    · simp only [bind, Except.bind] at h
      split at h
      · rename_i stitched
        cases h
        exact Nat.le_of_lt (Dialect.length_lt_of_stitch? stitched)
      · cases h
    · cases h
  · cases h
  · exact ofFeature h
  · split at h
    · exact ofFeature h
    · exact ofRest h
  · split at h
    · exact ofFeature h
    · exact ofRest h
  · exact ofRest h
  · unfold Dialect.requirePhonology at h
    split at h
    · exact ofRest h
    · cases h
  · exact ofRest h
  · exact ofRest h
  · exact ofRest h

/-- The tokens of some lexemes in given surroundings. -/
def classifyFrom (dialect : Dialect) (s : Surroundings) (lexemes : List Lexeme) :
    Except Fault (List Token) :=
  match lexemes with
  | [] => .ok []
  | lexeme :: rest =>
    match lexeme.kind with
    | .opening bracket =>
      let (tokens, s) := readOpening s bracket lexeme.position
      (classifyFrom dialect s rest).map (tokens ++ ·)
    | .closing bracket =>
      let (tokens, s) := readClosing s bracket lexeme.position rest
      (classifyFrom dialect s rest).map (tokens ++ ·)
    | _ =>
      match found : readToken dialect s lexeme rest with
      | .error fault => .error fault
      | .ok (kind, after) =>
        have := length_le_of_readToken found
        (classifyFrom dialect (s.afterToken kind) after).map (⟨kind, lexeme.position⟩ :: ·)
termination_by lexemes.length
decreasing_by
  · simp
  · simp
  · exact Nat.lt_succ_of_le this

end Lexeme

namespace Token

/-- The token of an operand that was left out. -/
def null (position : Position) : Token :=
  ⟨.identifier "null", position⟩

/-- Whether an operand is missing before an operator, given the token before it. -/
def lacksLeft (kind : TokenKind) (previous : Option TokenKind) : Bool :=
  match kind with
  | .operator .focus => !previous.any TokenKind.endsOperand
  | _ => false

/-- Whether an operand is missing after an operator, given the token after it. -/
def lacksRight (kind : TokenKind) (next : Option TokenKind) : Bool :=
  match kind with
  | .operator .focus => !next.any TokenKind.startsOperand
  | .operator .arrow =>
    match next with
    | none | some (.operator .ruleContext) => true
    | some next => next.endsStatement
  | .operator .result => next.all TokenKind.endsStatement
  | _ => false

/-- Supplies the operands that a rule or a return may leave out, after a given token. -/
def fillFrom : Option TokenKind → List Token → List Token
  | _, [] => []
  | previous, token :: rest =>
    let before := if lacksLeft token.kind previous then [null token.position] else []
    if lacksRight token.kind (rest.head?.map (·.kind)) then
      before ++ token :: null token.position :: fillFrom (some (null token.position).kind) rest
    else before ++ token :: fillFrom (some token.kind) rest

/-- The tokens of a source text. -/
def tokenize (dialect : Dialect) (source : String) : Except Fault (List Token) := do
  let lexemes ← Lexeme.scan source
  let tokens ← Lexeme.classifyFrom dialect .start lexemes
  return fillFrom none tokens

end Token

end SoundLaw
