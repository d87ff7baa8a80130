import SoundLaw.Node.Parsing
import SoundLaw.Proofs.Fault.Classes

/-!
# Faults of compiling

Scanning, classifying, rearranging and building trees fail with compilation faults only. A literal
is read like any other transcription, and the fault of its reading becomes a compilation fault at
the literal.
-/

namespace SoundLaw

open FailsWith

namespace Lexeme

/-- A quoted text fails to end with a compilation fault. -/
theorem failsWith_takeQuoted (delimiter : Char) (start p : Position) (cs : List Char) :
    FailsWith .compilation (takeQuoted delimiter start p cs) := by
  fun_induction takeQuoted delimiter start p cs with
  | case2 => exact ok _
  | case4 | case9 | case11 =>
    rename_i ih
    exact ih.map _
  | _ => exact error rfl

/-- A run of characters fails to be a number with a compilation fault. -/
theorem failsWith_ofRun (p : Position) (run : List Char) :
    FailsWith .compilation (ofRun p run) := by
  unfold ofRun
  dsimp only
  split
  · split
    · exact ok _
    · exact error rfl
  · exact ok _

/-- A lexeme fails to be taken with a compilation fault. -/
theorem failsWith_takeLexeme (p : Position) (c : Char) (rest : List Char) :
    FailsWith .compilation (takeLexeme p c rest) := by
  unfold takeLexeme
  split
  · exact (failsWith_takeQuoted c p _ rest).map _
  · split
    · exact ok _
    · exact ok _
    · split
      · exact (failsWith_ofRun p _).map _
      · split
        · exact ok _
        · split
          · exact ok _
          · exact error rfl

/-- A text fails to be scanned with a compilation fault. -/
theorem failsWith_scanFrom (p : Position) (cs : List Char) :
    FailsWith .compilation (scanFrom p cs) := by
  fun_induction scanFrom p cs with
  | case1 => exact ok _
  | case2 p c rest hblank ih => exact ih
  | case3 p rest hblank ih => exact ih
  | case4 p c rest hblank hcomment fault hfault =>
    exact error (failsWith_takeLexeme p c rest fault hfault)
  | case5 p c rest hblank hcomment kind place after hlexeme hshorter ih => exact ih.map _

/-- A lexeme fails to be classified with a compilation fault. -/
theorem failsWith_readToken (dialect : Dialect) (s : Surroundings) (lexeme : Lexeme)
    (rest : List Lexeme) : FailsWith .compilation (readToken dialect s lexeme rest) := by
  have hphonology : FailsWith .compilation (dialect.requirePhonology lexeme.position) := by
    unfold Dialect.requirePhonology
    split
    · exact ok _
    · exact error rfl
  unfold readToken
  split
  case h_3 | h_11 => exact hphonology.map _
  case h_4 | h_5 =>
    refine hphonology.bind fun _ => ?_
    split
    · exact ok _
    · exact error rfl
  case h_6 => exact error rfl
  case h_8 | h_9 =>
    split
    · exact ok _
    · exact ok _
  all_goals exact ok _

/-- Lexemes fail to be classified with a compilation fault. -/
theorem failsWith_classifyFrom (dialect : Dialect) (s : Surroundings) (lexemes : List Lexeme) :
    FailsWith .compilation (classifyFrom dialect s lexemes) := by
  fun_induction classifyFrom dialect s lexemes with
  | case1 => exact ok _
  | case2 | case3 =>
    rename_i ih
    exact ih.map _
  | case4 s lexeme rest fault hfault =>
    exact error (failsWith_readToken dialect s lexeme rest fault hfault)
  | case5 =>
    rename_i ih
    exact ih.map _

end Lexeme

namespace Token

/-- A text fails to be cut into tokens with a compilation fault. -/
theorem failsWith_tokenize (dialect : Dialect) (source : String) :
    FailsWith .compilation (tokenize dialect source) := by
  refine (Lexeme.failsWith_scanFrom _ _).bind fun lexemes => ?_
  exact (Lexeme.failsWith_classifyFrom dialect _ lexemes).bind fun _ => ok _

/-- A bracket fails to be closed with a compilation fault. -/
theorem failsWith_releaseBracket (bracket : Bracket) (position : Position) (stack : List Token) :
    FailsWith .compilation (releaseBracket bracket position stack) := by
  fun_induction releaseBracket bracket position stack with
  | case2 => exact ok _
  | case4 =>
    rename_i ih
    exact ih.map _
  | _ => exact error rfl

/-- Operators fail to be released with a compilation fault. -/
theorem failsWith_releaseAll (stack : List Token) : FailsWith .compilation (releaseAll stack) := by
  fun_induction releaseAll stack with
  | case1 => exact ok _
  | case2 => exact error rfl
  | case3 top below hopening ih => exact ih.map _

/-- Tokens fail to be rearranged with a compilation fault. -/
theorem failsWith_arrange (stack tokens : List Token) :
    FailsWith .compilation (arrange stack tokens) := by
  fun_induction arrange stack tokens with
  | case1 stack => exact failsWith_releaseAll stack
  | case3 stack token rest bracket hclosing fault hfault =>
    exact error (failsWith_releaseBracket _ _ _ fault hfault)
  | case6 =>
    rename_i ih
    exact ih
  | _ =>
    rename_i ih
    exact ih.map _

end Token

/-- A literal fails to be read with a compilation fault. -/
theorem faultClass_literalFault (position : Position) (fault : Fault) :
    (literalFault position fault).faultClass = .compilation := by
  cases fault <;> rfl

/-- A token fails to be an operand with a compilation fault. -/
theorem Leaf.failsWith_ofToken (table : Table) (token : Token) :
    FailsWith .compilation (ofToken table token) := by
  unfold ofToken
  split
  case h_3 | h_4 => exact (mapError (faultClass_literalFault token.position) _).map _
  case h_7 | h_8 | h_9 => exact error rfl
  all_goals exact ok _

/-- The fault of a construct whose operands have the wrong shape. -/
def Fault.IsMalformed (fault : Fault) : Prop :=
  ∃ message p, fault = malformedSyntax message p

/-- A construct of the wrong shape is a compilation fault. -/
theorem Fault.IsMalformed.faultClass {fault : Fault} (h : fault.IsMalformed) :
    fault.faultClass = .compilation := by
  obtain ⟨message, p, rfl⟩ := h
  rfl

namespace Node

/-- An operator fails to take its operand because of its shape. -/
theorem malformed_ofUnary (operator : Operator) (operand : Node) (p : Position) :
    FailsAs Fault.IsMalformed (ofUnary operator operand p) := by
  unfold ofUnary
  split
  case h_1 => split <;> exact .ok _
  case h_2 =>
    split
    · exact .ok _
    · exact .error ⟨_, _, rfl⟩
  all_goals exact .ok _

/-- A node fails to be a parameter because of its shape. -/
theorem malformed_parameter (node : Node) : FailsAs Fault.IsMalformed node.parameter := by
  unfold parameter
  split
  case h_4 => exact .error ⟨_, _, rfl⟩
  all_goals exact .ok _

/-- A function fails to be made because of the shape of its head. -/
theorem malformed_ofLambda (head body : Node) (p : Position) :
    FailsAs Fault.IsMalformed (ofLambda head body p) := by
  unfold ofLambda
  split
  · exact (FailsAs.mapM malformed_parameter _).bind fun _ => .ok _
  · exact .error ⟨_, _, rfl⟩
  · exact (FailsAs.mapM malformed_parameter _).bind fun _ => .ok _
  · exact (malformed_parameter _).bind fun _ => .ok _

/-- A rule fails to be made because of the shape of its parts. -/
theorem malformed_ofRule (kind change : Node) (p : Position) :
    FailsAs Fault.IsMalformed (ofRule kind change p) := by
  have hcontext (context : Option Node) :
      FailsAs Fault.IsMalformed (contextSides context p) := by
    unfold contextSides
    split
    · exact .ok _
    · exact .error ⟨_, _, rfl⟩
    · exact .ok _
  unfold ofRule
  dsimp only
  split
  · exact .error ⟨_, _, rfl⟩
  · split
    · exact (hcontext _).bind fun _ => .ok _
    · exact .error ⟨_, _, rfl⟩

/-- An operator fails to take its two operands because of their shape. -/
theorem malformed_ofBinary (operator : Operator) (left right : Node) (p : Position) :
    FailsAs Fault.IsMalformed (ofBinary operator left right p) := by
  unfold ofBinary
  dsimp only
  split
  case h_3 => split <;> exact .ok _
  case h_4 => exact malformed_ofLambda left right p
  case h_5 =>
    split
    · exact .ok _
    · exact .ok _
    · exact .error ⟨_, _, rfl⟩
    · exact .error ⟨_, _, rfl⟩
    · exact .error ⟨_, _, rfl⟩
  case h_9 =>
    split
    · split
      · exact .ok _
      · exact .ok _
      · exact .error ⟨_, _, rfl⟩
    · exact .ok _
  case h_10 => exact malformed_ofRule left right p
  case h_6 | h_17 => exact .ok _
  -- Every other operator has one shape of operands that suits it.
  all_goals
    split
    · exact .ok _
    · exact .error ⟨_, _, rfl⟩

/-- Trees fail to be collected with a compilation fault. -/
theorem failsWith_collect (bracket : Bracket) (p : Position) (above : List Node)
    (stack : List Item) : FailsWith .compilation (collect bracket p above stack) := by
  fun_induction collect bracket p above stack with
  | case1 => exact error rfl
  | case2 => exact ok _
  | case3 above node below ih => exact ih

/-- A token fails to be taken with a compilation fault. -/
theorem failsWith_step (table : Table) (stack : List Item) (token : Token) :
    FailsWith .compilation (step table stack token) := by
  unfold step
  dsimp only
  split
  · exact ok _
  · exact (failsWith_collect _ _ _ stack).bind fun _ => ok _
  · split
    · exact ok _
    · split
      · split
        · exact ((malformed_ofUnary _ _ _).mono fun _ h => h.faultClass).bind fun _ => ok _
        · exact error rfl
      · split
        · exact ((malformed_ofBinary _ _ _ _).mono fun _ h => h.faultClass).bind fun _ => ok _
        · exact error rfl
  · exact (Leaf.failsWith_ofToken table token).bind fun _ => ok _

/-- Tokens fail to be statements with a compilation fault. -/
theorem failsWith_parse (table : Table) (tokens : List Token) :
    FailsWith .compilation (parse table tokens) := by
  refine (Token.failsWith_arrange [] tokens).bind fun arranged => ?_
  refine (foldlM (failsWith_step table) [] arranged).bind fun stack => mapM (fun item => ?_) _
  unfold statement
  split
  · exact ok _
  · exact error rfl

end Node

end SoundLaw
