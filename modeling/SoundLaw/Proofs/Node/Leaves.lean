import SoundLaw.Proofs.Node.Separation

/-!
# The leaves of the statements

Reading the leaves of the statements of a unit from left to right gives the operands of its tokens
in their order: no operand is lost, doubled or moved. The first pass moves operators only. In the
second pass the trees on the stack, from the lowest to the topmost, are made of the operands that
have been taken so far, and every construct keeps the leaves of the trees it is made of, however it
takes them apart.

A rule without a context has null on both sides of it, at the place of the rule. Nobody wrote these
two, so they are not read. A null that was written at that very place looks the same in the tree;
whether it was written is then a matter of the tokens.
-/

namespace SoundLaw

/-- A leaf as it was written: a name that is declared is written as a name. -/
def Leaf.written : Leaf → Leaf
  | declare declared => name declared
  | other => other

namespace Token

/-- Whether a token is an operand. -/
def isOperand (token : Token) : Bool :=
  match token.kind with
  | .operator _ | .opening _ | .closing _ => false
  | _ => true

/-- The operands among some tokens in their order. -/
def operands (table : Table) (tokens : List Token) : Except Fault (List Leaf) :=
  (tokens.filter isOperand).mapM (Leaf.ofToken table)

/-- What a run of the first pass does to the tokens: it passes the operands on in their order, and
it passes on or keeps nothing that it was not given. -/
structure Passes (stack tokens out left : List Token) : Prop where
  operands : out.filter isOperand = tokens.filter isOperand
  given : ∀ token ∈ out ++ left, token ∈ stack ++ tokens

/-- Operators are no operands. -/
theorem filter_isOperand_operators {operators : List Token}
    (hoperators : ∀ token ∈ operators, ∃ operator, token.kind = .operator operator) :
    operators.filter isOperand = [] := by
  rw [List.filter_eq_nil_iff]
  intro token htoken
  obtain ⟨operator, hkind⟩ := hoperators token htoken
  simp [isOperand, hkind]

/-- One token is passed on behind operators from the top of the stack, or it is an operator. -/
theorem arrangeOne_passes {stack out left : List Token} {token : Token}
    (hstack : ∀ token ∈ stack, token.waits) (h : arrangeOne stack token = .ok (out, left)) :
    Passes stack [token] out left := by
  obtain ⟨kind, p⟩ := token
  cases kind with
  | number | literal | feature | identifier | opening =>
    cases h
    exact ⟨rfl, by grind⟩
  | closing bracket =>
    obtain ⟨⟨released, below⟩, hrelease, heq⟩ := map_eq_ok_iff.mp h
    cases heq
    obtain ⟨start, rfl, hreleased⟩ := releaseBracket_split hstack hrelease
    exact ⟨by rw [List.filter_append, filter_isOperand_operators hreleased]; rfl, by grind⟩
  | operator operator =>
    have hreleased (test : Operator → Bool) : Passes stack [⟨.operator operator, p⟩]
        (releaseWhile test stack).1 (⟨.operator operator, p⟩ :: (releaseWhile test stack).2) := by
      obtain ⟨hsplit, hoperators⟩ := releaseWhile_split test stack
      exact ⟨filter_isOperand_operators hoperators, by grind⟩
    simp only [arrangeOne] at h
    split at h
    · have hpasses := hreleased fun _ => true
      rw [Except.ok.inj h] at hpasses
      exact ⟨hpasses.operands, fun token htoken => hpasses.given token (by grind)⟩
    · split at h
      · cases h
        exact ⟨rfl, by grind⟩
      · cases h
        exact hreleased (·.yieldsTo operator)

/-- A run through tokens passes their operands on in their order. -/
theorem arrangeAll_passes {stack tokens out left : List Token}
    (hstack : ∀ token ∈ stack, token.waits) (h : arrangeAll stack tokens = .ok (out, left)) :
    Passes stack tokens out left := by
  induction tokens generalizing stack out with
  | nil =>
    cases h
    exact ⟨rfl, by simp⟩
  | cons token tokens ih =>
    obtain ⟨⟨out₁, left₁⟩, hone, hall⟩ := bind_eq_ok_iff.mp h
    obtain ⟨⟨out₂, left₂⟩, hrest, heq⟩ := map_eq_ok_iff.mp hall
    cases heq
    have hfirst := arrangeOne_passes hstack hone
    have hmore := ih (arrangeOne_accounts hstack hone).waiting hrest
    refine ⟨?_, fun other hother => ?_⟩
    · rw [List.filter_append, hfirst.operands, hmore.operands, ← List.filter_append]
      rfl
    · have hone := hfirst.given other
      have htwo := hmore.given other
      grind

/-- The first pass leaves the operands in their order, and adds no token. -/
theorem operatorsLast_passes {tokens ordered : List Token}
    (h : operatorsLast tokens = .ok ordered) : Passes [] tokens ordered [] := by
  have hbalanced := balanced_of_operatorsLast h
  rw [operatorsLast, arrange_eq_releaseAll] at h
  obtain ⟨⟨out, left⟩, hrun, hrelease⟩ := bind_eq_ok_iff.mp h
  have hoperators := hbalanced.waiting hrun
  rw [releaseAll_eq_ok hoperators] at hrelease
  cases hrelease
  have hpasses := arrangeAll_passes (by simp) hrun
  refine ⟨?_, fun token htoken => hpasses.given token (by simpa using htoken)⟩
  rw [List.filter_append, filter_isOperand_operators hoperators, List.append_nil, hpasses.operands]

end Token

namespace Node

open Token

/-- The leaves that a node brings along before those of its parts. -/
def leavesBefore : Node → List Leaf
  | leaf _ operand => [operand.written]
  | lambda _ parameters _ => parameters.map (.name ·.name)
  | iteration _ variableName _ _ => [.name variableName]
  | define _ name _ _ => [.name name]
  | rule _ kind _ _ _ _ => [.name kind.name]
  | _ => []

/-- The leaves that a node brings along behind those of its parts. -/
def leavesBehind : Node → List Leaf
  | member _ _ name => [.name name]
  | _ => []

/-- What makes a null and a rule recognizable: they stand where the tokens have them. -/
def StandsIn (tokens : List Token) : Node → Prop
  | leaf p .null => ⟨.identifier "null", p⟩ ∈ tokens
  | rule p _ _ _ _ _ => ⟨.operator .rule, p⟩ ∈ tokens
  | _ => True

mutual

/-- The leaves of a tree that some tokens have written, from left to right. -/
inductive Reads (tokens : List Token) : Node → List Leaf → Prop
  | node {node : Node} {leaves : List Leaf} : node.StandsIn tokens →
    ReadsAll tokens node.parts leaves →
      Reads tokens node (node.leavesBefore ++ leaves ++ node.leavesBehind)
  /-- The two sides of the context of a rule without one were not written. -/
  | bareRule {p : Position} {kind : RuleKind} {search replacement : Node} {leaves : List Leaf} :
    ReadsAll tokens [search, replacement] leaves →
      Reads tokens (rule p kind search replacement (leaf p .null) (leaf p .null))
        (.name kind.name :: leaves)

/-- The leaves of several trees that some tokens have written, from left to right. -/
inductive ReadsAll (tokens : List Token) : List Node → List Leaf → Prop
  | nil : ReadsAll tokens [] []
  | cons {node : Node} {rest : List Node} {first leaves : List Leaf} : Reads tokens node first →
    ReadsAll tokens rest leaves → ReadsAll tokens (node :: rest) (first ++ leaves)

end

variable {tokens : List Token}

/-- Several trees are read by reading the first and then the others. -/
theorem readsAll_cons_iff {node : Node} {rest : List Node} {leaves : List Leaf} :
    ReadsAll tokens (node :: rest) leaves ↔
      ∃ first more, leaves = first ++ more ∧ Reads tokens node first ∧
        ReadsAll tokens rest more := by
  constructor
  · rintro (_ | ⟨hfirst, hmore⟩)
    exact ⟨_, _, rfl, hfirst, hmore⟩
  · rintro ⟨first, more, rfl, hfirst, hmore⟩
    exact .cons hfirst hmore

/-- One tree among several. -/
theorem readsAll_singleton_iff {node : Node} {leaves : List Leaf} :
    ReadsAll tokens [node] leaves ↔ Reads tokens node leaves := by
  rw [readsAll_cons_iff]
  constructor
  · rintro ⟨first, more, rfl, hfirst, _ | _⟩
    simpa using hfirst
  · intro h
    exact ⟨leaves, [], by simp, h, .nil⟩

/-- Trees behind others are read behind them. -/
theorem readsAll_append_iff {before after : List Node} {leaves : List Leaf} :
    ReadsAll tokens (before ++ after) leaves ↔
      ∃ first more, leaves = first ++ more ∧ ReadsAll tokens before first ∧
        ReadsAll tokens after more := by
  induction before generalizing leaves with
  | nil =>
    constructor
    · intro h
      exact ⟨[], leaves, rfl, .nil, h⟩
    · rintro ⟨first, more, rfl, _ | _, hmore⟩
      exact hmore
  | cons node before ih =>
    simp only [List.cons_append, readsAll_cons_iff, ih]
    constructor
    · rintro ⟨first, _, rfl, hfirst, second, more, rfl, hsecond, hmore⟩
      exact ⟨first ++ second, more, by simp, ⟨first, second, rfl, hfirst, hsecond⟩, hmore⟩
    · rintro ⟨_, more, rfl, ⟨first, second, rfl, hfirst, hsecond⟩, hmore⟩
      exact ⟨first, second ++ more, by simp, hfirst, second, more, rfl, hsecond, hmore⟩

namespace Reads

variable {node : Node} {leaves : List Leaf}

/-- A leaf is read as it was written. -/
theorem eq_written {p : Position} {operand : Leaf} (h : Reads tokens (.leaf p operand) leaves) :
    leaves = [operand.written] := by
  obtain ⟨-, _ | _⟩ := h
  rfl

/-- What stands where the tokens have it can be read. -/
theorem leaf {p : Position} {operand : Leaf} (hstands : (Node.leaf p operand).StandsIn tokens) :
    Reads tokens (.leaf p operand) [operand.written] :=
  .node hstands .nil

/-- The leaves of a tree without own leaves are those of its parts. -/
theorem readsAll_parts (h : Reads tokens node leaves) (hbefore : node.leavesBefore = [])
    (hbehind : node.leavesBehind = []) : ReadsAll tokens node.parts leaves := by
  cases h with
  | node _ hparts => simpa [hbefore, hbehind] using hparts
  | bareRule => cases hbefore

/-- A tree with own leaves has these and behind them the leaves of its parts. -/
theorem of_own {own : List Leaf} (hparts : ReadsAll tokens node.parts leaves)
    (hbefore : node.leavesBefore = own) (hbehind : node.leavesBehind = [])
    (hstands : node.StandsIn tokens) : Reads tokens node (own ++ leaves) := by
  simpa [hbefore, hbehind] using Reads.node hstands hparts

/-- A tree without own leaves has the leaves of its parts. -/
theorem of_parts (hparts : ReadsAll tokens node.parts leaves) (hbefore : node.leavesBefore = [])
    (hbehind : node.leavesBehind = []) (hstands : node.StandsIn tokens) :
    Reads tokens node leaves :=
  of_own hparts hbefore hbehind hstands

/-- A tree without own leaves whose only part is another tree has its leaves. -/
theorem of_one {part : Node} (hpart : Reads tokens part leaves) (hparts : node.parts = [part])
    (hbefore : node.leavesBefore = []) (hbehind : node.leavesBehind = [])
    (hstands : node.StandsIn tokens) : Reads tokens node leaves := by
  refine of_parts ?_ hbefore hbehind hstands
  rw [hparts]
  exact readsAll_singleton_iff.mpr hpart

/-- A tree without own leaves that is made of two trees has the leaves of both. -/
theorem of_two {left right : Node} {first second : List Leaf} (hleft : Reads tokens left first)
    (hright : Reads tokens right second) (hparts : node.parts = [left, right])
    (hbefore : node.leavesBefore = []) (hbehind : node.leavesBehind = [])
    (hstands : node.StandsIn tokens) : Reads tokens node (first ++ second) := by
  refine of_parts ?_ hbefore hbehind hstands
  rw [hparts]
  exact .cons hleft (readsAll_singleton_iff.mpr hright)

/-- The leaves of a tree without own leaves that is made of two trees. -/
theorem two {left right : Node} (h : Reads tokens node leaves)
    (hparts : node.parts = [left, right]) (hbefore : node.leavesBefore = [])
    (hbehind : node.leavesBehind = []) :
    ∃ first second, leaves = first ++ second ∧ Reads tokens left first ∧
      Reads tokens right second := by
  have hall := h.readsAll_parts hbefore hbehind
  rw [hparts, readsAll_cons_iff] at hall
  simpa only [readsAll_singleton_iff] using hall

/-- Bracketed contents keep their leaves when it is known what they are. -/
theorem ungroup (h : Reads tokens node leaves) : Reads tokens node.ungroup leaves := by
  unfold Node.ungroup
  split
  · exact readsAll_singleton_iff.mp (h.readsAll_parts rfl rfl)
  · exact of_parts (h.readsAll_parts rfl rfl) rfl rfl trivial
  · exact h

end Reads

/-- Trees keep their leaves when it is known what brackets are. -/
theorem ReadsAll.map_ungroup {nodes : List Node} {leaves : List Leaf}
    (h : ReadsAll tokens nodes leaves) : ReadsAll tokens (nodes.map ungroup) leaves := by
  induction nodes generalizing leaves with
  | nil => exact h
  | cons node rest ih =>
    obtain ⟨first, more, rfl, hfirst, hmore⟩ := readsAll_cons_iff.mp h
    exact .cons hfirst.ungroup (ih hmore)

/-- The tree of an operator before its operand has the leaves of the operand. -/
theorem Reads.ofUnary {operator : Operator} {operand node : Node} {p : Position}
    {leaves : List Leaf} (hoperand : Reads tokens operand leaves)
    (h : ofUnary operator operand p = .ok node) : Reads tokens node leaves := by
  unfold Node.ofUnary at h
  split at h
  · split at h
    · next q template arguments hcall =>
      cases h
      have hparts := hoperand.ungroup
      rw [hcall] at hparts
      exact .of_parts (hparts.readsAll_parts rfl rfl) rfl rfl trivial
    · cases h
      exact hoperand.ungroup.of_one rfl rfl rfl trivial
  · split at h
    · next q name =>
      cases h
      obtain rfl := hoperand.eq_written
      exact .leaf trivial
    · cases h
  all_goals
    cases h
    exact hoperand.ungroup.of_one rfl rfl rfl trivial

/-- A node in a parameter list has the name of the parameter as its leaf. -/
theorem Reads.parameter {node : Node} {parameter : Parameter} {leaves : List Leaf}
    (hnode : Reads tokens node leaves) (h : node.parameter = .ok parameter) :
    leaves = [.name parameter.name] := by
  unfold Node.parameter at h
  split at h
  · cases h
    exact hnode.eq_written
  · cases h
    exact (readsAll_singleton_iff.mp (hnode.readsAll_parts rfl rfl)).eq_written
  · cases h
    exact (readsAll_singleton_iff.mp (hnode.readsAll_parts rfl rfl)).eq_written
  · cases h

/-- The nodes in a parameter list have the names of the parameters as their leaves. -/
theorem ReadsAll.parameters {nodes : List Node} {parameters : List Parameter}
    {leaves : List Leaf} (hnodes : ReadsAll tokens nodes leaves)
    (h : nodes.mapM parameter = .ok parameters) : leaves = parameters.map (.name ·.name) := by
  induction nodes generalizing leaves parameters with
  | nil =>
    cases hnodes
    cases h
    rfl
  | cons node rest ih =>
    obtain ⟨first, more, rfl, hfirst, hmore⟩ := readsAll_cons_iff.mp hnodes
    rw [List.mapM_cons] at h
    obtain ⟨one, hone, h⟩ := bind_eq_ok_iff.mp h
    obtain ⟨others, hothers, h⟩ := bind_eq_ok_iff.mp h
    cases h
    rw [hfirst.parameter hone, ih hmore hothers]
    rfl

/-- A function has the leaves of its parameters and of its body. -/
theorem Reads.lambda {parameters : List Parameter} {body : Node} {leaves : List Leaf}
    (hbody : Reads tokens body leaves) (p : Position) :
    Reads tokens (.lambda p parameters body.ungroup)
      (parameters.map (.name ·.name) ++ leaves) :=
  .of_own (readsAll_singleton_iff.mpr hbody.ungroup) rfl rfl trivial

/-- A function, or the declaration of one, has the leaves of its head and of its body. -/
theorem Reads.ofLambda {head body node : Node} {p : Position} {first second : List Leaf}
    (hhead : Reads tokens head first) (hbody : Reads tokens body second)
    (h : ofLambda head body p = .ok node) : Reads tokens node (first ++ second) := by
  unfold Node.ofLambda at h
  split at h
  · next q r name arguments =>
    obtain ⟨parameters, hparameters, h⟩ := bind_eq_ok_iff.mp h
    cases h
    obtain ⟨callee, given, rfl, hcallee, hgiven⟩ :=
      readsAll_cons_iff.mp (hhead.readsAll_parts rfl rfl)
    obtain rfl := hcallee.eq_written
    rw [hgiven.parameters hparameters, List.append_assoc]
    have hname : Reads tokens (.leaf r (.declare name)) [.name name] := .leaf trivial
    exact hname.of_two (hbody.lambda p) rfl rfl rfl trivial
  · cases h
  · next q elements =>
    obtain ⟨parameters, hparameters, h⟩ := bind_eq_ok_iff.mp h
    cases h
    rw [(hhead.readsAll_parts rfl rfl).parameters hparameters]
    exact hbody.lambda p
  · obtain ⟨single, hsingle, h⟩ := bind_eq_ok_iff.mp h
    cases h
    rw [hhead.parameter hsingle]
    exact hbody.lambda p

/-- A rule has the leaves of its kind and of what it is taken apart into. -/
theorem Reads.ofRule {kind change node : Node} {p : Position} {first second : List Leaf}
    (hp : (⟨.operator .rule, p⟩ : Token) ∈ tokens) (hkind : Reads tokens kind first)
    (hchange : Reads tokens change second) (h : ofRule kind change p = .ok node) :
    Reads tokens node (first ++ second) := by
  unfold Node.ofRule at h
  dsimp only at h
  split at h
  · cases h
  next found hfound =>
  -- the kind is written by its name
  obtain rfl : first = [.name found.name] := by
    split at hfound
    · next q name =>
      have hname := List.find?_some hfound
      rw [hkind.eq_written, beq_iff_eq.mp hname]
      rfl
    · cases hfound
  split at h
  · next q search replacement harrow =>
    obtain ⟨⟨left, right⟩, hsides, h⟩ := bind_eq_ok_iff.mp h
    cases h
    split at harrow
    · next r inner context =>
      -- the change and its context, and the two sides of the context
      cases harrow
      obtain ⟨inside, outside, rfl, hinside, houtside⟩ := hchange.two rfl rfl rfl
      obtain ⟨l₁, l₂, rfl, hsearch, hreplacement⟩ := hinside.two rfl rfl rfl
      unfold contextSides at hsides
      split at hsides
      · next hfocus =>
        cases hsides
        cases hfocus
        obtain ⟨l₃, l₄, rfl, hleft, hright⟩ := houtside.two rfl rfl rfl
        have hcontext := ReadsAll.cons hleft (readsAll_singleton_iff.mpr hright)
        have hparts := ReadsAll.cons hsearch (.cons hreplacement hcontext)
        rw [List.append_assoc]
        exact .of_own hparts rfl rfl hp
      · cases hsides
      · next hfocus => cases hfocus
    · next hother =>
      cases harrow
      split at hsides
      · next heq => cases heq
      cases hsides
      obtain ⟨l₁, l₂, rfl, hsearch, hreplacement⟩ := hchange.two rfl rfl rfl
      have hboth : ReadsAll tokens [search, replacement] (l₁ ++ l₂) :=
        .cons hsearch (readsAll_singleton_iff.mpr hreplacement)
      exact .bareRule hboth
  · cases h

/-- The tree of an operator between two operands has the leaves of both. -/
theorem Reads.ofBinary {operator : Operator} {left right node : Node} {p : Position}
    {first second : List Leaf} (hp : (⟨.operator operator, p⟩ : Token) ∈ tokens)
    (hleft : Reads tokens left first) (hright : Reads tokens right second)
    (h : ofBinary operator left right p = .ok node) : Reads tokens node (first ++ second) := by
  unfold Node.ofBinary at h
  dsimp only at h
  split at h
  case h_1 =>
    split at h
    · next q name =>
      cases h
      rw [hright.eq_written]
      exact .node trivial (readsAll_singleton_iff.mpr hleft.ungroup)
    · cases h
  case h_2 =>
    split at h
    · cases h
      exact hleft.ungroup.of_two (readsAll_singleton_iff.mp (hright.readsAll_parts rfl rfl))
        rfl rfl rfl trivial
    · cases h
  case h_3 =>
    split at h
    · cases h
      exact .of_parts (.cons hleft.ungroup (hright.readsAll_parts rfl rfl)) rfl rfl trivial
    · cases h
      exact hleft.ungroup.of_two hright rfl rfl rfl trivial
  case h_4 => exact hleft.ofLambda hright h
  case h_5 =>
    -- the name of a structure is the operand of the word before it
    split at h
    · cases h
      rw [(readsAll_singleton_iff.mp (hleft.readsAll_parts rfl rfl)).eq_written]
      exact .of_own (readsAll_singleton_iff.mpr hright.ungroup) rfl rfl trivial
    · cases h
      rw [(readsAll_singleton_iff.mp (hleft.readsAll_parts rfl rfl)).eq_written]
      exact .of_own (readsAll_singleton_iff.mpr hright.ungroup) rfl rfl trivial
    · cases h
    · cases h
    · cases h
  case h_7 =>
    split at h
    · cases h
      obtain ⟨condition, consequence, rfl, hcondition, hconsequence⟩ := hleft.two rfl rfl rfl
      have halternative := readsAll_singleton_iff.mpr hright.ungroup
      rw [List.append_assoc]
      exact .of_parts (.cons hcondition (.cons hconsequence halternative)) rfl rfl trivial
    · cases h
  case h_8 =>
    split at h
    · cases h
      have hbody := readsAll_singleton_iff.mp (hleft.readsAll_parts rfl rfl)
      exact hbody.of_two hright.ungroup rfl rfl rfl trivial
    · cases h
  case h_9 =>
    have hcondition := hleft.ungroup
    split at h
    · next q variableNode iterable hinside =>
      rw [hinside] at hcondition
      obtain ⟨named, iterated, rfl, hnamed, hiterated⟩ := hcondition.two rfl rfl rfl
      have hparts := ReadsAll.cons hiterated (readsAll_singleton_iff.mpr hright.ungroup)
      rw [List.append_assoc]
      split at h
      · cases h
        rw [hnamed.eq_written]
        exact .of_own hparts rfl rfl trivial
      · cases h
        rw [hnamed.eq_written]
        exact .of_own hparts rfl rfl trivial
      · cases h
    · cases h
      exact hcondition.of_two hright.ungroup rfl rfl rfl trivial
  case h_10 => exact hleft.ofRule hp hright h
  case h_6 | h_17 =>
    cases h
    exact hleft.ungroup.of_two hright.ungroup rfl rfl rfl trivial
  -- the assignments
  all_goals
    split at h
    · cases h
      exact hleft.ungroup.of_two hright.ungroup rfl rfl rfl trivial
    · cases h

/-! ## The second pass -/

/-- The trees on a stack, the lowest first. -/
def trees : List Item → List Node
  | [] => []
  | .opening _ :: below => trees below
  | .node node :: below => trees below ++ [node]

/-- A stack without open brackets holds its trees with the topmost first. -/
theorem trees_map_node (nodes : List Node) : trees (nodes.map .node) = nodes.reverse := by
  induction nodes with
  | nil => rfl
  | cons node rest ih => simp [trees, ih]

/-- What a closing bracket collects are the topmost trees. -/
theorem trees_of_collect {bracket : Bracket} {p start : Position} {above elements : List Node}
    {stack below : List Item} (h : collect bracket p above stack = .ok (elements, start, below)) :
    ∃ inner, trees stack = trees below ++ inner ∧ elements = inner.map ungroup ++ above := by
  induction stack generalizing above with
  | nil => cases h
  | cons item rest ih =>
    cases item with
    | opening q =>
      cases h
      exact ⟨[], by simp [trees], rfl⟩
    | node node =>
      obtain ⟨inner, hstack, helements⟩ := ih h
      exact ⟨inner ++ [node], by simp [trees, hstack], by simp [helements]⟩

/-- An operand as the tokens write it. -/
theorem Reads.ofToken {table : Table} {token : Token} {operand : Leaf} (htoken : token ∈ tokens)
    (h : Leaf.ofToken table token = .ok operand) :
    Reads tokens (.leaf token.position operand) [operand] := by
  obtain ⟨kind, p⟩ := token
  unfold Leaf.ofToken at h
  split at h
  case h_3 | h_4 =>
    obtain ⟨literal, -, rfl⟩ := map_eq_ok_iff.mp h
    exact .leaf trivial
  case h_6 name hkind =>
    obtain rfl : kind = .identifier name := hkind
    cases h
    unfold Leaf.ofName
    split
    · next hnull =>
      subst hnull
      exact .leaf htoken
    · repeat' split
      all_goals exact .leaf trivial
  case h_7 | h_8 | h_9 => cases h
  all_goals
    cases h
    exact .leaf trivial

/-- The operands of a token behind others come behind theirs. -/
theorem operands_cons {table : Table} {token : Token} {rest : List Token}
    {own leaves : List Leaf} (hown : operands table [token] = .ok own)
    (hleaves : operands table rest = .ok leaves) :
    operands table (token :: rest) = .ok (own ++ leaves) := by
  rw [← List.singleton_append, operands, List.filter_append, List.mapM_append]
  change (do
    let first ← operands table [token]
    let more ← operands table rest
    return first ++ more) = _
  rw [hown, hleaves]
  rfl

/-- One step keeps the leaves of the trees on the stack, and adds the operand that it takes. -/
theorem readsAll_step {table : Table} {stack next : List Item} {token : Token}
    {leaves : List Leaf} (htoken : token ∈ tokens) (hstack : ReadsAll tokens (trees stack) leaves)
    (h : step table stack token = .ok next) :
    ∃ own, operands table [token] = .ok own ∧ ReadsAll tokens (trees next) (leaves ++ own) := by
  obtain ⟨kind, p⟩ := token
  cases kind with
  | number | literal | feature | identifier =>
    obtain ⟨operand, hoperand, heq⟩ := bind_eq_ok_iff.mp h
    cases heq
    refine ⟨[operand], ?_, readsAll_append_iff.mpr ⟨_, _, rfl, hstack, ?_⟩⟩
    · change (Leaf.ofToken table _ >>= fun first => pure [first]) = _
      rw [hoperand]
      rfl
    · exact readsAll_singleton_iff.mpr (.ofToken htoken hoperand)
  | opening bracket =>
    cases h
    refine ⟨[], rfl, ?_⟩
    rw [List.append_nil]
    exact hstack
  | closing bracket =>
    obtain ⟨⟨elements, start, below⟩, hcollect, heq⟩ := bind_eq_ok_iff.mp h
    cases heq
    obtain ⟨inner, htrees, helements⟩ := trees_of_collect hcollect
    rw [List.append_nil] at helements
    rw [htrees, readsAll_append_iff] at hstack
    obtain ⟨outside, inside, rfl, hbelow, hinner⟩ := hstack
    have hsequence : Reads tokens (.sequence start (formOf bracket) elements) inside := by
      rw [helements]
      exact .of_parts hinner.map_ungroup rfl rfl trivial
    refine ⟨[], rfl, ?_⟩
    rw [List.append_nil]
    exact readsAll_append_iff.mpr ⟨_, _, rfl, hbelow, readsAll_singleton_iff.mpr hsequence⟩
  | operator operator =>
    refine ⟨[], rfl, ?_⟩
    rw [List.append_nil]
    unfold step at h
    dsimp only at h
    split at h
    · cases h
      exact hstack
    · split at h
      · split at h
        · obtain ⟨node, hnode, heq⟩ := bind_eq_ok_iff.mp h
          cases heq
          obtain ⟨below, top, rfl, hbelow, htop⟩ := readsAll_append_iff.mp hstack
          have htree := (readsAll_singleton_iff.mp htop).ofUnary hnode
          exact readsAll_append_iff.mpr ⟨_, _, rfl, hbelow, readsAll_singleton_iff.mpr htree⟩
        · cases h
      · split at h
        · obtain ⟨node, hnode, heq⟩ := bind_eq_ok_iff.mp h
          cases heq
          obtain ⟨_, second, rfl, hlower, hsecond⟩ := readsAll_append_iff.mp hstack
          obtain ⟨below, first, rfl, hbelow, hfirst⟩ := readsAll_append_iff.mp hlower
          have htree := Reads.ofBinary htoken (readsAll_singleton_iff.mp hfirst)
            (readsAll_singleton_iff.mp hsecond) hnode
          rw [List.append_assoc]
          exact readsAll_append_iff.mpr ⟨_, _, rfl, hbelow, readsAll_singleton_iff.mpr htree⟩
        · cases h

/-- A run keeps the leaves of the trees on the stack, and adds the operands that it takes. -/
theorem readsAll_foldlM_step {table : Table} {stack last : List Item} {more : List Token}
    {leaves : List Leaf} (hmore : ∀ token ∈ more, token ∈ tokens)
    (hstack : ReadsAll tokens (trees stack) leaves)
    (h : more.foldlM (step table) stack = .ok last) :
    ∃ taken, operands table more = .ok taken ∧ ReadsAll tokens (trees last) (leaves ++ taken) := by
  induction more generalizing stack leaves with
  | nil =>
    cases h
    exact ⟨[], rfl, by simpa using hstack⟩
  | cons token rest ih =>
    rw [List.forall_mem_cons] at hmore
    rw [List.foldlM_cons] at h
    obtain ⟨next, hone, hrest⟩ := bind_eq_ok_iff.mp h
    obtain ⟨own, hown, hnext⟩ := readsAll_step hmore.1 hstack hone
    obtain ⟨taken, htaken, hlast⟩ := ih hmore.2 hnext hrest
    refine ⟨own ++ taken, operands_cons hown htaken, ?_⟩
    rw [← List.append_assoc]
    exact hlast

/-! ## Where every null can be told from an added one -/

/-- Whether a side of the context of a rule is the null that a rule without a context has. -/
def isAddedNull (rulePosition : Position) : Node → Bool
  | leaf p .null => p == rulePosition
  | _ => false

mutual

/-- The leaves of a tree from left to right, without what a rule without a context adds. -/
def leaves : Node → List Leaf
  | leaf _ operand => [operand.written]
  | sequence _ _ elements => leavesAll elements
  | call _ first others | create _ first others => leaves first ++ leavesAll others
  | unary _ _ part | attempt _ part | result _ part | raise _ part => leaves part
  | binary _ _ left right | assign _ _ left right | index _ left right | branch _ left right
  | repetition _ left right | rescue _ left right => leaves left ++ leaves right
  | choice _ condition consequence alternative =>
    leaves condition ++ leaves consequence ++ leaves alternative
  | member _ object name => leaves object ++ [.name name]
  | lambda _ parameters body => parameters.map (.name ·.name) ++ leaves body
  | iteration _ variableName iterable body => .name variableName :: (leaves iterable ++ leaves body)
  | define _ name _ body => .name name :: leaves body
  | rule p kind search replacement left right =>
    let context :=
      if left.isAddedNull p && right.isAddedNull p then [] else leaves left ++ leaves right
    .name kind.name :: (leaves search ++ leaves replacement ++ context)

/-- The leaves of several trees from left to right. -/
def leavesAll : List Node → List Leaf
  | [] => []
  | node :: rest => leaves node ++ leavesAll rest

end

/-- Whether a node is a rule without a context. -/
def isBareRule : Node → Bool
  | rule p _ _ _ left right => left.isAddedNull p && right.isAddedNull p
  | _ => false

/-- The leaves of a tree that is no rule without a context are its own and those of its parts. -/
theorem leaves_of_parts {node : Node} (hbare : node.isBareRule = false) :
    node.leaves = node.leavesBefore ++ leavesAll node.parts ++ node.leavesBehind := by
  cases node with
  | rule p kind search replacement left right =>
    change (left.isAddedNull p && right.isAddedNull p) = false at hbare
    simp [leaves, leavesBefore, leavesBehind, parts, leavesAll, hbare]
  | _ => simp [leaves, leavesBefore, leavesBehind, parts, leavesAll]

/-- No null is written where a rule is. -/
def NullsApart (tokens : List Token) : Prop :=
  ∀ p, (⟨.identifier "null", p⟩ : Token) ∈ tokens → (⟨.operator .rule, p⟩ : Token) ∉ tokens

/-- A null that was read is written at its place. -/
theorem Reads.mem_of_isAddedNull {node : Node} {own : List Leaf} {p : Position}
    (h : Reads tokens node own) (hnull : node.isAddedNull p) :
    (⟨.identifier "null", p⟩ : Token) ∈ tokens := by
  unfold isAddedNull at hnull
  split at hnull
  · obtain rfl := beq_iff_eq.mp hnull
    cases h with
    | node hstands => exact hstands
  · cases hnull

/-- Where no null is written at the place of a rule, a rule whose context was read has one. -/
theorem isBareRule_of_readsAll {node : Node} {own : List Leaf} (hapart : NullsApart tokens)
    (hstands : node.StandsIn tokens) (hparts : ReadsAll tokens node.parts own) :
    node.isBareRule = false := by
  cases node with
  | rule p kind search replacement left right =>
    simp only [parts, readsAll_cons_iff] at hparts
    obtain ⟨_, _, -, -, _, _, -, -, _, _, -, hleft, -⟩ := hparts
    refine Bool.eq_false_iff.mpr fun hbare => ?_
    have hnull := hleft.mem_of_isAddedNull (Bool.and_eq_true_iff.mp hbare).1
    exact hapart p hnull hstands
  | _ => rfl

mutual

/-- Where no null is written at the place of a rule, the tree says how it is read. -/
theorem Reads.leaves_eq {node : Node} {own : List Leaf} (hapart : NullsApart tokens) :
    Reads tokens node own → node.leaves = own
  | .node hstands hparts => by
    rw [leaves_of_parts (isBareRule_of_readsAll hapart hstands hparts),
      ReadsAll.leavesAll_eq hapart hparts]
  | .bareRule hboth => by
    have hleaves := ReadsAll.leavesAll_eq hapart hboth
    simpa [leaves, leavesAll, isAddedNull] using hleaves

/-- Where no null is written at the place of a rule, the trees say how they are read. -/
theorem ReadsAll.leavesAll_eq {nodes : List Node} {own : List Leaf} (hapart : NullsApart tokens) :
    ReadsAll tokens nodes own → leavesAll nodes = own
  | .nil => rfl
  | .cons hfirst hrest => by
    rw [leavesAll, Reads.leaves_eq hapart hfirst, ReadsAll.leavesAll_eq hapart hrest]

end

/-- The leaves of the statements of a unit, read from left to right, are the operands of its tokens
in their order. Where no null is written at the place of a rule, these are the leaves of the trees
without the nulls that rules without a context add. -/
theorem parse_reads_operands {table : Table} {nodes : List Node}
    (h : parse table tokens = .ok nodes) :
    ∃ given, operands table tokens = .ok given ∧ ReadsAll tokens nodes given ∧
      (NullsApart tokens → leavesAll nodes = given) := by
  obtain ⟨ordered, hordered, hassemble⟩ := bind_eq_ok_iff.mp h
  have hpasses := operatorsLast_passes hordered
  have hbalanced := (balanced_of_operatorsLast hordered).operatorsLast hordered
  obtain ⟨stack, hrun, -⟩ := bind_eq_ok_iff.mp hassemble
  obtain ⟨built, rfl⟩ := exists_nodes_of_balanced hbalanced hrun
  rw [assemble_eq_ok hrun] at hassemble
  cases hassemble
  have hgiven : ∀ token ∈ ordered, token ∈ tokens := by simpa using hpasses.given
  obtain ⟨given, hoperands, hreads⟩ := readsAll_foldlM_step hgiven .nil hrun
  rw [trees_map_node, List.nil_append] at hreads
  rw [operands, hpasses.operands] at hoperands
  exact ⟨given, hoperands, hreads.map_ungroup, hreads.map_ungroup.leavesAll_eq⟩

/-- In `f(x) => (S |> a -> null)` a function is named and a rule has no context: the names, the kind
of the rule and the one null that was written are read. -/
theorem parse_reads_operands_named_rule :
    let tokens : List Token := [⟨.identifier "f", ⟨1, 1⟩⟩, ⟨.operator .call, ⟨1, 2⟩⟩,
      ⟨.opening .round, ⟨1, 2⟩⟩, ⟨.identifier "x", ⟨1, 3⟩⟩, ⟨.closing .round, ⟨1, 4⟩⟩,
      ⟨.operator .lambda, ⟨1, 6⟩⟩, ⟨.opening .round, ⟨1, 9⟩⟩, ⟨.identifier "S", ⟨1, 10⟩⟩,
      ⟨.operator .rule, ⟨1, 12⟩⟩, ⟨.identifier "a", ⟨1, 15⟩⟩, ⟨.operator .arrow, ⟨1, 17⟩⟩,
      ⟨.identifier "null", ⟨1, 20⟩⟩, ⟨.closing .round, ⟨1, 24⟩⟩]
    ∃ nodes, parse .empty tokens = .ok nodes ∧
      leavesAll nodes = [.name "f", .name "x", .name "S", .name "a", .null] := by
  intro tokens
  have hparse : parse .empty tokens = .ok [.assign ⟨1, 6⟩ .assign
      (.leaf ⟨1, 1⟩ (.declare "f")) (.lambda ⟨1, 6⟩ [⟨"x", .value⟩]
        (.rule ⟨1, 12⟩ .simple (.leaf ⟨1, 15⟩ (.name "a")) (.leaf ⟨1, 20⟩ .null)
          (.leaf ⟨1, 12⟩ .null) (.leaf ⟨1, 12⟩ .null)))] := rfl
  obtain ⟨given, hoperands, -, hleaves⟩ := parse_reads_operands hparse
  cases hoperands
  have hapart : NullsApart tokens := by
    intro p hnull hrule
    obtain rfl : p = ⟨1, 20⟩ := by simpa [tokens] using hnull
    simp [tokens] at hrule
  exact ⟨_, hparse, hleaves hapart⟩

end Node

end SoundLaw
