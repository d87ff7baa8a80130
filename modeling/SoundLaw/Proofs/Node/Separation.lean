import SoundLaw.Node.Parsing
import SoundLaw.Proofs.Token.Brackets

/-!
# Statements on the two sides of a separator

A separator divides the first pass, but it leaves no mark for the second one: the trees of the
statements before it lie on the stack like any others, and an operator after it takes them when
its own side has too few. What the two sides have to do with each other is therefore a matter of
counting. If every operator finds its operands on its own side, the sides are read as they are
read alone; otherwise the second side alone misses an operand. In particular two units that are read
alone can be joined by a separator.
-/

namespace SoundLaw

/-- An operator that divides nothing takes one operand or two. -/
theorem Operator.arity_eq {operator : Operator} (hseparator : operator.isSeparator = false) :
    operator.arity = if operator.isUnary then 1 else 2 := by
  rw [arity, hseparator, if_neg Bool.false_ne_true]

namespace Token

/-- How many trees there are inside the innermost bracket, and inside each bracket around it,
after one more token. Operators have to find their operands inside the innermost bracket. -/
def supply (trees : Nat × List Nat) (token : Token) : Option (Nat × List Nat) :=
  match token.kind with
  | .opening _ => some (0, trees.1 :: trees.2)
  | .closing _ =>
    match trees.2 with
    | outside :: outer => some (outside + 1, outer)
    | [] => none
  | .operator operator =>
    if operator.isSeparator then some trees
    else if operator.arity ≤ trees.1 then some (trees.1 - operator.arity + 1, trees.2)
    else none
  | _ => some (trees.1 + 1, trees.2)

/-- Whether every operator finds its operands among the given tokens alone. -/
def isSupplied (tokens : List Token) : Bool :=
  match operatorsLast tokens with
  | .ok ordered => (ordered.foldlM supply (0, [])).isSome
  | .error _ => false

/-- A supplied operator has its operands inside the innermost bracket. -/
theorem arity_le_of_supply {trees trees' : Nat × List Nat} {token : Token} {operator : Operator}
    (hkind : token.kind = .operator operator) (hseparator : operator.isSeparator = false)
    (hsupply : supply trees token = some trees') : operator.arity ≤ trees.1 := by
  rw [supply] at hsupply
  simp only [hkind, hseparator, Bool.false_eq_true, if_false] at hsupply
  split at hsupply
  · assumption
  · cases hsupply

/-- A token that fits the brackets and is not supplied is an operator with too few operands. -/
theorem exists_operator_of_supply {trees : Nat × List Nat} {brackets brackets' : List Bracket}
    {token : Token} (hbrackets : bracketsAfter brackets token = some brackets')
    (hlength : trees.2.length = brackets.length) (hsupply : supply trees token = none) :
    ∃ operator, token.kind = .operator operator ∧ operator.isSeparator = false ∧
      trees.1 < operator.arity := by
  obtain ⟨kind, p⟩ := token
  obtain ⟨inside, outer⟩ := trees
  cases kind with
  | number | literal | feature | identifier | opening => cases hsupply
  | closing bracket =>
    match outer, brackets with
    | _ :: _, _ => cases hsupply
    | [], [] => cases hbrackets
    | [], _ :: _ => cases hlength
  | operator operator =>
    rw [supply] at hsupply
    dsimp only at hsupply
    split at hsupply
    · cases hsupply
    · next hseparator =>
      split at hsupply
      · cases hsupply
      · next hfew => exact ⟨operator, rfl, Bool.eq_false_iff.mpr hseparator, Nat.lt_of_not_le hfew⟩

/-- The trees are counted once for each open bracket. -/
theorem supply_brackets {trees trees' : Nat × List Nat} {brackets brackets' : List Bracket}
    {token : Token} (hsupply : supply trees token = some trees')
    (hbrackets : bracketsAfter brackets token = some brackets')
    (hlength : trees.2.length = brackets.length) : trees'.2.length = brackets'.length := by
  obtain ⟨kind, p⟩ := token
  obtain ⟨inside, outer⟩ := trees
  cases kind with
  | number | literal | feature | identifier =>
    cases hsupply
    cases hbrackets
    exact hlength
  | opening bracket =>
    cases hsupply
    cases hbrackets
    exact congrArg (· + 1) hlength
  | closing bracket =>
    match outer, brackets with
    | [], _ => cases hsupply
    | _ :: _, [] => cases hbrackets
    | outside :: outer, innermost :: rest =>
      cases hsupply
      change (if innermost = bracket then some rest else none) = some brackets' at hbrackets
      split at hbrackets
      · cases hbrackets
        exact Nat.succ.inj hlength
      · cases hbrackets
  | operator operator =>
    cases hbrackets
    rw [supply] at hsupply
    dsimp only at hsupply
    split at hsupply
    · cases hsupply
      exact hlength
    · split at hsupply
      · cases hsupply
        exact hlength
      · cases hsupply

/-- At the end of balanced tokens all trees are outside all brackets. -/
theorem foldlM_supply_brackets {tokens : List Token} {trees trees' : Nat × List Nat}
    {brackets brackets' : List Bracket} (hsupply : tokens.foldlM supply trees = some trees')
    (hbrackets : tokens.foldlM bracketsAfter brackets = some brackets')
    (hlength : trees.2.length = brackets.length) : trees'.2.length = brackets'.length := by
  induction tokens generalizing trees brackets with
  | nil =>
    cases hsupply
    cases hbrackets
    exact hlength
  | cons token tokens ih =>
    rw [List.foldlM_cons, Option.bind_eq_bind, Option.bind_eq_some_iff] at hsupply hbrackets
    obtain ⟨nextTrees, hone, hrest⟩ := hsupply
    obtain ⟨nextBrackets, hopen, hopenRest⟩ := hbrackets
    exact ih hrest hopenRest (supply_brackets hone hopen hlength)

end Token

namespace Node

open Token

/-- How many trees the stack has above its topmost open bracket, and between the others. -/
def levels : List Item → Nat × List Nat
  | [] => (0, [])
  | .opening _ :: below => (0, (levels below).1 :: (levels below).2)
  | .node _ :: below => ((levels below).1 + 1, (levels below).2)

/-- A stack with a tree above its topmost open bracket has one at the top. -/
theorem exists_node_of_levels {stack : List Item} (h : 0 < (levels stack).1) :
    ∃ node below, stack = .node node :: below := by
  match stack with
  | [] => exact absurd h (Nat.lt_irrefl 0)
  | .opening _ :: _ => exact absurd h (Nat.lt_irrefl 0)
  | .node node :: below => exact ⟨node, below, rfl⟩

/-- A stack without open brackets holds nothing but trees. -/
theorem exists_nodes_of_levels {stack : List Item} (h : (levels stack).2 = []) :
    ∃ nodes : List Node, stack = nodes.map .node := by
  induction stack with
  | nil => exact ⟨[], rfl⟩
  | cons item below ih =>
    cases item with
    | opening p => cases h
    | node node =>
      obtain ⟨nodes, hnodes⟩ := ih h
      exact ⟨node :: nodes, by rw [hnodes]; rfl⟩

/-- What a closing bracket collects lies above the topmost open bracket. -/
theorem collect_levels {bracket : Bracket} {p start : Position} {above elements : List Node}
    {stack left : List Item} (h : collect bracket p above stack = .ok (elements, start, left)) :
    (levels stack).2 = (levels left).1 :: (levels left).2 := by
  induction stack generalizing above with
  | nil => cases h
  | cons item below ih =>
    cases item with
    | opening q =>
      cases h
      rfl
    | node node => exact ih h

/-- A closing bracket with its partner on the stack does not reach what lies below. -/
theorem collect_append {stack : List Item} (hstack : (levels stack).2 ≠ []) (bracket : Bracket)
    (p : Position) (above : List Node) (below : List Item) :
    collect bracket p above (stack ++ below) =
      (collect bracket p above stack).map fun (elements, start, left) =>
        (elements, start, left ++ below) := by
  induction stack generalizing above with
  | nil => exact absurd rfl hstack
  | cons item rest ih =>
    cases item with
    | opening q => rfl
    | node node => exact ih hstack (node.ungroup :: above)

/-- An operator with too few trees above the topmost open bracket misses an operand. -/
theorem step_missing {stack : List Item} {token : Token} {operator : Operator}
    (hkind : token.kind = .operator operator) (hseparator : operator.isSeparator = false)
    (hfew : (levels stack).1 < operator.arity) (table : Table) :
    step table stack token =
      .error (.compilation (.missingOperand operator.spelling) token.position) := by
  rw [step]
  simp only [hkind, hseparator, Bool.false_eq_true, if_false]
  rw [Operator.arity_eq hseparator] at hfew
  cases hunary : operator.isUnary with
  | true =>
    rw [hunary, if_pos rfl] at hfew
    match stack with
    | [] => rfl
    | .opening _ :: _ => rfl
    | .node _ :: below =>
      rw [levels] at hfew
      omega
  | false =>
    rw [hunary, if_neg Bool.false_ne_true] at hfew
    match stack with
    | [] => rfl
    | .opening _ :: _ => rfl
    | [.node _] => rfl
    | .node _ :: .opening _ :: _ => rfl
    | .node _ :: .node _ :: below =>
      rw [levels, levels] at hfew
      omega

/-- One step of the second pass counts the trees. -/
theorem step_levels {table : Table} {stack next : List Item} {token : Token}
    (h : step table stack token = .ok next) : supply (levels stack) token = some (levels next) := by
  obtain ⟨kind, p⟩ := token
  cases kind with
  | number | literal | feature | identifier =>
    obtain ⟨operand, -, heq⟩ := bind_eq_ok_iff.mp h
    cases heq
    rfl
  | opening bracket =>
    cases h
    rfl
  | closing bracket =>
    obtain ⟨⟨elements, start, left⟩, hcollect, heq⟩ := bind_eq_ok_iff.mp h
    cases heq
    rw [supply]
    dsimp only
    rw [collect_levels hcollect]
    rfl
  | operator operator =>
    rw [step] at h
    dsimp only at h
    cases hseparator : operator.isSeparator with
    | true =>
      rw [hseparator, if_pos rfl] at h
      cases h
      rw [supply]
      simp only [hseparator, if_true]
    | false =>
      simp only [hseparator, Bool.false_eq_true, if_false] at h
      rw [supply]
      simp only [hseparator, Bool.false_eq_true, if_false, Operator.arity_eq hseparator]
      split at h
      · next hunary =>
        split at h
        · obtain ⟨node, -, heq⟩ := bind_eq_ok_iff.mp h
          cases heq
          simp [hunary, levels]
        · cases h
      · next hunary =>
        split at h
        · obtain ⟨node, -, heq⟩ := bind_eq_ok_iff.mp h
          cases heq
          simp [hunary, levels]
        · cases h

/-- A supplied token does not reach what lies below the stack. -/
theorem step_append {table : Table} {stack : List Item} {token : Token} {trees : Nat × List Nat}
    (hsupply : supply (levels stack) token = some trees) (below : List Item) :
    step table (stack ++ below) token = (step table stack token).map (· ++ below) := by
  obtain ⟨kind, p⟩ := token
  cases kind with
  | number | literal | feature | identifier =>
    rw [step, step]
    dsimp only
    cases Leaf.ofToken table _ with
    | error fault => rfl
    | ok operand => rfl
  | opening bracket => rfl
  | closing bracket =>
    have hstack : (levels stack).2 ≠ [] := by
      intro hnil
      rw [supply] at hsupply
      dsimp only at hsupply
      rw [hnil] at hsupply
      cases hsupply
    rw [step, step]
    dsimp only
    rw [collect_append hstack]
    cases collect bracket p [] stack with
    | error fault => rfl
    | ok collected => rfl
  | operator operator =>
    rw [step, step]
    dsimp only
    cases hseparator : operator.isSeparator with
    | true => rfl
    | false =>
      have hcount := arity_le_of_supply rfl hseparator hsupply
      rw [Operator.arity_eq hseparator] at hcount
      cases hunary : operator.isUnary with
      | true =>
        rw [hunary, if_pos rfl] at hcount
        obtain ⟨operand, rest, rfl⟩ := exists_node_of_levels hcount
        simp only [Bool.false_eq_true, if_true, if_false, List.cons_append]
        cases ofUnary operator operand p with
        | error fault => rfl
        | ok node => rfl
      | false =>
        rw [hunary, if_neg Bool.false_ne_true] at hcount
        obtain ⟨right, rest, rfl⟩ := exists_node_of_levels (Nat.lt_of_succ_lt hcount)
        rw [levels] at hcount
        obtain ⟨left, rest, rfl⟩ := exists_node_of_levels (Nat.lt_of_succ_lt_succ hcount)
        simp only [Bool.false_eq_true, if_false, List.cons_append]
        cases ofBinary operator left right p with
        | error fault => rfl
        | ok node => rfl

/-- A run of the second pass counts the trees. -/
theorem foldlM_step_levels {table : Table} {stack last : List Item} {tokens : List Token}
    (h : tokens.foldlM (step table) stack = .ok last) :
    tokens.foldlM supply (levels stack) = some (levels last) := by
  induction tokens generalizing stack with
  | nil =>
    cases h
    rfl
  | cons token tokens ih =>
    obtain ⟨next, hone, hrest⟩ := bind_eq_ok_iff.mp h
    rw [List.foldlM_cons, step_levels hone]
    exact ih hrest

/-- A run of supplied tokens does not reach what lies below the stack. -/
theorem foldlM_step_append {table : Table} {stack : List Item} {tokens : List Token}
    (hsupplied : (tokens.foldlM supply (levels stack)).isSome) (below : List Item) :
    tokens.foldlM (step table) (stack ++ below) =
      (tokens.foldlM (step table) stack).map (· ++ below) := by
  induction tokens generalizing stack with
  | nil => rfl
  | cons token tokens ih =>
    rw [List.foldlM_cons] at hsupplied ⊢
    cases hsupply : supply (levels stack) token with
    | none =>
      rw [hsupply] at hsupplied
      cases hsupplied
    | some trees =>
      rw [step_append hsupply, List.foldlM_cons]
      rw [hsupply] at hsupplied
      cases hone : step table stack token with
      | error fault => rfl
      | ok next =>
        have htrees : levels next = trees :=
          Option.some.inj ((step_levels hone).symm.trans hsupply)
        exact ih (htrees ▸ hsupplied)

/-- Balanced tokens that are not supplied miss an operand by themselves, also when they can be
read above other trees. -/
theorem foldlM_step_missing {table : Table} {stack below last : List Item} {tokens : List Token}
    {brackets brackets' : List Bracket}
    (hbrackets : tokens.foldlM bracketsAfter brackets = some brackets')
    (hlength : (levels stack).2.length = brackets.length)
    (hsupplied : tokens.foldlM supply (levels stack) = none)
    (h : tokens.foldlM (step table) (stack ++ below) = .ok last) :
    ∃ spelling p, tokens.foldlM (step table) stack =
      .error (.compilation (.missingOperand spelling) p) := by
  induction tokens generalizing stack brackets with
  | nil => cases hsupplied
  | cons token tokens ih =>
    rw [List.foldlM_cons, Option.bind_eq_bind, Option.bind_eq_some_iff] at hbrackets
    obtain ⟨nextBrackets, hopen, hopenRest⟩ := hbrackets
    rw [List.foldlM_cons] at hsupplied ⊢
    cases hsupply : supply (levels stack) token with
    | none =>
      -- the first token without supply is an operator, since the brackets fit
      obtain ⟨operator, hkind, hseparator, hfew⟩ := exists_operator_of_supply hopen hlength hsupply
      exact ⟨operator.spelling, token.position, by rw [step_missing hkind hseparator hfew]; rfl⟩
    | some trees =>
      rw [hsupply] at hsupplied
      obtain ⟨joint, hjoint, hrest⟩ := bind_eq_ok_iff.mp h
      rw [step_append hsupply] at hjoint
      obtain ⟨next, hone, rfl⟩ := map_eq_ok_iff.mp hjoint
      have htrees : levels next = trees := Option.some.inj ((step_levels hone).symm.trans hsupply)
      subst htrees
      rw [hone]
      exact ih hopenRest (supply_brackets hsupply hopen hlength) hsupplied hrest

/-- The trees that are left at the end are the statements. -/
theorem assemble_eq_ok {table : Table} {tokens : List Token} {nodes : List Node}
    (h : tokens.foldlM (step table) [] = .ok (nodes.map .node)) :
    assemble table tokens = .ok (nodes.reverse.map ungroup) := by
  rw [assemble, h]
  change (nodes.map Item.node).reverse.mapM statement = _
  rw [← List.map_reverse, List.mapM_map]
  exact List.mapM_pure

/-- Balanced tokens leave nothing but trees. -/
theorem exists_nodes_of_balanced {table : Table} {tokens : List Token} {last : List Item}
    (hbalanced : Balanced tokens) (h : tokens.foldlM (step table) [] = .ok last) :
    ∃ nodes : List Node, last = nodes.map .node := by
  have hclosed : (levels last).2.length = 0 :=
    foldlM_supply_brackets (foldlM_step_levels h) hbalanced rfl
  exact exists_nodes_of_levels (List.length_eq_zero_iff.mp hclosed)

/-- If the second of two balanced parts is supplied, the statements of both together are those of
each. -/
theorem assemble_append {first second : List Token} (hfirst : Balanced first)
    (hsecond : Balanced second) (hsupplied : (second.foldlM supply (0, [])).isSome)
    (table : Table) :
    assemble table (first ++ second) =
      assemble table first >>= fun before => (assemble table second).map (before ++ ·) := by
  cases hrun : first.foldlM (step table) [] with
  | error fault =>
    rw [assemble, assemble, List.foldlM_append, hrun]
    rfl
  | ok last =>
    obtain ⟨before, rfl⟩ := exists_nodes_of_balanced hfirst hrun
    have hbelow : (first ++ second).foldlM (step table) [] =
        (second.foldlM (step table) []).map (· ++ before.map .node) := by
      rw [List.foldlM_append, hrun]
      exact @foldlM_step_append table [] second hsupplied _
    rw [assemble_eq_ok hrun]
    cases hrest : second.foldlM (step table) [] with
    | error fault =>
      rw [hrest] at hbelow
      rw [assemble, assemble, hbelow, hrest]
      rfl
    | ok top =>
      obtain ⟨after, rfl⟩ := exists_nodes_of_balanced hsecond hrest
      rw [hrest] at hbelow
      have hjoint : (first ++ second).foldlM (step table) [] =
          .ok ((after ++ before).map .node) := by
        rw [hbelow, List.map_append]
        rfl
      rw [assemble_eq_ok hjoint, assemble_eq_ok hrest, List.reverse_append, List.map_append]
      rfl

/-- If every operator behind a separator finds its operands there, the statements of a unit are
those before the separator and those behind it. -/
theorem parse_of_isSupplied {first second : List Token} {separator : Token} {operator : Operator}
    (hkind : separator.kind = .operator operator) (hseparator : operator.isSeparator)
    (hfirst : Balanced first) (hsecond : Balanced second) (hsupplied : isSupplied second)
    (table : Table) :
    parse table (first ++ separator :: second) =
      parse table first >>= fun before => (parse table second).map (before ++ ·) := by
  rw [isSupplied] at hsupplied
  rw [parse, parse, parse, operatorsLast_separator hkind hseparator hfirst]
  cases hbefore : operatorsLast first with
  | error fault => rfl
  | ok before =>
    cases hafter : operatorsLast second with
    | error fault =>
      rw [hafter] at hsupplied
      cases hsupplied
    | ok after =>
      rw [hafter] at hsupplied
      exact assemble_append (hfirst.operatorsLast hbefore) (hsecond.operatorsLast hafter)
        hsupplied table

/-- Tokens that are read by themselves find their operands among themselves. -/
theorem isSupplied_of_parse {table : Table} {tokens : List Token} {nodes : List Node}
    (h : parse table tokens = .ok nodes) : isSupplied tokens := by
  obtain ⟨ordered, hordered, hassemble⟩ := bind_eq_ok_iff.mp h
  obtain ⟨last, hrun, -⟩ := bind_eq_ok_iff.mp hassemble
  have hsupply : ordered.foldlM supply (0, []) = some (levels last) := foldlM_step_levels hrun
  simp [isSupplied, hordered, hsupply]

/-- Two units that are read by themselves are read together with a separator between them, and the
statements of the second follow those of the first. -/
theorem parse_append_separator {table : Table} {first second : List Token} {separator : Token}
    {operator : Operator} {before after : List Node} (hkind : separator.kind = .operator operator)
    (hseparator : operator.isSeparator) (hfirst : parse table first = .ok before)
    (hsecond : parse table second = .ok after) :
    parse table (first ++ separator :: second) = .ok (before ++ after) := by
  have hbalanced : ∀ {tokens nodes}, parse table tokens = .ok nodes → Balanced tokens := by
    intro tokens nodes h
    obtain ⟨ordered, hordered, -⟩ := bind_eq_ok_iff.mp h
    exact balanced_of_operatorsLast hordered
  rw [parse_of_isSupplied hkind hseparator (hbalanced hfirst) (hbalanced hsecond)
    (isSupplied_of_parse hsecond), hfirst, hsecond]
  rfl

/-- The statements of `(a)` and `-b` are those of `(a), -b`. -/
theorem parse_append_separator_negation :
    let first : List Token :=
      [⟨.opening .round, ⟨1, 1⟩⟩, ⟨.identifier "a", ⟨1, 2⟩⟩, ⟨.closing .round, ⟨1, 3⟩⟩]
    let second : List Token := [⟨.operator .negate, ⟨1, 6⟩⟩, ⟨.identifier "b", ⟨1, 7⟩⟩]
    parse .empty (first ++ ⟨.operator .comma, ⟨1, 4⟩⟩ :: second) =
      .ok [.leaf ⟨1, 2⟩ (.name "a"), .unary ⟨1, 6⟩ .negate (.leaf ⟨1, 7⟩ (.name "b"))] := by
  intro first second
  have hfirst : parse .empty first = .ok [.leaf ⟨1, 2⟩ (.name "a")] := rfl
  have hsecond : parse .empty second =
      .ok [.unary ⟨1, 6⟩ .negate (.leaf ⟨1, 7⟩ (.name "b"))] := rfl
  exact parse_append_separator rfl rfl hfirst hsecond

/-- Tokens that are read together with those behind a separator, although these are not supplied:
the tokens before it are read alone, those behind it miss an operand. -/
theorem parse_of_not_isSupplied {table : Table} {first second : List Token} {separator : Token}
    {operator : Operator} {nodes : List Node} (hkind : separator.kind = .operator operator)
    (hseparator : operator.isSeparator) (hfirst : Balanced first) (hsecond : Balanced second)
    (hsupplied : isSupplied second = false)
    (hparse : parse table (first ++ separator :: second) = .ok nodes) :
    (∃ before, parse table first = .ok before) ∧
      ∃ spelling p, parse table second = .error (.compilation (.missingOperand spelling) p) := by
  rw [parse, operatorsLast_separator hkind hseparator hfirst] at hparse
  obtain ⟨ordered, hordered, hassemble⟩ := bind_eq_ok_iff.mp hparse
  obtain ⟨before, hbefore, hmap⟩ := bind_eq_ok_iff.mp hordered
  obtain ⟨after, hafter, rfl⟩ := map_eq_ok_iff.mp hmap
  obtain ⟨last, hrun, -⟩ := bind_eq_ok_iff.mp hassemble
  rw [List.foldlM_append] at hrun
  obtain ⟨below, hbelow, habove⟩ := bind_eq_ok_iff.mp hrun
  obtain ⟨trees, rfl⟩ := exists_nodes_of_balanced (hfirst.operatorsLast hbefore) hbelow
  have hnone : after.foldlM supply (levels []) = none := by
    rw [isSupplied, hafter] at hsupplied
    exact Option.not_isSome_iff_eq_none.mp (Bool.eq_false_iff.mp hsupplied)
  obtain ⟨spelling, p, hmissing⟩ :=
    foldlM_step_missing (hsecond.operatorsLast hafter) rfl hnone habove
  refine ⟨⟨trees.reverse.map ungroup, ?_⟩, spelling, p, ?_⟩
  · rw [parse, hbefore]
    exact assemble_eq_ok hbelow
  · rw [parse, hafter]
    change assemble table after = _
    rw [assemble, hmissing]
    rfl

/-- If a unit with a separator is read, so is what stands before the separator alone. What stands
behind it is read alone exactly if every operator there finds its operands there; otherwise an
operator takes trees from the other side, and the tokens alone miss an operand. -/
theorem parse_separated {table : Table} {first second : List Token} {separator : Token}
    {operator : Operator} {nodes : List Node} (hkind : separator.kind = .operator operator)
    (hseparator : operator.isSeparator) (hfirst : Balanced first) (hsecond : Balanced second)
    (hparse : parse table (first ++ separator :: second) = .ok nodes) :
    (∃ before, parse table first = .ok before) ∧
      ((∃ after, parse table second = .ok after) ↔ isSupplied second) ∧
      (¬ isSupplied second → ∃ spelling p,
        parse table second = .error (.compilation (.missingOperand spelling) p)) := by
  cases hsupplied : isSupplied second with
  | true =>
    rw [parse_of_isSupplied hkind hseparator hfirst hsecond hsupplied] at hparse
    obtain ⟨before, hbefore, hmap⟩ := bind_eq_ok_iff.mp hparse
    obtain ⟨after, hafter, -⟩ := map_eq_ok_iff.mp hmap
    exact ⟨⟨before, hbefore⟩, ⟨fun _ => rfl, fun _ => ⟨after, hafter⟩⟩, fun hnot => absurd rfl hnot⟩
  | false =>
    obtain ⟨hbefore, spelling, p, hmissing⟩ :=
      parse_of_not_isSupplied hkind hseparator hfirst hsecond hsupplied hparse
    refine ⟨hbefore, ⟨?_, fun h => absurd h Bool.false_ne_true⟩, fun _ => ⟨spelling, p, hmissing⟩⟩
    rintro ⟨after, hafter⟩
    rw [hmissing] at hafter
    cases hafter

/-- In `a; -b` both sides are read alone. -/
theorem parse_separated_negation :
    let first : List Token := [⟨.identifier "a", ⟨1, 1⟩⟩]
    let second : List Token := [⟨.operator .negate, ⟨1, 4⟩⟩, ⟨.identifier "b", ⟨1, 5⟩⟩]
    isSupplied second ∧ (∃ before, parse .empty first = .ok before) ∧
      ∃ after, parse .empty second = .ok after := by
  intro first second
  have hparse : parse .empty (first ++ ⟨.operator .semicolon, ⟨1, 2⟩⟩ :: second) =
      .ok [.leaf ⟨1, 1⟩ (.name "a"), .unary ⟨1, 4⟩ .negate (.leaf ⟨1, 5⟩ (.name "b"))] := rfl
  have hfirst : Balanced first := rfl
  have hsecond : Balanced second := rfl
  have hseparated := parse_separated rfl rfl hfirst hsecond hparse
  exact ⟨rfl, hseparated.1, hseparated.2.1.mpr rfl⟩

/-- In `a; * b` the operator takes the name before the separator, although `* b` alone misses an
operand. -/
theorem parse_reaches_across :
    let first : List Token := [⟨.identifier "a", ⟨1, 1⟩⟩]
    let second : List Token := [⟨.operator .multiply, ⟨1, 4⟩⟩, ⟨.identifier "b", ⟨1, 6⟩⟩]
    Balanced first ∧ Balanced second ∧
      parse .empty (first ++ ⟨.operator .semicolon, ⟨1, 2⟩⟩ :: second) =
        .ok [.binary ⟨1, 4⟩ .multiply (.leaf ⟨1, 1⟩ (.name "a")) (.leaf ⟨1, 6⟩ (.name "b"))] ∧
      ¬ ∃ after, parse .empty second = .ok after := by
  refine ⟨rfl, rfl, rfl, ?_⟩
  rintro ⟨after, hafter⟩
  cases hafter

end Node

end SoundLaw
