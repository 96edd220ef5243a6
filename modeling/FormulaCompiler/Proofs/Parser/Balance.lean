import FormulaCompiler.Proofs.Parser.Careful
import FormulaCompiler.Proofs.Parser.Course

/-!
# Where a rule that succeeds comes to

A rule that gives a value has read tokens from the front of those left, has come up again as far as it went down, and
has declared no constant, unless it is a statement that does so (`Advance`). The rules are put together from parts that
do so each; `Steady` counts the tokens that are read at least, so that the parts which may read none can stand before
or after one that does not. Main statements: this holds of every rule of an expression (`steady_expression`), and a
statement declares exactly the name that it says (`advance_statement`).
-/

namespace FormulaCompiler.Parser

/-- Whether `t` is where a rule may come to from `s`: as deep, with more constants by `names` only, and past at least
`count` tokens. -/
structure Advance (names : List Identifier) (count : Nat) (s t : State) : Prop where
  depth_eq : t.depth = s.depth
  constants_eq : t.constants = names ++ s.constants
  read : ∃ read, s.tokens = read ++ t.tokens ∧ count ≤ read.length

/-- Whether a rule that gives a value declares nothing, is as deep as before and has read at least `count` tokens. -/
def Steady (count : Nat) {α : Type} (rule : Rule α) : Prop := Ensures rule (Advance [] count)

namespace Advance

variable {names more : List Identifier} {m n : Nat} {s t u : State}

theorem refl : Advance [] 0 s s := ⟨rfl, rfl, [], rfl, Nat.le_refl _⟩

/-- The log takes no part in this. -/
theorem logged (log : Log) : Advance [] 0 s { s with log } := ⟨rfl, rfl, [], rfl, Nat.le_refl _⟩

theorem step {token : Spanned Token} {rest : List (Spanned Token)} (h : s.tokens = token :: rest) :
    Advance [] 1 s (s.past [token] rest) :=
  ⟨rfl, rfl, [token], h, Nat.le_refl _⟩

theorem trans (h : Advance names m s t) (h' : Advance more n t u) : Advance (more ++ names) (m + n) s u := by
  obtain ⟨read, hread, hcount⟩ := h.read
  obtain ⟨further, hfurther, hcount'⟩ := h'.read
  refine ⟨h'.depth_eq.trans h.depth_eq, ?_, read ++ further, ?_, ?_⟩
  · rw [h'.constants_eq, h.constants_eq, List.append_assoc]
  · rw [hread, hfurther, List.append_assoc]
  · rw [List.length_append]
    exact Nat.add_le_add hcount hcount'

theorem weaken (h : Advance names m s t) (hle : n ≤ m) : Advance names n s t := by
  obtain ⟨read, hread, hcount⟩ := h.read
  exact ⟨h.depth_eq, h.constants_eq, read, hread, Nat.le_trans hle hcount⟩

/-- Where at least one token is read, fewer are left. -/
theorem length_lt (h : Advance names 1 s t) : t.tokens.length < s.tokens.length := by
  obtain ⟨read, hread, hcount⟩ := h.read
  rw [hread, List.length_append]
  omega

end Advance

variable {α β : Type} {rule : Rule α} {f : α → Rule β} {m n : Nat}

/-! ### Rules that run others -/

namespace Steady

/-- What comes after a rule that reads enough need not read anything. -/
theorem andThen (h : Steady n rule) (hf : ∀ value, Steady 0 (f value)) : Steady n (rule >>= f) := by
  intro s result t hok
  obtain ⟨value, u, hrule, hrest⟩ := ok_bind hok
  exact (h hrule).trans (hf value hrest)

/-- What comes before a rule that reads enough need not read anything. -/
theorem before (h : Steady m rule) (hf : ∀ value, Steady n (f value)) : Steady n (rule >>= f) := by
  intro s result t hok
  obtain ⟨value, u, hrule, hrest⟩ := ok_bind hok
  exact ((h hrule).trans (hf value hrest)).weaken (Nat.le_add_left n m)

theorem failing (h : Steady n rule) (recoverable : Bool) : Steady n (failing recoverable rule) :=
  fun _ _ _ hok => h (ok_failing hok)

/-- An attempt that is given up has read nothing. -/
theorem optional (h : Steady n rule) : Steady 0 (optional rule) := by
  intro s value? t hok
  unfold Parser.optional at hok
  cases hrule : rule s with
  | ok value u =>
      rw [hrule] at hok
      cases hok
      exact (h hrule).weaken (Nat.zero_le n)
  | error failure u =>
      rw [hrule] at hok
      dsimp only at hok
      split at hok <;> cases hok
      exact .logged u.log

/-- A rule that comes up again to where it began one level deeper comes up to where it was called. -/
theorem deeper (h : Steady n rule) : Steady n (deeper rule) := by
  intro s value t hok
  rcases Nat.lt_or_ge s.depth nestingLimit with hdepth | hdepth
  · rw [deeper_eq rule hdepth] at hok
    obtain ⟨value', u, hrule, hascend⟩ := ok_bind hok
    obtain ⟨hlevel, hconstants, hread⟩ := h hrule
    cases hascend
    exact ⟨congrArg (· - 1) hlevel, hconstants, hread⟩
  · rw [deeper_of_tooDeep rule hdepth] at hok
    exact absurd hok not_ok_fail

end Steady

/-! ### Rules that run no other -/

theorem steady_of_stays (h : Ensures rule fun s t => t = s) : Steady 0 rule := by
  intro s value t hok
  rw [h hok]
  exact .refl

theorem steady_pure (value : α) : Steady 0 (pure value : Rule α) := steady_of_stays fun _ _ _ h => (ok_pure h).2

theorem steady_fail (error : SyntaxError) : Steady n (fail error : Rule α) := fun _ _ _ h => absurd h not_ok_fail

theorem steady_peek : Steady 0 peek := steady_of_stays fun _ _ _ h => (ok_peek h).2

theorem steady_tokensLeft : Steady 0 tokensLeft := steady_of_stays fun _ _ _ h => (ok_tokensLeft h).2

theorem steady_build (result : Except TreeMisuse α) : Steady 0 (build result) :=
  steady_of_stays fun _ _ _ h => (ok_build h).2

theorem steady_use (name : Identifier) : Steady 0 (use name) := steady_of_stays fun _ _ _ h => (ne_empty_of_ok_use h).2

theorem next_eq {s : State} {token : Spanned Token} {rest : List (Spanned Token)} (h : s.tokens = token :: rest) :
    next s = .ok token.value (s.past [token] rest) := by
  obtain ⟨tokens, lastRead, constants, depth, traced, log⟩ := s
  cases h
  rfl

theorem steady_next : Steady 1 next := by
  intro s token t h
  cases htokens : s.tokens with
  | nil =>
      obtain ⟨spanned, -, hsplit⟩ := ok_next h
      rw [htokens] at hsplit
      cases hsplit
  | cons spanned rest =>
      rw [next_eq htokens] at h
      cases h
      exact .step htokens

theorem steady_expect (wanted : Token) : Steady 1 (expect wanted) := by
  have hget : Steady 0 (get : Rule State) := steady_of_stays fun s state t h => by cases h; rfl
  refine hget.before fun state => ?_
  split
  · exact steady_fail _
  · refine steady_next.andThen fun found => ?_
    split
    · exact steady_pure _
    · exact steady_fail _

/-- Building an operation touches nothing but the log. -/
theorem steady_operation (operator : Operator) (operands : List Node) : Steady 0 (operation operator operands) := by
  intro s node t h
  obtain ⟨tokens, lastRead, constants, depth, traced, log⟩ := s
  rw [operation_eq] at h
  split at h
  · exact absurd h not_ok_fail
  · cases traced <;> cases h <;> exact .logged _

/-! ### Names and sequences -/

theorem steady_name : Steady 1 name := by
  refine steady_next.andThen fun token => ?_
  split
  · exact steady_pure _
  · exact steady_fail _

theorem steady_nameOf (kind : IdentifierKind) : Steady 1 (nameOf kind) := steady_name.andThen fun _ => steady_build _

section

variable {item : Rule α} {operand : Rule Node} {operator? : Token → Option Operator}

theorem steady_moreItems (hitem : Steady 1 item) (rounds : List (Spanned Token)) (reversed : List α) :
    Steady 0 (moreItems item rounds reversed) := by
  induction rounds generalizing reversed with
  | nil => exact steady_pure _
  | cons round rounds ih =>
      refine steady_peek.before fun next? => ?_
      split
      · refine steady_next.before fun _ => ?_
        exact (hitem.failing false).before fun value => ih (value :: reversed)
      · exact steady_pure _

/-- A list may have no items, in which case it has read no token. -/
theorem steady_commaList (hitem : Steady 1 item) : Steady 0 (commaList item) := by
  refine hitem.optional.before fun first? => ?_
  cases first? with
  | none => exact steady_pure _
  | some first => exact steady_tokensLeft.before fun rounds => steady_moreItems hitem rounds [first]

theorem steady_moreOperands (hoperand : Steady 1 operand) (rounds : List (Spanned Token)) (left : Node) :
    Steady 0 (moreOperands operator? operand rounds left) := by
  induction rounds generalizing left with
  | nil => exact steady_pure _
  | cons round rounds ih =>
      refine steady_peek.before fun next? => ?_
      split
      · exact steady_pure _
      · refine steady_next.before fun _ => ?_
        refine (hoperand.failing false).before fun right => ?_
        exact (steady_operation _ _).before ih

theorem steady_leftAssociative (hoperand : Steady 1 operand) : Steady 1 (leftAssociative operator? operand) :=
  hoperand.andThen fun first => steady_tokensLeft.before fun rounds => steady_moreOperands hoperand rounds first

end

/-! ### Expressions -/

/-- Whether all rules that are used one level deeper are steady and read a token. -/
structure Inner.Steady (inner : Inner) : Prop where
  expression : Parser.Steady 1 inner.expression
  power : Parser.Steady 1 inner.power
  signed : Parser.Steady 1 inner.signed

section

variable {inner : Inner} (hinner : inner.Steady)

include hinner

theorem steady_atom : Steady 1 (atom inner) := by
  refine steady_next.andThen fun token => ?_
  split
  · exact steady_pure _
  · refine (steady_use _).before fun used => steady_peek.before fun next? => ?_
    split
    · refine (steady_build _).before fun callee => ?_
      refine (steady_expect _).before fun _ => ?_
      refine (steady_commaList hinner.expression).deeper.before fun arguments => ?_
      exact (steady_expect _).before fun _ => steady_operation _ _
    · exact steady_pure _
  · refine (hinner.expression.failing false).deeper.before fun enclosed => ?_
    exact (steady_expect _).before fun _ => steady_pure _
  · exact (steady_fail _).failing true

theorem steady_signed : Steady 1 (signed inner) := by
  refine steady_peek.before fun next? => ?_
  split
  · refine steady_next.andThen fun _ => ?_
    exact (hinner.signed.failing false).deeper.before fun _ => steady_operation _ _
  · exact steady_atom hinner

theorem steady_power : Steady 1 (power inner) := by
  refine (steady_signed hinner).andThen fun base => steady_peek.before fun next? => ?_
  split
  · refine steady_next.before fun _ => ?_
    exact (hinner.power.failing false).deeper.before fun _ => steady_operation _ _
  · exact steady_pure _

theorem steady_product : Steady 1 (product inner) := steady_leftAssociative (steady_power hinner)

theorem steady_sum : Steady 1 (sum inner) := steady_leftAssociative (steady_product hinner)

theorem steady_expression : Steady 1 (expression inner) := by
  refine (steady_sum hinner).andThen fun left => steady_peek.before fun next? => ?_
  split
  · exact steady_pure _
  · refine steady_next.before fun _ => ?_
    exact ((steady_sum hinner).failing false).before fun _ => steady_operation _ _

end

theorem steady_innerRules (levels : Nat) : (innerRules levels).Steady := by
  induction levels with
  | zero => exact ⟨steady_fail _, steady_fail _, steady_fail _⟩
  | succ levels ih => exact ⟨steady_expression ih, steady_power ih, steady_signed ih⟩

theorem steady_outerExpression : Steady 1 outerExpression := steady_expression (steady_innerRules _)

/-! ### Statements -/

theorem steady_declaration (kind : IdentifierKind) : Steady 1 (declaration kind) := by
  refine (steady_nameOf kind).andThen fun name => ?_
  refine (steady_expect _).before fun _ => ?_
  exact (steady_outerExpression.failing false).before fun _ => steady_pure _

theorem steady_functionDefinition : Steady 1 functionDefinition := by
  refine (steady_expect _).andThen fun _ => (steady_nameOf _).before fun name => ?_
  refine (steady_expect _).before fun _ => ?_
  refine (steady_commaList ((steady_nameOf _).failing true)).before fun parameters => ?_
  refine (steady_expect _).before fun _ => ?_
  refine (steady_expect _).before fun _ => ?_
  refine (steady_outerExpression.failing false).before fun body => ?_
  exact (steady_operation _ _).before fun parameters => steady_operation _ _

theorem steady_assignmentTarget : Steady 1 assignmentTarget := by
  refine (steady_name.failing true).andThen fun name => (steady_use name).before fun target => ?_
  exact ((steady_expect _).failing true).before fun _ => steady_pure _

/-- The name that a statement declares constant, if it is one that does. -/
def declaredBy : List Token → List Identifier
  | .keyword .constDecl :: .identifier name :: _ => [name]
  | _ => []

theorem declaredBy_eq_nil {tokens : List Token} (h : tokens.head? ≠ some (.keyword .constDecl)) :
    declaredBy tokens = [] := by
  unfold declaredBy
  split
  · exact absurd rfl h
  · rfl

/-- The name node of a declaration is the next token. -/
theorem name_of_ok_declaration {kind : IdentifierKind} {s t : State} {declared : Node × Node}
    (h : declaration kind s = .ok declared t) : ∃ name spanned rest, s.tokens = spanned :: rest ∧
      spanned.value = .identifier name ∧ declared.1 = .identifier kind name := by
  obtain ⟨node, u, hname, hrest⟩ := ok_bind h
  obtain ⟨name, v, hread, hbuild⟩ := ok_bind hname
  obtain ⟨spanned, hvalue, htokens⟩ := ok_name hread
  have hnode := (ok_build hbuild).1
  unfold Node.ofIdentifier at hnode
  split at hnode <;> cases hnode
  obtain ⟨_, _, -, hrest⟩ := ok_bind hrest
  obtain ⟨value, _, -, hpure⟩ := ok_bind hrest
  obtain ⟨rfl, -⟩ := ok_pure hpure
  exact ⟨name, spanned, _, htokens, hvalue, rfl⟩

/-- **A statement declares the name that it says and no other.** -/
theorem advance_statement : Ensures statement fun s t => Advance (declaredBy (valuesOf s.tokens)) 1 s t := by
  refine Ensures.peek fun next? => ?_
  -- every statement but one with `const` in front keeps the constants
  have hplain {rule : Rule Node} (h : Steady 1 rule) (hnext : next? ≠ some (.keyword .constDecl)) :
      Ensures rule fun s t => s.tokens.head?.map (·.value) = next? → Advance (declaredBy (valuesOf s.tokens)) 1 s t := by
    intro s node t hok hseen
    rw [← head?_valuesOf] at hseen
    rw [declaredBy_eq_nil (by rwa [hseen])]
    exact h hok
  split
  · intro s node t hok hseen
    obtain ⟨token, u, hnext, hrest⟩ := ok_bind hok
    obtain ⟨declared, v, hdeclaration, hrest⟩ := ok_bind hrest
    obtain ⟨name, spanned, rest, htokens, hvalue, hnode⟩ := name_of_ok_declaration hdeclaration
    obtain ⟨_, w, hadd, hoperation⟩ := ok_bind hrest
    have hsaid : declaredBy (valuesOf s.tokens) = [name] := by
      obtain ⟨first, -, hfirst⟩ := ok_next hnext
      rw [hfirst, List.head?_cons, Option.map_some, Option.some.injEq] at hseen
      rw [hfirst, htokens, valuesOf_cons, valuesOf_cons, hseen, hvalue]
      rfl
    have hadded : Advance [name] 0 v w := by
      rw [hnode] at hadd
      cases hadd
      exact ⟨rfl, rfl, [], rfl, Nat.le_refl _⟩
    have hbefore := (steady_next hnext).trans (steady_declaration _ hdeclaration)
    have hafter := hadded.trans (steady_operation _ _ hoperation)
    rw [hsaid]
    exact (hbefore.trans hafter).weaken (Nat.le_add_right 1 1)
  · refine hplain (steady_next.andThen fun _ => ?_) (by simp)
    exact (steady_declaration _).before fun declared => steady_operation _ _
  · exact hplain steady_functionDefinition (by simp)
  · refine hplain ?_ (by simp)
    refine steady_assignmentTarget.optional.before fun target? => ?_
    cases target? with
    | none => exact steady_outerExpression
    | some target => exact (steady_outerExpression.failing false).andThen fun value => steady_operation _ _
  · rename_i hother _ _ _
    exact hplain steady_outerExpression hother

end FormulaCompiler.Parser
