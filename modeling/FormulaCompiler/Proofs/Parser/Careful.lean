import FormulaCompiler.Proofs.Acceptance

/-!
# Names that the parser accepts

Every name that a rule reads becomes a node, and no node can be built for a name without characters. A rule
that gives a value has therefore read proper names only (`Careful`), and since a unit reads all tokens, no
accepted token is an empty name (`named_of_parse`). Rules are taken apart here by what their success says
about their parts.
-/

namespace FormulaCompiler.Parser

variable {α β : Type} {s t : State} {value : α}

/-! ### What success says about the parts of a rule -/

theorem ok_bind {a : Rule α} {f : α → Rule β} {result : β} (h : (a >>= f) s = .ok result t) :
    ∃ value u, a s = .ok value u ∧ f value u = .ok result t := by
  change EStateM.bind a f s = _ at h
  unfold EStateM.bind at h
  split at h
  · rename_i value u ha
    exact ⟨value, u, ha, h⟩
  · cases h

theorem ok_pure {value' : α} (h : (pure value : Rule α) s = .ok value' t) : value' = value ∧ t = s := by
  cases h
  exact ⟨rfl, rfl⟩

theorem not_ok_fail {error : SyntaxError} : fail error s ≠ .ok value t := by
  intro h
  cases h

theorem ok_failing {rule : Rule α} {recoverable : Bool} (h : failing recoverable rule s = .ok value t) :
    rule s = .ok value t := by
  unfold failing at h
  split at h <;> cases h
  assumption

theorem ok_optional {rule : Rule α} {value? : Option α} (h : optional rule s = .ok value? t) :
    (∃ value, value? = some value ∧ rule s = .ok value t) ∨ value? = none ∧ t.tokens = s.tokens := by
  unfold optional at h
  split at h
  · rename_i value u hrule
    cases h
    exact .inl ⟨value, rfl, hrule⟩
  · dsimp only at h
    split at h <;> cases h
    exact .inr ⟨rfl, rfl⟩

theorem ok_peek {next? : Option Token} (h : peek s = .ok next? t) :
    next? = s.tokens.head?.map (·.value) ∧ t = s := by
  cases h
  exact ⟨rfl, rfl⟩

theorem ok_tokensLeft {tokens : List (Spanned Token)} (h : tokensLeft s = .ok tokens t) :
    tokens = s.tokens ∧ t = s := by
  cases h
  exact ⟨rfl, rfl⟩

theorem ok_next {token : Token} (h : next s = .ok token t) :
    ∃ spanned, spanned.value = token ∧ s.tokens = spanned :: t.tokens := by
  obtain ⟨tokens, lastRead, constants, depth, traced, log⟩ := s
  cases tokens with
  | nil => cases h
  | cons spanned tokens =>
      cases h
      exact ⟨spanned, rfl, rfl⟩

theorem ok_expect {wanted : Token} {value : Unit} (h : expect wanted s = .ok value t) :
    ∃ spanned, (spanned.value == wanted) = true ∧ s.tokens = spanned :: t.tokens := by
  obtain ⟨tokens, lastRead, constants, depth, traced, log⟩ := s
  cases tokens with
  | nil => cases h
  | cons spanned tokens =>
      change (if spanned.value == wanted then _ else _ : Rule Unit) _ = _ at h
      by_cases hsame : (spanned.value == wanted) = true
      · rw [if_pos hsame] at h
        cases h
        exact ⟨spanned, hsame, rfl⟩
      · rw [if_neg hsame] at h
        cases h

theorem ok_build {result : Except TreeMisuse α} (h : build result s = .ok value t) : result = .ok value ∧ t = s := by
  cases result with
  | ok built =>
      cases h
      exact ⟨rfl, rfl⟩
  | error misuse => cases h

theorem ok_operation {operator : Operator} {operands : List Node} {node : Node}
    (h : operation operator operands s = .ok node t) : t.tokens = s.tokens := by
  have hruns := Runs.operation operator operands s
  by_cases hfits : Node.heightOver operands ≤ heightLimit
  · obtain ⟨log, hok⟩ := hruns.leads hfits s.log
    cases h.symm.trans hok
    rfl
  · obtain ⟨failure, after, herror, -⟩ := hruns.overruns hfits s.log
    cases h.symm.trans herror

theorem ok_deeper {rule : Rule α} (h : deeper rule s = .ok value t) :
    ∃ u v, u.tokens = s.tokens ∧ rule u = .ok value v ∧ t.tokens = v.tokens := by
  obtain ⟨state, u, hget, hrest⟩ := ok_bind h
  cases hget
  by_cases hdepth : nestingLimit ≤ s.depth
  · rw [if_pos hdepth] at hrest
    obtain ⟨_, _, hfail, -⟩ := ok_bind hrest
    exact absurd hfail not_ok_fail
  · rw [if_neg hdepth] at hrest
    obtain ⟨_, u, hmodify, hinside⟩ := ok_bind hrest
    cases hmodify
    obtain ⟨result, v, hrule, hascend⟩ := ok_bind hinside
    cases hascend
    exact ⟨s.deeper, v, rfl, hrule, rfl⟩

/-! ### Careful rules -/

/-- Whether some relation holds between the states before and after a rule wherever the rule gives a value. -/
def Ensures (rule : Rule α) (post : State → State → Prop) : Prop :=
  ∀ ⦃s value t⦄, rule s = .ok value t → post s t

/-- Whether tokens can be read from the front of some until others are left, without an empty name among
them. -/
def ReadsNamed (before after : List (Spanned Token)) : Prop :=
  ∃ read, before = read ++ after ∧ ∀ token ∈ read, token.value.Named

/-- Whether a rule reads no empty name where it gives a value. -/
def Careful (rule : Rule α) : Prop := Ensures rule fun s t => ReadsNamed s.tokens t.tokens

section

variable {first second third : List (Spanned Token)} {token : Spanned Token} {rule : Rule α}

theorem ReadsNamed.refl : ReadsNamed first first := ⟨[], rfl, by simp⟩

theorem ReadsNamed.of_eq (h : second = first) : ReadsNamed first second := h ▸ .refl

theorem ReadsNamed.trans (h : ReadsNamed first second) (h' : ReadsNamed second third) : ReadsNamed first third := by
  obtain ⟨read, rfl, hread⟩ := h
  obtain ⟨more, rfl, hmore⟩ := h'
  refine ⟨read ++ more, by rw [List.append_assoc], ?_⟩
  rw [List.forall_mem_append]
  exact ⟨hread, hmore⟩

theorem ReadsNamed.step (htoken : token.value.Named) (h : first = token :: second) : ReadsNamed first second :=
  ⟨[token], h, by simpa using htoken⟩

/-- A token that is the same as one that is no name is no name either. -/
theorem named_of_same {found wanted : Token} (hsame : (found == wanted) = true)
    (hwanted : ∀ name, wanted ≠ .identifier name) : found.Named := by
  cases found with
  | identifier name =>
      cases wanted with
      | identifier other => exact absurd rfl (hwanted other)
      | _ => cases hsame
  | _ => trivial

theorem careful_pure (value : α) : Careful (pure value : Rule α) := by
  intro s result t h
  obtain ⟨-, rfl⟩ := ok_pure h
  exact .refl

theorem Careful.bind {f : α → Rule β} (hrule : Careful rule) (hf : ∀ value, Careful (f value)) :
    Careful (rule >>= f) := by
  intro s result t h
  obtain ⟨value, u, ha, h⟩ := ok_bind h
  exact (hrule ha).trans (hf value h)

theorem Careful.failing (h : Careful rule) (recoverable : Bool) : Careful (failing recoverable rule) :=
  fun _ _ _ hok => h (ok_failing hok)

theorem Careful.optional (h : Careful rule) : Careful (optional rule) := by
  intro s result t hok
  obtain ⟨value, -, hrule⟩ | ⟨-, htokens⟩ := ok_optional hok
  · exact h hrule
  · exact .of_eq htokens

theorem Careful.deeper (h : Careful rule) : Careful (deeper rule) := by
  intro s value t hok
  obtain ⟨u, v, hbefore, hrule, hafter⟩ := ok_deeper hok
  rw [← hbefore, hafter]
  exact h hrule

theorem careful_tokensLeft : Careful tokensLeft := by
  intro s tokens t h
  obtain ⟨-, rfl⟩ := ok_tokensLeft h
  exact .refl

theorem careful_expect {wanted : Token} (hwanted : ∀ name, wanted ≠ .identifier name) : Careful (expect wanted) := by
  intro s value t h
  obtain ⟨token, hsame, htokens⟩ := ok_expect h
  exact .step (named_of_same hsame hwanted) htokens

theorem careful_build (result : Except TreeMisuse α) : Careful (build result) := by
  intro s value t h
  obtain ⟨-, rfl⟩ := ok_build h
  exact .refl

theorem careful_operation (operator : Operator) (operands : List Node) : Careful (operation operator operands) :=
  fun _ _ _ h => .of_eq (ok_operation h)

theorem careful_fail (error : SyntaxError) : Careful (fail error : Rule α) :=
  fun _ _ _ h => absurd h not_ok_fail

/-- What comes after looking at the next token may count on having seen it. -/
theorem Ensures.peek {f : Option Token → Rule β} {post : State → State → Prop}
    (h : ∀ next?, Ensures (f next?) fun s t => s.tokens.head?.map (·.value) = next? → post s t) :
    Ensures (peek >>= f) post := by
  intro s result t hok
  obtain ⟨next?, u, hpeek, hok⟩ := ok_bind hok
  obtain ⟨rfl, rfl⟩ := ok_peek hpeek
  exact h _ hok rfl

theorem Careful.peek {f : Option Token → Rule β}
    (h : ∀ next?, Ensures (f next?) fun s t => s.tokens.head?.map (·.value) = next? → ReadsNamed s.tokens t.tokens) :
    Careful (peek >>= f) :=
  Ensures.peek h

/-- A token that has been read may turn out to be no empty name only later. -/
theorem Careful.next {f : Token → Rule β}
    (h : ∀ token, Ensures (f token) fun s t => token.Named ∧ ReadsNamed s.tokens t.tokens) :
    Careful (next >>= f) := by
  intro s result t hok
  obtain ⟨token, u, hnext, hok⟩ := ok_bind hok
  obtain ⟨spanned, rfl, htokens⟩ := ok_next hnext
  obtain ⟨hnamed, hread⟩ := h _ hok
  exact (ReadsNamed.step hnamed htokens).trans hread

/-- A token that has been seen to be no empty name may be read. -/
theorem Careful.nextSeen {f : Token → Rule β} {seen : Token} (hnamed : seen.Named) (hf : Careful (f seen)) :
    Ensures (Parser.next >>= f) fun s t => s.tokens.head?.map (·.value) = some seen → ReadsNamed s.tokens t.tokens := by
  intro s result t hok hseen
  obtain ⟨token, u, hnext, hok⟩ := ok_bind hok
  obtain ⟨spanned, rfl, htokens⟩ := ok_next hnext
  rw [htokens, List.head?_cons, Option.map_some, Option.some.injEq] at hseen
  subst hseen
  exact (ReadsNamed.step hnamed htokens).trans (hf hok)

theorem Careful.seen (h : Careful rule) (next? : Option Token) :
    Ensures rule fun s t => s.tokens.head?.map (·.value) = next? → ReadsNamed s.tokens t.tokens :=
  fun _ _ _ hok _ => h hok

end

/-! ### Names -/

theorem ne_empty_of_ok_ofIdentifier {kind : IdentifierKind} {name : Identifier} {node : Node}
    (h : build (Node.ofIdentifier kind name) s = .ok node t) : name.spelling ≠ "" ∧ t = s := by
  obtain ⟨hnode, ht⟩ := ok_build h
  refine ⟨?_, ht⟩
  intro hempty
  rw [Node.ofIdentifier, hempty] at hnode
  cases hnode

theorem ne_empty_of_ok_use {name : Identifier} {node : Node} (h : use name s = .ok node t) :
    name.spelling ≠ "" ∧ t = s := by
  obtain ⟨_, _, hget, h⟩ := ok_bind h
  cases hget
  exact ne_empty_of_ok_ofIdentifier h

theorem ok_name {name : Identifier} (h : Parser.name s = .ok name t) :
    ∃ spanned : Spanned Token, spanned.value = .identifier name ∧ s.tokens = spanned :: t.tokens := by
  obtain ⟨token, u, hnext, h⟩ := ok_bind h
  obtain ⟨spanned, hvalue, htokens⟩ := ok_next hnext
  cases token with
  | identifier found =>
      obtain ⟨rfl, rfl⟩ := ok_pure h
      exact ⟨spanned, hvalue, htokens⟩
  | _ => exact absurd h not_ok_fail

theorem careful_nameOf (kind : IdentifierKind) : Careful (nameOf kind) := by
  intro s node t h
  obtain ⟨name, u, hname, h⟩ := ok_bind h
  obtain ⟨spanned, hvalue, htokens⟩ := ok_name hname
  obtain ⟨hne, rfl⟩ := ne_empty_of_ok_ofIdentifier h
  exact .step (by rw [hvalue]; exact hne) htokens

/-! ### Sequences -/

section

variable {item : Rule α} {operand : Rule Node} {operator? : Token → Option Operator}

theorem careful_moreItems (hitem : Careful item) (rounds : List (Spanned Token)) (reversed : List α) :
    Careful (moreItems item rounds reversed) := by
  induction rounds generalizing reversed with
  | nil => exact careful_pure _
  | cons round rounds ih =>
      refine Careful.peek fun next? => ?_
      split
      · refine Careful.nextSeen trivial ?_
        exact (hitem.failing false).bind fun value => ih (value :: reversed)
      · exact (careful_pure _).seen _

theorem careful_commaList (hitem : Careful item) : Careful (commaList item) := by
  refine hitem.optional.bind fun first? => ?_
  cases first? with
  | none => exact careful_pure _
  | some first => exact careful_tokensLeft.bind fun rounds => careful_moreItems hitem rounds [first]

theorem careful_moreOperands (hoperand : Careful operand)
    (hoperator : ∀ token operator, operator? token = some operator → token.Named)
    (rounds : List (Spanned Token)) (left : Node) : Careful (moreOperands operator? operand rounds left) := by
  induction rounds generalizing left with
  | nil => exact careful_pure _
  | cons round rounds ih =>
      refine Careful.peek fun next? => ?_
      split
      · exact (careful_pure _).seen _
      · rename_i operator hsome
        obtain ⟨seen, rfl, hmark⟩ := Option.bind_eq_some_iff.1 hsome
        refine Careful.nextSeen (hoperator seen operator hmark) ?_
        refine (hoperand.failing false).bind fun right => ?_
        exact (careful_operation operator [left, right]).bind ih

theorem careful_leftAssociative (hoperand : Careful operand)
    (hoperator : ∀ token operator, operator? token = some operator → token.Named) :
    Careful (leftAssociative operator? operand) :=
  hoperand.bind fun first =>
    careful_tokensLeft.bind fun rounds => careful_moreOperands hoperand hoperator rounds first

end

/-! ### Expressions -/

/-- A token that is taken for an operator is no name, where none is one. -/
theorem named_of_operator? {operator? : Token → Option Operator} (hnames : ∀ name, operator? (.identifier name) = none)
    (token : Token) (operator : Operator) (h : operator? token = some operator) : token.Named := by
  cases token with
  | identifier name =>
      rw [hnames] at h
      cases h
  | _ => trivial

/-- Whether all rules that are used one level deeper are careful. -/
structure Inner.Careful (inner : Inner) : Prop where
  expression : Parser.Careful inner.expression
  power : Parser.Careful inner.power
  signed : Parser.Careful inner.signed

section

variable {inner : Inner} (hinner : inner.Careful)

include hinner

theorem careful_atom : Careful (atom inner) := by
  refine Careful.next fun token => ?_
  split
  · exact fun _ _ _ h => ⟨trivial, careful_pure _ h⟩
  · rename_i name
    intro s node t h
    obtain ⟨used, u, huse, hrest⟩ := ok_bind h
    obtain ⟨hne, rfl⟩ := ne_empty_of_ok_use huse
    refine ⟨hne, Careful.peek (fun next? => ?_) hrest⟩
    split
    · refine ((careful_build _).bind fun callee => ?_).seen _
      refine (careful_expect (by simp)).bind fun _ => ?_
      refine (careful_commaList hinner.expression).deeper.bind fun arguments => ?_
      exact (careful_expect (by simp)).bind fun _ => careful_operation _ _
    · exact (careful_pure _).seen _
  · refine fun _ _ _ h => ⟨trivial, ?_⟩
    refine Careful.bind (hinner.expression.failing false).deeper (fun enclosed => ?_) h
    exact (careful_expect (by simp)).bind fun _ => careful_pure _
  · exact fun _ _ _ h => absurd (ok_failing h) not_ok_fail

theorem careful_signed : Careful (signed inner) := by
  refine Careful.peek fun next? => ?_
  split
  · refine Careful.nextSeen trivial ?_
    exact (hinner.signed.failing false).deeper.bind fun _ => careful_operation _ _
  · exact (careful_atom hinner).seen _

theorem careful_power : Careful (power inner) := by
  refine (careful_signed hinner).bind fun base => Careful.peek fun next? => ?_
  split
  · refine Careful.nextSeen trivial ?_
    exact (hinner.power.failing false).deeper.bind fun _ => careful_operation _ _
  · exact (careful_pure _).seen _

theorem careful_sum : Careful (sum inner) := by
  have hproduct : Careful (product inner) :=
    careful_leftAssociative (careful_power hinner) (named_of_operator? fun _ => rfl)
  exact careful_leftAssociative hproduct (named_of_operator? fun _ => rfl)

theorem careful_expression : Careful (expression inner) := by
  refine (careful_sum hinner).bind fun left => Careful.peek fun next? => ?_
  split
  · exact (careful_pure _).seen _
  · rename_i operator hsome
    obtain ⟨seen, rfl, hmark⟩ := Option.bind_eq_some_iff.1 hsome
    have hnames : ∀ name, comparisonOperator? (.identifier name) = none := fun _ => rfl
    refine Careful.nextSeen (named_of_operator? hnames seen operator hmark) ?_
    exact ((careful_sum hinner).failing false).bind fun right => careful_operation _ _

end

theorem careful_innerRules (levels : Nat) : (innerRules levels).Careful := by
  induction levels with
  | zero => exact ⟨careful_fail _, careful_fail _, careful_fail _⟩
  | succ levels ih => exact ⟨careful_expression ih, careful_power ih, careful_signed ih⟩

theorem careful_outerExpression : Careful outerExpression := careful_expression (careful_innerRules _)

/-! ### Statements -/

theorem careful_declaration (kind : IdentifierKind) : Careful (declaration kind) := by
  refine (careful_nameOf kind).bind fun name => ?_
  refine (careful_expect (by simp)).bind fun _ => ?_
  exact (careful_outerExpression.failing false).bind fun value => careful_pure _

theorem careful_addConstant (node : Node) : Careful (addConstant node) := by
  intro s value t h
  cases node <;> cases h <;> exact .refl

theorem careful_functionDefinition : Careful functionDefinition := by
  refine (careful_expect (by simp)).bind fun _ => (careful_nameOf _).bind fun name => ?_
  refine (careful_expect (by simp)).bind fun _ => ?_
  refine (careful_commaList ((careful_nameOf _).failing true)).bind fun parameters => ?_
  refine (careful_expect (by simp)).bind fun _ => (careful_expect (by simp)).bind fun _ => ?_
  refine (careful_outerExpression.failing false).bind fun body => ?_
  exact (careful_operation _ _).bind fun parameters => careful_operation _ _

theorem careful_assignmentTarget : Careful assignmentTarget := by
  intro s node t h
  obtain ⟨name, u, hname, hrest⟩ := ok_bind h
  obtain ⟨spanned, hvalue, htokens⟩ := ok_name (ok_failing hname)
  obtain ⟨target, v, huse, hsign⟩ := ok_bind hrest
  obtain ⟨hne, rfl⟩ := ne_empty_of_ok_use huse
  refine (ReadsNamed.step (by rw [hvalue]; exact hne) htokens).trans ?_
  exact Careful.bind ((careful_expect (by simp)).failing true) (fun _ => careful_pure target) hsign

theorem careful_statement : Careful statement := by
  refine Careful.peek fun next? => ?_
  split
  · refine Careful.nextSeen trivial ?_
    refine (careful_declaration _).bind fun declared => ?_
    exact (careful_addConstant _).bind fun _ => careful_operation _ _
  · refine Careful.nextSeen trivial ?_
    exact (careful_declaration _).bind fun declared => careful_operation _ _
  · exact careful_functionDefinition.seen _
  · refine (careful_assignmentTarget.optional.bind fun target? => ?_).seen _
    cases target? with
    | none => exact careful_outerExpression
    | some target => exact (careful_outerExpression.failing false).bind fun value => careful_operation _ _
  · exact careful_outerExpression.seen _

/-! ### Units -/

/-- Where no token has been seen, all have been read. -/
theorem ReadsNamed.all {tokens : List (Spanned Token)} (h : tokens.head?.map (·.value) = none) :
    ReadsNamed tokens [] :=
  .of_eq (List.head?_eq_none_iff.1 (Option.map_eq_none_iff.1 h)).symm

/-- The loop over statements reads all tokens, since it has as many rounds as there are tokens. -/
theorem ensures_moreStatements (rounds : List (Spanned Token)) (reversed : List Node) :
    Ensures (moreStatements rounds reversed) fun s _ => s.tokens.length ≤ rounds.length → ReadsNamed s.tokens [] := by
  induction rounds generalizing reversed with
  | nil => exact fun s _ _ _ hrounds => .of_eq (List.eq_nil_of_length_eq_zero (Nat.le_zero.1 hrounds)).symm
  | cons round rounds ih =>
      have hround : Ensures (statement >>= fun node => moreStatements rounds (node :: reversed))
          fun s _ => s.tokens.length ≤ rounds.length → ReadsNamed s.tokens [] := by
        intro s statements t h hrounds
        obtain ⟨node, u, hstatement, hmore⟩ := ok_bind h
        have hread := careful_statement hstatement
        refine hread.trans (ih _ hmore ?_)
        obtain ⟨read, hsplit, -⟩ := hread
        rw [hsplit, List.length_append] at hrounds
        omega
      refine Ensures.peek fun next? => ?_
      split
      · exact fun _ _ _ _ hnone _ => .all hnone
      · intro s statements t h hseen hrounds
        obtain ⟨token, u, hnext, hafter⟩ := ok_bind h
        obtain ⟨spanned, rfl, htokens⟩ := ok_next hnext
        rw [htokens, List.head?_cons, Option.map_some, Option.some.injEq] at hseen
        rw [htokens, List.length_cons, List.length_cons] at hrounds
        refine (ReadsNamed.step (by rw [hseen]; trivial) htokens).trans ?_
        obtain ⟨next?, v, hpeek, hlast⟩ := ok_bind hafter
        obtain ⟨rfl, rfl⟩ := ok_peek hpeek
        cases hnext? : v.tokens.head?.map (·.value) with
        | none => exact .all hnext?
        | some seen =>
            rw [hnext?] at hlast
            exact hround hlast (by omega)
      · intro s statements t h
        obtain ⟨_, _, -, hfail⟩ := ok_bind h
        exact absurd hfail not_ok_fail

theorem readsNamed_unit {node : Node} (h : unit s = .ok node t) : ReadsNamed s.tokens [] := by
  obtain ⟨first, u, hfirst, h⟩ := ok_bind h
  obtain ⟨rounds, v, hleft, h⟩ := ok_bind h
  obtain ⟨rfl, rfl⟩ := ok_tokensLeft hleft
  obtain ⟨statements, w, hmore, -⟩ := ok_bind h
  exact (careful_statement hfirst).trans (ensures_moreStatements _ _ hmore (Nat.le_refl _))

/-- **No token that the parser accepts is an empty name.** -/
theorem named_of_parse {start : Span} {tokens : List (Spanned Token)} {traced : Bool} {log : Log} {node : Node}
    (h : (parse start tokens traced log).1 = .ok node) : ∀ token ∈ tokens, token.value.Named := by
  rw [parse] at h
  split at h
  · rename_i tree after hunit
    obtain ⟨read, hread, hnamed⟩ := readsNamed_unit hunit
    rw [List.append_nil] at hread
    rwa [← hread] at hnamed
  · cases h

end FormulaCompiler.Parser
