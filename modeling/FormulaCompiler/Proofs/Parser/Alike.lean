import FormulaCompiler.Engine
import FormulaCompiler.Proofs.Likeness
import FormulaCompiler.Proofs.Parser.Run

/-!
# Two runs of the parser side by side

A rule that is run twice, on tokens that are alike, does alike: both runs give values that are alike and go on from
states that are, or both fail, with errors that are alike at places that are. Whether a run is traced and what it has
logged takes no part in this. Main statement: so does the whole parser (`parse_alike`). The same run put beside
itself shows what the tracing of a parse changes, which is nothing (`parse_untraced`), and in which way alone a rule
can misuse a tree (`eq_emptyName_of_parse`).

The place read last is compared only where it can be reported: a rule that begins by reading a token has no use for
it, unless there is no token left.
-/

namespace FormulaCompiler.Parser

variable (L : Likeness) {α β γ δ : Type}

/-- Whether two states are alike outside their logs. The places read last are if `placed`, and where no token is
left. -/
structure State.Like (placed : Bool) (s t : State) : Prop where
  tokens : List.Forall₂ L.Placed s.tokens t.tokens
  constants : List.Forall₂ L.name s.constants t.constants
  depth : s.depth = t.depth
  lastRead : placed = true ∨ s.tokens = [] → L.place s.lastRead t.lastRead

/-- Whether two runs end alike, with values between which `rel` holds. The state that a failed run leaves does not
matter. -/
inductive Ends (rel : α → β → Prop) : EStateM.Result Failure State α → EStateM.Result Failure State β → Prop where
  | ok {value : α} {value' : β} {s t : State} (hvalue : rel value value') (hstate : s.Like L true t) :
      Ends rel (.ok value s) (.ok value' t)
  | error {error error' : SyntaxError} {span span' : Span} (herror : error.Like L error') (hspan : L.place span span')
      (recoverable : Bool) (s t : State) :
      Ends rel (.error ⟨⟨error, span⟩, recoverable⟩ s) (.error ⟨⟨error', span'⟩, recoverable⟩ t)

/-- Whether two rules end alike wherever they are run from states that are alike. -/
def Alike (placed : Bool) (rel : α → β → Prop) (rule : Rule α) (rule' : Rule β) : Prop :=
  ∀ ⦃s t⦄, s.Like L placed t → Ends L rel (rule s) (rule' t)

variable {L} {placed : Bool} {rel : α → β → Prop} {rel' : γ → δ → Prop} {rule : Rule α} {rule' : Rule β}

namespace State.Like

variable {s t : State}

theorem weaken (h : s.Like L true t) : s.Like L placed t :=
  ⟨h.tokens, h.constants, h.depth, fun _ => h.lastRead (.inl rfl)⟩

/-- Logs and tracing take no part. -/
theorem relogged (h : s.Like L placed t) (log log' : Log) : State.Like L placed { s with log } { t with log := log' } :=
  ⟨h.tokens, h.constants, h.depth, h.lastRead⟩

theorem head? (h : s.Like L placed t) :
    Option.Rel (Token.Like L) (s.tokens.head?.map (·.value)) (t.tokens.head?.map (·.value)) := by
  obtain ⟨tokens, lastRead, constants, depth, traced, log⟩ := s
  obtain ⟨tokens', lastRead', constants', depth', traced', log'⟩ := t
  cases h.tokens with
  | nil => exact .none
  | cons htoken _ => exact .some htoken.value

end State.Like

/-! ### Rules in general -/

theorem Alike.weaken (h : Alike L false rel rule rule') : Alike L placed rel rule rule' := by
  intro s t hs
  refine h ⟨hs.tokens, hs.constants, hs.depth, fun hlast => hs.lastRead (.inr ?_)⟩
  exact hlast.resolve_left Bool.false_ne_true

theorem Alike.mono {rel₁ : α → β → Prop} (h : Alike L placed rel rule rule')
    (himp : ∀ value value', rel value value' → rel₁ value value') : Alike L placed rel₁ rule rule' := by
  intro s t hs
  have hends := h hs
  generalize rule s = result at hends ⊢
  generalize rule' t = result' at hends ⊢
  cases hends with
  | ok hvalue hstate => exact .ok (himp _ _ hvalue) hstate
  | error herror hspan recoverable u v => exact .error herror hspan recoverable u v

theorem alike_pure {value : α} {value' : β} (h : rel value value') :
    Alike L true rel (pure value) (pure value') := fun _ _ hs => .ok h hs

theorem alike_fail {error error' : SyntaxError} (h : error.Like L error') :
    Alike L true rel (fail error) (fail error') :=
  fun s t hs => .error h (hs.lastRead (.inl rfl)) false s t

theorem Alike.bind {f : α → Rule γ} {f' : β → Rule δ} (h : Alike L placed rel rule rule')
    (hf : ∀ value value', rel value value' → Alike L true rel' (f value) (f' value')) :
    Alike L placed rel' (rule >>= f) (rule' >>= f') := by
  intro s t hs
  have hends := h hs
  change Ends L rel' (EStateM.bind rule f s) (EStateM.bind rule' f' t)
  unfold EStateM.bind
  generalize rule s = result at hends ⊢
  generalize rule' t = result' at hends ⊢
  cases hends with
  | ok hvalue hstate => exact hf _ _ hvalue hstate
  | error herror hspan recoverable u v => exact .error herror hspan recoverable u v

theorem Alike.failing (h : Alike L placed rel rule rule') (recoverable : Bool) :
    Alike L placed rel (failing recoverable rule) (failing recoverable rule') := by
  intro s t hs
  have hends := h hs
  unfold Parser.failing
  generalize rule s = result at hends ⊢
  generalize rule' t = result' at hends ⊢
  cases hends with
  | ok hvalue hstate => exact .ok hvalue hstate
  | error herror hspan _ u v => exact .error herror hspan recoverable u v

/-- What is done for want of a value begins where the rule has begun, and so with what is known there. -/
theorem Alike.optional {f : Option α → Rule γ} {f' : Option β → Rule δ} (h : Alike L placed rel rule rule')
    (hnone : Alike L placed rel' (f none) (f' none))
    (hsome : ∀ value value', rel value value' → Alike L true rel' (f (some value)) (f' (some value'))) :
    Alike L placed rel' (optional rule >>= f) (optional rule' >>= f') := by
  intro s t hs
  have hends := h hs
  change Ends L rel' (EStateM.bind (Parser.optional rule) f s) (EStateM.bind (Parser.optional rule') f' t)
  unfold EStateM.bind Parser.optional
  generalize rule s = result at hends ⊢
  generalize rule' t = result' at hends ⊢
  cases hends with
  | ok hvalue hstate => exact hsome _ _ hvalue hstate
  | error herror hspan recoverable u v =>
      cases recoverable with
      | true => exact hnone (hs.relogged u.log v.log)
      | false => exact .error herror hspan false _ _

/-! ### Tokens -/

theorem Alike.peek {f : Option Token → Rule γ} {f' : Option Token → Rule δ}
    (h : ∀ next? next?', Option.Rel (Token.Like L) next? next?' → Alike L placed rel' (f next?) (f' next?')) :
    Alike L placed rel' (peek >>= f) (peek >>= f') :=
  fun _ _ hs => h _ _ hs.head? hs

theorem Alike.tokensLeft {f : List (Spanned Token) → Rule γ} {f' : List (Spanned Token) → Rule δ}
    (h : ∀ tokens tokens', List.Forall₂ L.Placed tokens tokens' → Alike L placed rel' (f tokens) (f' tokens')) :
    Alike L placed rel' (tokensLeft >>= f) (tokensLeft >>= f') :=
  fun _ _ hs => h _ _ hs.tokens hs

theorem alike_next : Alike L false (Token.Like L) next next := by
  intro s t hs
  obtain ⟨tokens, lastRead, constants, depth, traced, log⟩ := s
  obtain ⟨tokens', lastRead', constants', depth', traced', log'⟩ := t
  obtain ⟨htokens, hconstants, hdepth, hlast⟩ := hs
  cases htokens with
  | nil => exact .error .unexpectedEnd (hlast (.inr rfl)) false _ _
  | cons htoken hrest => exact .ok htoken.value ⟨hrest, hconstants, hdepth, fun _ => htoken.place⟩

theorem alike_expect (wanted : Token) (hwanted : wanted.Fixed) :
    Alike L false (fun _ _ => True) (expect wanted) (expect wanted) := by
  intro s t hs
  obtain ⟨tokens, lastRead, constants, depth, traced, log⟩ := s
  obtain ⟨tokens', lastRead', constants', depth', traced', log'⟩ := t
  obtain ⟨htokens, hconstants, hdepth, hlast⟩ := hs
  cases htokens with
  | nil => exact .error (.missingToken hwanted.like) (hlast (.inr rfl)) false _ _
  | @cons token token' rest rest' htoken hrest =>
      have hstate : State.Like L true ⟨rest, token.span, constants, depth, traced, log⟩
          ⟨rest', token'.span, constants', depth', traced', log'⟩ := ⟨hrest, hconstants, hdepth, fun _ => htoken.place⟩
      change Ends L _ ((if token.value == wanted then _ else _ : Rule Unit) _)
        ((if token'.value == wanted then _ else _ : Rule Unit) _)
      rw [← htoken.value.same_fixed hwanted]
      split
      · exact .ok trivial hstate
      · exact alike_fail (.unexpectedToken hwanted.like htoken.value) hstate

/-! ### Nesting and building -/

theorem Alike.deeper (h : Alike L true rel rule rule') : Alike L true rel (deeper rule) (deeper rule') := by
  intro s t hs
  by_cases hdepth : s.depth < nestingLimit
  · have hascend : Alike L true rel (rule >>= ascend) (rule' >>= ascend) := by
      refine h.bind fun value value' hvalue u v hstate => ?_
      exact .ok hvalue ⟨hstate.tokens, hstate.constants, congrArg (· - 1) hstate.depth, hstate.lastRead⟩
    rw [deeper_eq rule hdepth, deeper_eq rule' (hs.depth ▸ hdepth)]
    exact hascend ⟨hs.tokens, hs.constants, congrArg (· + 1) hs.depth, hs.lastRead⟩
  · have hle : nestingLimit ≤ s.depth := Nat.not_lt.1 hdepth
    change Ends L rel ((if nestingLimit ≤ s.depth then _ else _ : Rule α) s)
      ((if nestingLimit ≤ t.depth then _ else _ : Rule β) t)
    rw [if_pos hle, if_pos (hs.depth ▸ hle)]
    exact alike_fail (.nestingTooDeep nestingLimit) hs

theorem alike_announce {node node' : Node} (h : node.Like L node') :
    Alike L true (Node.Like L) (announce node) (announce node') := by
  have hannounce (node : Node) (state : State) : ∃ log, announce node state = .ok node { state with log } := by
    change ∃ log, (if state.traced = true then _ else _ : Rule Node) state = _
    split
    · exact ⟨_, rfl⟩
    · exact ⟨state.log, rfl⟩
  intro s t hs
  obtain ⟨log, hlog⟩ := hannounce node s
  obtain ⟨log', hlog'⟩ := hannounce node' t
  rw [hlog, hlog']
  exact .ok h (hs.relogged log log')

/-- An operation is never refused its operands: building it fails at most for its height. -/
theorem alike_operation (operator : Operator) {operands operands' : List Node}
    (h : List.Forall₂ (Node.Like L) operands operands') :
    Alike L true (Node.Like L) (operation operator operands) (operation operator operands') := by
  have hnode := Node.Like.over operator h
  have hheight : Node.heightOver operands = Node.heightOver operands' := hnode.height
  intro s t hs
  rw [operation_eq, operation_eq, ← hheight]
  split
  · exact alike_fail (.nestingTooDeep heightLimit) hs
  · exact alike_announce hnode hs

/-! ### Names -/

/-- Whether two nodes are names of one kind that are alike. -/
def LikeNames (L : Likeness) (node node' : Node) : Prop :=
  ∃ kind name name', L.name name name' ∧ node = .identifier kind name ∧ node' = .identifier kind name'

theorem LikeNames.like {node node' : Node} (h : LikeNames L node node') : node.Like L node' := by
  obtain ⟨kind, name, name', hname, rfl, rfl⟩ := h
  exact .identifier kind hname

theorem alike_ofIdentifier (kind : IdentifierKind) {name name' : Identifier} (h : L.name name name') :
    Alike L true (LikeNames L) (build (Node.ofIdentifier kind name)) (build (Node.ofIdentifier kind name')) := by
  have hempty : name.spelling.isEmpty = name'.spelling.isEmpty := by
    rw [Bool.eq_iff_iff, String.isEmpty_iff, String.isEmpty_iff]
    exact Identifier.spelling_eq_empty_iff (L.key_eq h)
  rw [Node.ofIdentifier, Node.ofIdentifier, ← hempty]
  split
  · exact alike_fail .emptyName
  · exact alike_pure ⟨kind, name, name', h, rfl, rfl⟩

theorem alike_name : Alike L false L.name Parser.name Parser.name := by
  refine alike_next.bind fun token token' htoken => ?_
  cases htoken with
  | identifier h => exact alike_pure h
  | _ => exact alike_fail .expectedIdentifier

theorem alike_nameOf (kind : IdentifierKind) : Alike L false (LikeNames L) (nameOf kind) (nameOf kind) :=
  alike_name.bind fun _ _ hname => alike_ofIdentifier kind hname

theorem contains_alike {constants constants' : List Identifier} (h : List.Forall₂ L.name constants constants')
    {name name' : Identifier} (hname : L.name name name') : constants.contains name = constants'.contains name' := by
  induction h with
  | nil => rfl
  | @cons a b as bs ha _ ih =>
      have hsame : (name == a) = (name' == b) := by
        show (name.key == a.key) = (name'.key == b.key)
        rw [L.key_eq hname, L.key_eq ha]
      rw [List.contains_cons, List.contains_cons, hsame, ih]

theorem alike_use {name name' : Identifier} (h : L.name name name') :
    Alike L true (LikeNames L) (use name) (use name') := by
  intro s t hs
  change Ends L _ (build (Node.ofIdentifier (if s.constants.contains name then _ else _) name) s)
    (build (Node.ofIdentifier (if t.constants.contains name' then _ else _) name') t)
  rw [contains_alike hs.constants h]
  exact alike_ofIdentifier _ h hs

/-! ### Sequences -/

theorem alike_moreItems {item : Rule α} {item' : Rule β} (hitem : Alike L true rel item item')
    {rounds rounds' : List (Spanned Token)} (hrounds : List.Forall₂ L.Placed rounds rounds') {reversed : List α}
    {reversed' : List β} (hreversed : List.Forall₂ rel reversed reversed') :
    Alike L true (List.Forall₂ rel) (moreItems item rounds reversed) (moreItems item' rounds' reversed') := by
  induction hrounds generalizing reversed reversed' with
  | nil => exact alike_pure (List.rel_reverse hreversed)
  | cons _ _ ih =>
      refine Alike.peek fun next? next?' hnext => ?_
      have hdone : Alike L true (List.Forall₂ rel) (pure reversed.reverse) (pure reversed'.reverse) :=
        alike_pure (List.rel_reverse hreversed)
      cases hnext with
      | none => exact hdone
      | some htoken =>
          cases htoken with
          | symbol mark =>
              cases mark with
              | comma =>
                  refine alike_next.weaken.bind fun _ _ _ => ?_
                  exact (hitem.failing false).bind fun value value' hvalue => ih (.cons hvalue hreversed)
              | _ => exact hdone
          | _ => exact hdone

theorem alike_commaList {item : Rule α} {item' : Rule β} (hitem : Alike L true rel item item') :
    Alike L true (List.Forall₂ rel) (commaList item) (commaList item') := by
  refine hitem.optional (alike_pure .nil) fun value value' hvalue => ?_
  exact Alike.tokensLeft fun _ _ hrounds => alike_moreItems hitem hrounds (.cons hvalue .nil)

/-- No name and no number is an operator, and of the other tokens each is only like itself. -/
theorem operator?_alike (operator? : Token → Option Operator) (hname : ∀ name, operator? (.identifier name) = none)
    (hnumber : ∀ value, operator? (.number value) = none) {next? next?' : Option Token}
    (h : Option.Rel (Token.Like L) next? next?') : next?.bind operator? = next?'.bind operator? := by
  cases h with
  | none => rfl
  | some htoken =>
      cases htoken with
      | identifier => exact (hname _).trans (hname _).symm
      | number => exact (hnumber _).trans (hnumber _).symm
      | _ => rfl

section

variable {operator? : Token → Option Operator} (hname : ∀ name, operator? (.identifier name) = none)
  (hnumber : ∀ value, operator? (.number value) = none) {operand : Rule Node}

include hname hnumber

theorem alike_moreOperands (hoperand : Alike L true (Node.Like L) operand operand)
    {rounds rounds' : List (Spanned Token)} (hrounds : List.Forall₂ L.Placed rounds rounds') {left left' : Node}
    (hleft : left.Like L left') :
    Alike L true (Node.Like L) (moreOperands operator? operand rounds left)
      (moreOperands operator? operand rounds' left') := by
  induction hrounds generalizing left left' with
  | nil => exact alike_pure hleft
  | cons _ _ ih =>
      refine Alike.peek fun next? next?' hnext => ?_
      rw [operator?_alike operator? hname hnumber hnext]
      split
      · exact alike_pure hleft
      · rename_i operator _
        refine alike_next.weaken.bind fun _ _ _ => (hoperand.failing false).bind fun right right' hright => ?_
        exact (alike_operation operator (.cons hleft (.cons hright .nil))).bind fun _ _ hnode => ih hnode

theorem alike_leftAssociative (hoperand : Alike L false (Node.Like L) operand operand) :
    Alike L false (Node.Like L) (leftAssociative operator? operand) (leftAssociative operator? operand) := by
  refine hoperand.bind fun first first' hfirst => Alike.tokensLeft fun _ _ hrounds => ?_
  exact alike_moreOperands hname hnumber hoperand.weaken hrounds hfirst

end

/-! ### Expressions -/

/-- Whether all rules that are used one level deeper do alike. -/
structure Inner.Alike (L : Likeness) (inner : Inner) : Prop where
  expression : Parser.Alike L true (Node.Like L) inner.expression inner.expression
  power : Parser.Alike L true (Node.Like L) inner.power inner.power
  signed : Parser.Alike L true (Node.Like L) inner.signed inner.signed

section

variable {inner : Inner} (hinner : inner.Alike L)

include hinner

theorem alike_atom : Alike L false (Node.Like L) (atom inner) (atom inner) := by
  refine alike_next.bind fun token token' htoken => ?_
  cases htoken with
  | number h => exact alike_pure (.number h)
  | keyword word => exact (alike_fail .expectedExpression).failing true
  | identifier h =>
      refine (alike_use h).bind fun used used' hused => Alike.peek fun next? next?' hnext => ?_
      have hdone : Alike L true (Node.Like L) (pure used) (pure used') := alike_pure hused.like
      cases hnext with
      | none => exact hdone
      | some hsecond =>
          cases hsecond with
          | symbol mark =>
              cases mark with
              | openParen =>
                  -- What is used as a callee has been read as a name, so that it can be reclassified.
                  obtain ⟨kind, name, name', hname, rfl, rfl⟩ := hused
                  refine (alike_expect (.symbol .openParen) trivial).weaken.bind fun _ _ _ => ?_
                  refine (alike_commaList hinner.expression).deeper.bind fun arguments arguments' harguments => ?_
                  refine (alike_expect (.symbol .closeParen) trivial).weaken.bind fun _ _ _ => ?_
                  exact alike_operation .call (.cons (.identifier .function hname) harguments)
              | _ => exact hdone
          | _ => exact hdone
  | symbol mark =>
      cases mark with
      | openParen =>
          refine (hinner.expression.failing false).deeper.bind fun enclosed enclosed' henclosed => ?_
          exact (alike_expect (.symbol .closeParen) trivial).weaken.bind fun _ _ _ => alike_pure henclosed
      | _ => exact (alike_fail .expectedExpression).failing true

theorem alike_signed : Alike L false (Node.Like L) (signed inner) (signed inner) := by
  have hatom := alike_atom hinner
  refine Alike.peek fun next? next?' hnext => ?_
  cases hnext with
  | none => exact hatom
  | some htoken =>
      cases htoken with
      | symbol mark =>
          cases mark with
          | minus =>
              refine alike_next.bind fun _ _ _ => ?_
              refine (hinner.signed.failing false).deeper.bind fun operand operand' hoperand => ?_
              exact alike_operation .negate (.cons hoperand .nil)
          | _ => exact hatom
      | _ => exact hatom

theorem alike_power : Alike L false (Node.Like L) (power inner) (power inner) := by
  refine (alike_signed hinner).bind fun base base' hbase => Alike.peek fun next? next?' hnext => ?_
  have hdone : Alike L true (Node.Like L) (pure base) (pure base') := alike_pure hbase
  cases hnext with
  | none => exact hdone
  | some htoken =>
      cases htoken with
      | symbol mark =>
          cases mark with
          | caret =>
              refine alike_next.weaken.bind fun _ _ _ => ?_
              refine (hinner.power.failing false).deeper.bind fun exponent exponent' hexponent => ?_
              exact alike_operation .power (.cons hbase (.cons hexponent .nil))
          | _ => exact hdone
      | _ => exact hdone

theorem alike_sum : Alike L false (Node.Like L) (sum inner) (sum inner) := by
  have hproduct : Alike L false (Node.Like L) (product inner) (product inner) :=
    alike_leftAssociative (fun _ => rfl) (fun _ => rfl) (alike_power hinner)
  exact alike_leftAssociative (fun _ => rfl) (fun _ => rfl) hproduct

theorem alike_expression : Alike L false (Node.Like L) (expression inner) (expression inner) := by
  refine (alike_sum hinner).bind fun left left' hleft => Alike.peek fun next? next?' hnext => ?_
  rw [operator?_alike comparisonOperator? (fun _ => rfl) (fun _ => rfl) hnext]
  split
  · exact alike_pure hleft
  · rename_i operator _
    refine alike_next.weaken.bind fun _ _ _ => ?_
    refine ((alike_sum hinner).weaken.failing false).bind fun right right' hright => ?_
    exact alike_operation operator (.cons hleft (.cons hright .nil))

end

theorem alike_innerRules (levels : Nat) : (innerRules levels).Alike L := by
  induction levels with
  | zero => exact ⟨alike_fail (.nestingTooDeep _), alike_fail (.nestingTooDeep _), alike_fail (.nestingTooDeep _)⟩
  | succ levels ih => exact ⟨(alike_expression ih).weaken, (alike_power ih).weaken, (alike_signed ih).weaken⟩

theorem alike_outerExpression : Alike L false (Node.Like L) outerExpression outerExpression :=
  alike_expression (alike_innerRules _)

/-- The expression that a statement ends in. -/
theorem alike_value : Alike L true (Node.Like L) (committed outerExpression) (committed outerExpression) :=
  (alike_outerExpression.failing false).weaken

/-! ### Statements -/

theorem alike_declaration (kind : IdentifierKind) :
    Alike L false (fun declared declared' => LikeNames L declared.1 declared'.1 ∧ declared.2.Like L declared'.2)
      (declaration kind) (declaration kind) := by
  refine (alike_nameOf kind).bind fun name name' hname => ?_
  refine (alike_expect (.symbol .assign) trivial).weaken.bind fun _ _ _ => ?_
  exact alike_value.bind fun value value' hvalue => alike_pure ⟨hname, hvalue⟩

theorem alike_addConstant {name name' : Node} (h : LikeNames L name name') :
    Alike L true (fun _ _ => True) (addConstant name) (addConstant name') := by
  obtain ⟨kind, name, name', hname, rfl, rfl⟩ := h
  exact fun s t hs => .ok trivial ⟨hs.tokens, .cons hname hs.constants, hs.depth, hs.lastRead⟩

theorem alike_functionDefinition : Alike L false (Node.Like L) functionDefinition functionDefinition := by
  refine (alike_expect (.keyword .fnDecl) trivial).bind fun _ _ _ => ?_
  refine (alike_nameOf .function).weaken.bind fun name name' hname => ?_
  refine (alike_expect (.symbol .openParen) trivial).weaken.bind fun _ _ _ => ?_
  have hparameter : Alike L true (Node.Like L) (tentative (nameOf .variable)) (tentative (nameOf .variable)) :=
    ((alike_nameOf .variable).weaken.failing true).mono fun _ _ => LikeNames.like
  refine (alike_commaList hparameter).bind fun parameters parameters' hparameters => ?_
  refine (alike_expect (.symbol .closeParen) trivial).weaken.bind fun _ _ _ => ?_
  refine (alike_expect (.symbol .assign) trivial).weaken.bind fun _ _ _ => ?_
  refine alike_value.bind fun body body' hbody => ?_
  refine (alike_operation .parameters hparameters).bind fun list list' hlist => ?_
  exact alike_operation .function (.cons hname.like (.cons hlist (.cons hbody .nil)))

theorem alike_assignmentTarget : Alike L false (Node.Like L) assignmentTarget assignmentTarget := by
  refine (alike_name.failing true).bind fun name name' hname => (alike_use hname).bind fun target target' htarget => ?_
  exact ((alike_expect (.symbol .assign) trivial).weaken.failing true).bind fun _ _ _ => alike_pure htarget.like

theorem alike_statement : Alike L false (Node.Like L) statement statement := by
  refine Alike.peek fun next? next?' hnext => ?_
  have hbare : Alike L false (Node.Like L) outerExpression outerExpression := alike_outerExpression
  cases hnext with
  | none => exact hbare
  | some htoken =>
      cases htoken with
      | keyword word =>
          cases word with
          | constDecl =>
              refine alike_next.bind fun _ _ _ => (alike_declaration .constant).weaken.bind ?_
              rintro ⟨name, value⟩ ⟨name', value'⟩ ⟨hname, hvalue⟩
              refine (alike_addConstant hname).bind fun _ _ _ => ?_
              exact alike_operation .defineConst (.cons hname.like (.cons hvalue .nil))
          | letDecl =>
              refine alike_next.bind fun _ _ _ => (alike_declaration .variable).weaken.bind ?_
              rintro ⟨name, value⟩ ⟨name', value'⟩ ⟨hname, hvalue⟩
              exact alike_operation .defineLet (.cons hname.like (.cons hvalue .nil))
          | fnDecl => exact alike_functionDefinition
      | identifier h =>
          refine alike_assignmentTarget.optional hbare fun target target' htarget => ?_
          exact alike_value.bind fun value value' hvalue => alike_operation .assign (.cons htarget (.cons hvalue .nil))
      | _ => exact hbare

/-! ### Units -/

theorem alike_moreStatements {rounds rounds' : List (Spanned Token)} (hrounds : List.Forall₂ L.Placed rounds rounds')
    {reversed reversed' : List Node} (hreversed : List.Forall₂ (Node.Like L) reversed reversed') :
    Alike L true (List.Forall₂ (Node.Like L)) (moreStatements rounds reversed) (moreStatements rounds' reversed') := by
  induction hrounds generalizing reversed reversed' with
  | nil => exact alike_pure (List.rel_reverse hreversed)
  | cons _ _ ih =>
      refine Alike.peek fun next? next?' hnext => ?_
      have hdone : Alike L true (List.Forall₂ (Node.Like L)) (pure reversed.reverse) (pure reversed'.reverse) :=
        alike_pure (List.rel_reverse hreversed)
      have hseparator : Alike L true (List.Forall₂ (Node.Like L)) (next >>= fun _ => fail .expectedSeparator)
          (next >>= fun _ => fail .expectedSeparator) :=
        alike_next.weaken.bind fun _ _ _ => alike_fail .expectedSeparator
      cases hnext with
      | none => exact hdone
      | some htoken =>
          cases htoken with
          | symbol mark =>
              cases mark with
              | semicolon =>
                  refine alike_next.weaken.bind fun _ _ _ => Alike.peek fun second? second?' hsecond => ?_
                  cases hsecond with
                  | none => exact hdone
                  | some _ => exact alike_statement.weaken.bind fun node node' hnode => ih (.cons hnode hreversed)
              | _ => exact hseparator
          | _ => exact hseparator

theorem alike_unit : Alike L false (Node.Like L) unit unit := by
  refine alike_statement.bind fun first first' hfirst => Alike.tokensLeft fun rounds rounds' hrounds => ?_
  refine (alike_moreStatements hrounds (.cons hfirst .nil)).bind fun statements statements' hstatements => ?_
  cases hstatements with
  | nil => exact alike_operation .sequence .nil
  | cons hnode hothers =>
      cases hothers with
      | nil => exact alike_pure hnode
      | cons hsecond hmore => exact alike_operation .sequence (.cons hnode (.cons hsecond hmore))

/-! ### Parses -/

/-- Whether two answers of the parser are alike. -/
inductive LikeAnswers (L : Likeness) :
    Except (Spanned SyntaxError) Node → Except (Spanned SyntaxError) Node → Prop where
  | tree {node node' : Node} (h : node.Like L node') : LikeAnswers L (.ok node) (.ok node')
  | error {error error' : Spanned SyntaxError} (hvalue : error.value.Like L error'.value)
      (hspan : L.place error.span error'.span) : LikeAnswers L (.error error) (.error error')

/-- **Tokens that are alike are parsed alike.** Where the units start matters only if there are no tokens. -/
theorem parse_alike {start start' : Span} {tokens tokens' : List (Spanned Token)}
    (htokens : List.Forall₂ L.Placed tokens tokens') (hstart : tokens = [] → L.place start start')
    (traced traced' : Bool) (log log' : Log) :
    LikeAnswers L (parse start tokens traced log).1 (parse start' tokens' traced' log').1 := by
  have hends : Ends L (Node.Like L) (unit { tokens, lastRead := start, traced, log })
      (unit { tokens := tokens', lastRead := start', traced := traced', log := log' }) :=
    alike_unit ⟨htokens, .nil, rfl, fun h => hstart (h.resolve_left Bool.false_ne_true)⟩
  unfold parse
  generalize unit { tokens, lastRead := start, traced, log } = result at hends ⊢
  generalize unit { tokens := tokens', lastRead := start', traced := traced', log := log' } = result' at hends ⊢
  cases hends with
  | ok hnode _ => exact .tree hnode
  | error herror hspan _ _ _ => exact .error herror hspan

section

variable {start : Span} {tokens : List (Spanned Token)} {traced : Bool} {log : Log}

theorem parse_beside_itself (start : Span) (tokens : List (Spanned Token)) (traced traced' : Bool) (log log' : Log) :
    LikeAnswers .exact (parse start tokens traced log).1 (parse start tokens traced' log').1 :=
  parse_alike (List.forall₂_same.2 fun token _ => Likeness.exact_placed token) (fun _ => rfl) traced traced' log log'

/-- Neither tracing nor what has been logged before changes what a parse answers. -/
theorem parse_untraced (start : Span) (tokens : List (Spanned Token)) (traced traced' : Bool) (log log' : Log) :
    (parse start tokens traced log).1 = (parse start tokens traced' log').1 := by
  have hlike := parse_beside_itself start tokens traced traced' log log'
  generalize (parse start tokens traced log).1 = answer at hlike ⊢
  generalize (parse start tokens traced' log').1 = answer' at hlike ⊢
  cases hlike with
  | tree h => rw [h.eq_of_exact]
  | @error error error' hvalue hspan =>
      obtain ⟨value, span⟩ := error
      obtain ⟨value', span'⟩ := error'
      rw [show value = value' from hvalue.eq_of_exact, show span = span' from hspan]

/-- A parse never misuses a tree but by building a name without characters. -/
theorem eq_emptyName_of_parse {misuse : TreeMisuse} {span : Span}
    (h : (parse start tokens traced log).1 = .error ⟨.tree misuse, span⟩) : misuse = .emptyName := by
  have hlike := parse_beside_itself start tokens traced traced log log
  rw [h] at hlike
  cases hlike with
  | error hvalue _ =>
      cases hvalue
      rfl

end

end FormulaCompiler.Parser
