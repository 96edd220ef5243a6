import FormulaCompiler.Proofs.Parser.Rules

/-!
# What a rule builds on its way

A `Course` goes through the run of a rule and keeps account of the operations that are built in it, whether the rule
gives a value in the end or not, and of those among them that were built in an attempt which was then given up. The
account is read off the run, and the log takes no part in it. Main statement: the same rule, run traced or not and
from any log, does the same, and what it adds to the log is one line for each operation of the account if it is traced
and nothing if not (`Course.retraced`). So all accounts of a run have the same lines (`Course.lines_eq`).
-/

namespace FormulaCompiler.Parser

/-- An operation that has been built, and the last place that had been read by then. -/
structure Reduction where
  node : Node
  place : Span

def Reduction.line (reduction : Reduction) : LogEntry :=
  ⟨.trace, "reduced " ++ reduction.node.text ++ " at " ++ reduction.place.text⟩

/-- The rules that neither build an operation nor run another rule. -/
inductive Basic : {α : Type} → Rule α → Prop where
  | pure {α : Type} (value : α) : Basic (pure value : Rule α)
  | fail {α : Type} (error : SyntaxError) : Basic (fail error : Rule α)
  | peek : Basic peek
  | next : Basic next
  | expect (wanted : Token) : Basic (expect wanted)
  | tokensLeft : Basic tokensLeft
  | build {α : Type} (result : Except TreeMisuse α) : Basic (build result)
  | use (name : Identifier) : Basic (use name)
  | addConstant (node : Node) : Basic (addConstant node)
  | ascend {α : Type} (value : α) : Basic (ascend value)

/-- The run of a rule from a state, with the operations that are built in it, in order, and those of them that belong
to an attempt which is given up while the run goes on. -/
inductive Course : {α : Type} → Rule α → State → (built lost : List Reduction) → Prop where
  | basic {α : Type} {rule : Rule α} (h : Basic rule) (s : State) : Course rule s [] []
  | built {operator : Operator} {operands : List Node} {s t : State} {node : Node}
      (h : operation operator operands s = .ok node t) : Course (operation operator operands) s [⟨node, s.lastRead⟩] []
  | unbuilt {operator : Operator} {operands : List Node} {s t : State} {failure : Failure}
      (h : operation operator operands s = .error failure t) : Course (operation operator operands) s [] []
  | andThen {α β : Type} {rule : Rule α} {f : α → Rule β} {s t : State} {value : α} {built lost more moreLost : List Reduction}
      (h : rule s = .ok value t) (first : Course rule s built lost) (second : Course (f value) t more moreLost) :
      Course (rule >>= f) s (built ++ more) (lost ++ moreLost)
  | broken {α β : Type} {rule : Rule α} {f : α → Rule β} {s t : State} {failure : Failure} {built lost : List Reduction}
      (h : rule s = .error failure t) (first : Course rule s built lost) : Course (rule >>= f) s built lost
  | failing {α : Type} {rule : Rule α} {s : State} {built lost : List Reduction} (recoverable : Bool)
      (inside : Course rule s built lost) : Course (failing recoverable rule) s built lost
  /-- The attempt gives a value, or its failure ends the parse. -/
  | attempted {α : Type} {rule : Rule α} {s : State} {built lost : List Reduction}
      (h : ∀ failure t, rule s = .error failure t → failure.recoverable = false) (inside : Course rule s built lost) :
      Course (optional rule) s built lost
  | givenUp {α : Type} {rule : Rule α} {s t : State} {failure : Failure} {built lost : List Reduction}
      (h : rule s = .error failure t) (hrecoverable : failure.recoverable = true) (inside : Course rule s built lost) :
      Course (optional rule) s built built
  | tooDeep {α : Type} (rule : Rule α) {s : State} (h : nestingLimit ≤ s.depth) : Course (deeper rule) s [] []
  | deeper {α : Type} {rule : Rule α} {s : State} {built lost : List Reduction} (h : s.depth < nestingLimit)
      (inside : Course (rule >>= Parser.ascend) s.deeper built lost) : Course (deeper rule) s built lost

/-! ### Runs and their logs -/

variable {α : Type} {rule : Rule α} {s : State} {built lost : List Reduction}

/-- A state with another log, traced or not. -/
def State.retraced (s : State) (traced : Bool) (log : Log) : State := { s with traced, log }

/-- A result with another log, from a run that is traced or not. -/
def retraced (traced : Bool) (log : Log) : EStateM.Result Failure State α → EStateM.Result Failure State α
  | .ok value t => .ok value (t.retraced traced log)
  | .error failure t => .error failure (t.retraced traced log)

/-- The lines about some operations, if the parser is traced. -/
def reducedLines (traced : Bool) (built : List Reduction) : Log :=
  if traced then (built.map Reduction.line).toArray else #[]

@[simp] theorem reducedLines_nil (traced : Bool) : reducedLines traced [] = #[] := by cases traced <;> rfl

theorem reducedLines_append (traced : Bool) (first second : List Reduction) :
    reducedLines traced (first ++ second) = reducedLines traced first ++ reducedLines traced second := by
  cases traced <;> simp [reducedLines]

theorem Basic.retraced (h : Basic rule) (s : State) (traced : Bool) (log : Log) :
    rule (s.retraced traced log) = Parser.retraced traced log (rule s) := by
  obtain ⟨tokens, lastRead, constants, depth, _, _⟩ := s
  cases h with
  | pure value => rfl
  | fail error => rfl
  | peek => rfl
  | next => cases tokens <;> rfl
  | expect wanted =>
      cases tokens with
      | nil => rfl
      | cons token tokens =>
          change (if token.value == wanted then _ else _ : Rule Unit) _ =
            Parser.retraced traced log ((if token.value == wanted then _ else _ : Rule Unit) _)
          split <;> rfl
  | tokensLeft => rfl
  | build result => cases result <;> rfl
  | use name =>
      change Parser.build (Node.ofIdentifier (name.kindOfUse constants) name) _ =
        Parser.retraced traced log (Parser.build (Node.ofIdentifier (name.kindOfUse constants) name) _)
      cases Node.ofIdentifier (name.kindOfUse constants) name <;> rfl
  | addConstant node => cases node <;> rfl
  | ascend value => rfl

theorem bind_of_ok {β : Type} {f : α → Rule β} {t : State} {value : α} (h : rule s = .ok value t) :
    (rule >>= f) s = f value t := by
  change EStateM.bind rule f s = _
  rw [EStateM.bind, h]

theorem bind_of_error {β : Type} {f : α → Rule β} {t : State} {failure : Failure} (h : rule s = .error failure t) :
    (rule >>= f) s = .error failure t := by
  change EStateM.bind rule f s = _
  rw [EStateM.bind, h]

theorem deeper_of_tooDeep (rule : Rule α) (h : nestingLimit ≤ s.depth) :
    deeper rule s = (fail (.nestingTooDeep nestingLimit) : Rule α) s := by
  change (if nestingLimit ≤ s.depth then _ else _ : Rule α) s = _
  rw [if_pos h]
  rfl

theorem retraced_operation (operator : Operator) (operands : List Node) (s : State) (traced : Bool) (log : Log) :
    operation operator operands (s.retraced traced log) =
      match operation operator operands s with
      | .ok node t => .ok node (t.retraced traced (log ++ reducedLines traced [⟨node, s.lastRead⟩]))
      | .error failure t => .error failure (t.retraced traced log) := by
  rw [operation_eq, operation_eq]
  split
  · rfl
  · obtain ⟨tokens, lastRead, constants, depth, before, logBefore⟩ := s
    cases before <;> cases traced <;> rfl

theorem Course.retraced (h : Course rule s built lost) (traced : Bool) (log : Log) :
    rule (s.retraced traced log) = Parser.retraced traced (log ++ reducedLines traced built) (rule s) := by
  induction h generalizing log with
  | basic h s => rw [reducedLines_nil, Array.append_empty, h.retraced]
  | built h => rw [retraced_operation, h]; rfl
  | unbuilt h => rw [retraced_operation, h, reducedLines_nil, Array.append_empty]; rfl
  | @andThen α β rule f s t value built lost more moreLost h first second ihFirst ihSecond =>
      have hfirst := ihFirst log
      rw [h] at hfirst
      rw [bind_of_ok h, bind_of_ok hfirst, reducedLines_append, ← Array.append_assoc]
      exact ihSecond _
  | broken h first ih =>
      have hfirst := ih log
      rw [h] at hfirst
      rw [bind_of_error h, bind_of_error hfirst]
      rfl
  | @failing α rule s built lost recoverable inside ih =>
      have hinside := ih log
      unfold Parser.failing
      rw [hinside]
      cases rule s <;> rfl
  | @attempted α rule s built lost h inside ih =>
      have hinside := ih log
      unfold Parser.optional
      rw [hinside]
      cases hrule : rule s with
      | ok value t => rfl
      | error failure t =>
          have hstrict := h failure t hrule
          simp only [Parser.retraced, hstrict]
          rfl
  | @givenUp α rule s t failure built lost h hrecoverable inside ih =>
      have hinside := ih log
      unfold Parser.optional
      rw [hinside, h]
      simp only [Parser.retraced, hrecoverable]
      rfl
  | tooDeep rule h =>
      rw [deeper_of_tooDeep rule h, deeper_of_tooDeep rule (s := State.retraced _ traced log) h, reducedLines_nil,
        Array.append_empty]
      rfl
  | deeper h inside ih =>
      rw [deeper_eq _ h, deeper_eq _ (s := State.retraced _ traced log) h]
      exact ih log

/-- What is built is seen in the log, so it does not depend on how a rule is taken apart. -/
theorem Course.lines_eq {built' lost' : List Reduction} (h : Course rule s built lost) (h' : Course rule s built' lost') :
    built.map Reduction.line = built'.map Reduction.line := by
  have hlog := (h.retraced true #[]).symm.trans (h'.retraced true #[])
  cases hrule : rule s <;> simpa [hrule, Parser.retraced, State.retraced, reducedLines] using hlog

end FormulaCompiler.Parser
