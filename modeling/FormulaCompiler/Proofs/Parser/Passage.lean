import FormulaCompiler.Proofs.Parser.Course

/-!
# The states that a rule goes through

A `Passage` goes through the run of a rule as a `Course` does and keeps the states on the way: those between the rules
that make up another, those inside an attempt, whether it is given up or not, and those one level deeper. Every run
that has a course has a passage (`Course.passage`). Main statement: a run that begins within the limit on nesting stays
within it, although a failure leaves the depth where it was (`Passage.depth_le`).
-/

namespace FormulaCompiler.Parser

/-- The state that a run ends in, whatever comes of it. -/
def lastState {α : Type} : EStateM.Result Failure State α → State
  | .ok _ t => t
  | .error _ t => t

/-- The states that the run of a rule goes through, from the one it begins in to the one it ends in. -/
inductive Passage : {α : Type} → Rule α → State → (passed : List State) → Prop where
  | basic {α : Type} {rule : Rule α} (h : Basic rule) (s : State) : Passage rule s [s, lastState (rule s)]
  | operation (operator : Operator) (operands : List Node) (s : State) :
      Passage (operation operator operands) s [s, lastState (operation operator operands s)]
  | andThen {α β : Type} {rule : Rule α} {f : α → Rule β} {s t : State} {value : α} {passed more : List State}
      (h : rule s = .ok value t) (first : Passage rule s passed) (second : Passage (f value) t more) :
      Passage (rule >>= f) s (passed ++ more)
  | broken {α β : Type} {rule : Rule α} {f : α → Rule β} {s t : State} {failure : Failure} {passed : List State}
      (h : rule s = .error failure t) (first : Passage rule s passed) : Passage (rule >>= f) s passed
  | failing {α : Type} {rule : Rule α} {s : State} {passed : List State} (recoverable : Bool)
      (inside : Passage rule s passed) : Passage (failing recoverable rule) s passed
  /-- An attempt goes through all that the rule does, and from there to where the attempt ends. -/
  | optional {α : Type} {rule : Rule α} {s : State} {passed : List State} (inside : Passage rule s passed) :
      Passage (optional rule) s (passed ++ [lastState (optional rule s)])
  | tooDeep {α : Type} (rule : Rule α) {s : State} (h : nestingLimit ≤ s.depth) : Passage (deeper rule) s [s]
  | deeper {α : Type} {rule : Rule α} {s : State} {passed : List State} (h : s.depth < nestingLimit)
      (inside : Passage (rule >>= Parser.ascend) s.deeper passed) : Passage (deeper rule) s (s :: passed)

variable {α : Type} {rule : Rule α} {s : State} {passed : List State}

/-- However far it gets, a run goes through states. -/
theorem Course.passage {built lost : List Reduction} (h : Course rule s built lost) :
    ∃ passed, Passage rule s passed := by
  induction h with
  | basic h s => exact ⟨_, .basic h s⟩
  | built h => exact ⟨_, .operation _ _ _⟩
  | unbuilt h => exact ⟨_, .operation _ _ _⟩
  | andThen h first second ihFirst ihSecond =>
      obtain ⟨passed, hfirst⟩ := ihFirst
      obtain ⟨more, hsecond⟩ := ihSecond
      exact ⟨_, .andThen h hfirst hsecond⟩
  | broken h first ih => exact ih.imp fun _ hfirst => .broken h hfirst
  | failing recoverable inside ih => exact ih.imp fun _ hinside => .failing recoverable hinside
  | attempted h inside ih =>
      obtain ⟨passed, hinside⟩ := ih
      exact ⟨_, .optional hinside⟩
  | givenUp h hrecoverable inside ih =>
      obtain ⟨passed, hinside⟩ := ih
      exact ⟨_, .optional hinside⟩
  | tooDeep rule h => exact ⟨_, .tooDeep rule h⟩
  | deeper h inside ih =>
      obtain ⟨passed, hinside⟩ := ih
      exact ⟨_, .deeper h hinside⟩

/-- A run begins in its first state. -/
theorem Passage.head_eq (h : Passage rule s passed) : passed.head? = some s := by
  induction h with
  | basic h s => rfl
  | operation operator operands s => rfl
  | andThen h first second ihFirst ihSecond => rw [List.head?_append, ihFirst, Option.some_or]
  | broken h first ih => exact ih
  | failing recoverable inside ih => exact ih
  | optional inside ih => rw [List.head?_append, ih, Option.some_or]
  | tooDeep rule h => rfl
  | deeper h inside ih => rfl

theorem lastState_failing (rule : Rule α) (recoverable : Bool) (s : State) :
    lastState (failing recoverable rule s) = lastState (rule s) := by
  unfold failing
  cases rule s <;> rfl

/-- A run ends in its last state. -/
theorem Passage.getLast_eq (h : Passage rule s passed) : passed.getLast? = some (lastState (rule s)) := by
  induction h with
  | basic h s => rfl
  | operation operator operands s => rfl
  | andThen h first second ihFirst ihSecond => rw [List.getLast?_append, ihSecond, Option.some_or, bind_of_ok h]
  | broken h first ih =>
      rw [ih, h, bind_of_error h]
      rfl
  | failing recoverable inside ih => rw [ih, lastState_failing]
  | optional inside ih => rw [List.getLast?_concat]
  | tooDeep rule h =>
      rw [deeper_of_tooDeep rule h]
      rfl
  | @deeper α rule s passed h inside ih =>
      rw [List.getLast?_cons, ih, deeper_eq rule h]
      rfl

theorem Passage.last_mem (h : Passage rule s passed) : lastState (rule s) ∈ passed :=
  List.mem_of_getLast? h.getLast_eq

/-! ### Depth -/

/-- None of the rules that run no other goes deeper. -/
theorem Basic.depth_le (h : Basic rule) (s : State) : (lastState (rule s)).depth ≤ s.depth := by
  obtain ⟨tokens, lastRead, constants, depth, traced, log⟩ := s
  cases h with
  | pure value => exact Nat.le_refl _
  | fail error => exact Nat.le_refl _
  | peek => exact Nat.le_refl _
  | next => cases tokens <;> exact Nat.le_refl _
  | expect wanted =>
      cases tokens with
      | nil => exact Nat.le_refl _
      | cons token tokens =>
          change (lastState ((if token.value == wanted then _ else _ : Rule Unit) _)).depth ≤ _
          split <;> exact Nat.le_refl _
  | tokensLeft => exact Nat.le_refl _
  | build result => cases result <;> exact Nat.le_refl _
  | use name =>
      change (lastState (Parser.build (Node.ofIdentifier (name.kindOfUse constants) name) _)).depth ≤ _
      cases Node.ofIdentifier (name.kindOfUse constants) name <;> exact Nat.le_refl _
  | addConstant node => cases node <;> exact Nat.le_refl _
  | ascend value => exact Nat.sub_le depth 1

theorem depth_operation (operator : Operator) (operands : List Node) (s : State) :
    (lastState (operation operator operands s)).depth = s.depth := by
  obtain ⟨tokens, lastRead, constants, depth, traced, log⟩ := s
  rw [operation_eq]
  split
  · rfl
  · cases traced <;> rfl

/-- An attempt ends as deep as it began or where its rule has ended. -/
theorem depth_optional (rule : Rule α) (s : State) :
    (lastState (optional rule s)).depth = s.depth ∨ lastState (optional rule s) = lastState (rule s) := by
  unfold optional
  cases rule s with
  | ok value t => exact .inr rfl
  | error failure t =>
      left
      dsimp only
      split <;> rfl

/-- **No run that begins within the limit on nesting exceeds it.** -/
theorem Passage.depth_le (h : Passage rule s passed) (hs : s.depth ≤ nestingLimit) :
    ∀ t ∈ passed, t.depth ≤ nestingLimit := by
  induction h with
  | basic h s => simpa using ⟨hs, Nat.le_trans (h.depth_le s) hs⟩
  | operation operator operands s =>
      have hlast := depth_operation operator operands s
      simpa [hlast] using hs
  | andThen h first second ihFirst ihSecond =>
      have hfirst := ihFirst hs
      -- the second part begins where the first has ended, in a state that has been passed
      have hmiddle := hfirst _ first.last_mem
      rw [h] at hmiddle
      exact List.forall_mem_append.2 ⟨hfirst, ihSecond hmiddle⟩
  | broken h first ih => exact ih hs
  | failing recoverable inside ih => exact ih hs
  | @optional α rule s passed inside ih =>
      have hinside := ih hs
      refine List.forall_mem_append.2 ⟨hinside, List.forall_mem_singleton.2 ?_⟩
      obtain hdepth | hlast := depth_optional rule s
      · rwa [hdepth]
      · rw [hlast]
        exact hinside _ inside.last_mem
  | tooDeep rule h => exact List.forall_mem_singleton.2 hs
  | deeper h inside ih => exact List.forall_mem_cons.2 ⟨hs, ih h⟩

/-- Whether the run of a rule from a state goes through states up to its last one and never exceeds the limit on
nesting. -/
structure Bounded (rule : Rule α) (s : State) : Prop where
  runs : ∃ passed, Passage rule s passed
  head_eq : ∀ passed, Passage rule s passed → passed.head? = some s
  getLast_eq : ∀ passed, Passage rule s passed → passed.getLast? = some (lastState (rule s))
  depth_le : ∀ passed, Passage rule s passed → ∀ t ∈ passed, t.depth ≤ nestingLimit

theorem Passage.bounded (h : Passage rule s passed) (hs : s.depth ≤ nestingLimit) : Bounded rule s :=
  ⟨⟨passed, h⟩, fun _ => head_eq, fun _ => getLast_eq, fun _ hpassage => hpassage.depth_le hs⟩

end FormulaCompiler.Parser
