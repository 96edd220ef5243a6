import FormulaCompiler.Proofs.Parser.Careful
import FormulaCompiler.Proofs.Parser.Course

/-!
# Accounts of rules

`Reduces` says of a rule what it has built, and with which value, however it is run, on top of what has been built
before it; what holds of one rule in the end is what the next one begins with. An attempt must not be given up once
anything has been built in it. So a rule that may be attempted is `tidy`: where its failure can be recovered from, it
has built nothing. After the first rule of several this is no concern, since from there on every failure ends the
parse (`Firm`).
-/

namespace FormulaCompiler.Parser

variable {α β : Type} {rule : Rule α} {f : α → Rule β}

/-! ### Failures that end the parse -/

/-- Whether no failure of a rule can be recovered from. -/
def Firm (rule : Rule α) : Prop := ∀ ⦃s failure t⦄, rule s = .error failure t → failure.recoverable = false

theorem Basic.firm (h : Basic rule) : Firm rule := by
  rintro ⟨tokens, lastRead, constants, depth, traced, log⟩ failure t herror
  cases h with
  | pure value => cases herror
  | fail error => cases herror; rfl
  | peek => cases herror
  | next => cases tokens <;> cases herror; rfl
  | expect wanted =>
      cases tokens with
      | nil => cases herror; rfl
      | cons token tokens =>
          change (if token.value == wanted then _ else _ : Rule Unit) _ = _ at herror
          split at herror <;> cases herror
          rfl
  | tokensLeft => cases herror
  | build result => cases result <;> cases herror; rfl
  | use name =>
      change Parser.build (Node.ofIdentifier (name.kindOfUse constants) name) _ = _ at herror
      cases hnode : Node.ofIdentifier (name.kindOfUse constants) name <;> rw [hnode] at herror <;> cases herror
      rfl
  | addConstant node => cases node <;> cases herror
  | ascend value => cases herror

theorem Firm.bind (h : Firm rule) (hf : ∀ value, Firm (f value)) : Firm (rule >>= f) := by
  intro s failure t herror
  cases hrule : rule s with
  | ok value u =>
      rw [bind_of_ok hrule] at herror
      exact hf value herror
  | error failure' u =>
      rw [bind_of_error hrule] at herror
      cases herror
      exact h hrule

theorem firm_committed (rule : Rule α) : Firm (committed rule) := by
  intro s failure t herror
  unfold committed failing at herror
  split at herror <;> cases herror
  rfl

theorem firm_optional (rule : Rule α) : Firm (optional rule) := by
  intro s failure t herror
  unfold optional at herror
  split at herror
  · cases herror
  · dsimp only at herror
    split at herror <;> cases herror
    rename_i hstrict
    exact eq_false_of_ne_true hstrict

theorem Firm.deeper (h : Firm rule) : Firm (deeper rule) := by
  intro s failure t herror
  rcases Nat.lt_or_ge s.depth nestingLimit with hdepth | hdepth
  · rw [deeper_eq rule hdepth] at herror
    exact h.bind (fun value => (Basic.ascend value).firm) herror
  · rw [deeper_of_tooDeep rule hdepth] at herror
    exact (Basic.fail _).firm herror

theorem firm_operation (operator : Operator) (operands : List Node) : Firm (operation operator operands) := by
  intro s failure t herror
  rw [operation_eq] at herror
  split at herror
  · exact (Basic.fail _).firm herror
  · obtain ⟨tokens, lastRead, constants, depth, traced, log⟩ := s
    cases traced <;> cases herror

theorem firm_moreItems (item : Rule α) (rounds : List (Spanned Token)) (reversed : List α) :
    Firm (moreItems item rounds reversed) := by
  induction rounds generalizing reversed with
  | nil => exact (Basic.pure _).firm
  | cons round rounds ih =>
      refine Basic.peek.firm.bind fun next? => ?_
      split
      · exact Basic.next.firm.bind fun _ => (firm_committed item).bind fun value => ih (value :: reversed)
      · exact (Basic.pure _).firm

theorem firm_commaList (item : Rule α) : Firm (commaList item) := by
  refine (firm_optional item).bind fun first? => ?_
  cases first? with
  | none => exact (Basic.pure _).firm
  | some first => exact Basic.tokensLeft.firm.bind fun rounds => firm_moreItems item rounds [first]

theorem firm_moreOperands (operator? : Token → Option Operator) (operand : Rule Node) (rounds : List (Spanned Token))
    (left : Node) : Firm (moreOperands operator? operand rounds left) := by
  induction rounds generalizing left with
  | nil => exact (Basic.pure _).firm
  | cons round rounds ih =>
      refine Basic.peek.firm.bind fun next? => ?_
      split
      · exact (Basic.pure _).firm
      · exact Basic.next.firm.bind fun _ => (firm_committed operand).bind fun right =>
          (firm_operation _ _).bind ih

/-! ### Accounts -/

/-- Whether the account of a run is `built`, on top of what has been built `before`, with no attempt given up in which
anything was built; what holds of the value and of everything built by then is `post`. -/
structure Account (rule : Rule α) (s : State) (before : List Node) (post : α → List Node → Prop)
    (built : List Reduction) : Prop where
  course : Course rule s built []
  value : ∀ ⦃value t⦄, rule s = .ok value t → post value (before ++ built.map Reduction.node)

/-- Whether a rule has an account however it is run. Where it is `tidy`, it has built nothing if its failure can be
recovered from. -/
def Reduces (tidy : Bool) (rule : Rule α) (before : List Node) (post : α → List Node → Prop) : Prop :=
  ∀ s, ∃ built, Account rule s before post built ∧
    (tidy = true → ∀ failure t, rule s = .error failure t → failure.recoverable = true → built = [])

/-- Whether a rule never builds anything. -/
def Quiet (rule : Rule α) : Prop := ∀ s, Course rule s [] []

section

variable {tidy : Bool} {before : List Node} {post : α → List Node → Prop} {last : β → List Node → Prop}

theorem Basic.quiet (h : Basic rule) : Quiet rule := Course.basic h

theorem Quiet.bind (h : Quiet rule) (hf : ∀ value, Quiet (f value)) : Quiet (rule >>= f) := by
  intro s
  cases hrule : rule s with
  | ok value t => exact .andThen hrule (h s) (hf value t)
  | error failure t => exact .broken hrule (h s)

theorem Quiet.failing (h : Quiet rule) (recoverable : Bool) : Quiet (failing recoverable rule) :=
  fun s => .failing recoverable (h s)

theorem Quiet.reduces (h : Quiet rule) (hpost : ∀ s value t, rule s = .ok value t → post value before) :
    Reduces tidy rule before post := by
  intro s
  refine ⟨[], ⟨h s, fun value t hok => ?_⟩, fun _ _ _ _ _ => rfl⟩
  rw [List.map_nil, List.append_nil]
  exact hpost s value t hok

theorem Reduces.mono {weaker : α → List Node → Prop} (h : Reduces tidy rule before post)
    (himp : ∀ value all, post value all → weaker value all) : Reduces tidy rule before weaker := by
  intro s
  obtain ⟨built, ⟨hcourse, hvalue⟩, hclean⟩ := h s
  exact ⟨built, ⟨hcourse, fun value t hok => himp _ _ (hvalue hok)⟩, hclean⟩

theorem Reduces.untidy (h : Reduces tidy rule before post) : Reduces false rule before post := by
  intro s
  obtain ⟨built, haccount, -⟩ := h s
  exact ⟨built, haccount, nofun⟩

/-- Where nothing can be recovered from, nothing has to be tidy. -/
theorem Reduces.of_firm (h : Reduces false rule before post) (hfirm : Firm rule) : Reduces tidy rule before post := by
  intro s
  obtain ⟨built, haccount, -⟩ := h s
  refine ⟨built, haccount, fun _ failure t herror hrecoverable => ?_⟩
  rw [hfirm herror] at hrecoverable
  contradiction

theorem Quiet.then (h : Quiet rule) (hf : ∀ s value t, rule s = .ok value t → Reduces tidy (f value) before last) :
    Reduces tidy (rule >>= f) before last := by
  intro s
  cases hrule : rule s with
  | ok value t =>
      obtain ⟨built, ⟨hcourse, hvalue⟩, htidy⟩ := hf s value t hrule t
      refine ⟨built, ⟨.andThen hrule (h s) hcourse, ?_⟩, ?_⟩
      · rwa [bind_of_ok hrule]
      · rwa [bind_of_ok hrule]
  | error failure t =>
      refine ⟨[], ⟨.broken hrule (h s), ?_⟩, fun _ _ _ _ _ => rfl⟩
      rw [bind_of_error hrule]
      exact nofun

theorem Reduces.bind (h : Reduces tidy rule before post)
    (hf : ∀ value all, post value all → Reduces false (f value) all last) (hfirm : tidy = true → ∀ value, Firm (f value)) :
    Reduces tidy (rule >>= f) before last := by
  intro s
  obtain ⟨built, ⟨hcourse, hvalue⟩, hclean⟩ := h s
  cases hrule : rule s with
  | ok value t =>
      obtain ⟨more, ⟨hmore, hresult⟩, -⟩ := hf value _ (hvalue hrule) t
      refine ⟨built ++ more, ⟨.andThen hrule hcourse hmore, ?_⟩, fun htidy failure u herror hrecoverable => ?_⟩
      · rwa [bind_of_ok hrule, List.map_append, ← List.append_assoc]
      · rw [bind_of_ok hrule] at herror
        rw [hfirm htidy value herror] at hrecoverable
        contradiction
  | error failure t =>
      refine ⟨built, ⟨.broken hrule hcourse, ?_⟩, fun htidy failure' u herror => ?_⟩
      · rw [bind_of_error hrule]
        exact nofun
      · rw [bind_of_error hrule] at herror
        cases herror
        exact hclean htidy failure t hrule

/-- Where it does not matter what can be recovered from. -/
theorem Reduces.andThen (h : Reduces false rule before post)
    (hf : ∀ value all, post value all → Reduces false (f value) all last) : Reduces false (rule >>= f) before last :=
  h.bind hf nofun

theorem Reduces.committed (h : Reduces tidy rule before post) : Reduces false (committed rule) before post := by
  intro s
  obtain ⟨built, ⟨hcourse, hvalue⟩, -⟩ := h s
  exact ⟨built, ⟨.failing false hcourse, fun value t hok => hvalue (ok_failing hok)⟩, nofun⟩

theorem Reduces.optional {next : Option α → List Node → Prop} (h : Reduces true rule before post)
    (hsome : ∀ value all, post value all → next (some value) all) (hnone : next none before) :
    Reduces false (optional rule) before next := by
  intro s
  obtain ⟨built, ⟨hcourse, hvalue⟩, hclean⟩ := h s
  cases hrule : rule s with
  | ok value t =>
      refine ⟨built, ⟨.attempted (fun failure u herror => ?_) hcourse, ?_⟩, nofun⟩
      · cases hrule.symm.trans herror
      · unfold Parser.optional
        rw [hrule]
        intro value' u hok
        cases hok
        exact hsome _ _ (hvalue hrule)
  | error failure t =>
      by_cases hrecoverable : failure.recoverable = true
      · obtain rfl := hclean rfl failure t hrule hrecoverable
        refine ⟨[], ⟨.givenUp hrule hrecoverable hcourse, ?_⟩, nofun⟩
        unfold Parser.optional
        rw [hrule]
        dsimp only
        rw [if_pos hrecoverable]
        intro value u hok
        cases hok
        rwa [List.map_nil, List.append_nil]
      · refine ⟨built, ⟨.attempted (fun failure' u herror => ?_) hcourse, ?_⟩, nofun⟩
        · cases hrule.symm.trans herror
          exact eq_false_of_ne_true hrecoverable
        · unfold Parser.optional
          rw [hrule]
          dsimp only
          rw [if_neg hrecoverable]
          exact nofun

theorem Reduces.deeper (h : Reduces false rule before post) : Reduces false (deeper rule) before post := by
  intro s
  rcases Nat.lt_or_ge s.depth nestingLimit with hdepth | hdepth
  · have hinside : Reduces false (rule >>= ascend) before post :=
      h.andThen fun value all hpost => (Basic.ascend value).quiet.reduces fun s value' t hok => by cases hok; exact hpost
    obtain ⟨built, ⟨hcourse, hvalue⟩, -⟩ := hinside s.deeper
    refine ⟨built, ⟨.deeper hdepth hcourse, ?_⟩, nofun⟩
    rwa [deeper_eq rule hdepth]
  · refine ⟨[], ⟨.tooDeep rule hdepth, ?_⟩, nofun⟩
    rw [deeper_of_tooDeep rule hdepth]
    exact nofun

end

end FormulaCompiler.Parser
