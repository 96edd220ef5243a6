import FormulaCompiler.Proofs.Parser.Balance
import FormulaCompiler.Proofs.Parser.Passage
import FormulaCompiler.Proofs.Parser.Reductions

/-!
# Backtracking

A rule falters if it fails and an alternative may still succeed. What an alternative then begins with is the state
before the attempt, so nothing may depend on how far the rule has got. In fact the rule for a phrase falters only at its
first token, before it has built anything, and those for declarations, functions and lists never do. The rule for atoms
falters at a minus sign as well, but the grammar never runs it there (`signed_of_minus`). Main statement: this, with the limit on nesting, what a success has read and declared, and the state after a failed attempt, for every
rule of the grammar and every state within the limit (`Production.harmless`).
-/

namespace FormulaCompiler

/-- Whether an atom can begin with a token. It cannot begin with a minus sign. -/
def Token.StartsAtom (token : Token) : Prop := token.StartsPhrase ∧ token ≠ .symbol .minus

namespace Parser

section

variable {α β : Type} {rule : Rule α} {f : α → Rule β} {s t : State}

/-! ### Faltering -/

/-- Whether a rule ends in `t` with a failure that can be recovered from. -/
def Falters (rule : Rule α) (s t : State) : Prop := ∃ failure, rule s = .error failure t ∧ failure.recoverable = true

/-- Whether `t` is one token further than `s`, and the token is one that `starts` does not hold of. -/
def Refused (starts : Token → Prop) (s t : State) : Prop :=
  ∃ token rest, s.tokens = token :: rest ∧ ¬ starts token.value ∧ t = s.past [token] rest

theorem Firm.not_falters (h : Firm rule) : ¬ Falters rule s t := by
  rintro ⟨failure, herror, hrecoverable⟩
  rw [h herror] at hrecoverable
  contradiction

/-- Where nothing after a rule can be recovered from, only the rule itself falters. -/
theorem falters_bind (hf : ∀ value, Firm (f value)) : Falters (rule >>= f) s t ↔ Falters rule s t := by
  unfold Falters
  cases hrule : rule s with
  | ok value u =>
      rw [bind_of_ok hrule]
      have hfirm : ¬ Falters (f value) u t := (hf value).not_falters
      simpa [Falters] using hfirm
  | error failure u =>
      rw [bind_of_error hrule]
      simp

theorem falters_congr {rule' : Rule α} (h : rule s = rule' s) : Falters rule s t ↔ Falters rule' s t := by
  rw [Falters, h, Falters]

theorem peek_eq (s : State) : peek s = .ok (valuesOf s.tokens).head? s := by
  rw [head?_valuesOf]
  rfl

section

variable {starts : Token → Prop} {token : Spanned Token} {rest : List (Spanned Token)}

theorem falters_next {f : Token → Rule β} (h : s.tokens = token :: rest) :
    Falters (next >>= f) s t ↔ Falters (f token.value) (s.past [token] rest) t := by
  rw [Falters, bind_of_ok (next_eq h), Falters]

theorem refused_iff (h : s.tokens = token :: rest) :
    Refused starts s t ↔ ¬ starts token.value ∧ t = s.past [token] rest := by
  constructor
  · rintro ⟨token', rest', htokens, hstart, ht⟩
    cases h.symm.trans htokens
    exact ⟨hstart, ht⟩
  · rintro ⟨hstart, ht⟩
    exact ⟨token, rest, h, hstart, ht⟩

theorem not_refused (h : s.tokens = []) : ¬ Refused starts s t := by
  rintro ⟨token, rest, htokens, -⟩
  cases h.symm.trans htokens

end

theorem firm_nameOf (kind : IdentifierKind) : Firm (nameOf kind) := by
  refine Firm.bind (Basic.next.firm.bind fun token => ?_) fun _ => (Basic.build _).firm
  split
  · exact (Basic.pure _).firm
  · exact (Basic.fail _).firm

theorem firm_declaration (kind : IdentifierKind) : Firm (declaration kind) := by
  refine (firm_nameOf kind).bind fun _ => (Basic.expect _).firm.bind fun _ => ?_
  exact (firm_committed _).bind fun _ => (Basic.pure _).firm

theorem firm_functionDefinition : Firm functionDefinition := by
  refine (Basic.expect _).firm.bind fun _ => (firm_nameOf _).bind fun _ => (Basic.expect _).firm.bind fun _ => ?_
  refine (firm_commaList _).bind fun _ => (Basic.expect _).firm.bind fun _ => (Basic.expect _).firm.bind fun _ => ?_
  exact (firm_committed _).bind fun _ => (firm_operation _ _).bind fun _ => firm_operation _ _

section

variable {inner : Inner}

/-- An atom falters at its first token if that makes none; from there on it can only fail for good. -/
theorem falters_atom : Falters (atom inner) s t ↔ Refused Token.StartsAtom s t := by
  cases htokens : s.tokens with
  | nil =>
      have hend : ¬ Falters (atom inner) s t := by
        obtain ⟨tokens, lastRead, constants, depth, traced, log⟩ := s
        cases htokens
        rintro ⟨failure, herror, hrecoverable⟩
        cases herror
        cases hrecoverable
      exact iff_of_false hend (not_refused htokens)
  | cons token rest =>
      rw [refused_iff htokens, atom, falters_next htokens]
      split
      · rename_i hnumber
        refine iff_of_false (Basic.pure _).firm.not_falters fun hrefused => hrefused.1 ?_
        simp [Token.StartsAtom, Token.StartsPhrase, hnumber]
      · rename_i hname
        refine iff_of_false (firm_nameRest inner _).not_falters fun hrefused => hrefused.1 ?_
        simp [Token.StartsAtom, Token.StartsPhrase, hname]
      · rename_i hparen
        refine iff_of_false (firm_enclosedRest inner).not_falters fun hrefused => hrefused.1 ?_
        simp [Token.StartsAtom, Token.StartsPhrase, hparen]
      · rename_i hnumber hname hparen
        -- the only branch that an alternative may mend, and only `next` has been run in it
        have hstart : ¬ token.value.StartsAtom := by
          rintro ⟨hstart, hminus⟩
          obtain ⟨value, h⟩ | ⟨name, h⟩ | h | h := hstart.exists_eq
          · exact hnumber value h
          · exact hname name h
          · exact hparen h
          · exact hminus h
        constructor
        · rintro ⟨failure, herror, -⟩
          cases herror
          exact ⟨hstart, rfl⟩
        · rintro ⟨-, rfl⟩
          exact ⟨_, rfl, rfl⟩

theorem signed_of_minus (h : (valuesOf s.tokens).head? = some (.symbol .minus)) :
    signed inner s = (next >>= fun _ => negatedRest inner) s := by
  rw [signed, bind_of_ok (peek_eq s), h]
  rfl

/-- In front of any other token than a minus sign, the rule for signed phrases runs the rule for atoms. -/
theorem signed_of_not_minus (h : (valuesOf s.tokens).head? ≠ some (.symbol .minus)) :
    signed inner s = atom inner s := by
  rw [signed, bind_of_ok (peek_eq s)]
  refine congrFun ?_ s
  split
  · rename_i hminus
    exact absurd hminus h
  · rfl

theorem refused_startsAtom (h : (valuesOf s.tokens).head? ≠ some (.symbol .minus)) :
    Refused Token.StartsAtom s t ↔ Refused Token.StartsPhrase s t := by
  cases htokens : s.tokens with
  | nil => exact iff_of_false (not_refused htokens) (not_refused htokens)
  | cons token rest =>
      have hminus : token.value ≠ .symbol .minus := by simpa [htokens] using h
      rw [refused_iff htokens, refused_iff htokens, Token.StartsAtom, and_iff_left hminus]

theorem falters_signed : Falters (signed inner) s t ↔ Refused Token.StartsPhrase s t := by
  by_cases hminus : (valuesOf s.tokens).head? = some (.symbol .minus)
  · obtain ⟨token, rest, htokens, hvalue⟩ := exists_of_head?_valuesOf hminus
    have hfirm : Firm (next >>= fun _ => negatedRest inner) := Basic.next.firm.bind fun _ => firm_negatedRest inner
    rw [falters_congr (signed_of_minus hminus), refused_iff htokens, hvalue]
    exact iff_of_false hfirm.not_falters fun hrefused => hrefused.1 trivial
  · rw [falters_congr (signed_of_not_minus hminus), falters_atom, refused_startsAtom hminus]

theorem falters_power : Falters (power inner) s t ↔ Refused Token.StartsPhrase s t :=
  (falters_bind (firm_powerRest inner)).trans falters_signed

theorem falters_product : Falters (product inner) s t ↔ Refused Token.StartsPhrase s t :=
  (falters_bind (firm_operandsRest _ _)).trans falters_power

theorem falters_sum : Falters (sum inner) s t ↔ Refused Token.StartsPhrase s t :=
  (falters_bind (firm_operandsRest _ _)).trans falters_product

theorem falters_expression : Falters (expression inner) s t ↔ Refused Token.StartsPhrase s t :=
  (falters_bind (firm_expressionRest inner)).trans falters_sum

end

/-! ### Attempts -/

theorem optional_of_error {failure : Failure} (h : rule s = .error failure t) :
    optional rule s =
      if failure.recoverable then .ok none { s with log := t.log } else .error failure { s with log := t.log } := by
  rw [optional, h]

theorem optional_eq_some {value : α} : optional rule s = .ok (some value) t ↔ rule s = .ok value t := by
  cases hrule : rule s with
  | ok value' u => simp [optional, hrule]
  | error failure u =>
      rw [optional_of_error hrule]
      split <;> simp

/-- An attempt comes to nothing where its rule falters. -/
theorem optional_eq_none : optional rule s = .ok none t ↔ ∃ u, Falters rule s u ∧ t = { s with log := u.log } := by
  cases hrule : rule s with
  | ok value u => simp [optional, Falters, hrule]
  | error failure u =>
      rw [optional_of_error hrule]
      constructor
      · intro h
        split at h <;> cases h
        exact ⟨u, ⟨failure, hrule, ‹_›⟩, rfl⟩
      · rintro ⟨v, ⟨failure', herror, hrecoverable⟩, rfl⟩
        cases hrule.symm.trans herror
        rw [if_pos hrecoverable]

/-- A failed attempt that ends the parse leaves the state as it was as well. -/
theorem restored_of_error {failure : Failure} (h : optional rule s = .error failure t) : ∃ log, t = { s with log } := by
  cases hrule : rule s with
  | ok value u => simp [optional, hrule] at h
  | error failure' u =>
      rw [optional_of_error hrule] at h
      split at h <;> cases h
      exact ⟨u.log, rfl⟩

/-! ### What has been built by then -/

/-- Where one account of a run has nothing, none has. -/
theorem Course.eq_nil {lost built lost' : List Reduction} (h : Course rule s [] lost) (h' : Course rule s built lost') :
    built = [] :=
  List.map_eq_nil_iff.1 (h'.lines_eq h)

section

variable {tidy : Bool} {before : List Node} {post : α → List Node → Prop}

theorem Reduces.exists_course (h : Reduces tidy rule before post) (s : State) : ∃ built, Course rule s built [] := by
  obtain ⟨built, ⟨hcourse, -⟩, -⟩ := h s
  exact ⟨built, hcourse⟩

theorem exists_course_commaList {item : Rule α} (h : ∀ all, Reduces true item all fun _ _ => True) (s : State) :
    ∃ built, Course (commaList item) s built [] := by
  have hlist : Reduces false (commaList item) [] fun _ _ => True := reduces_commaList (fun _ all _ => h all) trivial
  exact hlist.exists_course s

/-- A tidy rule that falters has built nothing. -/
theorem Reduces.course_of_falters (h : Reduces true rule before post) (hfalters : Falters rule s t) :
    Course rule s [] [] := by
  obtain ⟨failure, herror, hrecoverable⟩ := hfalters
  obtain ⟨built, ⟨hcourse, -⟩, htidy⟩ := h s
  rwa [htidy rfl failure t herror hrecoverable] at hcourse

end

end

/-! ### The rules of the grammar -/

/-- The rules of the grammar. The rule for a phrase is that of a nesting level with `levels` more inside it; a parse
from the outermost level has `nestingLimit - d` of them at depth `d`. -/
inductive Production where
  | statement
  | declaration (kind : IdentifierKind)
  | functionDefinition
  | parameters
  | phrase (category : Category) (levels : Nat)

namespace Production

@[reducible]
def Value : Production → Type
  | statement => Node
  | declaration _ => Node × Node
  | functionDefinition => Node
  | parameters => List Node
  | phrase category _ => category.Value

def rule : (p : Production) → Rule p.Value
  | statement => Parser.statement
  | declaration kind => Parser.declaration kind
  | functionDefinition => Parser.functionDefinition
  | parameters => commaList (tentative (nameOf .variable))
  | phrase category levels => ruleOf category (innerRules levels)

/-- Whether the rule is for an expression or a part of one, other than a list with commas. -/
def IsPhrase : Production → Prop
  | phrase category _ => category ≠ .arguments
  | _ => False

/-- The number of tokens that the rule reads at least. Only lists may be empty. -/
def fewest : Production → Nat
  | parameters => 0
  | phrase .arguments _ => 0
  | _ => 1

/-- The names that the rule declares constant. -/
def declared : Production → State → List Identifier
  | statement, s => declaredBy (valuesOf s.tokens)
  | _, _ => []

/-- The tokens that a phrase of the rule can begin with. An atom is the only one that does not begin with a minus
sign. -/
def starts : Production → Token → Prop
  | phrase .atom _ => Token.StartsAtom
  | _ => Token.StartsPhrase

/-- A rule for an expression or a part of one is tidy. -/
theorem reduces_of_isPhrase {p : Production} (h : p.IsPhrase) : ∃ post, Reduces true p.rule [] post := by
  cases p with
  | phrase category levels =>
      have hinner := builds_innerRules levels
      cases category with
      | atom => exact ⟨_, builds_atom hinner []⟩
      | signed => exact ⟨_, builds_signed hinner []⟩
      | power => exact ⟨_, builds_power hinner []⟩
      | product => exact ⟨_, builds_leftAssociative (builds_power hinner) []⟩
      | sum => exact ⟨_, builds_sum hinner []⟩
      | expression => exact ⟨_, builds_expression hinner []⟩
      | arguments => exact absurd rfl h
  | _ => exact h.elim

variable (p : Production) {s t : State}

theorem exists_course (s : State) : ∃ built, Course p.rule s built [] := by
  cases p with
  | statement =>
      have hreduces : Reduces false Parser.statement [] _ := reduces_statement
      exact hreduces.exists_course s
  | declaration kind =>
      have hreduces : Reduces false (Parser.declaration kind) [] _ := reduces_declaration kind
      exact hreduces.exists_course s
  | functionDefinition =>
      have hreduces : Reduces false Parser.functionDefinition [] _ := reduces_functionDefinition
      exact hreduces.exists_course s
  | parameters =>
      exact exists_course_commaList (fun _ => ((quiet_nameOf _).failing true).reduces fun _ _ _ _ => trivial) s
  | phrase category levels =>
      by_cases hcategory : category = .arguments
      · subst hcategory
        have hitem := builds_expression (builds_innerRules levels)
        exact exists_course_commaList (fun all => (hitem all).mono fun _ _ _ => trivial) s
      · obtain ⟨post, hreduces⟩ := reduces_of_isPhrase (p := phrase category levels) hcategory
        exact hreduces.exists_course s

variable {p}

theorem advance {value : p.Value} (h : p.rule s = .ok value t) : Advance (p.declared s) p.fewest s t := by
  cases p with
  | statement => exact advance_statement h
  | declaration kind => exact steady_declaration kind h
  | functionDefinition => exact steady_functionDefinition h
  | parameters => exact steady_commaList ((steady_nameOf _).failing true) h
  | phrase category levels =>
      have hinner := steady_innerRules levels
      cases category with
      | atom => exact steady_atom hinner h
      | signed => exact steady_signed hinner h
      | power => exact steady_power hinner h
      | product => exact steady_product hinner h
      | sum => exact steady_sum hinner h
      | expression => exact steady_expression hinner h
      | arguments => exact steady_commaList (steady_expression hinner) h

theorem falters_iff (h : p.IsPhrase) : Falters p.rule s t ↔ Refused p.starts s t := by
  cases p with
  | phrase category levels =>
      cases category with
      | atom => exact falters_atom
      | signed => exact falters_signed
      | power => exact falters_power
      | product => exact falters_product
      | sum => exact falters_sum
      | expression => exact falters_expression
      | arguments => exact absurd rfl h
  | _ => exact h.elim

theorem firm_rule (h : p ≠ statement) (hphrase : ¬ p.IsPhrase) : Firm p.rule := by
  cases p with
  | statement => exact absurd rfl h
  | declaration kind => exact firm_declaration kind
  | functionDefinition => exact firm_functionDefinition
  | parameters => exact firm_commaList _
  | phrase category levels =>
      obtain rfl := not_not.1 hphrase
      exact firm_commaList _

/-- What a rule run from a state, by itself or as an attempt, leaves to the rules that run it. -/
structure Harmless (p : Production) (s : State) : Prop where
  bounded : Bounded p.rule s
  bounded_attempt : Bounded (optional p.rule) s
  /-- A success is as deep as the start and past at least as many tokens as the rule reads, and adds to the constants
  what the rule declares. -/
  advance : ∀ value t, p.rule s = .ok value t → Advance (p.declared s) p.fewest s t
  /-- A phrase falters just where the next token begins none of its kind, and has read that token by then. -/
  falters : p.IsPhrase → ∀ t, Falters p.rule s t ↔ Refused p.starts s t
  /-- By then it has built nothing. -/
  unbuilt : p.IsPhrase → ∀ t, Falters p.rule s t →
    Course p.rule s [] [] ∧ ∀ built lost, Course p.rule s built lost → built = []
  /-- A declaration, a function or a list never falters. -/
  firm : p ≠ statement → ¬ p.IsPhrase → ∀ t, ¬ Falters p.rule s t
  /-- An attempt succeeds as its rule does. -/
  attempted : ∀ value t, optional p.rule s = .ok (some value) t ↔ p.rule s = .ok value t
  /-- An attempt is given up just where its rule falters. -/
  givenUp : (∃ t, optional p.rule s = .ok none t) ↔ ∃ t, Falters p.rule s t
  /-- An attempt that fails, for good or not, changes nothing but the log. -/
  restored : ∀ t, (optional p.rule s = .ok none t ∨ ∃ failure, optional p.rule s = .error failure t) →
    ∃ log, t = { s with log }

/-- **Backtracking does no harm, and what goes down comes up again.** -/
theorem harmless (p : Production) {s : State} (hs : s.depth ≤ nestingLimit) : p.Harmless s := by
  obtain ⟨built, hcourse⟩ := p.exists_course s
  obtain ⟨passed, hpassage⟩ := hcourse.passage
  refine {
    bounded := hpassage.bounded hs
    bounded_attempt := (Passage.optional hpassage).bounded hs
    advance := fun value t h => advance h
    falters := fun h t => falters_iff h
    unbuilt := fun h t hfalters => ?_
    firm := fun h hphrase t => (firm_rule h hphrase).not_falters
    attempted := fun value t => optional_eq_some
    givenUp := ?_
    restored := ?_ }
  · obtain ⟨post, hreduces⟩ := reduces_of_isPhrase h
    have hempty := hreduces.course_of_falters hfalters
    exact ⟨hempty, fun built lost hbuilt => hempty.eq_nil hbuilt⟩
  · constructor
    · rintro ⟨t, hnone⟩
      obtain ⟨u, hfalters, -⟩ := optional_eq_none.1 hnone
      exact ⟨u, hfalters⟩
    · rintro ⟨u, hfalters⟩
      exact ⟨_, optional_eq_none.2 ⟨u, hfalters, rfl⟩⟩
  · rintro t (hnone | ⟨failure, herror⟩)
    · obtain ⟨u, -, ht⟩ := optional_eq_none.1 hnone
      exact ⟨u.log, ht⟩
    · exact restored_of_error herror

/-- In front of the call `f()`, with one level left. -/
def deepCall : State :=
  { tokens := inOnePlace [.identifier ⟨"f"⟩, .symbol .openParen, .symbol .closeParen], lastRead := default,
    depth := 127, traced := false, log := #[] }

/-- On the last level, a call has no arguments after an attempt to read one, and is as deep as before in the end. -/
theorem harmless_deepCall : deepCall.depth ≤ nestingLimit ∧ ∃ node t,
    (phrase .expression 1).rule deepCall = .ok node t ∧ t.depth = 127 ∧ t.tokens.length < deepCall.tokens.length := by
  have hdepth : deepCall.depth ≤ nestingLimit := by decide
  have hcall : (phrase .expression 1).rule deepCall =
      .ok (Node.over .call [.identifier .function ⟨"f"⟩]) (deepCall.past deepCall.tokens []) := rfl
  have hadvance := (harmless (phrase .expression 1) hdepth).advance _ _ hcall
  exact ⟨hdepth, _, _, hcall, hadvance.depth_eq, hadvance.length_lt⟩

/-- In front of a minus sign, outside all phrases. -/
def signAhead : State :=
  { tokens := inOnePlace [.symbol .minus], lastRead := default, depth := 0, traced := false, log := #[] }

/-- A phrase can begin with a minus sign, and still the rule for atoms falters in front of one. -/
theorem atom_falters_signAhead : signAhead.depth ≤ nestingLimit ∧ (phrase .atom nestingLimit).IsPhrase ∧
    Falters (phrase .atom nestingLimit).rule signAhead (signAhead.past signAhead.tokens []) ∧
    ∀ t, ¬ Refused Token.StartsPhrase signAhead t := by
  have htokens : signAhead.tokens = [⟨.symbol .minus, default⟩] := rfl
  refine ⟨Nat.zero_le _, Category.noConfusion, ⟨_, rfl, rfl⟩, fun t hrefused => ?_⟩
  exact ((refused_iff htokens).1 hrefused).1 trivial

end Production

end Parser

end FormulaCompiler
