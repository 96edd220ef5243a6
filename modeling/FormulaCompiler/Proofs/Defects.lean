import FormulaCompiler.Proofs.Parser.Careful
import FormulaCompiler.Proofs.Session.Independence

/-!
# Defects

A tree can be misused in four ways, and sessions have an error of their own for it. With the lexer and the parser none
of them comes to pass (`no_defect`): what the parser appends to is an operation, what it reclassifies is a name, and
the lexer gives no name without characters, which is the one misuse that tokens could lead to.
-/

namespace FormulaCompiler

namespace Node

/-- While an operation is put together, every operand is appended to an operation. -/
theorem append_ofCode (code : OperatorCode) (before after : List Node) (child : Node) :
    ∃ node grown, appendAll before (ofCode code) = .ok () node ∧ node.shape = .operation ∧
      append (some child) node = .ok () grown ∧
      appendAll after grown = appendAll (before ++ child :: after) (ofCode code) := by
  refine ⟨_, _, rfl, rfl, append_some _ _ _ _, ?_⟩
  simp [ofCode, appendAll, List.append_assoc, List.foldl_append]

theorem ofIdentifier_eq {kind : IdentifierKind} {name : Identifier} (h : name.spelling ≠ "") :
    ofIdentifier kind name = .ok (identifier kind name) := by
  rw [ofIdentifier, if_neg]
  rw [String.isEmpty_iff]
  exact h

end Node

namespace Parser

/-- What the parser reclassifies, a name that is called, is a name. -/
theorem reclassify_of_use {name : Identifier} {s t : State} {used : Node} (h : use name s = .ok used t)
    (kind : IdentifierKind) : used.shape = .identifier ∧ ∃ callee, Node.reclassify kind used = .ok () callee := by
  obtain ⟨found, u, hget, hbuild⟩ := ok_bind h
  cases hget
  have hne := (ne_empty_of_ok_ofIdentifier hbuild).1
  obtain ⟨hnode, -⟩ := ok_build hbuild
  rw [Node.ofIdentifier_eq hne] at hnode
  cases hnode
  exact ⟨rfl, _, rfl⟩

/-- A parameter is the one thing that is tried with a name being built on the way, so that a misuse would go unnoticed.
There is none. -/
theorem ne_tree_of_nameOf {kind : IdentifierKind} {s t : State} {failure : Failure}
    (hnamed : ∀ token ∈ s.tokens, token.value.Named) (h : nameOf kind s = .error failure t) (misuse : TreeMisuse) :
    failure.error.value ≠ .tree misuse := by
  obtain ⟨tokens, lastRead, constants, depth, traced, log⟩ := s
  cases tokens with
  | nil =>
      cases h
      exact SyntaxError.noConfusion
  | cons token tokens =>
      obtain ⟨value, span⟩ := token
      cases value with
      | identifier name =>
          have hne : name.spelling ≠ "" := hnamed _ List.mem_cons_self
          change build (Node.ofIdentifier kind name) _ = _ at h
          rw [Node.ofIdentifier_eq hne] at h
          cases h
      | _ =>
          cases h
          exact SyntaxError.noConfusion

/-- Tokens that a parse misuses a tree for have a name without characters among them. -/
theorem nameless_of_parse {start : Span} {tokens : List (Spanned Token)} {traced : Bool} {log : Log}
    {misuse : TreeMisuse} {span : Span} (h : (parse start tokens traced log).1 = .error ⟨.tree misuse, span⟩) :
    misuse = .emptyName ∧ ∃ token ∈ tokens, ¬ token.value.Named := by
  refine ⟨eq_emptyName_of_parse h, ?_⟩
  by_contra hnamed
  push Not at hnamed
  exact ne_tree_of_parse hnamed h misuse rfl

theorem engine_ne_defect (source : Source) (start : Span) (scanning parsing : Bool) (error : Spanned TreeMisuse) :
    (engine parsing start (Lexer.scan scanning source)).1 ≠ .error (.defect error) := by
  by_cases herrors : Lexer.errorsOf (Lexer.ofSource source).items = []
  · rcases tree_or_problem_of_tokens source start scanning parsing herrors with ⟨node, hengine⟩ | ⟨problem, hengine⟩
    all_goals simp [hengine]
  · rw [engine_of_errors source start scanning parsing herrors, EngineError.ofLexErrors]
    split <;> simp

end Parser

/-- A session reports a defect only if the engine does. -/
theorem Session.Bundled.result?_ne_defect {s : Session} (h : s.Bundled) (request : Request) (unit : String)
    (cause : TreeMisuse) : s.result? request ≠ some (.error (.defect unit cause)) := by
  obtain ⟨tracing, hscanner, hengine⟩ := h
  cases hinput : request.input? with
  | none => cases request <;> simp [result?, Request.input?] at hinput ⊢
  | some input =>
      cases input with
      | error cause' =>
          obtain ⟨⟨files, path, -, -, hresult⟩, -⟩ := of_no_input (s := s) hinput
          simp [hresult]
      | ok source =>
          have hdefect (error : Spanned TreeMisuse) : s.answer source ≠ .error (.defect error) := by
            rw [answer, hscanner, hengine]
            exact Parser.engine_ne_defect source _ _ _ error
          rw [(of_input hinput).1]
          generalize s.answer source = answer at hdefect
          cases answer with
          | ok tree => simp [verdict]
          | error error =>
              cases error with
              | defect error => exact absurd rfl (hdefect error)
              | unreadable error => simp [verdict]
              | invalid diagnostics =>
                  rw [verdict]
                  split <;> simp

/-- **No source leads to a defect**, whether it can be read or not, and whatever is wrong with it. -/
theorem no_defect :
    (∀ (source : Source) (token : Spanned Token) (name : Identifier), .ok token ∈ (Lexer.ofSource source).items →
      token.value = .identifier name → name.spelling ≠ "") ∧
    (∀ (kind : IdentifierKind) (s t : Parser.State) (failure : Parser.Failure) (misuse : TreeMisuse),
      (∀ token ∈ s.tokens, token.value.Named) → Parser.nameOf kind s = .error failure t →
        failure.error.value ≠ .tree misuse) ∧
    (∀ (code : OperatorCode) (before after : List Node) (child : Node), ∃ node grown,
      Node.appendAll before (Node.ofCode code) = .ok () node ∧ node.shape = .operation ∧
      Node.append (some child) node = .ok () grown ∧
      Node.appendAll after grown = Node.appendAll (before ++ child :: after) (Node.ofCode code)) ∧
    (∀ (name : Identifier) (s t : Parser.State) (used : Node), Parser.use name s = .ok used t →
      used.shape = .identifier ∧ ∃ callee, Node.reclassify .function used = .ok () callee) ∧
    (∀ start tokens traced log misuse span, (Parser.parse start tokens traced log).1 = .error ⟨.tree misuse, span⟩ →
      misuse = .emptyName ∧ ∃ token ∈ tokens, ¬ token.value.Named) ∧
    (∀ (source : Source) (start : Span) (scanning parsing : Bool) (error : Spanned TreeMisuse),
      (Parser.engine parsing start (Lexer.scan scanning source)).1 ≠ .error (.defect error)) ∧
    ∀ (s : Session) (request : Session.Request) (unit : String) (cause : TreeMisuse), s.Bundled →
      s.result? request ≠ some (.error (.defect unit cause)) := by
  refine ⟨?_, ?_, Node.append_ofCode, ?_, ?_, Parser.engine_ne_defect, ?_⟩
  · intro source token name hmem hvalue
    have hnamed := Parser.named_of_mem_tokensOf source (Lexer.mem_tokensOf.2 hmem)
    rw [hvalue] at hnamed
    exact hnamed
  · exact fun kind s t failure misuse hnamed hfailure => Parser.ne_tree_of_nameOf hnamed hfailure misuse
  · exact fun name s t used huse => Parser.reclassify_of_use huse .function
  · exact fun start tokens traced log misuse span hparse => Parser.nameless_of_parse hparse
  · exact fun s request unit cause hbundled => hbundled.result?_ne_defect request unit cause

/-- A name without characters would be a defect. The lexer gives none, even behind a character that begins no token. -/
theorem no_defect_nameless :
    (∃ token ∈ [(⟨.identifier ⟨""⟩, default⟩ : Spanned Token)], ¬ token.value.Named) ∧
    (Parser.engine false default (Lexer.scan false Parser.unspoiled)).1 ≠ .error (.defect ⟨.emptyName, default⟩) ∧
    (Session.built "out" "main" {} {}).result? (.parse Parser.spoiled) ≠ some (.error (.defect "main" .emptyName)) := by
  obtain ⟨-, -, -, -, hparse, hengine, hsession⟩ := no_defect
  have hnameless : (Parser.parse default [⟨.identifier ⟨""⟩, default⟩] false #[]).1 =
      .error ⟨.tree .emptyName, default⟩ := rfl
  exact ⟨(hparse _ _ _ _ _ _ hnameless).2, hengine _ _ _ _ _, hsession _ _ _ _ (.withTracing _ _)⟩

end FormulaCompiler
