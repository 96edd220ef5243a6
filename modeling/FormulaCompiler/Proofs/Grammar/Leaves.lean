import FormulaCompiler.Proofs.Grammar.Sentence

/-!
# The leaves of a sentence

The tree of a sentence is put together from operations over the numbers and names of its tokens. What holds
of those and passes from operands to an operation over them therefore holds of the tree
(`Sentence.holds_tree`).
-/

namespace FormulaCompiler

variable {holds : Node → Prop}

/-- Whether something holds of the leaves that a token can stand for. -/
def Token.LeavesHold (holds : Node → Prop) : Token → Prop
  | number value => holds (.ofNumber value)
  | identifier name => ∀ kind, holds (.identifier kind name)
  | _ => True

/-- Whether something holds of what a phrase of a category stands for. -/
def Category.Holds (holds : Node → Prop) : (c : Category) → c.Value → Prop
  | atom, node => holds node
  | signed, node => holds node
  | power, node => holds node
  | product, node => holds node
  | sum, node => holds node
  | expression, node => holds node
  | arguments, nodes => ∀ node ∈ nodes, holds node

section

variable (hover : ∀ operator operands, (∀ operand ∈ operands, holds operand) → holds (.over operator operands))

include hover

theorem Phrase.holds_tree (constants : List Identifier) {c : Category} (phrase : Phrase c)
    (htokens : ∀ token ∈ phrase.tokens, token.LeavesHold holds) : c.Holds holds (phrase.tree constants) := by
  have hpair {operator : Operator} {left right : Node} (hleft : holds left) (hright : holds right) :
      holds (.over operator [left, right]) := by
    apply hover
    simp only [List.forall_mem_cons]
    exact ⟨hleft, hright, by simp⟩
  induction phrase with
  | number value => exact htokens _ (.head _)
  | name used => exact htokens _ (.head _) _
  | bareCall callee =>
      apply hover
      rw [List.forall_mem_singleton]
      exact htokens _ (.head _) _
  | call callee arguments ih =>
      simp only [tokens, List.forall_mem_cons, List.forall_mem_append] at htokens
      apply hover
      rw [List.forall_mem_cons]
      exact ⟨htokens.1 _, ih htokens.2.2.1⟩
  | enclosed inner ih =>
      simp only [tokens, List.forall_mem_cons, List.forall_mem_append] at htokens
      exact ih htokens.2.1
  | ofAtom atom ih => exact ih htokens
  | negated operand ih =>
      apply hover
      rw [List.forall_mem_singleton]
      exact ih (List.forall_mem_cons.1 htokens).2
  | ofSigned base ih => exact ih htokens
  | raised base exponent ihBase ihExponent =>
      simp only [tokens, List.forall_mem_cons, List.forall_mem_append] at htokens
      exact hpair (ihBase htokens.1) (ihExponent htokens.2.2)
  | ofPower first ih => exact ih htokens
  | multiplied left mark right ihLeft ihRight =>
      simp only [tokens, List.forall_mem_cons, List.forall_mem_append] at htokens
      exact hpair (ihLeft htokens.1) (ihRight htokens.2.2)
  | ofProduct first ih => exact ih htokens
  | added left mark right ihLeft ihRight =>
      simp only [tokens, List.forall_mem_cons, List.forall_mem_append] at htokens
      exact hpair (ihLeft htokens.1) (ihRight htokens.2.2)
  | ofSum sum ih => exact ih htokens
  | compared left mark right ihLeft ihRight =>
      simp only [tokens, List.forall_mem_cons, List.forall_mem_append] at htokens
      exact hpair (ihLeft htokens.1) (ihRight htokens.2.2)
  | argument value ih =>
      show ∀ node ∈ [_], holds node
      rw [List.forall_mem_singleton]
      exact ih htokens
  | furtherArgument before value ihBefore ihValue =>
      simp only [tokens, List.forall_mem_cons, List.forall_mem_append] at htokens
      show ∀ node ∈ _ ++ [_], holds node
      rw [List.forall_mem_append, List.forall_mem_singleton]
      exact ⟨ihBefore htokens.1, ihValue htokens.2.2⟩

theorem Statement.holds_tree (constants : List Identifier) (statement : Statement)
    (htokens : ∀ token ∈ statement.tokens, token.LeavesHold holds) : holds (statement.tree constants) := by
  cases statement with
  | bound binding name value =>
      simp only [tokens, List.forall_mem_cons] at htokens
      apply hover
      simp only [List.forall_mem_cons]
      exact ⟨htokens.2.1 _, value.holds_tree hover constants htokens.2.2.2, by simp⟩
  | function name parameters body =>
      simp only [tokens, List.forall_mem_cons, List.forall_mem_append] at htokens
      obtain ⟨-, hname, -, hparameters, -, -, hbody⟩ := htokens
      have hlist : holds (.over .parameters (parameters.map (.identifier .variable))) := by
        apply hover
        rw [List.forall_mem_map]
        intro name hmem
        exact hparameters _ (mem_parameterTokens hmem) _
      apply hover
      simp only [List.forall_mem_cons]
      exact ⟨hname _, hlist, body.holds_tree hover constants hbody, by simp⟩
  | assigned target value =>
      simp only [tokens, List.forall_mem_cons] at htokens
      apply hover
      simp only [List.forall_mem_cons]
      exact ⟨htokens.1 _, value.holds_tree hover constants htokens.2.2, by simp⟩
  | bare value => exact value.holds_tree hover constants htokens

theorem Statement.holds_trees (constants : List Identifier) (statements : List Statement)
    (htokens : ∀ statement ∈ statements, ∀ token ∈ statement.tokens, token.LeavesHold holds) :
    ∀ tree ∈ trees constants statements, holds tree := by
  induction statements generalizing constants with
  | nil => simp [trees]
  | cons statement statements ih =>
      rw [List.forall_mem_cons] at htokens
      rw [trees, List.forall_mem_cons]
      exact ⟨statement.holds_tree hover constants htokens.1, ih _ htokens.2⟩

/-- What holds of the leaves of a sentence and of operations over operands of which it holds. -/
theorem Sentence.holds_tree (sentence : Sentence) (htokens : ∀ token ∈ sentence.tokens, token.LeavesHold holds) :
    holds sentence.tree := by
  have hstatements : ∀ statement ∈ sentence.first :: sentence.others, ∀ token ∈ statement.tokens,
      token.LeavesHold holds := by
    rw [tokens, List.forall_mem_append, seriesTokens, List.forall_mem_append] at htokens
    obtain ⟨⟨hfirst, hothers⟩, -⟩ := htokens
    rw [List.forall_mem_cons]
    refine ⟨hfirst, fun statement hmem token htoken => ?_⟩
    exact hothers token (List.mem_flatMap.2 ⟨statement, hmem, .tail _ htoken⟩)
  have htrees := Statement.holds_trees hover [] _ hstatements
  rw [tree]
  split
  · rename_i only honly
    rw [honly] at htrees
    exact htrees only (.head _)
  · exact hover _ _ htrees

end

end FormulaCompiler
