import FormulaCompiler.Node
import Mathlib.Data.List.Forall2

/-!
# What nodes keep about themselves

A number keeps a kind, and an operation keeps a height. They are `Right` if the kind is that of the value
and the height is one more than that of the highest operand, or one if there is none. A tree is `Sound` if
all its nodes are right, and `Grown` if at least all its heights are.
-/

namespace FormulaCompiler

/-- The height of an operation over some operands: one more than the highest of them. -/
def Node.heightOver (operands : List Node) : Nat := 1 + (operands.map Node.height).foldr max 0

/-- The operation of an operator over its operands. -/
def Node.over (operator : Operator) (operands : List Node) : Node :=
  .operation operator.code operands (heightOver operands)

namespace Node

/-- What holds of an operation as soon as it holds of its operands, and of all leaves, holds of every tree. -/
@[elab_as_elim]
theorem induction_on_operands {motive : Node → Prop} (number : ∀ value kind, motive (number value kind))
    (identifier : ∀ kind name, motive (identifier kind name))
    (operation : ∀ code operands height, (∀ operand ∈ operands, motive operand) → motive (operation code operands height))
    (root : Node) : motive root :=
  root.rec number identifier operation (fun _ hmem => absurd hmem List.not_mem_nil)
    fun _ _ hfirst hmore => List.forall_mem_cons.2 ⟨hfirst, hmore⟩

theorem height_identifier (kind : IdentifierKind) (name : Identifier) : (identifier kind name).height = 1 := rfl

theorem height_over (operator : Operator) (operands : List Node) :
    (Node.over operator operands).height = heightOver operands := rfl

theorem heightOver_pair (left right : Node) : heightOver [left, right] = 1 + max left.height right.height := by
  simp [heightOver]

/-- Operands of the same heights make operations of the same height. -/
theorem heightOver_congr {as bs : List Node} (h : List.Forall₂ (fun a b => a.height = b.height) as bs) :
    heightOver as = heightOver bs := by
  have hheights : as.map Node.height = bs.map Node.height := by
    induction h with
    | nil => rfl
    | cons hfirst _ ih => rw [List.map_cons, List.map_cons, hfirst, ih]
  rw [heightOver, heightOver, hheights]

theorem foldr_max_append (heights : List Nat) (last : Nat) :
    (heights ++ [last]).foldr max 0 = max (heights.foldr max 0) last := by
  induction heights with
  | nil => simp
  | cons height heights ih => simp only [List.cons_append, List.foldr_cons, ih, Nat.max_assoc]

theorem heightOver_append (operands : List Node) (child : Node) :
    heightOver (operands ++ [child]) = max (heightOver operands) (child.height + 1) := by
  rw [heightOver, heightOver, List.map_append, List.map_cons, List.map_nil, foldr_max_append]
  omega

/-- Adding an operand in front takes its height into account. -/
theorem heightOver_cons (operand : Node) (operands : List Node) :
    heightOver (operand :: operands) = max (operand.height + 1) (heightOver operands) := by
  rw [heightOver, heightOver, List.map_cons, List.foldr_cons]
  omega

theorem le_heightOver {operands : List Node} {operand : Node} (hmem : operand ∈ operands) :
    operand.height + 1 ≤ heightOver operands := by
  induction operands with
  | nil => cases hmem
  | cons first operands ih =>
      rw [heightOver_cons]
      rcases List.mem_cons.1 hmem with rfl | hmem
      · exact Nat.le_max_left _ _
      · exact Nat.le_trans (ih hmem) (Nat.le_max_right _ _)

theorem exists_heightOver_eq {operands : List Node} (hne : operands ≠ []) :
    ∃ operand ∈ operands, heightOver operands = operand.height + 1 := by
  induction operands with
  | nil => exact absurd rfl hne
  | cons first operands ih =>
      rw [heightOver_cons]
      by_cases hfirst : heightOver operands ≤ first.height + 1
      · exact ⟨first, List.mem_cons_self, Nat.max_eq_left hfirst⟩
      · have hmore : operands ≠ [] := by
          rintro rfl
          exact hfirst (Nat.le_add_left 1 _)
        obtain ⟨operand, hmem, hheight⟩ := ih hmore
        rw [Nat.max_eq_right (Nat.le_of_not_le hfirst)]
        exact ⟨operand, List.mem_cons_of_mem first hmem, hheight⟩

theorem edited_eq_ok_iff {node left : Node} {edit : Edit} : node.edited edit = .ok left ↔ edit node = .ok () left := by
  rw [edited]
  cases edit node with
  | ok _ changed => simp
  | error misuse changed => simp

theorem appendAll_ofCode (code : OperatorCode) (operands : List Node) :
    appendAll operands (ofCode code) = .ok () (operation code operands (heightOver operands)) := by
  have hfold (height : Nat) : operands.foldl (fun height child => max height (child.height + 1)) (1 + height) =
      1 + max height ((operands.map Node.height).foldr max 0) := by
    induction operands generalizing height with
    | nil => simp
    | cons operand operands ih =>
        have hmax : max (1 + height) (operand.height + 1) = 1 + max height operand.height := by omega
        simp only [List.foldl_cons, List.map_cons, List.foldr_cons, hmax, ih, Nat.max_assoc]
  rw [heightOver, ← Nat.zero_max (List.foldr _ _ _), ← hfold 0]
  rfl

/-! ### Grown trees -/

/-- Every operation of the tree keeps the height over its operands. -/
inductive Grown : Node → Prop where
  | number (value : Binary64) (kind : NumberKind) : Grown (number value kind)
  | identifier (kind : IdentifierKind) (name : Identifier) : Grown (identifier kind name)
  | operation {code : OperatorCode} {operands : List Node} (hoperands : ∀ operand ∈ operands, Grown operand) :
      Grown (operation code operands (heightOver operands))

/-! ### Sound trees -/

/-- Whether a node is somewhere in a tree. -/
inductive Within (node : Node) : Node → Prop where
  | root : Within node node
  | operand {code : OperatorCode} {operands : List Node} {height : Nat} {operand : Node} (hmem : operand ∈ operands)
      (h : Within node operand) : Within node (operation code operands height)

/-- Whether a node is as it should be: a number of the kind of its value, an identifier with a name, or an operation with
the height over its operands. -/
def Right : Node → Prop
  | number value kind => kind = .of value
  | identifier _ name => name.spelling ≠ ""
  | operation _ operands height => height = heightOver operands

/-- Whether all nodes of a tree are as they should be. -/
def Sound (root : Node) : Prop := ∀ node : Node, node.Within root → node.Right

variable {node root : Node} {code : OperatorCode} {operands : List Node} {height : Nat}

theorem within_number {value : Binary64} {kind : NumberKind} (h : node.Within (number value kind)) :
    node = number value kind := by
  cases h
  rfl

theorem within_identifier {kind : IdentifierKind} {name : Identifier} (h : node.Within (identifier kind name)) :
    node = identifier kind name := by
  cases h
  rfl

theorem Sound.ofNumber (value : Binary64) : (Node.ofNumber value).Sound := by
  intro node h
  rw [within_number h]
  exact rfl

theorem Sound.identifier (kind : IdentifierKind) {name : Identifier} (hname : name.spelling ≠ "") :
    (Node.identifier kind name).Sound := by
  intro node h
  rw [within_identifier h]
  exact hname

theorem Sound.operation (code : OperatorCode) (hoperands : ∀ operand ∈ operands, operand.Sound) :
    (Node.operation code operands (heightOver operands)).Sound := by
  intro node h
  cases h with
  | root => exact rfl
  | operand hmem h => exact hoperands _ hmem node h

theorem Sound.of_mem (h : (Node.operation code operands height).Sound) : ∀ operand ∈ operands, operand.Sound :=
  fun _ hmem node hnode => h node (.operand hmem hnode)

theorem Sound.height_eq (h : (Node.operation code operands height).Sound) : height = heightOver operands := h _ .root

theorem Sound.grown (h : root.Sound) : root.Grown := by
  induction root using induction_on_operands with
  | number value kind => exact .number value kind
  | identifier kind name => exact .identifier kind name
  | operation code operands height ih =>
      rw [h.height_eq]
      exact .operation fun operand hmem => ih operand hmem (h.of_mem operand hmem)

end Node

end FormulaCompiler
