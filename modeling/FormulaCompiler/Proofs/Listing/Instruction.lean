import FormulaCompiler.Listing
import FormulaCompiler.Proofs.Binary64.Text

/-!
# Reading instructions

A line of a listing is a column for the opcode and, behind it, the argument. No two kinds of instruction
share an opcode, so the line of an instruction reads back as the instruction (`ofLine?_text`), provided that
the instruction is printable: a NaN has lost its bits in the text, and a name could go on in the next line.
-/

namespace FormulaCompiler

/-- The operator that a mnemonic names, if it names one. -/
def Operator.ofMnemonic? (mnemonic : String) : Option Operator :=
  all.find? fun operator => operator.mnemonic == mnemonic

theorem Operator.ofMnemonic?_mnemonic (operator : Operator) : ofMnemonic? operator.mnemonic = some operator := by
  cases operator <;> decide

theorem Operator.code_of_ofCode? {code : OperatorCode} {operator : Operator} (h : ofCode? code = some operator) :
    operator.code = code := by
  have hfound := List.find?_some h
  exact of_decide_eq_true hfound

namespace Instruction

/-- Reads a number, which is of the kind that the opcode says. -/
def ofNumber? (kind : NumberKind) (argument : List Char) : Option Instruction :=
  (Binary64.ofText? argument).map fun value => .push value kind

/-- Reads the code of no operator, and how many operands it takes. -/
def ofForeignCode? (argument : List Char) : Option Instruction :=
  match argument.dropWhile (· ≠ ',') with
  | ',' :: ' ' :: arity =>
      (Decimal.integer? (argument.takeWhile (· ≠ ','))).bind fun code =>
        (Decimal.natural? arity).map (.perform ⟨Int32.ofInt code⟩)
  | _ => none

/-- Reads an instruction with a given opcode. -/
def ofColumns? (opcode : String) (argument : List Char) : Option Instruction :=
  match opcode with
  | "pushi" => ofNumber? .integer argument
  | "pushd" => ofNumber? .double argument
  | "loadc" => some (.load .constant ⟨String.ofList argument⟩)
  | "load" => some (.load .variable ⟨String.ofList argument⟩)
  | "ref" => some (.load .function ⟨String.ofList argument⟩)
  | "op" => ofForeignCode? argument
  | mnemonic =>
      (Operator.ofMnemonic? mnemonic).bind fun operator => (Decimal.natural? argument).map (.perform operator.code)

def ofLine? : List Char → Option Instruction
  | '\t' :: columns =>
      ofColumns? (String.ofList ((columns.take opcodeWidth).takeWhile (· ≠ ' '))) (columns.drop opcodeWidth)
  | _ => none

/-- Whether an instruction pushes a number or loads a name in one line. -/
def Printable : Instruction → Prop
  | push value _ => value.isNaN = false
  | load _ name => '\n' ∉ name.spelling.toList
  | perform _ _ => True

/-! ### Columns -/

variable {instruction : Instruction}

theorem opcode_fits (instruction : Instruction) :
    instruction.opcode.length ≤ opcodeWidth ∧ instruction.opcode.toList.all Char.isLower = true := by
  cases instruction with
  | push value kind =>
      simp only [opcode]
      cases kind <;> decide
  | load kind name =>
      simp only [opcode]
      cases kind <;> decide
  | perform code arity =>
      rw [opcode]
      cases Operator.ofCode? code with
      | none => decide
      | some operator => cases operator <;> decide

theorem notMem_opcode {c : Char} (hc : c.isLower = false) : c ∉ instruction.opcode.toList := by
  intro hmem
  rw [List.all_eq_true.1 (opcode_fits instruction).2 c hmem] at hc
  contradiction

theorem toList_text (instruction : Instruction) : instruction.text.toList =
    '\t' :: (instruction.opcode.toList ++ List.replicate (opcodeWidth - instruction.opcode.length) ' ' ++
      instruction.argument.toList) := by
  rw [text, String.toList_append, String.toList_append, String.toList_append, String.toList_ofList,
    String.toList_ofList, List.append_assoc, List.append_assoc, ← List.append_assoc instruction.opcode.toList]
  rfl

/-- The columns of a line are the opcode and the argument. -/
theorem exists_columns (instruction : Instruction) : ∃ columns, instruction.text.toList = '\t' :: columns ∧
    String.ofList ((columns.take opcodeWidth).takeWhile (· ≠ ' ')) = instruction.opcode ∧
    columns.drop opcodeWidth = instruction.argument.toList := by
  have hlength := (opcode_fits instruction).1
  have hblank : ∀ c ∈ instruction.opcode.toList, (c ≠ ' ' : Bool) = true := by
    intro c hmem
    apply decide_eq_true
    intro heq
    exact notMem_opcode (by decide) (heq ▸ hmem)
  have hcolumn : (instruction.opcode.toList ++
      List.replicate (opcodeWidth - instruction.opcode.length) ' ').length = opcodeWidth := by
    rw [List.length_append, String.length_toList, List.length_replicate]
    omega
  have hopcode (spaces : Nat) :
      (instruction.opcode.toList ++ List.replicate spaces ' ').takeWhile (· ≠ ' ') = instruction.opcode.toList := by
    rw [List.takeWhile_append_of_pos hblank, List.takeWhile_replicate, if_neg (by decide),
      List.append_nil]
  refine ⟨_, toList_text instruction, ?_, List.drop_left' hcolumn⟩
  rw [List.take_left' hcolumn, hopcode, String.ofList_toList]

theorem ofLine?_columns (instruction : Instruction) :
    ofLine? instruction.text.toList = ofColumns? instruction.opcode instruction.argument.toList := by
  obtain ⟨columns, htext, hopcode, hargument⟩ := exists_columns instruction
  rw [htext, ofLine?, hopcode, hargument]

/-! ### Arguments -/

theorem ofColumns?_mnemonic (operator : Operator) (argument : List Char) :
    ofColumns? operator.mnemonic argument = (Decimal.natural? argument).map (.perform operator.code) := by
  have hother : ofColumns? operator.mnemonic argument = (Operator.ofMnemonic? operator.mnemonic).bind fun operator =>
      (Decimal.natural? argument).map (.perform operator.code) := by
    cases operator <;> rfl
  rw [hother, Operator.ofMnemonic?_mnemonic, Option.bind_some]

theorem ofForeignCode?_argument (code : OperatorCode) (arity : Nat) :
    ofForeignCode? (toString code.toInt ++ ", " ++ toString arity).toList = some (.perform code arity) := by
  have htext : (toString code.toInt ++ ", " ++ toString arity).toList =
      code.toInt.repr.toList ++ (',' :: ' ' :: arity.repr.toList) := by
    rw [String.toList_append, String.toList_append, List.append_assoc]
    rfl
  have hcode : ∀ c ∈ code.toInt.repr.toList, (c ≠ ',' : Bool) = true := by
    intro c hmem
    apply decide_eq_true
    intro heq
    exact Decimal.notMem_repr_int (by decide) (by decide) _ (heq ▸ hmem)
  rw [htext, ofForeignCode?, List.dropWhile_append_of_pos hcode, List.takeWhile_append_of_pos hcode,
    List.dropWhile_cons_of_neg (by decide), List.takeWhile_cons_of_neg (by decide), List.append_nil]
  show (Decimal.integer? code.toInt.repr.toList).bind _ = _
  rw [Decimal.integer?_repr, Option.bind_some, Decimal.natural?_repr, Option.map_some, OperatorCode.toInt,
    Int32.ofInt_toInt]

/-- **The line of an instruction reads back as the instruction.** -/
theorem ofLine?_text (h : instruction.Printable) : ofLine? instruction.text.toList = some instruction := by
  rw [ofLine?_columns]
  cases instruction with
  | push value kind =>
      have hread : ofNumber? kind value.text.toList = some (.push value kind) := by
        rw [ofNumber?, Binary64.ofText?_text h, Option.map_some]
      cases kind with
      | integer => exact hread
      | double => exact hread
  | load kind name =>
      have hname : (⟨String.ofList name.spelling.toList⟩ : Identifier) = name := by rw [String.ofList_toList]
      cases kind <;> exact congrArg (fun name => some (load _ name)) hname
  | perform code arity =>
      rw [opcode, argument]
      cases hcode : Operator.ofCode? code with
      | none => exact ofForeignCode?_argument code arity
      | some operator =>
          have harity : Decimal.natural? (toString arity).toList = some arity := Decimal.natural?_repr arity
          dsimp only
          rw [ofColumns?_mnemonic, harity, Option.map_some, Operator.code_of_ofCode? hcode]

theorem newline_notMem_argument (h : instruction.Printable) : '\n' ∉ instruction.argument.toList := by
  have harity (arity : Nat) : '\n' ∉ (toString arity).toList := Decimal.notMem_repr (by decide) arity
  cases instruction with
  | push value kind => exact Binary64.newline_notMem_text h
  | load kind name => exact h
  | perform code arity =>
      rw [argument]
      cases Operator.ofCode? code with
      | some operator => exact harity arity
      | none =>
          dsimp only
          rw [String.toList_append, String.toList_append, List.mem_append, List.mem_append, not_or, not_or]
          exact ⟨⟨Decimal.notMem_repr_int (by decide) (by decide) _, by decide⟩, harity arity⟩

theorem newline_notMem_text (h : instruction.Printable) : '\n' ∉ instruction.text.toList := by
  have hopcode : '\n' ∉ instruction.opcode.toList := notMem_opcode (by decide)
  have hspaces (spaces : Nat) : '\n' ∉ List.replicate spaces ' ' := by
    intro hmem
    exact absurd (List.eq_of_mem_replicate hmem) (by decide)
  rw [toList_text, List.mem_cons, List.mem_append, List.mem_append, not_or, not_or, not_or]
  exact ⟨by decide, ⟨hopcode, hspaces _⟩, newline_notMem_argument h⟩

end Instruction

end FormulaCompiler
