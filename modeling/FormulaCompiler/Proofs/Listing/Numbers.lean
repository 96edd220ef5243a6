import FormulaCompiler.Proofs.Acceptance
import FormulaCompiler.Proofs.Binary64.Integer
import FormulaCompiler.Proofs.Construction.Calls
import FormulaCompiler.Proofs.Grammar.Leaves
import FormulaCompiler.Proofs.Listing.Instruction
import FormulaCompiler.Proofs.Parser.Careful
import FormulaCompiler.Proofs.RoundTrip
import Mathlib.Data.List.Forall2

/-!
# Numbers of a tree and of its listing

A number keeps the kind that it has been made or changed with, and a listing writes the number by the kind that it keeps.
In a sound tree this is the kind of its value (`fits_of_sound`). Trees are sound however they are built, by calls or by
the parser. Main statement: a number has the value that it has been given last and the kind of that value, and the lines
of a listing that push a number are those of the numbers of the tree, from left to right (`lines_of_numbers`).
-/

namespace FormulaCompiler

/-- The kind of a number and its line in a listing. An integer of 32 bits is written with its digits alone, except that
the negative zero keeps its sign. -/
inductive NumberLine (x : Binary64) : NumberKind → String → Prop where
  | integer {i : ℤ} (hfinite : x.isFinite = true) (hword : IsWord i) (hvalue : x.value = i) :
      NumberLine x .integer ("\tpushi   " ++ if i = 0 ∧ x.isNegative = true then "-0" else toString i)
  | double (h : ¬ (x.isFinite = true ∧ ∃ i : ℤ, IsWord i ∧ x.value = i)) : NumberLine x .double ("\tpushd   " ++ x.text)

variable {x : Binary64} {kind : NumberKind} {line : String}

/-- A line begins with the column of its opcode. -/
theorem Instruction.text_of_opcode {instruction : Instruction} {opcode column : String}
    (hopcode : instruction.opcode = opcode)
    (hcolumn : "\t" ++ opcode ++ String.ofList (List.replicate (opcodeWidth - opcode.length) ' ') = column) :
    instruction.text = column ++ instruction.argument := by
  rw [text, hopcode, ← hcolumn]

theorem text_push_integer (x : Binary64) : (Instruction.push x .integer).text = "\tpushi   " ++ x.text := by
  have hopcode : (Instruction.push x .integer).opcode = "pushi" := rfl
  exact Instruction.text_of_opcode hopcode (by decide)

theorem text_push_double (x : Binary64) : (Instruction.push x .double).text = "\tpushd   " ++ x.text := by
  have hopcode : (Instruction.push x .double).opcode = "pushd" := rfl
  exact Instruction.text_of_opcode hopcode (by decide)

/-- A number that keeps the kind of its value is written as it should be. -/
theorem numberLine_of (x : Binary64) : NumberLine x (.of x) (Instruction.push x (.of x)).text := by
  cases hkind : NumberKind.of x with
  | integer =>
      obtain ⟨hfinite, i, hword, hvalue⟩ := NumberKind.of_eq_integer_iff.1 hkind
      rw [text_push_integer, Binary64.text_of_isWord hfinite hword hvalue]
      exact .integer hfinite hword hvalue
  | double =>
      rw [text_push_double]
      apply NumberLine.double
      rw [← NumberKind.of_eq_integer_iff, hkind]
      exact NumberKind.noConfusion

/-- The kind on a line is that of the number, so each number has one. -/
theorem NumberLine.kind_eq (h : NumberLine x kind line) : kind = .of x := by
  cases h with
  | integer hfinite hword hvalue => exact (NumberKind.of_eq_integer_iff.2 ⟨hfinite, _, hword, hvalue⟩).symm
  | double h =>
      cases hkind : NumberKind.of x with
      | integer => exact absurd (NumberKind.of_eq_integer_iff.1 hkind) h
      | double => rfl

/-! ### Numbers of a tree -/

namespace Node

mutual

/-- The numbers of a tree with the kinds that they keep, from left to right. -/
def numbers : Node → List (Binary64 × NumberKind)
  | number value kind => [(value, kind)]
  | identifier _ _ => []
  | operation _ operands _ => operandsNumbers operands

def operandsNumbers : List Node → List (Binary64 × NumberKind)
  | [] => []
  | operand :: operands => operand.numbers ++ operandsNumbers operands

end

variable {root node : Node} {nodes operands : List Node} {place : Nat}

theorem mem_operandsNumbers :
    (x, kind) ∈ operandsNumbers operands ↔ ∃ operand ∈ operands, (x, kind) ∈ operand.numbers := by
  induction operands with
  | nil => simp [operandsNumbers]
  | cons operand operands ih => simp [operandsNumbers, ih]

/-- The numbers of a tree are its number nodes. -/
theorem mem_numbers : (x, kind) ∈ root.numbers ↔ (number x kind).Within root := by
  constructor
  · intro h
    induction root using induction_on_operands with
    | number value kind =>
        cases List.mem_singleton.1 h
        exact .root
    | identifier kind name => cases h
    | operation code operands height ih =>
        obtain ⟨operand, hmem, h⟩ := mem_operandsNumbers.1 h
        exact .operand hmem (ih operand hmem h)
  · intro h
    induction h with
    | root => exact List.mem_singleton_self (x, kind)
    | operand hmem h ih => exact mem_operandsNumbers.2 ⟨_, hmem, ih⟩

/-- The value of the number at a place after some calls: the last one that it has been given. -/
def Call.valueAfter (place : Nat) (x : Binary64) (calls : List Call) : Binary64 :=
  calls.foldl (fun value call =>
    match call with
    | replaceNumber target later => if target = place then later else value
    | _ => value) x

/-- Only a replacement of its value changes a number. -/
theorem Call.valueAfter_singleton {call : Call} (h : ∀ later, call ≠ .replaceNumber place later) :
    valueAfter place x [call] = x := by
  cases call with
  | replaceNumber target later =>
      have hother : target ≠ place := by
        rintro rfl
        exact h later rfl
      exact if_neg hother
  | _ => rfl

theorem number_after (hnode : nodes[place]? = some (ofNumber x)) (call : Call) :
    (call.after nodes)[place]? = some (ofNumber (Call.valueAfter place x [call])) := by
  have hlt := (List.getElem?_eq_some_iff.1 hnode).1
  by_cases hcall : ∃ later, call = .replaceNumber place later
  · obtain ⟨later, rfl⟩ := hcall
    rw [Call.after, (Makes.replaceNumber later hnode).run_eq]
    exact (List.getElem?_set_self hlt).trans (congrArg (some ∘ ofNumber) (if_pos rfl).symm)
  · have hcall : ∀ later, call ≠ .replaceNumber place later := fun later heq => hcall ⟨later, heq⟩
    rw [Call.valueAfter_singleton hcall]
    have hother {target : Nat} {old changed : Node} (htarget : nodes[target]? = some old) (hold : old ≠ ofNumber x) :
        (nodes.set target changed)[place]? = some (ofNumber x) := by
      have hne : target ≠ place := by
        rintro rfl
        exact hold (Option.some.inj (htarget.symm.trans hnode))
      exact (List.getElem?_set_ne hne).trans hnode
    rcases makes_or_eq nodes call with hmakes | ⟨heq, -⟩
    · generalize call.after nodes = later at hmakes ⊢
      cases hmakes with
      | append htarget hchild => exact hother htarget Node.noConfusion
      | reclassify kind htarget => exact hother htarget Node.noConfusion
      | replaceNumber later htarget =>
          have hne : _ ≠ place := fun heq => hcall later (congrArg (Call.replaceNumber · later) heq)
          exact (List.getElem?_set_ne hne).trans hnode
      | _ => exact (List.getElem?_append_left hlt).trans hnode
    · rw [heq]
      exact hnode

theorem number_afterAll (hnode : nodes[place]? = some (ofNumber x)) (calls : List Call) :
    (Call.afterAll nodes calls)[place]? = some (ofNumber (Call.valueAfter place x calls)) := by
  induction calls generalizing nodes x with
  | nil => exact hnode
  | cons call calls ih => exact ih (number_after hnode call)

end Node

/-! ### Numbers of a listing -/

namespace Instruction

def isPush : Instruction → Bool
  | push _ _ => true
  | _ => false

/-- Whether a line of a listing pushes a number. -/
def isPushLine (line : String) : Bool := line.toList.take 5 == "\tpush".toList

/-- Whether a line with an opcode in its column pushes a number. -/
def isPushOpcode (opcode : String) : Bool :=
  (opcode.toList ++ List.replicate (opcodeWidth - opcode.length) ' ').take 4 == "push".toList

theorem isPushLine_text_eq_isPushOpcode (instruction : Instruction) :
    isPushLine instruction.text = isPushOpcode instruction.opcode := by
  have hwidth : 4 ≤ (instruction.opcode.toList ++
      List.replicate (opcodeWidth - instruction.opcode.length) ' ').length := by
    rw [List.length_append, String.length_toList, List.length_replicate, opcodeWidth]
    omega
  rw [isPushLine, toList_text, List.take_succ_cons, List.take_append_of_le_length hwidth]
  rfl

theorem isPushLine_text (instruction : Instruction) : isPushLine instruction.text = instruction.isPush := by
  rw [isPushLine_text_eq_isPushOpcode]
  cases instruction with
  | push value kind =>
      show isPushOpcode _ = true
      simp only [opcode]
      cases kind <;> decide
  | load kind name =>
      show isPushOpcode _ = false
      simp only [opcode]
      cases kind <;> decide
  | perform code arity =>
      show isPushOpcode _ = false
      rw [opcode]
      cases Operator.ofCode? code with
      | none => decide
      | some operator => cases operator <;> decide

end Instruction

/-- The instruction that pushes a number of a kind. -/
def Instruction.ofNumber (number : Binary64 × NumberKind) : Instruction := .push number.1 number.2

theorem Node.filter_isPush_instructions (root : Node) :
    root.instructions.filter Instruction.isPush = root.numbers.map .ofNumber := by
  induction root using induction_on_operands with
  | number value kind => rfl
  | identifier kind name => rfl
  | operation code operands height ih =>
      have hoperands : (operandsInstructions operands).filter Instruction.isPush =
          (operandsNumbers operands).map .ofNumber := by
        induction operands with
        | nil => rfl
        | cons operand operands ihOperands =>
            rw [List.forall_mem_cons] at ih
            rw [operandsInstructions, operandsNumbers, List.filter_append, List.map_append, ih.1, ihOperands ih.2]
      rw [instructions, numbers, List.filter_append, hoperands]
      exact List.append_nil _

/-- The lines of a listing below its heading that push numbers. -/
def Listing.pushLines (unit : String) (root : Node) : List String :=
  ((Listing.lines unit root).drop 4).filter Instruction.isPushLine

theorem Listing.pushLines_eq (unit : String) (root : Node) :
    pushLines unit root = root.numbers.map fun number => (Instruction.ofNumber number).text := by
  have hreturn : Instruction.isPushLine "\tret" = false := by decide
  have hbody : (Listing.lines unit root).drop 4 = root.instructions.map Instruction.text ++ ["\tret"] := rfl
  have hlines : Instruction.isPushLine ∘ Instruction.text = Instruction.isPush := funext Instruction.isPushLine_text
  rw [pushLines, hbody, List.filter_append, List.filter_cons_of_neg (Bool.eq_false_iff.1 hreturn), List.filter_nil,
    List.append_nil, List.filter_map, hlines, root.filter_isPush_instructions, List.map_map]
  rfl

/-! ### Numbers that keep the kind of their value -/

/-- Whether the numbers of a tree keep the kind of their value, and are written by it. -/
structure Node.NumbersFit (root : Node) : Prop where
  /-- A number is an integer exactly if it is finite and an integer of 32 bits. -/
  kind (value : Binary64) (kind : NumberKind) (h : (number value kind).Within root) :
    kind = .integer ↔ value.isFinite = true ∧ ∃ i : ℤ, IsWord i ∧ value.value = i
  mem_numbers (value : Binary64) (kind : NumberKind) : (value, kind) ∈ root.numbers ↔ (number value kind).Within root
  /-- The lines that push numbers are those of the numbers of the tree, from left to right. -/
  lines (unit : String) :
    List.Forall₂ (fun number line => NumberLine number.1 number.2 line) root.numbers (Listing.pushLines unit root)

theorem Node.fits_of_sound {root : Node} (h : root.Sound) : root.NumbersFit := by
  have hkind (value : Binary64) (kind : NumberKind) (hwithin : (number value kind).Within root) : kind = .of value :=
    h _ hwithin
  refine ⟨fun value kind hwithin => ?_, fun value kind => mem_numbers, fun unit => ?_⟩
  · rw [hkind value kind hwithin]
    exact NumberKind.of_eq_integer_iff
  · rw [Listing.pushLines_eq, List.forall₂_map_right_iff, List.forall₂_same]
    rintro ⟨value, kind⟩ hmem
    rw [hkind value kind (mem_numbers.1 hmem)]
    exact numberLine_of value

/-- A tree that the parser gives is sound, since no name in it is empty. -/
theorem Parser.sound_of_parse {start : Span} {tokens : List (Spanned Token)} {traced : Bool} {log : Log} {node : Node}
    (h : (parse start tokens traced log).1 = .ok node) : node.Sound := by
  have hnamed := named_of_parse h
  obtain ⟨sentence, htokens, -, rfl, -⟩ := exists_sentence_of_parse hnamed h
  refine sentence.holds_tree (fun operator operands => Node.Sound.operation operator.code) fun token hmem => ?_
  rw [htokens, valuesOf, List.mem_map] at hmem
  obtain ⟨spanned, hmem, rfl⟩ := hmem
  have htoken := hnamed spanned hmem
  cases hvalue : spanned.value with
  | number value => exact .ofNumber value
  | identifier name =>
      rw [hvalue] at htoken
      exact fun kind => .identifier kind htoken
  | keyword keyword => trivial
  | symbol symbol => trivial

theorem Parser.parse_of_engine {traced : Bool} {start : Span} {scan : Scan} {node : Node}
    (h : (engine traced start scan).1 = .ok node) :
    ∃ (tokens : List (Spanned Token)) (log : Log), (parse start tokens traced log).1 = .ok node := by
  rw [engine] at h
  split at h
  · cases h
  · exact ⟨_, _, ok_of_mapError h⟩

/-- **Numbers keep the kind of their value, and a listing writes them by it.** Whatever is called for, the numbers of all
trees do, and a number has the value that it has been given last. So do the numbers of every tree that the engine gives,
whatever it is given to scan. -/
theorem lines_of_numbers (calls : List Node.Call) :
    (∀ root ∈ Node.Call.afterAll [] calls, root.NumbersFit) ∧
      (∀ place value kind, (Node.Call.afterAll [] calls)[place]? = some (Node.number value kind) →
        ∀ later : List Node.Call, (Node.Call.afterAll (Node.Call.afterAll [] calls) later)[place]? =
          some (Node.ofNumber (Node.Call.valueAfter place value later))) ∧
      ∀ traced start scan root, (Parser.engine traced start scan).1 = .ok root → root.NumbersFit := by
  have hsound : ∀ node ∈ Node.Call.afterAll [] calls, node.Sound :=
    Node.sound_afterAll (fun _ hmem => absurd hmem List.not_mem_nil) calls
  refine ⟨fun root hroot => Node.fits_of_sound (hsound root hroot), fun place value kind hnode later => ?_,
    fun traced start scan root hengine => ?_⟩
  · have hkind : kind = .of value := hsound _ (List.mem_of_getElem? hnode) _ .root
    rw [hkind] at hnode
    exact Node.number_afterAll hnode later
  · obtain ⟨tokens, log, hparse⟩ := Parser.parse_of_engine hengine
    exact Node.fits_of_sound (Parser.sound_of_parse hparse)

/-- The number one half, a double, becomes the negative zero, which is an integer. -/
theorem lines_of_numbers_replaced :
    let half : Node := .number ⟨0x3fe0000000000000⟩ .double
    let zero : Node := .number ⟨0x8000000000000000⟩ .integer
    Node.Call.afterAll [] [.number ⟨0x3fe0000000000000⟩] = [half] ∧
      (Node.Call.afterAll [half] [.replaceNumber 0 ⟨0x8000000000000000⟩])[0]? = some zero ∧
      Listing.pushLines "f" zero = ["\tpushi   -0"] := by
  intro half zero
  have hhalf : Node.ofNumber ⟨0x3fe0000000000000⟩ = half := congrArg (Node.number _) (by decide +kernel)
  have hzero : Node.ofNumber ⟨0x8000000000000000⟩ = zero := congrArg (Node.number _) (by decide +kernel)
  have hnodes : Node.Call.afterAll [] [.number ⟨0x3fe0000000000000⟩] = [half] := by
    rw [← hhalf]
    rfl
  have hplace : (Node.Call.afterAll [] [.number ⟨0x3fe0000000000000⟩])[0]? = some half := by rw [hnodes, List.getElem?_cons_zero]
  have hreplaced := (lines_of_numbers [.number ⟨0x3fe0000000000000⟩]).2.1 0 _ _ hplace
    [.replaceNumber 0 ⟨0x8000000000000000⟩]
  rw [hnodes] at hreplaced
  exact ⟨hnodes, hreplaced.trans (congrArg some hzero), by decide +kernel⟩

end FormulaCompiler
