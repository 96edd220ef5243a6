import FormulaCompiler.Proofs.Listing.Numbers

/-!
# Equality of trees

Trees are equal just if they `Agree` in all that can be seen of them (`beq_iff_agree`). The comparison looks at the kinds
and the heights that trees keep as well; but those of sound trees are right, so neither tells trees apart that agree. Main statement: what the
equality of built trees is like, and what equal trees have in common (`equality_of_built`).
-/

namespace FormulaCompiler

namespace Node

/-- Whether two trees have one shape, with the same operators and kinds, equal names without regard to case and equal
numbers. The kinds that numbers keep and the heights that operations keep are left out. -/
inductive Agree : Node → Node → Prop where
  | number {x y : Binary64} (kind kind' : NumberKind) (h : x.Equal y) : Agree (number x kind) (number y kind')
  | identifier (kind : IdentifierKind) {a b : Identifier} (h : a.key = b.key) : Agree (identifier kind a) (identifier kind b)
  | operation (code : OperatorCode) {as bs : List Node} (height height' : Nat) (hlength : as.length = bs.length)
      (hoperands : ∀ {a b}, (a, b) ∈ as.zip bs → Agree a b) : Agree (operation code as height) (operation code bs height')

variable {a b c child other root : Node} {as bs cs : List Node} {code : OperatorCode} {height height' : Nat}

theorem same_number (x y : Binary64) (kind kind' : NumberKind) :
    same (number x kind) (number y kind') = true ↔ x.Equal y ∧ kind = kind' := by
  rw [same, Bool.and_eq_true, Binary64.beq_iff, beq_iff_eq]

theorem same_identifier (kind kind' : IdentifierKind) (name name' : Identifier) :
    same (identifier kind name) (identifier kind' name') = true ↔ kind = kind' ∧ name.key = name'.key := by
  have hkey : (name == name') = true ↔ name.key = name'.key := by
    show (name.key == name'.key) = true ↔ _
    exact beq_iff_eq
  rw [same, Bool.and_eq_true, beq_iff_eq, hkey]

theorem allSame_iff : allSame as bs = true ↔ List.Forall₂ (fun a b => same a b = true) as bs := by
  induction as generalizing bs with
  | nil => cases bs <;> simp [allSame]
  | cons a as ih => cases bs <;> simp [allSame, ih]

theorem same_operation (code code' : OperatorCode) (height height' : Nat) :
    same (operation code as height) (operation code' bs height') = true ↔
      code = code' ∧ height = height' ∧ List.Forall₂ (fun a b => same a b = true) as bs := by
  rw [same, Bool.and_eq_true, Bool.and_eq_true, beq_iff_eq, beq_iff_eq, allSame_iff, and_assoc]

theorem height_eq_of_same (h : same a b = true) : a.height = b.height := by
  cases a with
  | operation code as height =>
      cases b with
      | operation code' bs height' => exact ((same_operation _ _ _ _).1 h).2.1
      | _ => simp [same] at h
  | _ =>
      cases b with
      | operation code bs height => simp [same] at h
      | _ => rfl

/-! ### Equality and agreement -/

theorem agree_of_same (h : same a b = true) : a.Agree b := by
  induction a using induction_on_operands generalizing b with
  | number x kind =>
      cases b with
      | number y kind' => exact .number kind kind' ((same_number x y kind kind').1 h).1
      | _ => simp [same] at h
  | identifier kind name =>
      cases b with
      | identifier kind' name' =>
          obtain ⟨rfl, hkey⟩ := (same_identifier _ _ _ _).1 h
          exact .identifier kind hkey
      | _ => simp [same] at h
  | operation code as height ih =>
      cases b with
      | operation code' bs height' =>
          obtain ⟨rfl, -, hoperands⟩ := (same_operation _ _ _ _).1 h
          obtain ⟨hlength, hzip⟩ := List.forall₂_iff_zip.1 hoperands
          exact .operation code height height' hlength fun hmem => ih _ (List.of_mem_zip hmem).1 (hzip hmem)
      | _ => simp [same] at h

/-- Equal numbers are of one kind, and operations over equal operands are of one height. -/
theorem same_of_agree (h : a.Agree b) (ha : a.Sound) (hb : b.Sound) : same a b = true := by
  induction h with
  | number kind kind' h =>
      have hkind : kind = .of _ := ha _ .root
      have hkind' : kind' = .of _ := hb _ .root
      rw [same_number, hkind, hkind']
      exact ⟨h, NumberKind.of_eq_of_equal h⟩
  | identifier kind h => exact (same_identifier _ _ _ _).2 ⟨rfl, h⟩
  | @operation code as bs height height' hlength _ ih =>
      have hoperands : List.Forall₂ (fun a b => same a b = true) as bs :=
        List.forall₂_iff_zip.2 ⟨hlength, fun hmem =>
          ih hmem (ha.of_mem _ (List.of_mem_zip hmem).1) (hb.of_mem _ (List.of_mem_zip hmem).2)⟩
      rw [same_operation, ha.height_eq, hb.height_eq]
      exact ⟨rfl, heightOver_congr (hoperands.imp fun _ _ => height_eq_of_same), hoperands⟩

/-- **Sound trees are equal just if they agree.** -/
theorem beq_iff_agree (ha : a.Sound) (hb : b.Sound) : (a == b) = true ↔ a.Agree b :=
  ⟨agree_of_same, fun h => same_of_agree h ha hb⟩

theorem Agree.of_operands (h : List.Forall₂ Agree as bs) (code : OperatorCode) (height height' : Nat) :
    (Node.operation code as height).Agree (Node.operation code bs height') := by
  obtain ⟨hlength, hzip⟩ := List.forall₂_iff_zip.1 h
  exact .operation code height height' hlength hzip

theorem Agree.symm (h : a.Agree b) : b.Agree a := by
  induction h with
  | number kind kind' h => exact .number kind' kind h.symm
  | identifier kind h => exact .identifier kind h.symm
  | @operation code as bs height height' hlength _ ih =>
      have hoperands : List.Forall₂ (fun a b => Agree b a) as bs := List.forall₂_iff_zip.2 ⟨hlength, ih⟩
      exact .of_operands hoperands.flip code height' height

theorem forall₂_agree_trans (h : List.Forall₂ (fun a b => ∀ {c}, Agree b c → Agree a c) as bs)
    (h' : List.Forall₂ Agree bs cs) : List.Forall₂ Agree as cs := by
  induction h generalizing cs with
  | nil =>
      cases h'
      exact .nil
  | cons hfirst _ ih =>
      cases h' with
      | cons hagree hmore => exact .cons (hfirst hagree) (ih hmore)

theorem Agree.trans (h : a.Agree b) (h' : b.Agree c) : a.Agree c := by
  induction h generalizing c with
  | number kind kind' h =>
      cases h' with
      | number _ kind'' h' => exact .number kind kind'' (h.trans h')
  | identifier kind h =>
      cases h' with
      | identifier kind h' => exact .identifier kind (h.trans h')
  | @operation code as bs height height' hlength _ ih =>
      cases h' with
      | @operation _ _ cs _ height'' hlength' hoperands' =>
          have hfirst : List.Forall₂ (fun a b => ∀ {c}, Agree b c → Agree a c) as bs :=
            List.forall₂_iff_zip.2 ⟨hlength, fun hmem => ih hmem⟩
          have hsecond : List.Forall₂ Agree bs cs := List.forall₂_iff_zip.2 ⟨hlength', hoperands'⟩
          exact .of_operands (forall₂_agree_trans hfirst hsecond) code height height''

/-- **Only a tree with a NaN in it is not equal to itself.** -/
theorem beq_self_iff (root : Node) :
    (root == root) = true ↔ ∀ x kind, (number x kind).Within root → x.isNaN = false := by
  show same root root = true ↔ _
  simp only [← mem_numbers]
  induction root using induction_on_operands with
  | number x kind =>
      rw [same_number, Binary64.equal_self_iff, numbers]
      simp
  | identifier kind name => simp [same_identifier, numbers]
  | operation code operands height ih =>
      rw [same_operation, List.forall₂_same, numbers]
      simp only [true_and, mem_operandsNumbers]
      constructor
      · rintro h x kind ⟨operand, hmem, hx⟩
        exact (ih operand hmem).1 (h operand hmem) x kind hx
      · intro h operand hmem
        exact (ih operand hmem).2 fun x kind hx => h x kind ⟨operand, hmem, hx⟩

/-- **Equal operations stay equal when equal operands are appended.** -/
theorem exists_append_of_same (h : same a b = true) (hchild : same child other = true) (hshape : a.shape = .operation) :
    ∃ a' b', append (some child) a = .ok () a' ∧ append (some other) b = .ok () b' ∧ same a' b' = true := by
  cases a with
  | operation code as height =>
      cases b with
      | operation code' bs height' =>
          obtain ⟨rfl, rfl, hoperands⟩ := (same_operation _ _ _ _).1 h
          refine ⟨_, _, rfl, rfl, (same_operation _ _ _ _).2 ⟨rfl, ?_, ?_⟩⟩
          · rw [height_eq_of_same hchild]
            rfl
          · exact List.rel_append hoperands (.cons hchild .nil)
      | _ => simp [same] at h
  | _ => cases hshape

end Node

/-! ### Listings -/

/-- Whether two lines of a listing are the same, or load names that differ in case alone, or push zeros. -/
inductive SameLine : String → String → Prop where
  | same (line : String) : SameLine line line
  | name {column : String} (hcolumn : column ∈ ["\tloadc   ", "\tload    ", "\tref     "]) {a b : Identifier}
      (h : a.key = b.key) : SameLine (column ++ a.spelling) (column ++ b.spelling)
  | zero {a b : String} (ha : a ∈ ["0", "-0"]) (hb : b ∈ ["0", "-0"]) : SameLine ("\tpushi   " ++ a) ("\tpushi   " ++ b)

theorem sameLine_load (kind : IdentifierKind) {a b : Identifier} (h : a.key = b.key) :
    SameLine (Instruction.load kind a).text (Instruction.load kind b).text := by
  have hline (opcode column : String) (hmem : column ∈ ["\tloadc   ", "\tload    ", "\tref     "])
      (hopcode : ∀ name, (Instruction.load kind name).opcode = opcode)
      (hcolumn : "\t" ++ opcode ++ String.ofList (List.replicate (Instruction.opcodeWidth - opcode.length) ' ') = column) :
      SameLine (Instruction.load kind a).text (Instruction.load kind b).text := by
    rw [Instruction.text_of_opcode (hopcode a) hcolumn, Instruction.text_of_opcode (hopcode b) hcolumn]
    exact .name hmem h
  cases kind
  · exact hline "loadc" "\tloadc   " (by decide) (fun _ => rfl) (by decide)
  · exact hline "load" "\tload    " (by decide) (fun _ => rfl) (by decide)
  · exact hline "ref" "\tref     " (by decide) (fun _ => rfl) (by decide)

theorem text_push_of_zero {x : Binary64} (h : x.rank = 0) :
    ∃ zero ∈ ["0", "-0"], (Instruction.push x (.of x)).text = "\tpushi   " ++ zero := by
  have hfinite : x.isFinite = true := by
    rw [Binary64.isFinite, h]
    decide
  have hvalue : x.value = (0 : ℤ) := by
    rw [Binary64.value_eq_iff_signedUnits, Binary64.signedUnits, Binary64.units_eq_zero_iff.2 h, Int.natCast_zero,
      Int.neg_zero, ite_self, Int.zero_mul]
  have hword : IsWord 0 := by decide
  rw [NumberKind.of_eq_integer_iff.2 ⟨hfinite, 0, hword, hvalue⟩, text_push_integer,
    Binary64.text_of_isWord hfinite hword hvalue]
  split
  · exact ⟨"-0", by decide, rfl⟩
  · exact ⟨"0", by decide, rfl⟩

theorem sameLine_push {x y : Binary64} (h : x.Equal y) :
    SameLine (Instruction.push x (.of x)).text (Instruction.push y (.of y)).text := by
  obtain ⟨-, -, rfl | ⟨hx, hy⟩⟩ := Binary64.sameNumber_iff.1 (Binary64.beq_iff.2 h)
  · exact .same _
  · obtain ⟨zero, hzero, hline⟩ := text_push_of_zero hx
    obtain ⟨zero', hzero', hline'⟩ := text_push_of_zero hy
    rw [hline, hline']
    exact .zero hzero hzero'

namespace Node

variable {a b c child other : Node} {as bs : List Node}

theorem sameLines_operands (h : List.Forall₂ (fun a b =>
      List.Forall₂ (fun i j => SameLine (Instruction.text i) (Instruction.text j)) a.instructions b.instructions) as bs) :
    List.Forall₂ (fun i j => SameLine (Instruction.text i) (Instruction.text j)) (operandsInstructions as)
      (operandsInstructions bs) := by
  induction h with
  | nil => exact .nil
  | cons hfirst _ ih => exact List.rel_append hfirst ih

theorem Agree.sameLines_instructions (h : a.Agree b) (ha : a.Sound) (hb : b.Sound) :
    List.Forall₂ (fun i j => SameLine (Instruction.text i) (Instruction.text j)) a.instructions b.instructions := by
  induction h with
  | number kind kind' h =>
      have hkind : kind = .of _ := ha _ .root
      have hkind' : kind' = .of _ := hb _ .root
      rw [hkind, hkind']
      exact .cons (sameLine_push h) .nil
  | identifier kind h => exact .cons (sameLine_load kind h) .nil
  | @operation code as bs height height' hlength _ ih =>
      have hoperands := List.forall₂_iff_zip.2 ⟨hlength, fun hmem =>
        ih hmem (ha.of_mem _ (List.of_mem_zip hmem).1) (hb.of_mem _ (List.of_mem_zip hmem).2)⟩
      rw [instructions, instructions, hlength]
      exact List.rel_append (sameLines_operands hoperands) (.cons (.same _) .nil)

/-- **Sound trees that agree are listed alike, line by line.** -/
theorem Agree.sameLines (h : a.Agree b) (ha : a.Sound) (hb : b.Sound) (unit : String) :
    List.Forall₂ SameLine (Listing.lines unit a) (Listing.lines unit b) := by
  have hsame (lines : List String) : List.Forall₂ SameLine lines lines := List.forall₂_same.2 fun line _ => .same line
  have hbody : List.Forall₂ SameLine (a.instructions.map Instruction.text) (b.instructions.map Instruction.text) := by
    rw [List.forall₂_map_left_iff, List.forall₂_map_right_iff]
    exact h.sameLines_instructions ha hb
  exact List.rel_append (List.rel_append (hsame _) hbody) (hsame _)

/-! ### Built trees -/

/-- Whether calls can lead to a node. -/
def Built (node : Node) : Prop := ∃ calls, node ∈ Call.afterAll [] calls

theorem Built.sound {node : Node} (h : node.Built) : node.Sound := by
  obtain ⟨calls, hmem⟩ := h
  exact sound_afterAll (fun _ hmem => absurd hmem List.not_mem_nil) calls node hmem

/-- **The equality of built trees sees what can be seen of them and nothing else.** It is symmetric and transitive, and
only a tree with a NaN in it is not equal to itself. Trees are equal just if they agree. Equal operations stay equal when
equal operands are appended, and equal trees have listings that are the same but for the case of names and the sign of
zeros. -/
theorem equality_of_built (ha : a.Built) (hb : b.Built) (hc : c.Built) :
    ((a == b) = true → (b == a) = true) ∧
      ((a == b) = true → (b == c) = true → (a == c) = true) ∧
      ((a == a) = true ↔ ∀ x kind, (number x kind).Within a → x.isNaN = false) ∧
      ((a == b) = true ↔ a.Agree b) ∧
      ((a == b) = true → a.shape = .operation → ∀ child other : Node, (child == other) = true →
        ∃ a' b', append (some child) a = .ok () a' ∧ append (some other) b = .ok () b' ∧ (a' == b') = true) ∧
      ((a == b) = true → ∀ unit, List.Forall₂ SameLine (Listing.lines unit a) (Listing.lines unit b)) := by
  refine ⟨fun h => ?_, fun h h' => ?_, beq_self_iff a, beq_iff_agree ha.sound hb.sound, fun h hshape child other hchild => ?_,
    fun h unit => (agree_of_same h).sameLines ha.sound hb.sound unit⟩
  · exact same_of_agree (agree_of_same h).symm hb.sound ha.sound
  · exact same_of_agree ((agree_of_same h).trans (agree_of_same h')) ha.sound hc.sound
  · exact exists_append_of_same h hchild hshape

/-- Two calls of a function with a zero, of which one is written in upper case and has the negative zero. -/
theorem equality_of_built_zeros :
    let lower : Node := operation ⟨9⟩ [identifier .function ⟨"f"⟩, number ⟨0⟩ .integer] 2
    let upper : Node := operation ⟨9⟩ [identifier .function ⟨"F"⟩, number ⟨0x8000000000000000⟩ .integer] 2
    lower.Built ∧ upper.Built ∧ (lower == upper) = true ∧ lower.Agree upper ∧
      List.Forall₂ SameLine (Listing.lines "u" lower) (Listing.lines "u" upper) := by
  intro lower upper
  have hzero : ofNumber ⟨0⟩ = number ⟨0⟩ .integer := congrArg (number _) (by decide +kernel)
  have hminus : ofNumber ⟨0x8000000000000000⟩ = number ⟨0x8000000000000000⟩ .integer :=
    congrArg (number _) (by decide +kernel)
  have hlower : lower.Built := by
    refine ⟨[.operation ⟨9⟩, .identifier .function ⟨"f"⟩, .number ⟨0⟩, .append 0 1, .append 0 2], ?_⟩
    show lower ∈ [operation ⟨9⟩ [identifier .function ⟨"f"⟩, ofNumber ⟨0⟩] 2, _, _]
    rw [hzero]
    exact List.mem_cons_self
  have hupper : upper.Built := by
    refine ⟨[.operation ⟨9⟩, .identifier .function ⟨"F"⟩, .number ⟨0x8000000000000000⟩, .append 0 1, .append 0 2], ?_⟩
    show upper ∈ [operation ⟨9⟩ [identifier .function ⟨"F"⟩, ofNumber ⟨0x8000000000000000⟩] 2, _, _]
    rw [hminus]
    exact List.mem_cons_self
  have hname : Identifier.key ⟨"f"⟩ = Identifier.key ⟨"F"⟩ := by
    apply String.toList_injective
    rw [Identifier.key, Identifier.key, String.toList_map, String.toList_map]
    decide
  have hequal : Binary64.Equal ⟨0⟩ ⟨0x8000000000000000⟩ := Binary64.beq_iff.1 (by decide)
  have hsame : (lower == upper) = true :=
    (same_operation _ _ _ _).2 ⟨rfl, rfl,
      .cons ((same_identifier _ _ _ _).2 ⟨rfl, hname⟩) (.cons ((same_number _ _ _ _).2 ⟨hequal, rfl⟩) .nil)⟩
  obtain ⟨-, -, -, hagree, -, hlines⟩ := equality_of_built hlower hupper hlower
  exact ⟨hlower, hupper, hsame, hagree.1 hsame, hlines hsame "u"⟩

end Node

end FormulaCompiler
