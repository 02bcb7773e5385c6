/-
The words that the disassembler has a text for.

A text is there when a `sprintf` was reached, and it was printed into the
buffer, which has 64 bytes for it and the zero behind it. Each row fits
(`fits_row`), whatever the operands are; what remains are the tables of
names, which are shorter than the field that selects from them, and the
`switch` statements without a `default`.

The two fail in different ways. A name outside of its table is an
exception, and nobody catches it; a `switch` without a label returns the
buffer with whatever was in it. `Outcome` keeps the three cases apart,
and `outcome_generate` goes once through the function to tell which one
a word is.
-/
import T89Emu.Elf.Proofs.Operation

namespace T89Emu.ElfParser

open Text

-- ============================================================= the buffer

/-- The size of `instructionStr`. -/
def bufferSize : Nat := 64

/-- A text was printed, and the buffer holds it and its zero. -/
def Fits (listed : Except Unprinted String) : Prop :=
  ∃ text, listed = .ok text ∧ text.length < bufferSize

/-- A text that is short enough fits. -/
theorem fits_ok {text : String} (h : text.length < bufferSize) :
    Fits (.ok text) :=
  ⟨text, rfl, h⟩

/-- What was not printed does not. -/
theorem not_fits_error (e : Unprinted) : ¬ Fits (.error e) := by
  rintro ⟨_, ⟨⟩, -⟩

-- ============================================================= the fields

/-- `zero` is the longest name of a register. -/
theorem length_registerName (reg : BitVec 5) :
    (registerName reg).length ≤ 4 := by
  revert reg
  decide

/-- No CSR has a name longer than this, nor has an unknown one. -/
theorem length_getCsrName (csrAddr : U32) :
    (getCsrName csrAddr).length ≤ 10 := by
  unfold getCsrName
  cases h : csrNames.lookup csrAddr with
  | none => decide
  | some name =>
      have hall : ∀ p ∈ csrNames, p.2.length ≤ 10 := by decide
      exact hall _ (mem_csrNames h)

/-- `%x` of a word. -/
theorem length_hex_word (v : U32) : (hex v.toNat).length ≤ 8 :=
  length_hex (by decide) v.isLt

/-- `%d` of a word: ten digits and a sign. -/
theorem length_decimal_word (v : U32) : (decimal v.toInt).length ≤ 11 := by
  have hlow := v.le_toInt
  have hhigh := v.toInt_lt
  exact length_decimal (k := 10) (by decide) (by omega)

/-- Rows of few short fields fit. -/
theorem fits_row {name : String} {fields : List String}
    (hname : name.length ≤ 8)
    (hfields : (fields.map (·.length + 1)).sum ≤ 40) :
    (row 8 name fields).length < bufferSize := by
  have hrow := length_row_le hname fields
  unfold bufferSize
  omega

-- ========================================================== the formats

/-- LUI and AUIPC: two fields. -/
theorem formatUpper_fits {name : String} (hname : name.length ≤ 8)
    (rd : BitVec 5) (immediate : U32) :
    (formatUpper name rd immediate).length < bufferSize := by
  have hrd := length_registerName rd
  have himm := length_hex_word immediate
  refine fits_row hname ?_
  simp only [List.map_cons, List.map_nil, List.sum_cons, List.sum_nil,
    String.length_append]
  have hprefix : "0x".length = 2 := rfl
  omega

/-- JAL: two fields. -/
theorem formatJump_fits {name : String} (hname : name.length ≤ 8)
    (rd : BitVec 5) (target : U32) :
    (formatJump name rd target).length < bufferSize := by
  have hrd := length_registerName rd
  have htarget := length_hex_word target
  refine fits_row hname ?_
  simp only [List.map_cons, List.map_nil, List.sum_cons, List.sum_nil]
  omega

/-- Loads, stores and JALR: the register, and the displacement with the base
in parentheses. -/
theorem formatMemory_fits {name : String} (hname : name.length ≤ 8)
    (reg : BitVec 5) (immediate : U32) (rs1 : BitVec 5) :
    (formatMemory name reg immediate rs1).length < bufferSize := by
  have hreg := length_registerName reg
  have himm := length_decimal_word immediate
  have hrs1 := length_registerName rs1
  refine fits_row hname ?_
  simp only [List.map_cons, List.map_nil, List.sum_cons, List.sum_nil,
    String.length_append]
  have hopen : "(".length = 1 := rfl
  have hclose : ")".length = 1 := rfl
  omega

/-- Branches: two registers and the target. -/
theorem formatBranch_fits {name : String} (hname : name.length ≤ 8)
    (rs1 rs2 : BitVec 5) (target : U32) :
    (formatBranch name rs1 rs2 target).length < bufferSize := by
  have hrs1 := length_registerName rs1
  have hrs2 := length_registerName rs2
  have htarget := length_hex_word target
  refine fits_row hname ?_
  simp only [List.map_cons, List.map_nil, List.sum_cons, List.sum_nil]
  omega

/-- Shifts by an immediate. -/
theorem formatShift_fits {name : String} (hname : name.length ≤ 8)
    (rd rs1 : BitVec 5) (immediate : U32) :
    (formatShift name rd rs1 immediate).length < bufferSize := by
  have hrd := length_registerName rd
  have hrs1 := length_registerName rs1
  have himm := length_hex_word immediate
  refine fits_row hname ?_
  simp only [List.map_cons, List.map_nil, List.sum_cons, List.sum_nil,
    String.length_append]
  have hprefix : "0x".length = 2 := rfl
  omega

/-- The other instructions with an immediate. -/
theorem formatImmediate_fits {name : String} (hname : name.length ≤ 8)
    (rd rs1 : BitVec 5) (immediate : U32) :
    (formatImmediate name rd rs1 immediate).length < bufferSize := by
  have hrd := length_registerName rd
  have hrs1 := length_registerName rs1
  have himm := length_decimal_word immediate
  refine fits_row hname ?_
  simp only [List.map_cons, List.map_nil, List.sum_cons, List.sum_nil]
  omega

/-- Three registers. -/
theorem formatRegister_fits {name : String} (hname : name.length ≤ 8)
    (rd rs1 rs2 : BitVec 5) :
    (formatRegister name rd rs1 rs2).length < bufferSize := by
  have hrd := length_registerName rd
  have hrs1 := length_registerName rs1
  have hrs2 := length_registerName rs2
  refine fits_row hname ?_
  simp only [List.map_cons, List.map_nil, List.sum_cons, List.sum_nil]
  omega

/-- A CSR between two registers. -/
theorem formatCsr_fits {name : String} (hname : name.length ≤ 8)
    (rd : BitVec 5) (csrAddr : U32) (rs1 : BitVec 5) :
    (formatCsr name rd csrAddr rs1).length < bufferSize := by
  have hrd := length_registerName rd
  have hcsr := length_getCsrName csrAddr
  have hrs1 := length_registerName rs1
  refine fits_row hname ?_
  simp only [List.map_cons, List.map_nil, List.sum_cons, List.sum_nil]
  omega

-- ================================================ statement vocabulary

/-- There is a text for the word: the tables have a name for its `funct3`,
and the inner `switch` statements a label for its `funct7` or its
immediate. -/
def Listed (w : U32) : Prop :=
  match opcodeOf w with
  | .LOAD => (funct3 w).toNat < loadInstructions.length
  | .STORE => (funct3 w).toNat < storeInstructions.length
  | .ITYPE => funct3 w = 5#3 → funct7 w = 32#7 ∨ funct7 w = 0#7
  | .RTYPE => funct3 w = 0#3 ∨ funct3 w = 5#3 →
      funct7 w = 0#7 ∨ funct7 w = 32#7
  | .PRIV =>
      if funct3 w = 0#3 then
        ImmediateGenerator.getImmediate w = MRET_IMM
          ∨ ImmediateGenerator.getImmediate w = ECALL_IMM
      else (funct3 w).toNat < csrInstructions.length
  | _ => True

/-- No table is asked for a name that it does not have. -/
def HasName (w : U32) : Prop :=
  match opcodeOf w with
  | .LOAD => (funct3 w).toNat < loadInstructions.length
  | .STORE => (funct3 w).toNat < storeInstructions.length
  | .PRIV => (funct3 w).toNat < csrInstructions.length
  | _ => True

/-- The three ways a listing can go, with what holds in each of them. -/
inductive Outcome (named listed : Prop) : Except Unprinted String → Prop
  | written {text : String} (hnamed : named) (hlisted : listed)
      (hfits : text.length < bufferSize) : Outcome named listed (.ok text)
  | unwritten (hnamed : named) (hlisted : ¬ listed) :
      Outcome named listed (.error .unwritten)
  | outOfRange (hnamed : ¬ named) (hlisted : ¬ listed) :
      Outcome named listed (.error .outOfRange)

-- ============================================================= one format

section

variable {named listed : Prop} {r : Except Unprinted String}

/-- What was listed was printed. -/
theorem Outcome.fits_iff (h : Outcome named listed r) :
    Fits r ↔ listed := by
  cases h with
  | written hnamed hlisted hfits =>
      exact iff_of_true (fits_ok hfits) hlisted
  | unwritten hnamed hlisted =>
      exact iff_of_false (not_fits_error _) hlisted
  | outOfRange hnamed hlisted =>
      exact iff_of_false (not_fits_error _) hlisted

/-- A row under a name from a table: `at` throws where the table is too
short. -/
theorem outcome_nameAt {names : List String} {funct3 : BitVec 3}
    {format : String → String} (hnames : ∀ name ∈ names, name.length ≤ 8)
    (hformat : ∀ {name : String}, name.length ≤ 8 →
      (format name).length < bufferSize)
    (hnamed : named ↔ funct3.toNat < names.length)
    (hlisted : listed ↔ funct3.toNat < names.length) :
    Outcome named listed
      (nameAt names funct3 >>= fun name => .ok (format name)) := by
  unfold nameAt
  split
  · next name hname =>
    have hmem := List.mem_of_getElem? hname
    obtain ⟨hlt, -⟩ := List.getElem?_eq_some_iff.1 hname
    exact .written (hnamed.2 hlt) (hlisted.2 hlt)
      (hformat (hnames name hmem))
  · next hnone =>
    have hge : ¬ funct3.toNat < names.length :=
      Nat.not_lt.2 (List.getElem?_eq_none_iff.1 hnone)
    exact .outOfRange (mt hnamed.1 hge) (mt hlisted.1 hge)

/-- The inner `switch` of a register instruction: two labels and no
`default`. -/
theorem outcome_switch {funct7 : BitVec 7} {plain other : String}
    (hplain : plain.length < bufferSize)
    (hother : other.length < bufferSize) :
    Outcome True (funct7 = 0#7 ∨ funct7 = 32#7) (match funct7 with
      | 0b0000000 => .ok plain
      | 0b0100000 => .ok other
      | _ => .error .unwritten) := by
  split
  · exact .written trivial (.inl rfl) hplain
  · exact .written trivial (.inr rfl) hother
  · next h0 h32 => exact .unwritten trivial fun h => h.elim h0 h32

/-- Where the condition on the `switch` is asked for only under some
`funct3`, and it is this one. -/
theorem Outcome.asked {asked : Prop} (h : Outcome named listed r)
    (hasked : asked) : Outcome named (asked → listed) r := by
  rwa [propext (imp_iff_right hasked)]

end

-- ============================================================= the result

/-- Once through the function: each path is one of the formats, and the
table or the `switch` on it decides how it ends. -/
theorem outcome_generate (entry : DisassembledEntry) :
    Outcome (HasName entry.instruction) (Listed entry.instruction)
      (generateInstructionStr entry) := by
  have himmediate : ∀ {name : String}, name.length ≤ 8 →
      (formatImmediate name (rd entry.instruction) (rs1 entry.instruction)
        (ImmediateGenerator.getImmediate entry.instruction)).length
        < bufferSize := fun h => formatImmediate_fits h _ _ _
  have hregister : ∀ {name : String}, name.length ≤ 8 →
      (formatRegister name (rd entry.instruction) (rs1 entry.instruction)
        (rs2 entry.instruction)).length < bufferSize :=
    fun h => formatRegister_fits h _ _ _
  unfold generateInstructionStr HasName Listed
  dsimp only
  cases opcodeOf entry.instruction with
  | LUI => exact .written trivial trivial (formatUpper_fits (by decide) _ _)
  | AUIPC =>
      exact .written trivial trivial (formatUpper_fits (by decide) _ _)
  | JAL => exact .written trivial trivial (formatJump_fits (by decide) _ _)
  | JALR =>
      exact .written trivial trivial (formatMemory_fits (by decide) _ _ _)
  | BTYPE =>
      -- the table has a name for every value of the field
      have hall : True ↔ (funct3 entry.instruction).toNat
          < branchInstructions.length :=
        iff_of_true trivial (funct3 entry.instruction).isLt
      exact outcome_nameAt (by decide)
        (fun h => formatBranch_fits h _ _ _) hall hall
  | LOAD =>
      exact outcome_nameAt (by decide)
        (fun h => formatMemory_fits h _ _ _) .rfl .rfl
  | STORE =>
      exact outcome_nameAt (by decide)
        (fun h => formatMemory_fits h _ _ _) .rfl .rfl
  | ITYPE =>
      dsimp only
      split
      · next h5 =>
        -- the labels of this `switch` stand the other way round
        split
        · next h7 =>
          exact .written trivial (fun _ => .inl h7)
            (formatShift_fits (by decide) _ _ _)
        · next h7 =>
          exact .written trivial (fun _ => .inr h7)
            (formatShift_fits (by decide) _ _ _)
        · next h32 h0 =>
          exact .unwritten trivial fun h => (h h5).elim h32 h0
      · next h1 =>
        exact .written trivial (fun h5 => by simp [h1] at h5)
          (formatShift_fits (by decide) _ _ _)
      · next h5 _ =>
        have hlt := (funct3 entry.instruction).isLt
        exact outcome_nameAt (by decide) himmediate
          (iff_of_true trivial hlt)
          (iff_of_true (fun h => absurd h h5) hlt)
  | RTYPE =>
      dsimp only
      split
      · next h0 =>
        exact (outcome_switch (hregister (by decide))
          (hregister (by decide))).asked (.inl h0)
      · next h5 =>
        exact (outcome_switch (hregister (by decide))
          (hregister (by decide))).asked (.inr h5)
      · next h0 h5 =>
        have hlt := (funct3 entry.instruction).isLt
        exact outcome_nameAt (by decide) hregister (iff_of_true trivial hlt)
          (iff_of_true (fun h => (h.elim h0 h5).elim) hlt)
  | PRIV =>
      dsimp only
      split
      · next h0 =>
        have hnamed : (funct3 entry.instruction).toNat
            < csrInstructions.length := by
          rw [h0]
          decide
        split
        · split
          · next hmret => exact .written hnamed (.inl hmret) (by decide)
          · next hmret =>
            split
            · next hecall =>
              exact .written hnamed (.inr hecall) (by decide)
            · next hecall =>
              exact .unwritten hnamed fun h => h.elim hmret hecall
        · next hne => exact absurd h0 hne
      · next h0 =>
        split
        · next heq => exact absurd heq h0
        · exact outcome_nameAt (by decide) (fun h => formatCsr_fits h _ _ _)
            .rfl .rfl
  | other =>
      refine .written trivial trivial ?_
      rw [length_hexPadded (k := 8) (by decide) entry.instruction.isLt
        (Nat.le_refl 8)]
      decide

/-- The disassembler has a text for exactly the words that are listed. -/
theorem text_written_iff (entry : DisassembledEntry) :
    Fits (generateInstructionStr entry) ↔ Listed entry.instruction :=
  (outcome_generate entry).fits_iff

/-- `mul a0, a0, a1` falls through the inner `switch`, and for
`csrwi mstatus, 0` the table is too short. -/
theorem mul_not_written :
    generateInstructionStr ⟨0x80000000, 0x02b50533⟩ = .error .unwritten
      ∧ generateInstructionStr ⟨0x80000000, 0x30005073⟩
        = .error .outOfRange
      ∧ ¬ ∀ entry, Fits (generateInstructionStr entry) := by
  have hmul : generateInstructionStr ⟨0x80000000, 0x02b50533⟩
      = .error .unwritten := by decide +kernel
  refine ⟨hmul, by decide +kernel, fun hall => ?_⟩
  have hfits := hall ⟨0x80000000, 0x02b50533⟩
  rw [hmul] at hfits
  exact not_fits_error _ hfits

end T89Emu.ElfParser
