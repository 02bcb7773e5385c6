/-
The operations that a disassembly names.

An `Operation` is what a line of assembler says: a mnemonic and its
operands. `text` is how the disassembler writes it and `run` is what it
means, in the units of the core: the ALU operation, the branch
condition, the access width, the CSR update or the kind of trap that the
mnemonic stands for, applied to the operands of the line. Neither looks
at an instruction word.

A text has one reading (`text_inj`): names of mnemonics and of registers
differ, numbers can be read back, and only the names of CSRs that the
disassembler does not know stand for more than one.
-/
import Mathlib.Tactic.Common
import T89Emu.Core.Mcu
import T89Emu.Elf.Disassembler

namespace T89Emu

open Bytes Cpp Text ElfParser

variable {L : Layout}

-- ========================================================= the mnemonics

inductive UpperOp
  | lui | auipc
  deriving DecidableEq

inductive BranchOp
  | beq | bne | blt | bge | bltu | bgeu
  deriving DecidableEq

inductive LoadOp
  | lb | lh | lw | lbu | lhu
  deriving DecidableEq

inductive StoreOp
  | sb | sh | sw
  deriving DecidableEq

inductive ShiftOp
  | slli | srli | srai
  deriving DecidableEq

inductive ImmediateOp
  | addi | slti | sltiu | xori | ori | andi
  deriving DecidableEq

inductive RegisterOp
  | add | sub | sll | slt | sltu | xor | srl | sra | or | and
  deriving DecidableEq

inductive CsrOp
  | csrrw | csrrs | csrrc
  deriving DecidableEq

def UpperOp.name : UpperOp → String
  | lui => "lui"
  | auipc => "auipc"

def BranchOp.name : BranchOp → String
  | beq => "beq"
  | bne => "bne"
  | blt => "blt"
  | bge => "bge"
  | bltu => "bltu"
  | bgeu => "bgeu"

def LoadOp.name : LoadOp → String
  | lb => "lb"
  | lh => "lh"
  | lw => "lw"
  | lbu => "lbu"
  | lhu => "lhu"

def StoreOp.name : StoreOp → String
  | sb => "sb"
  | sh => "sh"
  | sw => "sw"

def ShiftOp.name : ShiftOp → String
  | slli => "slli"
  | srli => "srli"
  | srai => "srai"

def ImmediateOp.name : ImmediateOp → String
  | addi => "addi"
  | slti => "slti"
  | sltiu => "sltiu"
  | xori => "xori"
  | ori => "ori"
  | andi => "andi"

def RegisterOp.name : RegisterOp → String
  | add => "add"
  | sub => "sub"
  | sll => "sll"
  | slt => "slt"
  | sltu => "sltu"
  | xor => "xor"
  | srl => "srl"
  | sra => "sra"
  | or => "or"
  | and => "and"

def CsrOp.name : CsrOp → String
  | csrrw => "csrrw"
  | csrrs => "csrrs"
  | csrrc => "csrrc"

-- ================================================ what they stand for

/-- The condition of a branch; the core tells the signed ones from the
sign of the difference. -/
def BranchOp.taken (A B : U32) : BranchOp → Bool
  | beq => A == B
  | bne => A != B
  | blt => (A - B).msb
  | bge => !(A - B).msb
  | bltu => decide (A < B)
  | bgeu => decide (A ≥ B)

/-- The width of an access. -/
def LoadOp.size : LoadOp → Nat
  | lb => BYTE
  | lh => HALFWORD
  | lw => WORD
  | lbu => BYTE
  | lhu => HALFWORD

def StoreOp.size : StoreOp → Nat
  | sb => BYTE
  | sh => HALFWORD
  | sw => WORD

/-- The operation of the ALU. -/
def ShiftOp.aluOp : ShiftOp → AluOp
  | slli => .SLL
  | srli => .SRL
  | srai => .SRA

def ImmediateOp.aluOp : ImmediateOp → AluOp
  | addi => .ADD
  | slti => .SLT
  | sltiu => .SLTU
  | xori => .XOR
  | ori => .OR
  | andi => .AND

def RegisterOp.aluOp : RegisterOp → AluOp
  | add => .ADD
  | sub => .SUB
  | sll => .SLL
  | slt => .SLT
  | sltu => .SLTU
  | xor => .XOR
  | srl => .SRL
  | sra => .SRA
  | or => .OR
  | and => .AND

/-- The update of a CSR, in the core's order: `rd` is written before
`rs1` is read. -/
def CsrOp.update (s : Mcu L) (rd : BitVec 5) (csrAddr : U32)
    (rs1 : BitVec 5) (m : CsrOp) : Mcu L :=
  let t := s.writeReg (s.csr.readCsr csrAddr) rd
  let old := t.csr.readCsr csrAddr
  let x := t.rf.read rs1
  match m with
  | csrrw => { t with csr := t.csr.writeCsr csrAddr x }
  | csrrs =>
      if rs1 ≠ 0#5 then
        { t with csr := t.csr.writeCsr csrAddr (x ||| old) }
      else t
  | csrrc =>
      if rs1 ≠ 0#5 then
        { t with csr := t.csr.writeCsr csrAddr (logicalNot x &&& old) }
      else t

/-- A CSR instruction leaves the next-pc unit alone. -/
theorem CsrOp.nextPc_update (m : CsrOp) (s : Mcu L) (rd : BitVec 5)
    (csrAddr : U32) (rs1 : BitVec 5) :
    (m.update s rd csrAddr rs1).nextPc = s.nextPc := by
  cases m with
  | csrrw => rfl
  | csrrs =>
      unfold update
      dsimp only
      split
      · rfl
      · rfl
  | csrrc =>
      unfold update
      dsimp only
      split
      · rfl
      · rfl

-- ========================================================= the operations

/-- A line of assembler, the operands in the order of the line. -/
inductive Operation
  | upper (m : UpperOp) (rd : BitVec 5) (imm : U32)
  | jal (rd : BitVec 5) (target : U32)
  | jalr (rd : BitVec 5) (imm : U32) (rs1 : BitVec 5)
  | branch (m : BranchOp) (rs1 rs2 : BitVec 5) (target : U32)
  | load (m : LoadOp) (rd : BitVec 5) (imm : U32) (rs1 : BitVec 5)
  | store (m : StoreOp) (rs2 : BitVec 5) (imm : U32) (rs1 : BitVec 5)
  | shift (m : ShiftOp) (rd rs1 : BitVec 5) (imm : U32)
  | immediate (m : ImmediateOp) (rd rs1 : BitVec 5) (imm : U32)
  | register (m : RegisterOp) (rd rs1 rs2 : BitVec 5)
  | csr (m : CsrOp) (rd : BitVec 5) (csrAddr : U32) (rs1 : BitVec 5)
  | mret
  | ecall

namespace Operation

/-- How the disassembler writes it. -/
def text : Operation → String
  | upper m rd imm => formatUpper m.name rd imm
  | jal rd target => formatJump "jal" rd target
  | jalr rd imm rs1 => formatMemory "jalr" rd imm rs1
  | branch m rs1 rs2 target => formatBranch m.name rs1 rs2 target
  | load m rd imm rs1 => formatMemory m.name rd imm rs1
  | store m rs2 imm rs1 => formatMemory m.name rs2 imm rs1
  | shift m rd rs1 imm => formatShift m.name rd rs1 imm
  | immediate m rd rs1 imm => formatImmediate m.name rd rs1 imm
  | register m rd rs1 rs2 => formatRegister m.name rd rs1 rs2
  | csr m rd csrAddr rs1 => formatCsr m.name rd csrAddr rs1
  | mret => "mret"
  | ecall => "ecall"

/-- The end of every instruction but a refused one: go to the address,
unless it is misaligned. -/
def goTo (s : Mcu L) (target : U32) : U32 × Mcu L :=
  if target.toNat % 4 ≠ 0 then
    (INSTRUCTION_ADDRESS_MISALIGNED, { s with nextPc := target })
  else (STATUS_OK, { s with nextPc := target, pc := target })

/-- What it does to a machine that is about to execute it. -/
def run (s : Mcu L) : Operation → Eval (U32 × Mcu L)
  | upper .lui rd imm =>
      .ok (goTo (s.writeReg (imm <<< 12) rd) (s.pc + 4))
  | upper .auipc rd imm =>
      .ok (goTo (s.writeReg (s.pc + imm <<< 12) rd) (s.pc + 4))
  | jal rd target => .ok (goTo (s.writeReg (s.pc + 4) rd) target)
  | jalr rd imm rs1 =>
      .ok (goTo (s.writeReg (s.pc + 4) rd) (s.rf.read rs1 + imm))
  | branch m rs1 rs2 target =>
      .ok (goTo s (if m.taken (s.rf.read rs1) (s.rf.read rs2) then target
        else s.pc + 4))
  | load m rd imm rs1 => do
      let (status, v) ← s.busRead (s.rf.read rs1 + imm) m.size
      if status ≠ STATUS_OK then .ok (status, s)
      else do
        let v ← initialized v
        .ok (goTo (s.writeReg v rd) (s.pc + 4))
  | store m rs2 imm rs1 => do
      let (status, mem) ←
        s.busWrite (s.rf.read rs1 + imm) (s.rf.read rs2) m.size
      if status ≠ STATUS_OK then .ok (status, { s with mem := mem })
      else .ok (goTo { s with mem := mem } (s.pc + 4))
  | shift m rd rs1 imm => do
      let v ← Alu.execute (s.rf.read rs1) imm m.aluOp
      .ok (goTo (s.writeReg v rd) (s.pc + 4))
  | immediate m rd rs1 imm => do
      let v ← Alu.execute (s.rf.read rs1) imm m.aluOp
      .ok (goTo (s.writeReg v rd) (s.pc + 4))
  | register m rd rs1 rs2 => do
      let v ← Alu.execute (s.rf.read rs1) (s.rf.read rs2) m.aluOp
      .ok (goTo (s.writeReg v rd) (s.pc + 4))
  | csr m rd csrAddr rs1 =>
      .ok (goTo (m.update s rd csrAddr rs1) (s.pc + 4))
  | mret => .ok (goTo { s with csr := Mcu.mretCsr s.csr } s.csr.getMepc)
  | ecall => .ok (ECALL_FROM_M_MODE, s)

/-- The text of the one spells the other: they are the same, but for a CSR
that is not known by name. -/
inductive Spells : Operation → Operation → Prop
  | same (op : Operation) : Spells op op
  | unknown (m : CsrOp) (rd rs1 : BitVec 5) {a b : U32}
      (ha : csrNames.lookup a = none) (hb : csrNames.lookup b = none) :
      Spells (csr m rd a rs1) (csr m rd b rs1)

end Operation

-- ========================================================== all mnemonics

/-- The mnemonic of an operation. -/
inductive Mnemonic
  | upper (m : UpperOp)
  | jal
  | jalr
  | branch (m : BranchOp)
  | load (m : LoadOp)
  | store (m : StoreOp)
  | shift (m : ShiftOp)
  | immediate (m : ImmediateOp)
  | register (m : RegisterOp)
  | csr (m : CsrOp)
  | mret
  | ecall
  deriving DecidableEq

namespace Mnemonic

def name : Mnemonic → String
  | upper m => m.name
  | jal => "jal"
  | jalr => "jalr"
  | branch m => m.name
  | load m => m.name
  | store m => m.name
  | shift m => m.name
  | immediate m => m.name
  | register m => m.name
  | csr m => m.name
  | mret => "mret"
  | ecall => "ecall"

def all : List Mnemonic :=
  [upper .lui, upper .auipc, jal, jalr, branch .beq, branch .bne,
    branch .blt, branch .bge, branch .bltu, branch .bgeu, load .lb,
    load .lh, load .lw, load .lbu, load .lhu, store .sb, store .sh,
    store .sw, shift .slli, shift .srli, shift .srai, immediate .addi,
    immediate .slti, immediate .sltiu, immediate .xori, immediate .ori,
    immediate .andi, register .add, register .sub, register .sll,
    register .slt, register .sltu, register .xor, register .srl,
    register .sra, register .or, register .and, csr .csrrw, csr .csrrs,
    csr .csrrc, mret, ecall]

/-- The list has every mnemonic. -/
theorem mem_all (m : Mnemonic) : m ∈ all := by
  cases m with
  | upper m => cases m <;> decide
  | jal => decide
  | jalr => decide
  | branch m => cases m <;> decide
  | load m => cases m <;> decide
  | store m => cases m <;> decide
  | shift m => cases m <;> decide
  | immediate m => cases m <;> decide
  | register m => cases m <;> decide
  | csr m => cases m <;> decide
  | mret => decide
  | ecall => decide

/-- Names have no blanks and fit the column. -/
theorem name_plain (m : Mnemonic) :
    m.name.length ≤ 8 ∧ ' ' ∉ m.name.toList := by
  have hall : ∀ m ∈ all, m.name.length ≤ 8 ∧ ' ' ∉ m.name.toList := by
    decide +kernel
  exact hall m m.mem_all

/-- No two mnemonics share a name. -/
theorem name_inj {m m' : Mnemonic} (h : m.name = m'.name) : m = m' := by
  have hall : ∀ m ∈ all, ∀ m' ∈ all, m.name = m'.name → m = m' := by
    decide +kernel
  exact hall m m.mem_all m' m'.mem_all h

end Mnemonic

-- ================================================================ operands

/-- Registers can be told apart by their names. -/
theorem registerName_inj : ∀ r r' : BitVec 5,
    registerName r = registerName r' → r = r' := by
  decide +kernel

/-- No name of a register has a character that separates fields. -/
theorem registerName_plain : ∀ r : BitVec 5,
    ',' ∉ (registerName r).toList ∧ '(' ∉ (registerName r).toList := by
  decide +kernel

/-- A known name is in the table. -/
theorem mem_csrNames {a : U32} {n : String} (h : csrNames.lookup a = some n) :
    (a, n) ∈ csrNames := by
  obtain ⟨before, after, hsplit, -⟩ := List.lookup_eq_some_iff.1 h
  rw [hsplit]
  simp

/-- And belongs to one CSR. -/
theorem getCsrName_inj {a b : U32} (h : getCsrName a = getCsrName b) :
    a = b ∨ csrNames.lookup a = none ∧ csrNames.lookup b = none := by
  have hdistinct : ∀ p ∈ csrNames, ∀ q ∈ csrNames, p.2 = q.2 → p.1 = q.1 := by
    decide
  have hknown : ∀ p ∈ csrNames, p.2 ≠ "CSR_UNKWN" := by decide
  unfold getCsrName at h
  cases ha : csrNames.lookup a with
  | none =>
      cases hb : csrNames.lookup b with
      | none => exact .inr ⟨rfl, rfl⟩
      | some n =>
          rw [ha, hb] at h
          exact absurd h.symm (hknown _ (mem_csrNames hb))
  | some m =>
      cases hb : csrNames.lookup b with
      | none =>
          rw [ha, hb] at h
          exact absurd h (hknown _ (mem_csrNames ha))
      | some n =>
          rw [ha, hb] at h
          exact .inl (hdistinct _ (mem_csrNames ha) _ (mem_csrNames hb) h)

/-- Nor has that of a CSR. -/
theorem getCsrName_plain (a : U32) : ',' ∉ (getCsrName a).toList := by
  have hnames : ∀ p ∈ csrNames, ',' ∉ p.2.toList := by decide
  unfold getCsrName
  cases ha : csrNames.lookup a with
  | none => decide
  | some n => exact hnames _ (mem_csrNames ha)

/-- The spellings of numbers have no commas. -/
theorem hex_plain (n : Nat) : ',' ∉ (hex n).toList :=
  notMem_hex (by decide) n

/-- Nor has a number. -/
theorem decimal_plain (i : Int) : ',' ∉ (decimal i).toList :=
  notMem_decimal (by decide) (by decide) i

/-- Words are told apart by their hexadecimal digits. -/
theorem hex_toNat_inj {u v : U32} (h : hex u.toNat = hex v.toNat) : u = v :=
  BitVec.eq_of_toNat_eq (hex_inj h)

/-- And by the decimal ones of what they are as an `int`. -/
theorem decimal_toInt_inj {u v : U32}
    (h : decimal u.toInt = decimal v.toInt) : u = v :=
  BitVec.eq_of_toInt_eq (decimal_inj h)

/-- An offset and a base register in parentheses can be read back. -/
theorem memory_inj {u v : U32} {r r' : BitVec 5}
    (h : decimal u.toInt ++ "(" ++ registerName r ++ ")"
      = decimal v.toInt ++ "(" ++ registerName r' ++ ")") :
    u = v ∧ r = r' := by
  have hopen : ∀ i : Int, '(' ∉ (decimal i).toList :=
    notMem_decimal (by decide) (by decide)
  rw [← String.toList_inj] at h
  simp only [String.toList_append, List.append_assoc] at h
  have hcut : '(' ∉ (registerName r).toList ++ ")".toList := by
    rw [List.mem_append]
    rintro (hmem | hmem)
    · exact (registerName_plain r).2 hmem
    · exact absurd hmem (by decide)
  obtain ⟨hoffset, -, hbase⟩ :=
    (List.append_cons_inj_of_notMem (hopen _) hcut).1 h
  exact ⟨decimal_toInt_inj (String.toList_inj.1 hoffset),
    registerName_inj r r' (String.toList_inj.1
      (List.append_cancel_right hbase))⟩

/-- So can the operands of a line with one. -/
theorem memory_fields_inj {reg reg' base base' : BitVec 5} {u v : U32}
    (h : [registerName reg,
        decimal u.toInt ++ "(" ++ registerName base ++ ")"]
      = [registerName reg',
        decimal v.toInt ++ "(" ++ registerName base' ++ ")"]) :
    reg = reg' ∧ u = v ∧ base = base' := by
  simp only [List.cons.injEq, and_true] at h
  obtain ⟨hoffset, hbase⟩ := memory_inj h.2
  exact ⟨registerName_inj _ _ h.1, hoffset, hbase⟩

-- ==================================================== one text, one reading

namespace Operation

def mnemonic : Operation → Mnemonic
  | upper m .. => .upper m
  | jal .. => .jal
  | jalr .. => .jalr
  | branch m .. => .branch m
  | load m .. => .load m
  | store m .. => .store m
  | shift m .. => .shift m
  | immediate m .. => .immediate m
  | register m .. => .register m
  | csr m .. => .csr m
  | mret => .mret
  | ecall => .ecall

/-- The operands as they are written. -/
def fields : Operation → List String
  | upper _ rd imm => [registerName rd, "0x" ++ hex imm.toNat]
  | jal rd target => [registerName rd, hex target.toNat]
  | jalr rd imm rs1 =>
      [registerName rd,
        decimal imm.toInt ++ "(" ++ registerName rs1 ++ ")"]
  | branch _ rs1 rs2 target =>
      [registerName rs1, registerName rs2, hex target.toNat]
  | load _ rd imm rs1 =>
      [registerName rd,
        decimal imm.toInt ++ "(" ++ registerName rs1 ++ ")"]
  | store _ rs2 imm rs1 =>
      [registerName rs2,
        decimal imm.toInt ++ "(" ++ registerName rs1 ++ ")"]
  | shift _ rd rs1 imm =>
      [registerName rd, registerName rs1, "0x" ++ hex imm.toNat]
  | immediate _ rd rs1 imm =>
      [registerName rd, registerName rs1, decimal imm.toInt]
  | register _ rd rs1 rs2 =>
      [registerName rd, registerName rs1, registerName rs2]
  | csr _ rd csrAddr rs1 =>
      [registerName rd, getCsrName csrAddr, registerName rs1]
  | mret => []
  | ecall => []

/-- MRET and ECALL are written alone, the others in a row. -/
theorem text_cases (op : Operation) :
    op.fields = [] ∧ op.text = op.mnemonic.name ∧ op.text.length < 8
      ∨ (∃ f g fs, op.fields = f :: g :: fs)
        ∧ op.text = row 8 op.mnemonic.name op.fields := by
  cases op with
  | mret => exact .inl ⟨rfl, rfl, by decide⟩
  | ecall => exact .inl ⟨rfl, rfl, by decide⟩
  | _ => exact .inr ⟨⟨_, _, _, rfl⟩, rfl⟩

/-- No operand contains a comma. -/
theorem fields_plain (op : Operation) : ∀ f ∈ op.fields, ',' ∉ f.toList := by
  have hreg : ∀ r, ',' ∉ (registerName r).toList := fun r =>
    (registerName_plain r).1
  cases op with
  | _ => simp [fields, hreg, hex_plain, decimal_plain, getCsrName_plain]

/-- A text determines the mnemonic and the operands written. -/
theorem fields_of_text {op op' : Operation} (h : op.text = op'.text) :
    op.mnemonic = op'.mnemonic ∧ op.fields = op'.fields := by
  have hlen : ∀ {o : Operation}, o.text = row 8 o.mnemonic.name o.fields →
      8 ≤ o.text.length := by
    intro o ho
    rw [ho, ← String.length_toList]
    exact le_length_row _ _ _
  rcases op.text_cases with ⟨hf, ht, hshort⟩ | ⟨⟨_, _, _, hf⟩, ht⟩
  · rcases op'.text_cases with ⟨hf', ht', -⟩ | ⟨-, ht'⟩
    · exact ⟨Mnemonic.name_inj (ht.symm.trans (h.trans ht')),
        hf.trans hf'.symm⟩
    · have := hlen ht'
      rw [h] at hshort
      omega
  · rcases op'.text_cases with ⟨-, -, hshort⟩ | ⟨⟨_, _, _, hf'⟩, ht'⟩
    · have := hlen ht
      rw [← h] at hshort
      omega
    · have hp := op.mnemonic.name_plain
      have hp' := op'.mnemonic.name_plain
      obtain ⟨hname, hfields⟩ := row_inj hp.1 hp'.1 hp.2 hp'.2
        op.fields_plain op'.fields_plain (by rw [hf]; simp)
        (by rw [hf']; simp) (ht.symm.trans (h.trans ht'))
      exact ⟨Mnemonic.name_inj hname, hfields⟩

/-- A text has one reading, but for unknown CSRs. -/
theorem text_inj {op op' : Operation} (h : op.text = op'.text) :
    Spells op op' := by
  obtain ⟨hm, hf⟩ := fields_of_text h
  have hx : ∀ {u v : U32}, "0x" ++ hex u.toNat = "0x" ++ hex v.toNat →
      u = v := fun h => hex_toNat_inj (String.append_right_inj _ |>.1 h)
  cases op with
  | upper m rd imm =>
      cases op' with
      | upper m' rd' imm' =>
          cases hm
          simp only [fields, List.cons.injEq, and_true] at hf
          rw [registerName_inj _ _ hf.1, hx hf.2]
          exact .same _
      | _ => cases hm
  | jal rd target =>
      cases op' with
      | jal rd' target' =>
          simp only [fields, List.cons.injEq, and_true] at hf
          rw [registerName_inj _ _ hf.1, hex_toNat_inj hf.2]
          exact .same _
      | _ => cases hm
  | jalr rd imm rs1 =>
      cases op' with
      | jalr rd' imm' rs1' =>
          obtain ⟨rfl, rfl, rfl⟩ := memory_fields_inj hf
          exact .same _
      | _ => cases hm
  | branch m rs1 rs2 target =>
      cases op' with
      | branch m' rs1' rs2' target' =>
          cases hm
          simp only [fields, List.cons.injEq, and_true] at hf
          rw [registerName_inj _ _ hf.1, registerName_inj _ _ hf.2.1,
            hex_toNat_inj hf.2.2]
          exact .same _
      | _ => cases hm
  | load m rd imm rs1 =>
      cases op' with
      | load m' rd' imm' rs1' =>
          cases hm
          obtain ⟨rfl, rfl, rfl⟩ := memory_fields_inj hf
          exact .same _
      | _ => cases hm
  | store m rs2 imm rs1 =>
      cases op' with
      | store m' rs2' imm' rs1' =>
          cases hm
          obtain ⟨rfl, rfl, rfl⟩ := memory_fields_inj hf
          exact .same _
      | _ => cases hm
  | shift m rd rs1 imm =>
      cases op' with
      | shift m' rd' rs1' imm' =>
          cases hm
          simp only [fields, List.cons.injEq, and_true] at hf
          rw [registerName_inj _ _ hf.1, registerName_inj _ _ hf.2.1,
            hx hf.2.2]
          exact .same _
      | _ => cases hm
  | immediate m rd rs1 imm =>
      cases op' with
      | immediate m' rd' rs1' imm' =>
          cases hm
          simp only [fields, List.cons.injEq, and_true] at hf
          rw [registerName_inj _ _ hf.1, registerName_inj _ _ hf.2.1,
            decimal_toInt_inj hf.2.2]
          exact .same _
      | _ => cases hm
  | register m rd rs1 rs2 =>
      cases op' with
      | register m' rd' rs1' rs2' =>
          cases hm
          simp only [fields, List.cons.injEq, and_true] at hf
          rw [registerName_inj _ _ hf.1, registerName_inj _ _ hf.2.1,
            registerName_inj _ _ hf.2.2]
          exact .same _
      | _ => cases hm
  | csr m rd csrAddr rs1 =>
      cases op' with
      | csr m' rd' csrAddr' rs1' =>
          cases hm
          simp only [fields, List.cons.injEq, and_true] at hf
          rw [registerName_inj _ _ hf.1, registerName_inj _ _ hf.2.2]
          rcases getCsrName_inj hf.2.1 with rfl | ⟨ha, hb⟩
          · exact .same _
          · exact .unknown m rd' rs1' ha hb
      | _ => cases hm
  | mret =>
      cases op' with
      | mret => exact .same _
      | _ => cases hm
  | ecall =>
      cases op' with
      | ecall => exact .same _
      | _ => cases hm

end Operation

end T89Emu
