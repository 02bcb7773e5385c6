/-
Line number programs with instructions of later versions and of vendors.

The standard keeps a reader in step with instructions that it does not
know: the header declares how many LEB128 operands a standard opcode has,
and an extended opcode stands behind the number of the bytes that belong
to it. An `Item` is an instruction that is known, or one of the two kinds
that are not; `head` is what announces it, `operands` what a reader that
skips it has to pass over.
-/
import T89Emu.Lib.Dwarf.LineProgram

namespace LineProgram

/-- What a program consists of. -/
inductive Item
  | known (i : Instr)
  | standard (opcode : BitVec 8) (operands : List Leb128)
  | extended (length : Leb128) (opcode : BitVec 8)
      (payload : List (BitVec 8))

namespace Item

/-- The bytes that announce it. -/
def head : Item → List (BitVec 8)
  | known i => i.bytes
  | standard opcode _ => [opcode]
  | extended length opcode _ => 0 :: (length.bytes ++ [opcode])

/-- The bytes of an unknown instruction behind its opcode. -/
def operands : Item → List (BitVec 8)
  | known _ => []
  | standard _ operands => operands.flatMap Leb128.bytes
  | extended _ _ payload => payload

def bytes (i : Item) : List (BitVec 8) := i.head ++ i.operands

/-- The standard opcodes up to 12 are known, and three extended ones. -/
def At (h : Header) (lengths : List (BitVec 8)) (width : Nat) :
    Item → Prop
  | known i => i.At h width
  | standard opcode operands =>
      12 < opcode.toNat ∧ opcode.toNat < h.opcodeBase
        ∧ lengths[opcode.toNat - 1]?.map BitVec.toNat
          = some operands.length
  | extended length opcode payload =>
      0 < h.opcodeBase ∧ opcode.toNat ∉ [1, 2, 4]
        ∧ length.unsigned = 1 + payload.length

instance (h : Header) (lengths : List (BitVec 8)) (width : Nat) :
    (i : Item) → Decidable (i.At h lengths width)
  | known i => inferInstanceAs (Decidable (i.At h width))
  | standard _ _ | extended _ _ _ =>
      inferInstanceAs (Decidable (_ ∧ _ ∧ _))

/-- The same instruction, its operands having other values. -/
inductive Alike : Item → Item → Prop
  | known (i : Instr) : Alike (known i) (known i)
  | standard (opcode : BitVec 8) {a b : List Leb128}
      (hlength : a.length = b.length) :
      Alike (standard opcode a) (standard opcode b)
  | extended (length : Leb128) (opcode : BitVec 8)
      {a b : List (BitVec 8)} (hlength : a.length = b.length) :
      Alike (extended length opcode a) (extended length opcode b)

end Item

/-- The bytes of a program. -/
def itemBytes (items : List Item) : List (BitVec 8) :=
  items.flatMap Item.bytes

/-- The program with the unknown instructions deleted. -/
def knownOf : List Item → List Instr
  | [] => []
  | .known i :: items => i :: knownOf items
  | .standard _ _ :: items => knownOf items
  | .extended _ _ _ :: items => knownOf items

-- ============================================================= announcing

/-- The number of its opcode; extended ones stand behind a 0. -/
def Instr.number : Instr → Nat
  | special opcode => opcode.toNat
  | copy => 1
  | advancePc _ => 2
  | advanceLine _ => 3
  | setFile _ => 4
  | setColumn _ => 5
  | negateStmt => 6
  | setBasicBlock => 7
  | constAddPc => 8
  | fixedAdvancePc _ => 9
  | setPrologueEnd => 10
  | setEpilogueBegin => 11
  | setIsa _ => 12
  | endSequence _ | setAddress _ _ | setDiscriminator _ _ => 0

/-- Under the header, the first byte announces this instruction; the
number behind a 0 may be any. -/
def Instr.Announced (h : Header) : Instr → Prop
  | special opcode => h.opcodeBase ≤ opcode.toNat
  | i => i.number < h.opcodeBase

def Item.Announced (h : Header) : Item → Prop
  | known i => i.Announced h
  | standard opcode _ =>
      12 < opcode.toNat ∧ opcode.toNat < h.opcodeBase
  | extended _ opcode _ =>
      0 < h.opcodeBase ∧ opcode.toNat ∉ [1, 2, 4]

/-- The rows that an instruction appends. -/
def Instr.appends : Instr → Nat
  | special _ | copy | endSequence _ => 1
  | _ => 0

def Item.appends : Item → Nat
  | known i => i.appends
  | standard _ _ | extended _ _ _ => 0

variable {h : Header} {lengths : List (BitVec 8)} {width : Nat}

theorem Instr.At.announced {i : Instr} (hi : i.At h width) :
    i.Announced h := by
  cases i with
  | special opcode => exact hi
  | copy => exact hi
  | advancePc advance => exact hi.1
  | advanceLine advance => exact hi.1
  | setFile file => exact hi.1
  | setColumn column => exact hi.1
  | negateStmt => exact hi
  | setBasicBlock => exact hi
  | constAddPc => exact hi
  | fixedAdvancePc advance => exact hi
  | setPrologueEnd => exact hi
  | setEpilogueBegin => exact hi
  | setIsa isa => exact hi.1
  | endSequence length => exact hi.1
  | setAddress length address => exact hi.1
  | setDiscriminator length discriminator => exact hi.1

namespace Item

theorem At.announced {i : Item} (hi : i.At h lengths width) :
    i.Announced h := by
  cases i with
  | known i => exact Instr.At.announced hi
  | standard opcode operands => exact ⟨hi.1, hi.2.1⟩
  | extended length opcode payload => exact ⟨hi.1, hi.2.1⟩

theorem head_pos (i : Item) : 0 < i.head.length := by
  cases i with
  | known i => exact i.bytes_pos
  | standard opcode operands => exact Nat.one_pos
  | extended length opcode payload => exact Nat.succ_pos _

/-- An instruction that is one under the header is one with other
operands. -/
theorem Alike.at {i j : Item} (hij : Alike i j)
    (hi : i.At h lengths width) : j.At h lengths width := by
  cases hij with
  | known i => exact hi
  | standard opcode hlength => exact ⟨hi.1, hi.2.1, hlength ▸ hi.2.2⟩
  | extended length opcode hlength =>
      exact ⟨hi.1, hi.2.1, hlength ▸ hi.2.2⟩

end Item

theorem knownOf_announced {items : List Item}
    (hitems : ∀ i ∈ items, i.Announced h) :
    ∀ i ∈ (knownOf items).map Item.known, i.Announced h := by
  induction items with
  | nil => simp [knownOf]
  | cons i items ih =>
      obtain ⟨hi, hrest⟩ := List.forall_mem_cons.1 hitems
      cases i with
      | known i => exact List.forall_mem_cons.2 ⟨hi, ih hrest⟩
      | standard opcode operands => exact ih hrest
      | extended length opcode payload => exact ih hrest

-- ========================================================= without operands

/-- Known instructions have nothing but their heads. -/
theorem bytes_eq_heads (program : List Instr) :
    bytes program = (program.map Item.known).flatMap Item.head := by
  rw [List.flatMap_map]
  rfl

/-- A program without operands is the sequence of its heads. -/
theorem itemBytes_eq_heads {items : List Item}
    (hbare : ∀ i ∈ items, i.operands = []) :
    itemBytes items = items.flatMap Item.head := by
  refine List.flatMap_congr fun i hi => ?_
  rw [Item.bytes, hbare i hi, List.append_nil]

end LineProgram
