/-
What the instructions of an entry leave of the rule for the CFA.

`perform` is one instruction on the table: `processInstruction_run` is a
round of the loop, by the kind of the instruction, and
`carries_readsAs` the block. The loop knows of no location to stop
at, so that for the CFA only the register and the offset of the last row
count: `effect` is one instruction on these two (`leaves_perform`) and
`final` a list of them.

An operand that the LEB128 decoders do not deliver ends the run there.
-/
import Mathlib.Data.Nat.ModEq
import T89Emu.Dwarf.Proofs.FrameSection

namespace T89Emu.Dwarf

open Cpp Bytes CallFrame

-- ====================================================== one instruction

/-- The decoders deliver the operands of the instruction. -/
def Defined : Instr → Prop
  | .defCfa register distance => register.size ≤ 5 ∧ distance.size ≤ 5
  | .defCfaRegister register => register.size ≤ 5
  | .defCfaOffset distance => distance.size ≤ 5
  | .offset _ factored => factored.size ≤ 5
  | .nop | .advanceLoc _ | .advanceLoc1 _ | .restore _ => True

instance : (i : Instr) → Decidable (Defined i)
  | .defCfa _ _ => inferInstanceAs (Decidable (_ ∧ _))
  | .defCfaRegister _ => inferInstanceAs (Decidable (_ ≤ _))
  | .defCfaOffset _ => inferInstanceAs (Decidable (_ ≤ _))
  | .offset _ _ => inferInstanceAs (Decidable (_ ≤ _))
  | .nop => isTrue trivial
  | .advanceLoc _ => isTrue trivial
  | .advanceLoc1 _ => isTrue trivial
  | .restore _ => isTrue trivial

/-- What the code adds for an advance: DW_CFA_advance_loc keeps one bit
of its opcode and loses two of the operand, DW_CFA_advance_loc1 is not
scaled. -/
def codeAdvance (codeAlignment : Nat) : Instr → Nat
  | .advanceLoc delta => (64 + delta.toNat % 16) * codeAlignment
  | .advanceLoc1 delta => delta.toNat
  | _ => 0

/-- The register and the offset that the last row of the table holds. -/
def cfaOf (t : VirtTable) : U32 × U32 := (t.back.regNum, t.back.regOffset)

/-- What an instruction makes of the two. -/
def effect (codeAlignment : Nat) (cfa : U32 × U32) : Instr → U32 × U32
  | .defCfa register distance =>
      (BitVec.ofNat 32 register.unsigned, BitVec.ofNat 32 distance.unsigned)
  | .defCfaRegister register => (BitVec.ofNat 32 register.unsigned, cfa.2)
  | .defCfaOffset distance => (cfa.1, BitVec.ofNat 32 distance.unsigned)
  | i => (cfa.1, cfa.2 + BitVec.ofNat 32 (codeAdvance codeAlignment i))

/-- Numbers that are the same in 32 bits. -/
theorem ofNat_eq_iff (m n : Nat) :
    BitVec.ofNat 32 m = BitVec.ofNat 32 n ↔ m ≡ n [MOD 2 ^ 32] := by
  rw [← BitVec.toNat_inj, BitVec.toNat_ofNat, BitVec.toNat_ofNat, Nat.ModEq]

/-- The opcodes with an operand in them. -/
theorem opcode_primary (kind : BitVec 2) (operand : BitVec 6)
    (hkind : kind ≠ 0#2) :
    (kind ++ operand : U8) &&& 0xc0 ≠ 0#8
      ∧ ((kind ++ operand : U8) &&& 0xc0).toNat = kind.toNat * 64 := by
  revert kind operand
  decide

/-- The mask 0x4f keeps four bits of the distance, and one bit of the
opcode. -/
theorem opcode_advance (delta : BitVec 6) :
    ((0b01#2 ++ delta : U8) &&& 0x4f).setWidth 64
      = BitVec.ofNat 64 (64 + delta.toNat % 16) := by
  revert delta
  decide

variable {cie : CommonInfoEntry} {codeAlignment : Nat} {t : VirtTable}

/-- The register that the code takes from an opcode with one in it. -/
def operandOf (kind : BitVec 2) (operand : BitVec 6) : U8 :=
  (kind ++ operand) &&& 0x4f

/-- What an instruction makes of the table. -/
def perform (cie : CommonInfoEntry) (t : VirtTable) : Instr → VirtTable
  | .nop => t
  | .advanceLoc delta => t.advance (t.back.location
      + ((operandOf 0b01#2 delta).setWidth 64
        * cie.codeAlignmentFactor).setWidth 32)
  | .advanceLoc1 delta => t.advance (t.back.location + delta.setWidth 32)
  | .defCfa register distance => t.updateBack fun e =>
      { e with regNum := (ulebValue register).setWidth 32 }.setRegOffset
        ((ulebValue distance).setWidth 32)
  | .defCfaRegister register => t.updateBack fun e =>
      { e with regNum := (ulebValue register).setWidth 32 }
  | .defCfaOffset distance => t.updateBack fun e =>
      e.setRegOffset ((ulebValue distance).setWidth 32)
  | .offset register factored => t.updateBack fun e =>
      e.setRule (operandOf 0b10#2 register)
        { e.regRules (operandOf 0b10#2 register) with
          value := (ulebValue factored
            * cie.dataAlignmentFactor).setWidth 32 }
  | .restore register => t.updateBack fun e =>
      e.setRule (operandOf 0b11#2 register)
        { e.regRules (operandOf 0b11#2 register) with
          cfiRule := (t.front.regRules (operandOf 0b11#2 register)).cfiRule }

/-- The table that an instruction leaves: its last row has no expression
for its CFA, and these two. -/
def Leaves (t : VirtTable) (cfa : U32 × U32) : Prop :=
  t.back.isCfaLocExpr = false ∧ cfaOf t = cfa

/-- What the code adds for DW_CFA_advance_loc. -/
theorem advance_low (delta : BitVec 6)
    (hcaf : cie.codeAlignmentFactor.setWidth 32
      = BitVec.ofNat 32 codeAlignment) :
    ((operandOf 0b01#2 delta).setWidth 64
      * cie.codeAlignmentFactor).setWidth 32
      = BitVec.ofNat 32 (codeAdvance codeAlignment (.advanceLoc delta)) := by
  rw [operandOf, opcode_advance, BitVec.setWidth_mul _ _ (by decide), hcaf,
    setWidth_ofNat, codeAdvance, BitVec.ofNat_mul]

/-- An instruction that advances by nothing and sets nothing. -/
theorem add_nothing (cfa : U32 × U32) :
    (cfa.1, cfa.2 + BitVec.ofNat 32 0) = cfa := by
  rw [BitVec.add_zero]

/-- What an instruction makes of the rule for the CFA. -/
theorem leaves_perform (i : Instr)
    (hcaf : cie.codeAlignmentFactor.setWidth 32
      = BitVec.ofNat 32 codeAlignment) (ht : t.back.isCfaLocExpr = false) :
    Leaves (perform cie t i) (effect codeAlignment (cfaOf t) i) := by
  cases i with
  | nop => exact ⟨ht, (add_nothing (cfaOf t)).symm⟩
  | offset register factored => exact ⟨ht, (add_nothing (cfaOf t)).symm⟩
  | restore register => exact ⟨ht, (add_nothing (cfaOf t)).symm⟩
  | advanceLoc delta =>
      refine ⟨ht, ?_⟩
      rw [perform, advance_low delta hcaf]
      rfl
  | advanceLoc1 delta =>
      refine ⟨ht, ?_⟩
      rw [perform, ← BitVec.ofNat_toNat]
      rfl
  | defCfa register distance =>
      refine ⟨ht, ?_⟩
      rw [perform, ulebValue_low, ulebValue_low]
      rfl
  | defCfaRegister register =>
      refine ⟨ht, ?_⟩
      rw [perform, ulebValue_low]
      rfl
  | defCfaOffset distance =>
      refine ⟨ht, ?_⟩
      rw [perform, ulebValue_low]
      rfl

/-- An operand in front of what is done with it. -/
theorem operand_run {operand : Leb128} {s : DataStream} {rest : List U8}
    (hs : s.rest = operand.bytes ++ rest) (f : U64 → VirtTable) :
    (decodeULeb128 >>= fun v => (pure (f v) : Decoder VirtTable)) s
      = if operand.size ≤ 5 then
          .ok (f (ulebValue operand), s.skip operand.size)
        else .error (.undefined .shiftCount) := by
  show (decodeULeb128 s >>= _) = _
  rw [uleb_all operand hs]
  split
  case isTrue => rfl
  case isFalse => rfl

/-- An advance has its distance in the byte of the opcode. -/
theorem primary_advance (delta : BitVec 6) (s : DataStream) :
    primaryInstruction cie t (0b01#2 ++ delta) s
      = .ok (perform cie t (.advanceLoc delta), s) := by
  unfold primaryInstruction
  rw [(opcode_primary 0b01#2 delta (by decide)).2]
  rfl

/-- A saved register is in it too, with a factored offset behind. -/
theorem primary_offset (register : BitVec 6) (factored : Leb128)
    {s : DataStream} {rest : List U8}
    (hs : s.rest = factored.bytes ++ rest) :
    primaryInstruction cie t (0b10#2 ++ register) s
      = if factored.size ≤ 5 then
          .ok (perform cie t (.offset register factored),
            s.skip factored.size)
        else .error (.undefined .shiftCount) := by
  unfold primaryInstruction
  rw [(opcode_primary 0b10#2 register (by decide)).2]
  exact operand_run hs _

/-- And so is a register that is restored. -/
theorem primary_restore (register : BitVec 6) (s : DataStream) :
    primaryInstruction cie t (0b11#2 ++ register) s
      = .ok (perform cie t (.restore register), s) := by
  unfold primaryInstruction
  rw [(opcode_primary 0b11#2 register (by decide)).2]
  rfl

/-- The instruction that sets the register. -/
theorem extended_register (cie : CommonInfoEntry) (register : Leb128)
    (ht : t.back.isCfaLocExpr = false) {s : DataStream} {rest : List U8}
    (hs : s.rest = register.bytes ++ rest) :
    extendedInstruction t 0x0d s
      = if register.size ≤ 5 then
          .ok (perform cie t (.defCfaRegister register),
            s.skip register.size)
        else .error (.undefined .shiftCount) := by
  show ((if t.back.isCfaLocExpr = true then _ else _
    : Decoder VirtTable) s) = _
  rw [if_neg (by rw [ht]; simp)]
  exact operand_run hs _

/-- The instruction that sets the offset. -/
theorem extended_distance (cie : CommonInfoEntry) (distance : Leb128)
    (ht : t.back.isCfaLocExpr = false) {s : DataStream} {rest : List U8}
    (hs : s.rest = distance.bytes ++ rest) :
    extendedInstruction t 0x0e s
      = if distance.size ≤ 5 then
          .ok (perform cie t (.defCfaOffset distance),
            s.skip distance.size)
        else .error (.undefined .shiftCount) := by
  show ((if t.back.isCfaLocExpr = true then _ else _
    : Decoder VirtTable) s) = _
  rw [if_neg (by rw [ht]; simp)]
  exact operand_run hs _

/-- The instruction that sets both. -/
theorem extended_defCfa (cie : CommonInfoEntry)
    (register distance : Leb128) {s : DataStream} {rest : List U8}
    (hs : s.rest = register.bytes ++ (distance.bytes ++ rest)) :
    extendedInstruction t 0x0c s
      = if register.size ≤ 5 ∧ distance.size ≤ 5 then
          .ok (perform cie t (.defCfa register distance),
            (s.skip register.size).skip distance.size)
        else .error (.undefined .shiftCount) := by
  have hdistance := operand_run
    (rest_skip hs (Leb128.length_bytes register)) fun w =>
      t.updateBack fun e =>
        { e with regNum := (ulebValue register).setWidth 32 }.setRegOffset
          (w.setWidth 32)
  show (decodeULeb128 s >>= _) = _
  rw [uleb_all register hs]
  by_cases hsize : register.size ≤ 5
  · rw [if_pos hsize, ok_bind]
    simp only [hsize, true_and]
    exact hdistance
  · rw [if_neg hsize, if_neg fun h => hsize h.1]
    rfl

/-- The top two bits tell which of them it is. -/
theorem processInstruction_primary (kind : BitVec 2) (operand : BitVec 6)
    (hkind : kind ≠ 0#2) {s : DataStream} {rest : List U8}
    (hs : s.rest = [kind ++ operand] ++ rest) :
    processInstruction cie t s
      = primaryInstruction cie t (kind ++ operand) (s.skip 1) := by
  show (decodeUInt8 s >>= _) = _
  rw [show decodeUInt8 s = .ok (kind ++ operand, s.skip 1) from
    reads_uint8 _ s rest hs, ok_bind]
  show ((if (kind ++ operand : U8) &&& 0xc0 ≠ 0#8 then _ else _
    : Decoder VirtTable) (s.skip 1)) = _
  rw [if_pos (opcode_primary kind operand hkind).1]

/-- Without them the byte is the opcode. -/
theorem processInstruction_extended (opcode : U8)
    (hopcode : opcode &&& 0xc0 = 0#8) {s : DataStream} {rest : List U8}
    (hs : s.rest = [opcode] ++ rest) :
    processInstruction cie t s
      = extendedInstruction t opcode (s.skip 1) := by
  show (decodeUInt8 s >>= _) = _
  rw [show decodeUInt8 s = .ok (opcode, s.skip 1) from
    reads_uint8 _ s rest hs, ok_bind]
  show ((if opcode &&& 0xc0 ≠ 0#8 then _ else _
    : Decoder VirtTable) (s.skip 1)) = _
  rw [if_neg (not_not.2 hopcode)]

/-- Two skips are one. -/
theorem skip_skip (s : DataStream) (m n : Nat) :
    (s.skip m).skip n = s.skip (m + n) := by
  simp [DataStream.skip, Nat.add_assoc]

/-- A round of the loop carries the instruction out. -/
theorem processInstruction_run (i : Instr)
    (ht : t.back.isCfaLocExpr = false) {s : DataStream} {rest : List U8}
    (hs : s.rest = i.bytes ++ rest) :
    processInstruction cie t s
      = if Defined i then .ok (perform cie t i, s.skip i.bytes.length)
        else .error (.undefined .shiftCount) := by
  cases i with
  | nop =>
      rw [processInstruction_extended 0x00 (by decide) hs]
      rfl
  | advanceLoc delta =>
      rw [processInstruction_primary 0b01#2 delta (by decide) hs,
        primary_advance]
      rfl
  | advanceLoc1 delta =>
      have hrest : (s.skip 1).rest = [delta] ++ rest :=
        rest_skip (w := [0x02]) hs rfl
      rw [processInstruction_extended 0x02 (by decide) hs]
      show (decodeUInt8 (s.skip 1) >>= _) = _
      rw [show decodeUInt8 (s.skip 1) = .ok (delta, (s.skip 1).skip 1)
        from reads_uint8 _ _ rest hrest, skip_skip]
      rfl
  | defCfa register distance =>
      rw [show (Instr.defCfa register distance).bytes = [0x0c]
        ++ (register.bytes ++ distance.bytes) from rfl] at hs
      simp only [List.append_assoc] at hs
      rw [processInstruction_extended 0x0c (by decide) hs,
        extended_defCfa cie register distance (rest_skip (n := 1) hs rfl),
        skip_skip, skip_skip]
      simp [Instr.bytes, Defined, Nat.add_comm]
  | defCfaRegister register =>
      rw [processInstruction_extended 0x0d (by decide) hs,
        extended_register cie register ht
          (rest_skip (w := [0x0d]) (n := 1) hs rfl), skip_skip]
      simp [Instr.bytes, Defined, Nat.add_comm]
  | defCfaOffset distance =>
      rw [processInstruction_extended 0x0e (by decide) hs,
        extended_distance cie distance ht
          (rest_skip (w := [0x0e]) (n := 1) hs rfl), skip_skip]
      simp [Instr.bytes, Defined, Nat.add_comm]
  | offset register factored =>
      rw [processInstruction_primary 0b10#2 register (by decide) hs,
        primary_offset register factored
          (rest_skip (w := [0b10#2 ++ register]) (n := 1) hs rfl),
        skip_skip]
      simp [Instr.bytes, Defined, Nat.add_comm]
  | restore register =>
      rw [processInstruction_primary 0b11#2 register (by decide) hs,
        primary_restore]
      rfl

/-- A byte with one of the top bits is of one of the three kinds. -/
theorem opcode_kinds (opcode : U8) (h : opcode &&& 0xc0 ≠ 0#8) :
    ∃ operand : BitVec 6, opcode = 0b01#2 ++ operand
      ∨ opcode = 0b10#2 ++ operand ∨ opcode = 0b11#2 ++ operand := by
  refine ⟨opcode.setWidth 6, ?_⟩
  revert opcode
  decide

/-- What the dispatch on an opcode delivers on is an instruction. -/
theorem instr_of_primary {opcode : U8} (hopcode : opcode &&& 0xc0 ≠ 0#8)
    {s : DataStream} {r : VirtTable × DataStream}
    (h : primaryInstruction cie t opcode s = .ok r) :
    ∃ (i : Instr) (rest : List U8),
      opcode :: s.rest = i.bytes ++ rest ∧ Defined i := by
  obtain ⟨operand, hkind⟩ := opcode_kinds opcode hopcode
  rcases hkind with rfl | rfl | rfl
  · exact ⟨.advanceLoc operand, s.rest, rfl, trivial⟩
  · have hkind : ((0b10#2 ++ operand : U8) &&& 0xc0).toNat = 0x80 :=
      (opcode_primary 0b10#2 operand (by decide)).2
    unfold primaryInstruction at h
    rw [hkind] at h
    obtain ⟨_, hoffset, -⟩ := bind_eq_ok.1 h
    obtain ⟨factored, rest, hs, hsize⟩ := encoding_of_uleb hoffset
    exact ⟨.offset operand factored, rest, by rw [hs]; rfl, hsize⟩
  · exact ⟨.restore operand, s.rest, rfl, trivial⟩

/-- The opcodes that have no instruction. -/
theorem extended_exit {opcode : U8} (h : opcode ≠ 0x00 ∧ opcode ≠ 0x02
    ∧ opcode ≠ 0x0c ∧ opcode ≠ 0x0d ∧ opcode ≠ 0x0e) :
    extendedInstruction t opcode = throw .exit := by
  obtain ⟨h00, h02, h0c, h0d, h0e⟩ := h
  unfold extendedInstruction
  split
  next hn => exact absurd (eq_of_toNat hn) h00
  next hn => exact absurd (eq_of_toNat hn) h02
  next hn => exact absurd (eq_of_toNat hn) h0c
  next hn => exact absurd (eq_of_toNat hn) h0d
  next hn => exact absurd (eq_of_toNat hn) h0e
  next => rfl

/-- What an extended opcode has read is one of the instructions. -/
theorem instr_of_extended {opcode : U8} {s : DataStream}
    {r : VirtTable × DataStream} (ht : t.back.isCfaLocExpr = false)
    (h : extendedInstruction t opcode s = .ok r) :
    ∃ (i : Instr) (rest : List U8),
      opcode :: s.rest = i.bytes ++ rest ∧ Defined i := by
  by_cases h00 : opcode = 0x00
  · subst h00
    exact ⟨.nop, s.rest, rfl, trivial⟩
  by_cases h02 : opcode = 0x02
  · subst h02
    obtain ⟨⟨delta, _⟩, hdelta, -⟩ := bind_eq_ok.1 h
    obtain ⟨hs, -⟩ := front_of_uint8 hdelta
    exact ⟨.advanceLoc1 delta, _, by rw [hs]; rfl, trivial⟩
  by_cases h0c : opcode = 0x0c
  · subst h0c
    obtain ⟨⟨_, s'⟩, hregister, h⟩ := bind_eq_ok.1 h
    obtain ⟨register, rest, hs, hsize⟩ := encoding_of_uleb hregister
    obtain ⟨-, rfl⟩ := Prod.mk.inj (uleb_of_ok hs hregister).2
    obtain ⟨_, hdistance, -⟩ := bind_eq_ok.1 h
    obtain ⟨distance, rest', hs', hsize'⟩ := encoding_of_uleb hdistance
    rw [rest_skip hs (Leb128.length_bytes register)] at hs'
    refine ⟨.defCfa register distance, rest', ?_, hsize, hsize'⟩
    rw [hs, hs', ← List.append_assoc]
    rfl
  by_cases h0d : opcode = 0x0d
  · subst h0d
    have hrun : ((if t.back.isCfaLocExpr = true then _ else _
      : Decoder VirtTable) s) = .ok r := h
    rw [if_neg (by rw [ht]; simp)] at hrun
    obtain ⟨_, hregister, -⟩ := bind_eq_ok.1 hrun
    obtain ⟨register, rest, hs, hsize⟩ := encoding_of_uleb hregister
    exact ⟨.defCfaRegister register, rest, by rw [hs]; rfl, hsize⟩
  by_cases h0e : opcode = 0x0e
  · subst h0e
    have hrun : ((if t.back.isCfaLocExpr = true then _ else _
      : Decoder VirtTable) s) = .ok r := h
    rw [if_neg (by rw [ht]; simp)] at hrun
    obtain ⟨_, hdistance, -⟩ := bind_eq_ok.1 hrun
    obtain ⟨distance, rest, hs, hsize⟩ := encoding_of_uleb hdistance
    exact ⟨.defCfaOffset distance, rest, by rw [hs]; rfl, hsize⟩
  rw [extended_exit ⟨h00, h02, h0c, h0d, h0e⟩] at h
  cases h

/-- What a round delivers on is an instruction. -/
theorem instr_of_processInstruction (ht : t.back.isCfaLocExpr = false)
    {s : DataStream} {r : VirtTable × DataStream}
    (h : processInstruction cie t s = .ok r) :
    ∃ (i : Instr) (rest : List U8), s.rest = i.bytes ++ rest ∧ Defined i := by
  obtain ⟨⟨opcode, _⟩, hopcode, h⟩ := bind_eq_ok.1 h
  obtain ⟨hs, rfl⟩ := front_of_uint8 hopcode
  have hrun : ((if opcode &&& 0xc0 ≠ 0#8 then
        primaryInstruction cie t opcode
      else extendedInstruction t opcode) (s.skip 1)) = .ok r := h
  rw [hs]
  by_cases hprimary : opcode &&& 0xc0 ≠ 0#8
  · rw [if_pos hprimary] at hrun
    exact instr_of_primary hprimary hrun
  · rw [if_neg hprimary] at hrun
    exact instr_of_extended ht hrun

-- ================================================= a list of instructions

/-- What a list of instructions makes of the table. -/
def performAll (cie : CommonInfoEntry) (t : VirtTable)
    (program : List Instr) : VirtTable :=
  program.foldl (perform cie) t

/-- A program behind another one. -/
theorem performAll_append (program program' : List Instr) :
    performAll cie t (program ++ program')
      = performAll cie (performAll cie t program) program' :=
  List.foldl_append

/-- What a list of instructions makes of the two. -/
def final (codeAlignment : Nat) (cfa : U32 × U32) (program : List Instr) :
    U32 × U32 :=
  program.foldl (effect codeAlignment) cfa

/-- A block of `n` bytes is read as these instructions: they are the bytes
in front, and the last one may run past the end of the block. -/
def ReadsAs : List Instr → List U8 → Nat → Prop
  | [], _, n => n = 0
  | i :: program, front, n =>
      0 < n ∧ i.bytes <+: front
        ∧ ReadsAs program (front.drop i.bytes.length) (n - i.bytes.length)

/-- A block of instructions is read as these. -/
theorem readsAs_bytes (program : List Instr) (behind : List U8) :
    ReadsAs program (CallFrame.bytes program ++ behind)
      (CallFrame.bytes program).length := by
  induction program with
  | nil => rfl
  | cons i program ih =>
      have hpos := i.bytes_pos
      rw [CallFrame.bytes_cons, List.append_assoc, List.length_append]
      refine ⟨by omega, List.prefix_append .., ?_⟩
      rw [List.drop_left, Nat.add_sub_cancel_left]
      exact ih

/-- The loop ends with the stream. -/
theorem processLoop_end (fuel : Nat) {s : DataStream}
    (hs : s.isStreamable = false) :
    processLoop cie (fuel + 1) t s = .ok (t, s) := by
  show ((if s.isStreamable then _ else _ : Decoder VirtTable)) s = _
  rw [if_neg (by rw [hs]; simp)]
  rfl

/-- Before that it is a round, and the loop again. -/
theorem processLoop_step (fuel : Nat) {s : DataStream}
    (hs : s.isStreamable = true) :
    processLoop cie (fuel + 1) t s
      = processInstruction cie t s >>= fun r =>
          processLoop cie fuel r.1 r.2 := by
  show ((if s.isStreamable then _ else _ : Decoder VirtTable)) s = _
  rw [if_pos hs]
  rfl

/-- What is left of a block behind an instruction. -/
theorem left_skip (s : DataStream) (n : Nat) :
    (s.skip n).streamLen - (s.skip n).index = s.streamLen - s.index - n :=
  (Nat.sub_sub ..).symm

/-- A program leaves what it says, by induction on the instructions. -/
theorem leaves_performAll (program : List Instr)
    (hcaf : cie.codeAlignmentFactor.setWidth 32
      = BitVec.ofNat 32 codeAlignment) (ht : t.back.isCfaLocExpr = false) :
    Leaves (performAll cie t program)
      (final codeAlignment (cfaOf t) program) := by
  induction program generalizing t with
  | nil => exact ⟨ht, rfl⟩
  | cons i program ih =>
      obtain ⟨hexpr, hcfa⟩ := leaves_perform i hcaf ht
      have hrest := ih hexpr
      rw [hcfa] at hrest
      exact hrest

/-- No instruction makes the CFA an expression. -/
theorem perform_isCfaLocExpr (i : Instr) :
    (perform cie t i).back.isCfaLocExpr = t.back.isCfaLocExpr := by
  cases i <;> rfl

/-- So no program does. -/
theorem performAll_isCfaLocExpr (program : List Instr) :
    (performAll cie t program).back.isCfaLocExpr
      = t.back.isCfaLocExpr := by
  induction program generalizing t with
  | nil => rfl
  | cons i program ih => exact ih.trans (perform_isCfaLocExpr i)

/-- The loop carries out every instruction that the block is read as. -/
theorem processLoop_run (program : List Instr)
    (ht : t.back.isCfaLocExpr = false) {s : DataStream} {fuel : Nat}
    (hdata : s.data.isSome = true)
    (hread : ReadsAs program s.rest (s.streamLen - s.index))
    (hfuel : s.rest.length < fuel) :
    (processLoop cie fuel t s).map Prod.fst
      = if ∀ i ∈ program, Defined i then .ok (performAll cie t program)
        else .error (.undefined .shiftCount) := by
  induction program generalizing t s fuel with
  | nil =>
      obtain ⟨fuel, rfl⟩ : ∃ k, fuel = k + 1 := ⟨fuel - 1, by omega⟩
      have hstop : s.isStreamable = false :=
        (isStreamable_eq_false_iff hdata).2 (Nat.sub_eq_zero_iff_le.1 hread)
      rw [processLoop_end fuel hstop, if_pos (by simp)]
      rfl
  | cons i program ih =>
      obtain ⟨fuel, rfl⟩ : ∃ k, fuel = k + 1 := ⟨fuel - 1, by omega⟩
      obtain ⟨hleft, ⟨rest, hrest⟩, hread⟩ := hread
      have hgo : s.isStreamable = true :=
        (isStreamable_iff hdata).2 (Nat.sub_pos_iff_lt.1 hleft)
      have hpos := i.bytes_pos
      have hskip : (s.skip i.bytes.length).rest
          = s.rest.drop i.bytes.length := Decode.Cursor.rest_skip _ s
      have hshorter : (s.skip i.bytes.length).rest.length < fuel := by
        have hlength := congrArg List.length hrest
        rw [List.length_append] at hlength
        rw [hskip, List.length_drop]
        omega
      rw [processLoop_step fuel hgo, processInstruction_run i ht hrest.symm]
      by_cases hdef : Defined i
      · rw [if_pos hdef, ok_bind]
        refine (ih (s := s.skip i.bytes.length)
          ((perform_isCfaLocExpr i).trans ht) hdata
          (by rw [hskip, left_skip]; exact hread) hshorter).trans ?_
        simp only [List.forall_mem_cons, hdef, true_and]
        rfl
      · rw [if_neg hdef, if_neg fun h => hdef (h i List.mem_cons_self)]
        rfl

/-- A block that the loop gets through is read as some instructions. -/
theorem readsAs_of_processLoop
    (ht : t.back.isCfaLocExpr = false) {s : DataStream} {fuel : Nat}
    (hdata : s.data.isSome = true) {r : VirtTable × DataStream}
    (h : processLoop cie fuel t s = .ok r) :
    ∃ program, ReadsAs program s.rest (s.streamLen - s.index)
      ∧ ∀ i ∈ program, Defined i := by
  induction fuel generalizing t s with
  | zero => cases h
  | succ fuel ih =>
      cases hgo : s.isStreamable with
      | false =>
          have hend := (isStreamable_eq_false_iff hdata).1 hgo
          exact ⟨[], Nat.sub_eq_zero_iff_le.2 hend, by simp⟩
      | true =>
          rw [processLoop_step fuel hgo] at h
          obtain ⟨⟨t₁, s₁⟩, hstep, hloop⟩ := bind_eq_ok.1 h
          obtain ⟨i, rest, hs, hdef⟩ := instr_of_processInstruction ht hstep
          have hrun : processInstruction cie t s = _ :=
            processInstruction_run i ht hs
          rw [if_pos hdef, hstep] at hrun
          obtain ⟨rfl, rfl⟩ := Prod.mk.inj (Except.ok.inj hrun)
          obtain ⟨program, hread, hall⟩ := ih
            (s := s.skip i.bytes.length)
            ((perform_isCfaLocExpr i).trans ht) hdata hloop
          have hleft := Nat.sub_pos_iff_lt.2 ((isStreamable_iff hdata).1 hgo)
          rw [left_skip, show (s.skip i.bytes.length).rest
            = s.rest.drop i.bytes.length from Decode.Cursor.rest_skip _ s]
            at hread
          exact ⟨i :: program, ⟨hleft, ⟨rest, hs.symm⟩, hread⟩,
            List.forall_mem_cons.2 ⟨hdef, hall⟩⟩

-- ================================================================ a block

/-- The loop has a round for every byte of the block, and one more. -/
theorem processInstructions_eq (start : Option (List U8)) {n : Nat}
    (hn : n < 2 ^ 64) :
    processInstructions t cie start (BitVec.ofNat 64 n)
      = (processLoop cie ((DataStream.mk start 0 n).rest.length + 1) t
          ⟨start, 0, n⟩).map Prod.fst := by
  unfold processInstructions
  rw [BitVec.toNat_ofNat, Nat.mod_eq_of_lt hn]
  show (processLoop cie _ t ⟨start, 0, n⟩ >>= _) = _
  cases processLoop cie _ t ⟨start, 0, n⟩ with
  | error e => rfl
  | ok r => rfl

/-- `processInstructions` of the block carries out these instructions, on
any table. -/
def Carries (cie : CommonInfoEntry) (start : Option (List U8)) (size : U64)
    (program : List Instr) : Prop :=
  ∀ t : VirtTable, t.back.isCfaLocExpr = false →
    processInstructions t cie start size
      = if ∀ i ∈ program, Defined i then .ok (performAll cie t program)
        else .error (.undefined .shiftCount)

/-- A block that is read as these instructions. -/
theorem carries_readsAs (cie : CommonInfoEntry) (program : List Instr)
    {block : List U8} (following behind : List U8)
    (hlen : block.length < 2 ^ 64)
    (hread : ReadsAs program (block ++ (following ++ behind))
      block.length) :
    Carries cie (pointerTo (block ++ following) behind)
      (BitVec.ofNat 64 block.length) program := by
  intro t ht
  rw [processInstructions_eq _ hlen]
  by_cases hnull : block ++ following = []
  · obtain ⟨rfl, -⟩ := List.append_eq_nil_iff.1 hnull
    rw [pointerTo, if_pos hnull, processLoop_end _ rfl]
    cases program with
    | nil => exact (if_pos (by simp)).symm
    | cons i program => exact absurd hread.1 (Nat.lt_irrefl 0)
  · rw [← List.append_assoc] at hread
    rw [pointerTo, if_neg hnull]
    exact processLoop_run program ht rfl hread (Nat.lt_succ_self _)

/-- A block that it gets through is read as some instructions. -/
theorem readsAs_of_processInstructions {block following behind : List U8}
    (ht : t.back.isCfaLocExpr = false) (hlen : block.length < 2 ^ 64)
    {t' : VirtTable}
    (h : processInstructions t cie (pointerTo (block ++ following) behind)
      (BitVec.ofNat 64 block.length) = .ok t') :
    ∃ program, ReadsAs program (block ++ (following ++ behind))
        block.length
      ∧ ∀ i ∈ program, Defined i := by
  rw [processInstructions_eq _ hlen] at h
  by_cases hnull : block ++ following = []
  · obtain ⟨rfl, -⟩ := List.append_eq_nil_iff.1 hnull
    exact ⟨[], rfl, by simp⟩
  · rw [pointerTo, if_neg hnull] at h
    obtain ⟨r, hloop, -⟩ := map_eq_ok.1 h
    rw [← List.append_assoc]
    exact readsAs_of_processLoop ht rfl hloop

-- =============================================================== both blocks

/-- Both blocks are carried out, the common one first. -/
theorem generateVirtTable_of_cie {info : CallFrameInfo} {l1 : U32}
    {fde : FrameDescriptEntry} {cie : CommonInfoEntry}
    (hfde : info.findFde l1 = some fde)
    (hcie : info.cies.lookup (fde.ciePointer.setWidth 64) = some cie) :
    info.generateVirtTable l1 = (do
      let t : VirtTable :=
        ⟨[], TableEntry.initial.setLocation fde.initialLocation⟩
      let t ← processInstructions t cie cie.initialInstructions
        cie.instructionsBlockSize
      let t ← processInstructions t cie fde.instructions
        fde.instructionsBlockSize
      pure (some t)) := by
  simp only [CallFrameInfo.generateVirtTable, hfde, hcie]

/-- The table is what the instructions of both blocks leave. -/
theorem generateVirtTable_carries {info : CallFrameInfo} {l1 : U32}
    {fde : FrameDescriptEntry} {initial program : List Instr}
    (hfde : info.findFde l1 = some fde)
    (hcie : info.cies.lookup (fde.ciePointer.setWidth 64) = some cie)
    (hinitial : Carries cie cie.initialInstructions
      cie.instructionsBlockSize initial)
    (hprogram : Carries cie fde.instructions fde.instructionsBlockSize
      program) :
    info.generateVirtTable l1
      = if ∀ i ∈ initial ++ program, Defined i then
          .ok (some (performAll cie
            ⟨[], TableEntry.initial.setLocation fde.initialLocation⟩
            (initial ++ program)))
        else .error (.undefined .shiftCount) := by
  let first : VirtTable :=
    ⟨[], TableEntry.initial.setLocation fde.initialLocation⟩
  have hexpr : (performAll cie first initial).back.isCfaLocExpr = false :=
    performAll_isCfaLocExpr initial
  rw [generateVirtTable_of_cie hfde hcie]
  show (processInstructions first cie _ _ >>= _) = _
  rw [hinitial first rfl]
  by_cases hdef : ∀ i ∈ initial, Defined i
  · rw [if_pos hdef, ok_bind]
    show (processInstructions (performAll cie first initial) cie _ _ >>= _)
      = _
    rw [hprogram _ hexpr]
    by_cases hdef' : ∀ i ∈ program, Defined i
    · rw [if_pos hdef', if_pos (List.forall_mem_append.2 ⟨hdef, hdef'⟩),
        performAll_append]
      rfl
    · rw [if_neg hdef', if_neg fun h =>
        hdef' (List.forall_mem_append.1 h).2]
      rfl
  · rw [if_neg hdef, if_neg fun h => hdef (List.forall_mem_append.1 h).1]
    rfl

end T89Emu.Dwarf
