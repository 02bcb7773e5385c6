/-
What the loop over a line program makes of the instructions in it.

`perform` is one round on an instruction that is given, its operands
delivered or not (`step_takes`). Of an unknown instruction the round
takes the head only, and leaves the machine as it is. The loop over the
heads of a list of instructions performs them one after the other
(`loop_heads`).
-/
import T89Emu.Dwarf.LineNumberInfo
import T89Emu.Dwarf.Proofs.DebugInfo
import T89Emu.Lib.Dwarf.LineItem

namespace T89Emu.Dwarf

open Cpp Decode Bytes LineProgram

/-- The standard's view of a header. -/
def headerOf (h : ProgramHeader) : Header where
  minimumInstructionLength := h.minimumInstructionLength.toNat
  maximumOperationsPerInstruction :=
    h.maximumOperationsPerInstruction.toNat
  defaultIsStmt := h.defaultIsStmt ≠ 0#8
  lineBase := h.lineBase.toInt
  lineRange := h.lineRange.toNat
  opcodeBase := h.opcodeBase.toNat

-- ============================================================ one round

/-- What a round makes of the head of an instruction. -/
def LineMachine.perform (h : ProgramHeader) (m : LineMachine) :
    Item → Proc LineMachine
  | .known (.special opcode) => m.specialOpcode h opcode
  | .known .copy => pure m.pushEntry.resetFlags
  | .known (.advancePc advance) => do
      m.advance h ((← ulebOutcome advance).setWidth 32)
  | .known (.advanceLine advance) => do
      let delta ← slebOutcome advance
      pure { m with line := m.line + delta.setWidth 32 }
  | .known (.setFile file) => do
      let file ← ulebOutcome file
      pure { m with file := file.setWidth 32 }
  | .known (.setColumn column) => do
      let column ← ulebOutcome column
      pure { m with column := column.setWidth 32 }
  | .known .negateStmt => pure { m with isStmt := !m.isStmt }
  | .known .setBasicBlock => pure { m with basicBlock := true }
  | .known .constAddPc => do
      let adjustedOpcode := (255#8 - h.opcodeBase).setWidth 32
      m.advance h (← operationAdvance h adjustedOpcode)
  | .known (.fixedAdvancePc advance) =>
      pure { m with
        address := m.address + advance.setWidth 32, opIndex := 0 }
  | .known .setPrologueEnd => pure { m with prologueEnd := true }
  | .known .setEpilogueBegin => pure { m with epilogueBegin := true }
  | .known (.setIsa isa) => do
      let isa ← ulebOutcome isa
      pure { m with isa := isa.setWidth 32 }
  | .known (.endSequence length) => do
      let _ ← ulebOutcome length
      pure ({ m with endSequence := true }.pushEntry.clearRegisters h)
  | .known (.setAddress length address) => do
      let _ ← ulebOutcome length
      pure { m with address, opIndex := 0 }
  | .known (.setDiscriminator length discriminator) => do
      let _ ← ulebOutcome length
      let discriminator ← ulebOutcome discriminator
      pure { m with discriminator := discriminator.setWidth 32 }
  | .standard _ _ => pure m
  | .extended length _ _ => do
      let _ ← ulebOutcome length
      pure m

/-- The switch of `extendedOpcode`. -/
def LineMachine.extendedSwitch (h : ProgramHeader) (m : LineMachine)
    (opcode : U8) : Decoder LineMachine := do
  match opcode.toNat with
  | 0x01 =>
      pure ({ m with endSequence := true }.pushEntry.clearRegisters h)
  | 0x02 =>
      let address ← decodeUInt32
      pure { m with address, opIndex := 0 }
  | 0x04 =>
      let discriminator ← decodeULeb128
      pure { m with discriminator := discriminator.setWidth 32 }
  | _ => pure m

variable {h : ProgramHeader} {m : LineMachine}

/-- A standard opcode, and its operands behind it. -/
theorem takes_standard {opcode : U8} {word : List U8}
    {x : Proc LineMachine} (hbase : opcode.toNat < h.opcodeBase.toNat)
    (h0 : opcode ≠ 0#8)
    (hrun : Takes (m.standardOpcode h opcode) word x) :
    Takes (m.step h) (opcode :: word) x := by
  refine Takes.after (reads_uint8 opcode) ?_
  rw [if_neg (by rw [BitVec.le_def]; omega), if_pos h0]
  exact hrun

/-- The length of an extended opcode is delivered or not; its value does
not matter. -/
theorem takes_extended {length : Leb128} {opcode : U8} {word : List U8}
    {x : Proc LineMachine} (hbase : 0 < h.opcodeBase.toNat)
    (hrun : Takes (m.extendedSwitch h opcode) word x) :
    Takes (m.step h) (0 :: (length.bytes ++ (opcode :: word)))
      (ulebOutcome length >>= fun _ => x) := by
  refine Takes.after (reads_uint8 0) ?_
  have hzero : ¬ h.opcodeBase ≤ (0 : U8) := fun hle => by
    rw [BitVec.le_def] at hle
    have h0 : (0 : U8).toNat = 0 := rfl
    omega
  rw [if_neg hzero, if_neg (by decide)]
  exact (takes_uleb length).bind fun _ =>
    Takes.after (reads_uint8 opcode) hrun

/-- An operand that ends up in a register. -/
theorem takes_operand (e : Leb128) (f : U32 → LineMachine) :
    Takes (do
      let value ← decodeULeb128
      pure (f (value.setWidth 32))) e.bytes (do
      let value ← ulebOutcome e
      pure (f (value.setWidth 32))) :=
  (takes_uleb e).then fun _ => Takes.lift (.ok _)

/-- A number above 12 is none of the standard opcodes that are known. -/
theorem standardOpcode_unknown {opcode : U8} (hopcode : 12 < opcode.toNat) :
    m.standardOpcode h opcode = pure m := by
  rw [LineMachine.standardOpcode]
  split
  all_goals first
    | rfl
    | omega

/-- Nor is another number than 1, 2 and 4 an extended one. -/
theorem extended_unknown {opcode : U8}
    (hopcode : opcode.toNat ∉ [1, 2, 4]) :
    m.extendedSwitch h opcode = pure m := by
  rw [LineMachine.extendedSwitch]
  split
  all_goals first
    | rfl
    | simp_all

/-- A round takes the head of an instruction. -/
theorem step_takes (m : LineMachine) {i : Item}
    (hi : i.Announced (headerOf h)) :
    Takes (m.step h) i.head (m.perform h i) := by
  cases i with
  | standard opcode operands =>
      obtain ⟨hopcode, hbase⟩ := hi
      refine takes_standard hbase ?_ ?_
      · rintro rfl
        exact absurd hopcode (by decide)
      · rw [standardOpcode_unknown hopcode]
        exact Takes.lift (.ok m)
  | extended length opcode payload =>
      obtain ⟨hbase, hopcode⟩ := hi
      refine takes_extended hbase ?_
      rw [extended_unknown hopcode]
      exact Takes.lift (.ok m)
  | known i =>
      cases i with
      | special opcode =>
          refine Takes.after (w := []) (reads_uint8 opcode) ?_
          rw [if_pos (BitVec.le_def.2 hi)]
          exact Takes.lift _
      | copy => exact takes_standard hi (by decide) (Takes.lift (.ok _))
      | advancePc advance =>
          exact takes_standard hi (by decide)
            ((takes_uleb advance).then fun _ => Takes.lift _)
      | advanceLine advance =>
          exact takes_standard hi (by decide)
            ((takes_leb advance).then fun _ => Takes.lift (.ok _))
      | setFile file =>
          exact takes_standard hi (by decide)
            (takes_operand file fun file => { m with file })
      | setColumn column =>
          exact takes_standard hi (by decide)
            (takes_operand column fun column => { m with column })
      | negateStmt =>
          exact takes_standard hi (by decide) (Takes.lift (.ok _))
      | setBasicBlock =>
          exact takes_standard hi (by decide) (Takes.lift (.ok _))
      | constAddPc =>
          exact takes_standard hi (by decide)
            ((Takes.lift _).then fun _ => Takes.lift _)
      | fixedAdvancePc advance =>
          exact takes_standard hi (by decide)
            (Takes.after (w := []) (reads_uint16 advance)
              (Takes.lift (.ok _)))
      | setPrologueEnd =>
          exact takes_standard hi (by decide) (Takes.lift (.ok _))
      | setEpilogueBegin =>
          exact takes_standard hi (by decide) (Takes.lift (.ok _))
      | setIsa isa =>
          exact takes_standard hi (by decide)
            (takes_operand isa fun isa => { m with isa })
      | endSequence length =>
          exact @takes_extended h m length 1 _ _ hi (Takes.lift (.ok _))
      | setAddress length address =>
          exact @takes_extended h m length 2 _ _ hi
            (Takes.after (w := []) (reads_uint32 address)
              (Takes.lift (.ok _)))
      | setDiscriminator length discriminator =>
          exact @takes_extended h m length 4 _ _ hi
            (takes_operand discriminator fun discriminator =>
              { m with discriminator })

-- ============================================================ its outcome

/-- The operands are delivered, and no divisor is zero. -/
def Performable (h : ProgramHeader) : Item → Prop
  | .known (.special _) | .known .constAddPc =>
      h.lineRange ≠ 0 ∧ h.maximumOperationsPerInstruction ≠ 0
  | .known (.advancePc advance) =>
      advance.size ≤ 5 ∧ h.maximumOperationsPerInstruction ≠ 0
  | .known (.advanceLine advance) => LebDefined advance
  | .known (.setFile e) | .known (.setColumn e) | .known (.setIsa e) =>
      e.size ≤ 5
  | .known (.endSequence length) | .known (.setAddress length _) =>
      length.size ≤ 5
  | .known (.setDiscriminator length discriminator) =>
      length.size ≤ 5 ∧ discriminator.size ≤ 5
  | .extended length _ _ => length.size ≤ 5
  | .standard _ _ | .known .copy | .known .negateStmt
  | .known .setBasicBlock | .known (.fixedAdvancePc _)
  | .known .setPrologueEnd | .known .setEpilogueBegin => True

/-- It succeeds exactly under the condition, and then `n` rows have been
appended. -/
structure Yields (P : Prop) (n : Nat) (m : LineMachine)
    (x : Proc LineMachine) : Prop where
  succeeds : P ↔ ∃ m', x = .ok m'
  rows : ∀ m', x = .ok m' →
    m'.lineMatrix.length = m.lineMatrix.length + n

/-- A round that cannot fail. -/
theorem Yields.pure {m' : LineMachine} {n : Nat}
    (hrows : m'.lineMatrix.length = m.lineMatrix.length + n) :
    Yields True n m (.ok m') where
  succeeds := iff_of_true trivial ⟨m', rfl⟩
  rows := fun _ h => Except.ok.inj h ▸ hrows

/-- The condition may be put in another way. -/
theorem Yields.congr {P Q : Prop} {n : Nat} {x : Proc LineMachine}
    (h : Yields P n m x) (hPQ : P ↔ Q) : Yields Q n m x :=
  ⟨hPQ.symm.trans h.succeeds, h.rows⟩

/-- What succeeds or fails first. -/
theorem Yields.first {α : Type} {P Q : Prop} {n : Nat} {x : Proc α}
    {f : α → Proc LineMachine} (hx : P ↔ ∃ a, x = .ok a)
    (hf : ∀ a, x = .ok a → Yields Q n m (f a)) :
    Yields (P ∧ Q) n m (x >>= f) where
  succeeds := by
    constructor
    · rintro ⟨hP, hQ⟩
      obtain ⟨a, ha⟩ := hx.1 hP
      obtain ⟨m', hm'⟩ := (hf a ha).succeeds.1 hQ
      exact ⟨m', bind_eq_ok.2 ⟨a, ha, hm'⟩⟩
    · rintro ⟨m', h⟩
      obtain ⟨a, ha, hm'⟩ := bind_eq_ok.1 h
      exact ⟨hx.2 ⟨a, ha⟩, (hf a ha).succeeds.2 ⟨m', hm'⟩⟩
  rows := by
    intro m' h
    obtain ⟨a, ha, hm'⟩ := bind_eq_ok.1 h
    exact (hf a ha).rows m' hm'

/-- When nothing behind it can fail. -/
theorem Yields.only {α : Type} {P : Prop} {n : Nat} {x : Proc α}
    {f : α → LineMachine} (hx : P ↔ ∃ a, x = .ok a)
    (hrows : ∀ a, (f a).lineMatrix.length = m.lineMatrix.length + n) :
    Yields P n m (x >>= fun a => .ok (f a)) :=
  (Yields.first hx fun a _ => Yields.pure (hrows a)).congr
    (and_iff_left trivial)

/-- A number is delivered exactly if it is short enough. -/
theorem ulebOutcome_ok (e : Leb128) :
    e.size ≤ 5 ↔ ∃ v, ulebOutcome e = .ok v := by
  unfold ulebOutcome
  split
  · exact iff_of_true ‹_› ⟨_, rfl⟩
  · exact iff_of_false ‹_› nofun

/-- One with a sign is delivered if its shifts are defined. -/
theorem slebOutcome_ok (e : Leb128) :
    LebDefined e ↔ ∃ v, slebOutcome e = .ok v := by
  unfold slebOutcome
  split
  · exact iff_of_true ‹_› ⟨_, rfl⟩
  · exact iff_of_false ‹_› nofun

/-- A byte as a divisor. -/
theorem divisor_ne_zero {b : U8} (hb : 0 < b.toNat) :
    b.setWidth 32 ≠ 0#32 := by
  intro h
  have hnat := congrArg BitVec.toNat h
  rw [BitVec.toNat_setWidth] at hnat
  have hlt := b.isLt
  simp only [BitVec.toNat_ofNat] at hnat
  omega

/-- A byte as a divisor is zero when it is. -/
theorem divisor_eq_zero (b : U8) : b.setWidth 32 = 0#32 ↔ b = 0 := by
  constructor
  · intro h
    by_contra hb
    exact divisor_ne_zero (Nat.pos_of_ne_zero fun h0 =>
      hb (BitVec.eq_of_toNat_eq h0)) h
  · rintro rfl
    rfl

/-- A division is defined exactly if the divisor is not 0. -/
theorem divide_ok (a : U32) (b : U8) :
    b ≠ 0 ↔ ∃ q, LineMachine.divide a (b.setWidth 32) = .ok q := by
  rw [LineMachine.divide, Ne, ← divisor_eq_zero]
  split
  · exact iff_of_false (not_not.2 ‹_›) (by rintro ⟨_, ⟨⟩⟩)
  · exact iff_of_true ‹_› ⟨_, rfl⟩

/-- And so is its remainder. -/
theorem remainder_ok (a : U32) (b : U8) :
    b ≠ 0 ↔ ∃ q, LineMachine.remainder a (b.setWidth 32) = .ok q := by
  rw [LineMachine.remainder, Ne, ← divisor_eq_zero]
  split
  · exact iff_of_false (not_not.2 ‹_›) (by rintro ⟨_, ⟨⟩⟩)
  · exact iff_of_true ‹_› ⟨_, rfl⟩

/-- Advancing divides by the operations of an instruction, twice. -/
theorem advance_yields (m : LineMachine) (operationAdvance : U32) :
    Yields (h.maximumOperationsPerInstruction ≠ 0) 0 m
      (m.advance h operationAdvance) := by
  have haddress : h.maximumOperationsPerInstruction ≠ 0
      ↔ ∃ address, m.getNewAddress h operationAdvance = .ok address := by
    refine (divide_ok (m.opIndex + operationAdvance) _).trans
      ⟨fun ⟨q, hq⟩ => ⟨_, bind_eq_ok.2 ⟨q, hq, rfl⟩⟩, fun ⟨a, ha⟩ => ?_⟩
    obtain ⟨q, hq, -⟩ := bind_eq_ok.1 ha
    exact ⟨q, hq⟩
  exact (Yields.first haddress fun _ _ =>
    Yields.only (remainder_ok ..) fun _ => rfl).congr (and_self_iff)

/-- What follows an advance. -/
theorem Yields.advanced {P : Prop} {n : Nat} {operationAdvance : U32}
    {f : LineMachine → Proc LineMachine}
    (hf : ∀ m', m'.lineMatrix = m.lineMatrix → Yields P n m (f m')) :
    Yields (h.maximumOperationsPerInstruction ≠ 0 ∧ P) n m
      (m.advance h operationAdvance >>= f) := by
  refine Yields.first (advance_yields m operationAdvance).succeeds
    fun m' hm' => hf m' ?_
  obtain ⟨address, -, hm'⟩ := bind_eq_ok.1 hm'
  obtain ⟨opIndex, -, hm'⟩ := bind_eq_ok.1 hm'
  exact Except.ok.inj hm' ▸ rfl

/-- A special opcode divides by the range as well. -/
theorem specialOpcode_yields (m : LineMachine) (opcode : U8) :
    Yields (h.lineRange ≠ 0 ∧ h.maximumOperationsPerInstruction ≠ 0) 1 m
      (m.specialOpcode h opcode) := by
  refine (Yields.first (divide_ok _ h.lineRange) fun _ _ =>
    Yields.advanced fun m' hrows =>
      Yields.only (remainder_ok _ h.lineRange) fun _ => ?_).congr
      ⟨fun hP => ⟨hP.1, hP.2.1⟩, fun hP => ⟨hP.1, hP.2, hP.1⟩⟩
  simp [LineMachine.pushEntry, LineMachine.resetFlags, hrows]

/-- What a round makes of an instruction, in outline. -/
theorem perform_yields (m : LineMachine) (i : Item) :
    Yields (Performable h i) i.appends m (m.perform h i) := by
  cases i with
  | standard opcode operands => exact Yields.pure rfl
  | extended length opcode payload =>
      exact Yields.only (ulebOutcome_ok length) fun _ => rfl
  | known i =>
      cases i with
      | special opcode => exact specialOpcode_yields m opcode
      | copy => exact Yields.pure (by simp [LineMachine.pushEntry,
          LineMachine.resetFlags, Item.appends, Instr.appends])
      | advancePc advance =>
          exact Yields.first (ulebOutcome_ok advance) fun _ _ =>
            advance_yields m _
      | advanceLine advance =>
          exact Yields.only (slebOutcome_ok advance) fun _ => rfl
      | setFile file => exact Yields.only (ulebOutcome_ok file) fun _ => rfl
      | setColumn column =>
          exact Yields.only (ulebOutcome_ok column) fun _ => rfl
      | negateStmt => exact Yields.pure rfl
      | setBasicBlock => exact Yields.pure rfl
      | constAddPc =>
          exact Yields.first (divide_ok _ h.lineRange) fun _ _ =>
            advance_yields m _
      | fixedAdvancePc advance => exact Yields.pure rfl
      | setPrologueEnd => exact Yields.pure rfl
      | setEpilogueBegin => exact Yields.pure rfl
      | setIsa isa => exact Yields.only (ulebOutcome_ok isa) fun _ => rfl
      | endSequence length =>
          exact Yields.only (ulebOutcome_ok length) fun _ => by
            simp [LineMachine.pushEntry, LineMachine.clearRegisters,
              Item.appends, Instr.appends]
      | setAddress length address =>
          exact Yields.only (ulebOutcome_ok length) fun _ => rfl
      | setDiscriminator length discriminator =>
          exact Yields.first (ulebOutcome_ok length) fun _ _ =>
            Yields.only (ulebOutcome_ok discriminator) fun _ => rfl

-- ============================================================== the loop

/-- A round that takes place, with whatever comes of it. -/
theorem loop_round {fuel : Nat} {s : DataStream}
    (hs : s.isStreamable = true) :
    LineMachine.loop h (fuel + 1) m s
      = m.step h s >>= fun r => LineMachine.loop h fuel r.1 r.2 := by
  rw [LineMachine.loop]
  show ((if s.isStreamable then _ else _ : Decoder LineMachine)) s = _
  rw [if_pos hs]
  rfl

/-- The end of the program. -/
theorem loop_end (fuel : Nat) (m : LineMachine) {s : DataStream}
    (hs : s.isStreamable = false) :
    LineMachine.loop h (fuel + 1) m s = .ok (m, s) := by
  rw [LineMachine.loop]
  show ((if s.isStreamable then _ else _ : Decoder LineMachine)) s = _
  rw [if_neg (by rw [hs]; simp)]
  rfl

/-- The loop performs the instructions whose heads lie in front of it. -/
theorem loop_heads {items : List Item}
    (hitems : ∀ i ∈ items, i.Announced (headerOf h)) {fuel : Nat}
    (hfuel : (items.flatMap Item.head).length < fuel) {s : DataStream}
    {t : List U8} (hs : s.rest = items.flatMap Item.head ++ t)
    (hend : s.index + (items.flatMap Item.head).length = s.streamLen) :
    LineMachine.loop h fuel m s
      = (items.foldlM (LineMachine.perform h) m).map fun m' =>
          (m', s.skip (items.flatMap Item.head).length) := by
  induction items generalizing m fuel s with
  | nil =>
      obtain ⟨fuel, rfl⟩ : ∃ k, fuel = k + 1 := ⟨fuel - 1, by omega⟩
      have hstop : ¬ s.index < s.streamLen := by
        simp only [List.flatMap_nil, List.length_nil] at hend
        omega
      exact loop_end fuel m (by simp [DataStream.isStreamable, hstop])
  | cons i items ih =>
      have hpos := i.head_pos
      obtain ⟨fuel, rfl⟩ : ∃ k, fuel = k + 1 := ⟨fuel - 1, by omega⟩
      rw [List.flatMap_cons, List.length_append] at hfuel hend
      rw [List.flatMap_cons, List.append_assoc] at hs
      have hgo : s.isStreamable = true :=
        (isStreamable_iff (isSome_of_rest hpos hs)).2 (by omega)
      have hstep : m.step h s
          = (m.perform h i).map fun m' => (m', s.skip i.head.length) :=
        step_takes m (hitems i List.mem_cons_self) s _ hs
      rw [loop_round hgo, hstep, List.foldlM_cons]
      cases m.perform h i with
      | error e => rfl
      | ok m' =>
          have htail := ih (m := m')
            (fun j hj => hitems j (List.mem_cons_of_mem i hj))
            (show (items.flatMap Item.head).length < fuel by omega)
            (rest_skip hs rfl) (by simp only [DataStream.skip]; omega)
          show LineMachine.loop h fuel m' (s.skip i.head.length) = _
          rw [htail, List.flatMap_cons, List.length_append]
          simp only [DataStream.skip, Nat.add_assoc]
          rfl

/-- Of a list of instructions that is performed, all are defined, and
each has appended its rows. -/
theorem performed {items : List Item} {m' : LineMachine}
    (h' : items.foldlM (LineMachine.perform h) m = .ok m') :
    (∀ i ∈ items, Performable h i)
      ∧ m'.lineMatrix.length
        = m.lineMatrix.length + (items.map Item.appends).sum := by
  induction items generalizing m with
  | nil =>
      obtain rfl := Except.ok.inj h'
      exact ⟨by simp, rfl⟩
  | cons i items ih =>
      rw [List.foldlM_cons] at h'
      obtain ⟨m₁, hfirst, hrest⟩ := bind_eq_ok.1 h'
      have hyields := perform_yields (h := h) m i
      obtain ⟨hdefined, hlength⟩ := ih hrest
      refine ⟨List.forall_mem_cons.2
        ⟨hyields.succeeds.2 ⟨m₁, hfirst⟩, hdefined⟩, ?_⟩
      rw [hlength, hyields.rows m₁ hfirst, List.map_cons, List.sum_cons,
        Nat.add_assoc]

/-- A list of instructions that are defined is performed. -/
theorem performs {items : List Item}
    (hdefined : ∀ i ∈ items, Performable h i) :
    ∃ m', items.foldlM (LineMachine.perform h) m = .ok m' := by
  induction items generalizing m with
  | nil => exact ⟨m, rfl⟩
  | cons i items ih =>
      obtain ⟨hi, hitems⟩ := List.forall_mem_cons.1 hdefined
      obtain ⟨m₁, hfirst⟩ := (perform_yields m i).succeeds.1 hi
      obtain ⟨m', hrest⟩ := ih hitems (m := m₁)
      exact ⟨m', by rw [List.foldlM_cons, hfirst, ok_bind, hrest]⟩

-- ============================================================== the unit

/-- The stream of a unit with its cursor at the program, whose bytes end
the unit. -/
def lineStream (header program behind : List U8) : DataStream :=
  ⟨some (header ++ (program ++ behind)), header.length,
    (header ++ program).length⟩

/-- The program is in front of the cursor. -/
theorem lineStream_rest (header program behind : List U8) :
    (lineStream header program behind).rest = program ++ behind := by
  simp [lineStream, DataStream.rest]

/-- The machine that the program starts with. -/
def startOf (h : ProgramHeader) : LineMachine :=
  LineMachine.empty.clearRegisters h

/-- The line table of a program without operands of unknown
instructions. -/
theorem matrix_heads {items : List Item}
    (hitems : ∀ i ∈ items, i.Announced (headerOf h))
    (header behind : List U8) :
    generateLineNumberMatrix h
        (lineStream header (items.flatMap Item.head) behind)
      = (items.foldlM (LineMachine.perform h) (startOf h)).map fun m =>
          (m, (lineStream header (items.flatMap Item.head) behind).skip
            (items.flatMap Item.head).length) := by
  refine loop_heads hitems ?_ (lineStream_rest ..) ?_
  · rw [lineStream_rest, List.length_append]
    omega
  · simp [lineStream]

end T89Emu.Dwarf
