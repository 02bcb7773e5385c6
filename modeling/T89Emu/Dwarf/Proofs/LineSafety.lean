/-
A line program that is malformed.

The loop always ends, because a round that succeeds has read something
(`loop_terminates`). Otherwise it comes through in the bytes of the unit
exactly when these are a sequence of heads of instructions whose operands
are delivered and whose divisors are not zero (`line_unit_safe_iff`):
`isStreamable` is asked in front of an opcode only, so that the operands
of the last one may be taken from what lies behind the unit, and neither
divisor is looked at.
-/
import T89Emu.Dwarf.Proofs.LineProgram

namespace T89Emu.Dwarf

open Cpp Decode Bytes LineProgram

variable {h : ProgramHeader} {m : LineMachine}

-- ========================================================= what was read

/-- The bytes in front of a stream, with an opcode before them, are the
head of an instruction and what follows it. -/
def HeadInFront (h : ProgramHeader) (opcode : U8) (s : DataStream) : Prop :=
  ∃ (i : Item) (t : List U8),
    i.Announced (headerOf h) ∧ opcode :: s.rest = i.head ++ t

/-- A known standard opcode with an operand in front of the stream. -/
theorem head_of_known {opcode : U8} {s : DataStream} {w t : List U8}
    (i : Instr) (hi : i.Announced (headerOf h))
    (hbytes : i.bytes = opcode :: w) (hs : s.rest = w ++ t) :
    HeadInFront h opcode s :=
  ⟨.known i, t, hi, by rw [hs, Item.head, hbytes]; rfl⟩

/-- A standard opcode that returns had its operands in front of it. -/
theorem head_of_standard {opcode : U8} {s : DataStream}
    {r : LineMachine × DataStream}
    (hbase : opcode.toNat < h.opcodeBase.toNat) (h0 : opcode ≠ 0#8)
    (hrun : m.standardOpcode h opcode s = .ok r) :
    HeadInFront h opcode s := by
  generalize hp : m.standardOpcode h opcode = p at hrun
  rw [LineMachine.standardOpcode] at hp
  split at hp
  all_goals subst hp
  next hn =>
    obtain rfl := eq_of_toNat hn
    exact head_of_known .copy hbase rfl (t := s.rest) rfl
  next hn =>
    obtain rfl := eq_of_toNat hn
    obtain ⟨_, hadvance, -⟩ := bind_eq_ok.1 hrun
    obtain ⟨e, t, hs, -⟩ := encoding_of_uleb hadvance
    exact head_of_known (.advancePc e) hbase rfl hs
  next hn =>
    obtain rfl := eq_of_toNat hn
    obtain ⟨_, hadvance, -⟩ := bind_eq_ok.1 hrun
    obtain ⟨e, t, hs⟩ := encoding_of_leb hadvance
    exact head_of_known (.advanceLine e) hbase rfl hs
  next hn =>
    obtain rfl := eq_of_toNat hn
    obtain ⟨_, hfile, -⟩ := bind_eq_ok.1 hrun
    obtain ⟨e, t, hs, -⟩ := encoding_of_uleb hfile
    exact head_of_known (.setFile e) hbase rfl hs
  next hn =>
    obtain rfl := eq_of_toNat hn
    obtain ⟨_, hcolumn, -⟩ := bind_eq_ok.1 hrun
    obtain ⟨e, t, hs, -⟩ := encoding_of_uleb hcolumn
    exact head_of_known (.setColumn e) hbase rfl hs
  next hn =>
    obtain rfl := eq_of_toNat hn
    exact head_of_known .negateStmt hbase rfl (t := s.rest) rfl
  next hn =>
    obtain rfl := eq_of_toNat hn
    exact head_of_known .setBasicBlock hbase rfl (t := s.rest) rfl
  next hn =>
    obtain rfl := eq_of_toNat hn
    exact head_of_known .constAddPc hbase rfl (t := s.rest) rfl
  next hn =>
    obtain rfl := eq_of_toNat hn
    obtain ⟨_, hadvance, -⟩ := bind_eq_ok.1 hrun
    obtain ⟨v, t, hs⟩ := front_of_uint16 hadvance
    exact head_of_known (.fixedAdvancePc v) hbase rfl hs
  next hn =>
    obtain rfl := eq_of_toNat hn
    exact head_of_known .setPrologueEnd hbase rfl (t := s.rest) rfl
  next hn =>
    obtain rfl := eq_of_toNat hn
    exact head_of_known .setEpilogueBegin hbase rfl (t := s.rest) rfl
  next hn =>
    obtain rfl := eq_of_toNat hn
    obtain ⟨_, hisa, -⟩ := bind_eq_ok.1 hrun
    obtain ⟨e, t, hs, -⟩ := encoding_of_uleb hisa
    exact head_of_known (.setIsa e) hbase rfl hs
  next h1 h2 h3 h4 h5 h6 h7 h8 h9 h10 h11 h12 =>
    -- none of the twelve numbers, and not 0
    have hpos : opcode.toNat ≠ 0 := fun hn => h0 (eq_of_toNat hn)
    have habove : 12 < opcode.toNat := by grind
    exact ⟨.standard opcode [], s.rest, ⟨habove, hbase⟩, rfl⟩

/-- And so had an extended one, behind its length. -/
theorem head_of_extended {s : DataStream} {r : LineMachine × DataStream}
    (hbase : 0 < h.opcodeBase.toNat) (hrun : m.extendedOpcode h s = .ok r) :
    HeadInFront h 0 s := by
  obtain ⟨⟨_, s₁⟩, hlength, hrun⟩ := bind_eq_ok.1 hrun
  obtain ⟨length, t, hs, -⟩ := encoding_of_uleb hlength
  obtain ⟨-, rfl⟩ := Prod.mk.inj (uleb_of_ok hs hlength).2
  obtain ⟨⟨opcode, s₂⟩, hopcode, hrun⟩ := bind_eq_ok.1 hrun
  obtain ⟨hs₁, rfl⟩ := front_of_uint8 hopcode
  rw [rest_skip hs (Leb128.length_bytes length)] at hs₁
  change t = opcode :: ((s.skip length.size).skip 1).rest at hs₁
  have hswitch : m.extendedSwitch h opcode (_ : DataStream) = .ok r := hrun
  generalize hp : m.extendedSwitch h opcode = p at hswitch
  rw [LineMachine.extendedSwitch] at hp
  split at hp
  all_goals subst hp
  next hn =>
    obtain rfl := eq_of_toNat hn
    refine ⟨.known (.endSequence length),
      ((s.skip length.size).skip 1).rest, hbase, ?_⟩
    rw [hs, hs₁]
    simp [Item.head, Instr.bytes]
  next hn =>
    obtain rfl := eq_of_toNat hn
    obtain ⟨_, haddress, -⟩ := bind_eq_ok.1 hswitch
    obtain ⟨address, t', hs₂⟩ := front_of_uint32 haddress
    refine ⟨.known (.setAddress length address), t', hbase, ?_⟩
    rw [hs, hs₁, hs₂]
    simp [Item.head, Instr.bytes]
  next hn =>
    obtain rfl := eq_of_toNat hn
    obtain ⟨_, hdiscriminator, -⟩ := bind_eq_ok.1 hswitch
    obtain ⟨e, t', hs₂, -⟩ := encoding_of_uleb hdiscriminator
    refine ⟨.known (.setDiscriminator length e), t', hbase, ?_⟩
    rw [hs, hs₁, hs₂]
    simp [Item.head, Instr.bytes]
  next h1 h2 h4 =>
    refine ⟨.extended length opcode [],
      ((s.skip length.size).skip 1).rest, ⟨hbase, ?_⟩, ?_⟩
    · simp only [List.mem_cons, List.not_mem_nil, or_false]
      rintro (hn | hn | hn)
      · exact h1 hn
      · exact h2 hn
      · exact h4 hn
    · rw [hs, hs₁]
      simp [Item.head]

/-- What a round succeeds on begins with an instruction that is defined,
and the round has taken its head. -/
theorem step_sound {s : DataStream} {r : LineMachine × DataStream}
    (hrun : m.step h s = .ok r) :
    ∃ (i : Item) (t : List U8), i.Announced (headerOf h) ∧ Performable h i
      ∧ s.rest = i.head ++ t ∧ r.2 = s.skip i.head.length := by
  have hfront : ∃ (i : Item) (t : List U8),
      i.Announced (headerOf h) ∧ s.rest = i.head ++ t := by
    obtain ⟨⟨opcode, _⟩, hopcode, hround⟩ := bind_eq_ok.1 hrun
    obtain ⟨hs, rfl⟩ := front_of_uint8 hopcode
    rw [hs]
    by_cases hbase : h.opcodeBase ≤ opcode
    · exact ⟨.known (.special opcode), _, BitVec.le_def.1 hbase, rfl⟩
    have hbelow : opcode.toNat < h.opcodeBase.toNat := by
      rw [BitVec.le_def] at hbase
      omega
    have hbranch : ((if opcode ≠ 0#8 then m.standardOpcode h opcode
        else m.extendedOpcode h) (s.skip 1)) = .ok r := by
      rw [← hround]
      show _ = ((if h.opcodeBase ≤ opcode then _ else _
        : Decoder LineMachine) (s.skip 1))
      rw [if_neg hbase]
    by_cases h0 : opcode = 0#8
    · subst h0
      rw [if_neg (not_not.2 rfl)] at hbranch
      exact head_of_extended hbelow hbranch
    · rw [if_pos h0] at hbranch
      exact head_of_standard hbelow h0 hbranch
  obtain ⟨i, t, hi, hs⟩ := hfront
  have hstep := step_takes m hi s t hs
  rw [StateT.run, hrun] at hstep
  obtain ⟨m', hm', rfl⟩ := map_eq_ok.1 hstep.symm
  exact ⟨i, t, hi, (perform_yields m i).succeeds.2 ⟨m', hm'⟩, hs, rfl⟩

-- ============================================================ termination

/-- None of the opcodes has a loop of its own: they can fail, but not run
on. -/
theorem divide_ne_running (a b : U32) :
    LineMachine.divide a b ≠ .error .running := by
  unfold LineMachine.divide
  split <;> exact nofun

/-- The remainder fails where the quotient does. -/
theorem remainder_ne_running (a b : U32) :
    LineMachine.remainder a b ≠ .error .running := by
  unfold LineMachine.remainder
  split <;> exact nofun

/-- An advance divides, and adds. -/
theorem advance_ne_running (operationAdvance : U32) :
    m.advance h operationAdvance ≠ .error .running :=
  bind_ne_error (bind_ne_error (divide_ne_running _ _) fun _ => nofun)
    fun _ => bind_ne_error (remainder_ne_running _ _) fun _ => nofun

/-- A special opcode advances both registers. -/
theorem specialOpcode_ne_running (opcode : U8) :
    m.specialOpcode h opcode ≠ .error .running :=
  bind_ne_error (divide_ne_running _ _) fun _ =>
    bind_ne_error (advance_ne_running _) fun _ =>
      bind_ne_error (remainder_ne_running _ _) fun _ => nofun

/-- A standard opcode decodes a fixed number of operands. -/
theorem standardOpcode_avoids (opcode : U8) :
    Avoids .running (m.standardOpcode h opcode) := by
  rw [LineMachine.standardOpcode]
  split
  next => exact Avoids.pure _
  next =>
    exact avoids_uleb.bind fun _ => Avoids.lift (advance_ne_running _)
  next => exact avoids_leb.bind fun _ => Avoids.pure _
  next => exact avoids_uleb.bind fun _ => Avoids.pure _
  next => exact avoids_uleb.bind fun _ => Avoids.pure _
  next => exact Avoids.pure _
  next => exact Avoids.pure _
  next =>
    exact (Avoids.lift (divide_ne_running _ _)).bind fun _ =>
      Avoids.lift (advance_ne_running _)
  next => exact avoids_uint16.bind fun _ => Avoids.pure _
  next => exact Avoids.pure _
  next => exact Avoids.pure _
  next => exact avoids_uleb.bind fun _ => Avoids.pure _
  next => exact Avoids.pure _

/-- An extended one decodes its length and at most one. -/
theorem extendedOpcode_avoids :
    Avoids .running (m.extendedOpcode h) := by
  refine avoids_uleb.bind fun _ => avoids_uint8.bind fun opcode => ?_
  show Avoids _ (m.extendedSwitch h opcode)
  rw [LineMachine.extendedSwitch]
  split
  next => exact Avoids.pure _
  next => exact avoids_uint32.bind fun _ => Avoids.pure _
  next => exact avoids_uleb.bind fun _ => Avoids.pure _
  next => exact Avoids.pure _

/-- So a round of the program ends. -/
theorem step_avoids : Avoids .running (m.step h) := by
  refine avoids_uint8.bind fun opcode => ?_
  split
  · exact Avoids.lift (specialOpcode_ne_running opcode)
  · split
    · exact standardOpcode_avoids opcode
    · exact extendedOpcode_avoids

/-- The loop ends: every round that succeeds has taken a head. -/
theorem loop_terminates {fuel : Nat} {s : DataStream}
    (hfuel : s.rest.length < fuel) :
    LineMachine.loop h fuel m s ≠ .error .running := by
  induction fuel generalizing m s with
  | zero => omega
  | succ fuel ih =>
      cases hgo : s.isStreamable with
      | false =>
          rw [loop_end fuel m hgo]
          exact nofun
      | true =>
          rw [loop_round hgo]
          intro hrun
          rcases bind_eq_error.1 hrun with hstep | ⟨⟨m', s'⟩, hstep, hloop⟩
          · exact step_avoids s hstep
          · obtain ⟨i, t, -, -, hs, hskip⟩ := step_sound hstep
            obtain rfl : s' = s.skip i.head.length := hskip
            have hpos := i.head_pos
            have hlength := congrArg List.length hs
            rw [List.length_append] at hlength
            refine ih ?_ hloop
            rw [rest_skip hs rfl]
            omega

-- ============================================================== the unit

/-- The loop comes through only on a sequence of such heads. -/
theorem loop_sound {fuel : Nat} {s : DataStream}
    (hdata : s.data.isSome = true)
    (hlen : s.streamLen = s.index + s.rest.length)
    {r : LineMachine × DataStream}
    (hrun : LineMachine.loop h fuel m s = .ok r) :
    ∃ items : List Item, s.rest = items.flatMap Item.head
      ∧ ∀ i ∈ items, i.Announced (headerOf h) ∧ Performable h i := by
  induction fuel generalizing m s with
  | zero => cases hrun
  | succ fuel ih =>
      cases hgo : s.isStreamable with
      | false =>
          have hend := (isStreamable_eq_false_iff hdata).1 hgo
          exact ⟨[], List.length_eq_zero_iff.1 (by omega), by simp⟩
      | true =>
          rw [loop_round hgo] at hrun
          obtain ⟨⟨m', s'⟩, hstep, hloop⟩ := bind_eq_ok.1 hrun
          obtain ⟨i, t, hi, hdefined, hs, hskip⟩ := step_sound hstep
          obtain rfl : s' = s.skip i.head.length := hskip
          have hrest : (s.skip i.head.length).rest = t := rest_skip hs rfl
          have hlength := congrArg List.length hs
          rw [List.length_append] at hlength
          obtain ⟨items, hitems, hall⟩ := ih (s := s.skip i.head.length)
            hdata (by
              rw [hrest]
              simp only [DataStream.skip]
              omega) hloop
          exact ⟨i :: items,
            by rw [hs, List.flatMap_cons, ← hitems, hrest],
            List.forall_mem_cons.2 ⟨⟨hi, hdefined⟩, hall⟩⟩

/-- The machine comes through in the bytes of the unit: nothing it does is
undefined, and what lies behind the unit, perhaps nothing, is not looked
at. -/
def Contained (h : ProgramHeader) (header program : List U8) : Prop :=
  ∃ m, ∀ behind,
    generateLineNumberMatrix h (lineStream header program behind)
      = .ok (m, (lineStream header program behind).skip program.length)

/-- The machine always ends, for every header and every sequence of bytes.
It comes through in the bytes of the unit exactly when these are a
sequence of heads of instructions, each complete, with operands that are
delivered and with divisors that are not zero. -/
theorem line_unit_safe_iff (h : ProgramHeader) (header program : List U8) :
    (∀ behind, generateLineNumberMatrix h (lineStream header program behind)
        ≠ .error .running)
      ∧ (Contained h header program
        ↔ ∃ items : List Item, program = items.flatMap Item.head
          ∧ ∀ i ∈ items, i.Announced (headerOf h) ∧ Performable h i) := by
  refine ⟨fun behind => loop_terminates (Nat.lt_succ_self _), ?_⟩
  constructor
  · rintro ⟨m, hm⟩
    have hrest : (lineStream header program []).rest = program := by
      rw [lineStream_rest, List.append_nil]
    obtain ⟨items, hitems, hall⟩ := loop_sound (s := lineStream header
      program []) rfl (by rw [hrest]; simp [lineStream]) (hm [])
    exact ⟨items, hrest.symm.trans hitems, hall⟩
  · rintro ⟨items, rfl, hall⟩
    obtain ⟨m, hm⟩ := performs (h := h) (m := startOf h)
      fun i hi => (hall i hi).2
    refine ⟨m, fun behind => ?_⟩
    rw [matrix_heads (fun i hi => (hall i hi).1) header behind, hm]
    rfl

/-- A special opcode under a range of 0 divides by it; the operand of a
last DW_LNS_set_column is taken from behind the unit. -/
theorem malformed_unit_not_contained :
    generateLineNumberMatrix { smallHeader with lineRange := 0 }
        (lineStream [] [0xff] []) = .error .divisionByZero
      ∧ (generateLineNumberMatrix smallHeader (lineStream [] [5] [7])).map
          (fun r => r.2.index - r.2.streamLen) = .ok 1
      ∧ ¬ Contained { smallHeader with lineRange := 0 } [] [0xff]
      ∧ ¬ Contained smallHeader [] [5] := by
  have hzero : generateLineNumberMatrix { smallHeader with lineRange := 0 }
      (lineStream [] [0xff] []) = .error .divisionByZero := by
    decide
  have hcut : generateLineNumberMatrix smallHeader (lineStream [] [5] [])
      = .error (.undefined .outOfBounds) := by
    decide
  refine ⟨hzero, by decide, ?_, ?_⟩
  · rintro ⟨m, hm⟩
    rw [hm []] at hzero
    cases hzero
  · rintro ⟨m, hm⟩
    rw [hm []] at hcut
    cases hcut

end T89Emu.Dwarf
