/-
What the guest does not read does not matter.

Two states that differ in bytes of memory only, in a set `U` of them,
make the same cycle as long as it reads none of these bytes: the same
instruction, the same trap, the same registers, and memories that differ
in `U` at most (`nextInstruction_agree`). The CLINT reads its counter,
its comparator and its software interrupt in every cycle, so of its
bytes only those of the keyboard can be in `U`.

The argument goes along the units. A read of the bus that touches no
byte of `U` is the same read (`busRead_agree`), a write stores the same
bytes (`busWrite_agree`), and what an instruction does besides looks at
no memory (`executeInstruction_agree`).
-/
import T89Emu.Core.Proofs.Place
import T89Emu.Core.Proofs.Spin

namespace T89Emu

open Bytes Cpp Run

variable {L : Layout}

namespace MemoryDevice

variable {d : MemoryDevice} {mem mem' : d.Mem} {addr : U32}

/-- A dereference depends on the bytes that it touches. -/
theorem loadAt_congr {w : Nat}
    (h : ∀ i : Fin d.deviceSize.toNat, d.getAddress addr ≤ i →
      i < d.getAddress addr + w → mem i = mem' i) :
    d.loadAt mem addr w = d.loadAt mem' addr w := by
  by_cases hin : d.getAddress addr + w ≤ d.deviceSize.toNat
  · rw [loadAt_of_le hin, loadAt_of_le hin, Buffer.peek_congr hin h]
  · rw [loadAt_of_lt (by omega), loadAt_of_lt (by omega)]

/-- So does a read. -/
theorem read_congr {size : Nat}
    (h : ∀ i : Fin d.deviceSize.toNat, d.getAddress addr ≤ i →
      i < d.getAddress addr + d.readWidth size → mem i = mem' i) :
    d.read mem addr size = d.read mem' addr size := by
  have hload : ∀ w, w ≤ d.readWidth size →
      d.loadAt mem addr w = d.loadAt mem' addr w := fun w hw =>
    loadAt_congr fun i hlow hhigh => h i hlow (by omega)
  have hnarrow : d.cls ≠ .clint →
      d.fallThroughRead mem addr size = d.fallThroughRead mem' addr size := by
    intro hcls
    have hwidth : d.readWidth size = 4 := if_neg hcls
    unfold fallThroughRead
    rw [hload 1 (by omega), hload 2 (by omega), hload 4 (by omega)]
  unfold MemoryDevice.read
  cases hcls : d.cls with
  | rom => exact hnarrow (by rw [hcls]; decide)
  | ram => exact hnarrow (by rw [hcls]; decide)
  | video => exact hnarrow (by rw [hcls]; decide)
  | clint =>
      have hwidth : d.readWidth size = size := if_pos hcls
      show ClintMemoryDevice.read d mem addr size
        = ClintMemoryDevice.read d mem' addr size
      unfold ClintMemoryDevice.read
      split
      · rfl
      · split
        · rw [hload 1 (Nat.le_of_eq hwidth.symm)]
        · rw [hload 2 (Nat.le_of_eq hwidth.symm)]
        · rw [hload 4 (Nat.le_of_eq hwidth.symm)]
        · rfl

/-- An assignment is made in both arrays or in none, and leaves them equal
where they were. -/
theorem storeAt_agree (mem' : d.Mem) {w : Nat} {value : U32} {m : d.Mem}
    (h : d.storeAt mem addr value w = .ok m) :
    ∃ m', d.storeAt mem' addr value w = .ok m'
      ∧ ∀ i, mem i = mem' i → m i = m' i := by
  by_cases hin : d.getAddress addr + w ≤ d.deviceSize.toNat
  · rw [storeAt_of_le hin, Except.ok.injEq] at h
    subst h
    refine ⟨_, storeAt_of_le hin, fun i hi => ?_⟩
    unfold Buffer.poke
    split
    · rfl
    · exact hi
  · rw [storeAt_of_lt (by omega)] at h
    cases h

/-- A store changes the same bytes in either memory. -/
theorem sizedWrite_agree (mem' : d.Mem) {size : Nat} {value status : U32}
    {m : d.Mem}
    (h : d.sizedWrite mem addr value size = .ok (status, m)) :
    ∃ m', d.sizedWrite mem' addr value size = .ok (status, m')
      ∧ ∀ i, mem i = mem' i → m i = m' i := by
  have hstore : ∀ w, (d.storeAt mem addr value w >>= fun m =>
        (.ok (STATUS_OK, m) : Eval (U32 × d.Mem))) = .ok (status, m) →
      ∃ m', (d.storeAt mem' addr value w >>= fun m =>
          (.ok (STATUS_OK, m) : Eval (U32 × d.Mem))) = .ok (status, m')
        ∧ ∀ i, mem i = mem' i → m i = m' i := by
    intro w hw
    obtain ⟨m₁, hm₁, hw⟩ := bind_eq_ok.1 hw
    cases hw
    obtain ⟨m', hm', hsame⟩ := storeAt_agree mem' hm₁
    exact ⟨m', by rw [hm', ok_bind], hsame⟩
  unfold sizedWrite at h ⊢
  split at h
  · next hcheck =>
    cases h
    exact ⟨mem', if_pos hcheck, fun _ hi => hi⟩
  · next hcheck =>
    rw [if_neg hcheck]
    split at h
    · exact hstore 1 h
    · exact hstore 2 h
    · exact hstore 4 h
    · cases h
      exact ⟨mem', rfl, fun _ hi => hi⟩

/-- And so is a write. -/
theorem write_agree (mem' : d.Mem) {size : Nat} {value status : U32}
    {m : d.Mem}
    (h : d.write mem addr value size = .ok (status, m)) :
    ∃ m', d.write mem' addr value size = .ok (status, m')
      ∧ ∀ i, mem i = mem' i → m i = m' i := by
  unfold MemoryDevice.write at h ⊢
  cases hcls : d.cls with
  | rom =>
      rw [hcls] at h
      cases h
      exact ⟨mem', rfl, fun _ hi => hi⟩
  | ram => rw [hcls] at h; exact sizedWrite_agree mem' h
  | video => rw [hcls] at h; exact sizedWrite_agree mem' h
  | clint => rw [hcls] at h; exact sizedWrite_agree mem' h

end MemoryDevice

namespace Mcu

-- ================================================ statement vocabulary

/-- The memories are equal but for bytes of `U`. -/
def AgreeBut (U : DeviceClass → Nat → Prop) (m m' : Heap L.device) :
    Prop :=
  ∀ k, ∀ i : Fin (L.device k).deviceSize.toNat, ¬ U k i → m k i = m' k i

/-- A read of the bus touches a byte of `U`. -/
def Sees (L : Layout) (U : DeviceClass → Nat → Prop) (addr : U32)
    (size : Nat) : Prop :=
  ∃ k, bus.select L.device addr = some k
    ∧ ∃ i, (L.device k).getAddress addr ≤ i
      ∧ i < (L.device k).getAddress addr + (L.device k).readWidth size
      ∧ U k i

/-- The instruction at the pc reads one: it is fetched from there, or it
loads from there. -/
inductive Looks (U : DeviceClass → Nat → Prop) (s : Mcu L) : Prop
  | fetch (h : Sees L U s.pc WORD) : Looks U s
  | load {w : U32} (hw : s.Fetches w) (hop : opcodeOf w = .LOAD)
      (h : Sees L U (s.effectiveAddr w)
        (MemControlUnit.getMemSize (funct3 w))) : Looks U s

/-- So does one of the instructions of a cycle. -/
def LooksInCycle (U : DeviceClass → Nat → Prop) (s : Mcu L) : Prop :=
  ∃ u, Attempts s u ∧ u.Looks U

/-- Of the CLINT only the keyboard may be in the set. -/
def SparesClint (U : DeviceClass → Nat → Prop) : Prop :=
  ∀ i, U .clint i → 16 ≤ i ∧ i < 20

/-- The state with another memory. -/
def withMem (s : Mcu L) (m : Heap L.device) : Mcu L := { s with mem := m }

end Mcu

/-- The state that an arm hands on. -/
def Arm.state : Arm L → Mcu L
  | raise _ s => s
  | retire s _ _ => s

def Arm.withMem (m : Heap L.device) : Arm L → Arm L
  | raise code s => raise code (s.withMem m)
  | retire s A B => retire (s.withMem m) A B

namespace Mcu

-- ============================================================== the bus

variable {U : DeviceClass → Nat → Prop} {s : Mcu L} {m' : Heap L.device}

/-- The memories may change places. -/
theorem AgreeBut.symm {m : Heap L.device} (hm : AgreeBut U m m') :
    AgreeBut U m' m :=
  fun k i hi => (hm k i hi).symm

/-- And there may be one between them. -/
theorem AgreeBut.trans {m m'' : Heap L.device} (hm : AgreeBut U m m')
    (hm' : AgreeBut U m' m'') : AgreeBut U m m'' :=
  fun k i hi => (hm k i hi).trans (hm' k i hi)

/-- One device is replaced in both memories, and the new arrays are equal
where the old ones were. -/
theorem AgreeBut.update {m : Heap L.device} (hm : AgreeBut U m m')
    {k : DeviceClass} {dev dev' : (L.device k).Mem}
    (h : ∀ i, m k i = m' k i → dev i = dev' i) :
    AgreeBut U (Function.update m k dev) (Function.update m' k dev') := by
  intro j i hj
  by_cases hjk : j = k
  · subst hjk
    rw [Function.update_self, Function.update_self]
    exact h i (hm j i hj)
  · rw [Function.update_of_ne hjk, Function.update_of_ne hjk]
    exact hm j i hj

/-- A read that sees none of the bytes is the same. -/
theorem busRead_agree (hm : AgreeBut U s.mem m') {addr : U32} {size : Nat}
    (hsees : ¬ Sees L U addr size) :
    (s.withMem m').busRead addr size = s.busRead addr size := by
  show bus.read L.device m' addr size = bus.read L.device s.mem addr size
  cases hsel : bus.select L.device addr with
  | none =>
      rw [Bus.read_of_select_none hsel, Bus.read_of_select_none hsel]
  | some k =>
      rw [Bus.read_of_select hsel, Bus.read_of_select hsel]
      refine MemoryDevice.read_congr fun i hlow hhigh => ?_
      exact (hm k i fun hU => hsees ⟨k, hsel, i, hlow, hhigh, hU⟩).symm

/-- A write, whatever it covers, leaves memories that agree. -/
theorem busWrite_agree (hm : AgreeBut U s.mem m') {addr data code : U32}
    {size : Nat} {m : Heap L.device}
    (h : s.busWrite addr data size = .ok (code, m)) :
    ∃ m'', (s.withMem m').busWrite addr data size = .ok (code, m'')
      ∧ AgreeBut U m m'' := by
  show ∃ m'', bus.write L.device m' addr data size = .ok (code, m'')
    ∧ AgreeBut U m m''
  cases hsel : bus.select L.device addr with
  | none =>
      unfold busWrite at h
      rw [Bus.write_of_select_none hsel] at h
      cases h
      exact ⟨m', Bus.write_of_select_none hsel, hm⟩
  | some k =>
      unfold busWrite at h
      rw [Bus.write_of_select hsel] at h
      obtain ⟨⟨status, dev⟩, hdev, h⟩ := bind_eq_ok.1 h
      cases h
      obtain ⟨dev', hdev', hsame⟩ := MemoryDevice.write_agree (m' k) hdev
      exact ⟨Function.update m' k dev',
        by rw [Bus.write_of_select hsel, hdev', ok_bind], hm.update hsame⟩

-- ====================================================== one instruction

/-- The PRIV arm looks at no memory. -/
theorem executePriv_withMem (s : Mcu L) (m' : Heap L.device) (w : U32) :
    (s.withMem m').executePriv w = (s.executePriv w).withMem m' := by
  unfold executePriv
  dsimp only
  split
  · split
    · rfl
    · split
      · rfl
      · rfl
  · rfl
  · split
    · rfl
    · rfl
  · split
    · rfl
    · rfl
  · rfl

/-- The PRIV arm does not touch memory. -/
theorem executePriv_state_mem (s : Mcu L) (w : U32) :
    (s.executePriv w).state.mem = s.mem := by
  rcases executePriv_cases s w with ⟨h, -⟩ | ⟨rf, csr, h⟩
  · rw [h]
    rfl
  · rw [h]
    rfl

/-- An arm of the `switch` comes to the same end. -/
theorem executeOpcode_agree (hm : AgreeBut U s.mem m') {w : U32}
    {arm : Arm L}
    (hload : opcodeOf w = .LOAD → ¬ Sees L U (s.effectiveAddr w)
      (MemControlUnit.getMemSize (funct3 w)))
    (h : s.executeOpcode w = .ok arm) :
    ∃ m'', (s.withMem m').executeOpcode w = .ok (arm.withMem m'')
      ∧ AgreeBut U arm.state.mem m'' := by
  unfold executeOpcode at h ⊢
  cases hop : opcodeOf w with
  | LUI =>
      rw [hop] at h
      cases h
      exact ⟨m', rfl, hm⟩
  | AUIPC =>
      rw [hop] at h
      obtain ⟨v, hv, h⟩ := bind_eq_ok.1 h
      cases h
      exact ⟨m', bind_eq_ok.2 ⟨v, hv, rfl⟩, hm⟩
  | JAL =>
      rw [hop] at h
      obtain ⟨v, hv, h⟩ := bind_eq_ok.1 h
      cases h
      exact ⟨m', bind_eq_ok.2 ⟨v, hv, rfl⟩, hm⟩
  | JALR =>
      rw [hop] at h
      obtain ⟨v, hv, h⟩ := bind_eq_ok.1 h
      cases h
      exact ⟨m', bind_eq_ok.2 ⟨v, hv, rfl⟩, hm⟩
  | BTYPE =>
      rw [hop] at h
      cases h
      exact ⟨m', rfl, hm⟩
  | LOAD =>
      rw [hop] at h
      obtain ⟨⟨code, v⟩, hread, h⟩ := bind_eq_ok.1 h
      have hread' := (busRead_agree hm (hload hop)).trans hread
      dsimp only at h
      by_cases hcode : code = STATUS_OK
      · rw [if_neg (not_not.2 hcode)] at h
        obtain ⟨value, hvalue, h⟩ := bind_eq_ok.1 h
        cases h
        refine ⟨m', bind_eq_ok.2 ⟨_, hread', ?_⟩, hm⟩
        dsimp only
        rw [if_neg (not_not.2 hcode), hvalue]
        rfl
      · rw [if_pos hcode] at h
        cases h
        exact ⟨m', bind_eq_ok.2 ⟨_, hread', if_pos hcode⟩, hm⟩
  | STORE =>
      rw [hop] at h
      obtain ⟨⟨code, m⟩, hwrite, h⟩ := bind_eq_ok.1 h
      obtain ⟨m'', hwrite', hm''⟩ := busWrite_agree hm hwrite
      dsimp only at h
      by_cases hcode : code = STATUS_OK
      · rw [if_neg (not_not.2 hcode)] at h
        cases h
        exact ⟨m'', bind_eq_ok.2 ⟨_, hwrite', if_neg (not_not.2 hcode)⟩,
          hm''⟩
      · rw [if_pos hcode] at h
        cases h
        exact ⟨m'', bind_eq_ok.2 ⟨_, hwrite', if_pos hcode⟩, hm''⟩
  | ITYPE =>
      rw [hop] at h
      obtain ⟨v, hv, h⟩ := bind_eq_ok.1 h
      cases h
      exact ⟨m', bind_eq_ok.2 ⟨v, hv, rfl⟩, hm⟩
  | RTYPE =>
      rw [hop] at h
      obtain ⟨v, hv, h⟩ := bind_eq_ok.1 h
      cases h
      exact ⟨m', bind_eq_ok.2 ⟨v, hv, rfl⟩, hm⟩
  | PRIV =>
      rw [hop] at h
      cases h
      refine ⟨m', congrArg Except.ok (executePriv_withMem s m' w), ?_⟩
      rw [executePriv_state_mem]
      exact hm
  | other =>
      rw [hop] at h
      cases h
      exact ⟨m', rfl, hm⟩

/-- Neither does the next-pc unit. -/
theorem updatePc_withMem (u : Mcu L) (m' : Heap L.device) (w A B : U32) :
    (u.withMem m').updatePc w A B
      = ((u.updatePc w A B).1, (u.updatePc w A B).2.withMem m') := by
  unfold updatePc
  dsimp only [withMem]
  split
  · rfl
  · rfl

/-- Nor does the next-pc unit. -/
theorem updatePc_mem (u : Mcu L) (w A B : U32) :
    (u.updatePc w A B).2.mem = u.mem := by
  unfold updatePc
  dsimp only
  split
  · rfl
  · rfl

/-- An instruction that does not look does the same. -/
theorem executeInstruction_agree (hm : AgreeBut U s.mem m') {code : U32}
    {t : Mcu L} (hblind : ¬ s.Looks U)
    (h : s.executeInstruction = .ok (code, t)) :
    ∃ m'', (s.withMem m').executeInstruction = .ok (code, t.withMem m'')
      ∧ AgreeBut U t.mem m'' := by
  unfold executeInstruction at h ⊢
  have hfetch : (s.withMem m').busRead (s.withMem m').pc WORD
      = s.busRead s.pc WORD :=
    busRead_agree hm fun h => hblind (.fetch h)
  obtain ⟨⟨status, v⟩, hread, h⟩ := bind_eq_ok.1 h
  rw [hfetch, hread, ok_bind]
  dsimp only at h ⊢
  by_cases hstatus : status = STATUS_OK
  · rw [if_neg (not_not.2 hstatus)] at h ⊢
    obtain ⟨w, hw, h⟩ := bind_eq_ok.1 h
    obtain ⟨arm, harm, h⟩ := bind_eq_ok.1 h
    have hfetches : s.Fetches w := by
      unfold Fetches
      rw [hread, hstatus, initialized_eq_ok.1 hw]
    obtain ⟨m'', harm', hm''⟩ := executeOpcode_agree hm
      (fun hop hsees => hblind (.load hfetches hop hsees)) harm
    rw [hw, ok_bind, harm', ok_bind]
    cases arm with
    | raise code' u =>
        cases h
        exact ⟨m'', rfl, hm''⟩
    | retire u A B =>
        refine ⟨m'', ?_, ?_⟩
        · rw [Except.ok.injEq] at h
          show Except.ok ((u.withMem m'').updatePc w A B) = _
          rw [updatePc_withMem, h]
        · rw [Except.ok.injEq] at h
          have hmem : ((u.updatePc w A B).2).mem = u.mem :=
            updatePc_mem u w A B
          rw [h] at hmem
          rw [hmem]
          exact hm''
  · rw [if_pos hstatus] at h ⊢
    cases h
    exact ⟨m', rfl, hm⟩

-- ============================================================ one cycle

section Clint

variable {c c' : ClintMemoryDevice.Mem}

/-- The registers of the CLINT lie around the keyboard. -/
theorem clint_registers (h : ∀ i : Fin CLINT_SIZE.toNat,
      ¬ (16 ≤ i.val ∧ i.val < 20) → c i = c' i) :
    ClintMemoryDevice.mcycle c = ClintMemoryDevice.mcycle c'
      ∧ ClintMemoryDevice.mtimecmp c = ClintMemoryDevice.mtimecmp c'
      ∧ ClintMemoryDevice.msip c = ClintMemoryDevice.msip c' := by
  refine ⟨Buffer.peek_congr _ fun i _ hi => h i ?_,
    Buffer.peek_congr _ fun i _ hi => h i ?_,
    Buffer.peek_congr _ fun i hi _ => h i ?_⟩
  · unfold ClintMemoryDevice.MCYCLE_OFFSET at hi
    omega
  · unfold ClintMemoryDevice.MTIMECMP_OFFSET at hi
    omega
  · unfold ClintMemoryDevice.MSIP_OFFSET at hi
    omega

/-- So its cycle leaves the same CSRs, and as much the same bytes. -/
theorem clint_nextCycle (h : ∀ i : Fin CLINT_SIZE.toNat,
      ¬ (16 ≤ i.val ∧ i.val < 20) → c i = c' i) (csr : Csr) :
    (ClintMemoryDevice.nextCycle c csr).2
        = (ClintMemoryDevice.nextCycle c' csr).2
      ∧ ∀ i, c i = c' i → (ClintMemoryDevice.nextCycle c csr).1 i
        = (ClintMemoryDevice.nextCycle c' csr).1 i := by
  obtain ⟨hcycle, -, -⟩ := clint_registers h
  have hstore : ∀ i, c i = c' i →
      c.poke ClintMemoryDevice.MCYCLE_OFFSET 8
          (ClintMemoryDevice.mcycle c + 1) i
        = c'.poke ClintMemoryDevice.MCYCLE_OFFSET 8
          (ClintMemoryDevice.mcycle c' + 1) i := by
    intro i hi
    unfold Buffer.poke
    rw [hcycle, hi]
  obtain ⟨hcycle', htimecmp', hmsip'⟩ :=
    clint_registers fun i hi => hstore i (h i hi)
  refine ⟨?_, hstore⟩
  unfold ClintMemoryDevice.nextCycle
  dsimp only
  rw [hcycle', htimecmp', hmsip']

end Clint

/-- The CLINT's cycle, and what it reports. -/
theorem serviceInterrupts_agree (hU : SparesClint U)
    (hm : AgreeBut U s.mem m') :
    ∃ m'', (s.withMem m').serviceInterrupts
        = s.serviceInterrupts.withMem m''
      ∧ AgreeBut U s.serviceInterrupts.mem m'' := by
  have hclint : ∀ i : Fin CLINT_SIZE.toNat, ¬ (16 ≤ i.val ∧ i.val < 20) →
      s.mem .clint i = m' .clint i := fun i hi =>
    hm .clint i fun hUi => hi (hU i hUi)
  obtain ⟨hcsr, hbytes⟩ := clint_nextCycle hclint s.csr
  let m'' := Function.update m' .clint
    (ClintMemoryDevice.nextCycle (m' .clint) s.csr).1
  have hcycle : (s.withMem m').nextCycle = s.nextCycle.withMem m'' := by
    unfold nextCycle
    dsimp only [withMem]
    rw [hcsr]
  have hm'' : AgreeBut U s.nextCycle.mem m'' := hm.update hbytes
  have hmsip : ClintMemoryDevice.msip (s.nextCycle.mem .clint)
      = ClintMemoryDevice.msip (m'' .clint) :=
    (clint_registers fun i hi => hm'' .clint i fun hUi =>
      hi (hU i hUi)).2.2
  have hcheck : (s.nextCycle.withMem m'').checkInterrupts
      = s.nextCycle.checkInterrupts := by
    show ClintMemoryDevice.checkInterrupts (m'' .clint) _ _
      = ClintMemoryDevice.checkInterrupts (s.nextCycle.mem .clint) _ _
    unfold ClintMemoryDevice.checkInterrupts
    rw [hmsip]
    rfl
  refine ⟨m'', ?_, ?_⟩
  · unfold serviceInterrupts
    dsimp only
    rw [hcycle, hcheck]
    split
    · rfl
    · rfl
  · unfold serviceInterrupts
    dsimp only
    split
    · exact hm''
    · exact hm''

/-- A cycle that reads no byte of the set is the same, whatever these
bytes are. -/
theorem nextInstruction_agree (hU : SparesClint U)
    (hm : AgreeBut U s.mem m') {t : Mcu L} (hblind : ¬ s.LooksInCycle U)
    (h : s.nextInstruction = .ok t) :
    ∃ m'', (s.withMem m').nextInstruction = .ok (t.withMem m'')
      ∧ AgreeBut U t.mem m'' := by
  obtain ⟨m₁, hservice, hm₁⟩ := serviceInterrupts_agree hU hm
  have hfirst : ∀ code u,
      s.serviceInterrupts.executeInstruction = .ok (code, u) →
      ∃ m₂, (s.serviceInterrupts.withMem m₁).executeInstruction
          = .ok (code, u.withMem m₂) ∧ AgreeBut U u.mem m₂ :=
    fun _ _ => executeInstruction_agree hm₁
      fun hlooks => hblind ⟨_, .first, hlooks⟩
  unfold nextInstruction
  rw [hservice]
  rcases nextInstruction_cases h with
    hexec | ⟨code, u, status, hexec, hcode, hhandler⟩
  · obtain ⟨m₂, hexec', hm₂⟩ := hfirst _ _ hexec
    exact ⟨m₂, attempt_of_ok hexec', hm₂⟩
  · obtain ⟨m₂, hexec', hm₂⟩ := hfirst _ _ hexec
    obtain ⟨m₃, hhandler', hm₃⟩ := executeInstruction_agree
      (s := u.takeTrap code) hm₂
      (fun hlooks => hblind ⟨_, .handler hexec hcode, hlooks⟩) hhandler
    refine ⟨m₃, ?_, hm₃⟩
    rw [attempt_of_exception hexec' hcode]
    exact map_eq_ok.2 ⟨_, hhandler', rfl⟩

/-- A parked guest reads nothing but its jump. -/
theorem Parked.not_looks {w : U32} (h : s.Parked w)
    (hU : ∀ k i, U k i → bus.select L.device s.pc ≠ some k) :
    ¬ s.LooksInCycle U := by
  rintro ⟨u, hattempt, hlooks⟩
  obtain ⟨hpc, hw⟩ := h.attempts hattempt
  cases hlooks with
  | fetch hsees =>
      obtain ⟨k, hsel, i, -, -, hk⟩ := hsees
      rw [hpc] at hsel
      exact hU k i hk hsel
  | load hv hop _ =>
      rw [hv.unique hw, opcodeOf_of_opcode h.jal] at hop
      cases hop

end Mcu

end T89Emu
