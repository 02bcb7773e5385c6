/-
The application around the guest.

Between two frames the machine has made cycles of its own, and the I/O
panel has stored its keyboard register (`frame_attended`). These are the
only two things that ever happen to it, so what both of them keep holds
for as long as the window is open: what is fetched from ROM is what the
file says (`image_fetched`).

What the panel stores is the bit of the first key that is down, and the
guest loads it from the CLINT (`keyboard_delivered`). That is the only
way from the keys to the guest: if it never looks at the register, two
users who click alike see the same machine, whatever they type
(`keys_unseen`), and every session, with its steps, its lines and its
breakpoints, is a run of the bare machine (`session_transparent`).
-/
import T89Emu.Core.Proofs.Unread
import T89Emu.Debug.Proofs.Image
import T89Emu.Gui.Application

namespace T89Emu

open Bytes Cpp Run Dwarf

variable {L : Layout}

-- ================================================ statement vocabulary

namespace Mcu

/-- What happens to the machine under the application: a cycle, or a store
of the I/O panel. -/
def Attends (s t : Mcu L) : Prop :=
  s.nextInstruction = .ok t ∨ ∃ csr, t = Gui.storeKeyboard s csr

/-- Any number of these, in any order. -/
abbrev Attended : Mcu L → Mcu L → Prop := Relation.ReflTransGen Attends

/-- The cycle stores to a byte of the keyboard register. -/
def Overwrites (s : Mcu L) : Prop :=
  ∃ u w, Attempts s u ∧ u.Fetches w ∧ opcodeOf w = .STORE
    ∧ bus.select L.device (u.effectiveAddr w) = some .clint
    ∧ (L.device .clint).getAddress (u.effectiveAddr w) < 20
    ∧ 16 < (L.device .clint).getAddress (u.effectiveAddr w)
      + MemControlUnit.getMemSize (funct3 w)

end Mcu

namespace Gui

/-- The bit of the first key of the panel that is down. -/
def keyCode (isKeyDown : Key → Bool) : U32 :=
  match buttons.findIdx? isKeyDown with
  | some i => 1#32 <<< i
  | none => 0

/-- The bytes of the register. -/
def Keyboard (k : DeviceClass) (i : Nat) : Prop :=
  k = .clint ∧ 16 ≤ i ∧ i < 20

/-- Two users click alike. -/
def SameClicks (input input' : Input) : Prop :=
  input' = { input with isKeyDown := input'.isKeyDown }

/-- The application with another memory of the machine. -/
def withMem (g : Gui L) (m : Heap L.device) : Gui L :=
  { g with debug := { g.debug with mcu := g.debug.mcu.withMem m } }

end Gui

-- ============================================================= the machine

namespace Mcu

/-- What a cycle and the panel keep, the application keeps. -/
theorem Attended.keeps {P : Mcu L → Prop}
    (hcycle : ∀ s t, P s → s.nextInstruction = .ok t → P t)
    (hkeys : ∀ s csr, P s → P (Gui.storeKeyboard s csr)) {s t : Mcu L}
    (h : Attended s t) (hs : P s) : P t := by
  induction h with
  | refl => exact hs
  | tail _ hstep ih =>
      rcases hstep with hnext | ⟨csr, rfl⟩
      · exact hcycle _ _ ih hnext
      · exact hkeys _ csr ih

/-- A run of the core is attended. -/
theorem attended_of_steps {n : Nat} {s t : Mcu L}
    (h : steps nextInstruction n s = .ok t) : Attended s t :=
  invariant (P := fun u => Attended s u)
    (fun _ _ hu hnext => hu.tail (.inl hnext)) .refl h

end Mcu

namespace McuDebug

variable {d d' : McuDebug L}

/-- The rounds of the loop over cycles are such a run. -/
theorem attended_of_loopAt {breakpoints : List U32} {n : Nat}
    {s u : Mcu L} (h : LoopAt breakpoints n s u) : Mcu.Attended s u := by
  induction h with
  | start s => exact .refl
  | round _ hnext _ ih => exact .head (.inl hnext) ih

/-- So is what the loop does, up to a breakpoint or the end. -/
theorem executeLoop_attended {cycles : Nat}
    (h : d.executeLoop cycles = .ok d') : Mcu.Attended d.mcu d'.mcu := by
  obtain ⟨u, ⟨n, -, hat, -⟩, rfl⟩ := executeLoop_eq_ok.1 h
  exact attended_of_loopAt hat

/-- So is a step by an instruction. -/
theorem stepInstruction_attended (h : d.stepInstruction = .ok d') :
    Mcu.Attended d.mcu d'.mcu := by
  obtain ⟨mcu, hnext, h⟩ := bind_eq_ok.1 h
  obtain ⟨line, -, h⟩ := bind_eq_ok.1 h
  cases h
  exact .single (.inl (toProc_eq_ok.1 hnext))

/-- And so is one by a line. -/
theorem stepLine_attended {fuel : Nat} (h : d.stepLine fuel = .ok d') :
    Mcu.Attended d.mcu d'.mcu := by
  obtain ⟨u, line, ⟨⟨n, hat⟩, -⟩, rfl⟩ := stepLine_eq_ok.1 ⟨fuel, h⟩
  exact Mcu.attended_of_steps (run_of_lineLoopAt hat).1

end McuDebug

-- ============================================================== the frames

namespace Gui

variable {g g' : Gui L} {fuel : Nat}

/-- What the buttons start in a frame is therefore attended. -/
theorem emulate_attended {d : McuDebug L} (h : g.emulate fuel = .ok d) :
    Mcu.Attended g.debug.mcu d.mcu := by
  unfold emulate at h
  split at h
  · exact McuDebug.executeLoop_attended (toProc_eq_ok.1 h)
  · split at h
    · exact McuDebug.stepInstruction_attended h
    · split at h
      · exact McuDebug.stepLine_attended h
      · cases h
        exact .refl

/-- Breakpoints are none of the machine's business. -/
theorem addBreakpoint_mcu (d : McuDebug L) (address : U32) :
    (d.addBreakpoint address).mcu = d.mcu := by
  unfold McuDebug.addBreakpoint
  split
  · rfl
  · rfl

/-- The breakpoint buttons leave the machine alone. -/
theorem renderBreakpoints_mcu (input : Input) (d : McuDebug L) :
    (renderBreakpoints input d).mcu = d.mcu := by
  have hadd : (if input.set then d.addBreakpoint input.breakpointAddress
      else d).mcu = d.mcu := by
    split
    · exact addBreakpoint_mcu ..
    · rfl
  unfold renderBreakpoints
  cases input.remove with
  | true => exact hadd
  | false => exact hadd

/-- A frame, taken apart. -/
theorem frame_eq_ok {input : Input} :
    g.frame fuel input = .ok g' ↔ ∃ d, g.emulate fuel = .ok d
      ∧ g' = renderControlPanel input { g with
          debug := renderBreakpoints input
            { d with mcu := renderIoPanel input d.mcu } } := by
  unfold frame
  rw [bind_eq_ok]
  constructor
  · rintro ⟨d, hd, h⟩
    exact ⟨d, hd, (Except.ok.inj h).symm⟩
  · rintro ⟨d, hd, rfl⟩
    exact ⟨d, hd, rfl⟩

/-- A whole frame is attended, its key included. -/
theorem frame_attended {input : Input} (h : g.frame fuel input = .ok g') :
    Mcu.Attended g.debug.mcu g'.debug.mcu := by
  obtain ⟨d, hd, rfl⟩ := frame_eq_ok.1 h
  exact (emulate_attended hd).tail (.inr ⟨keyLoop input.isKeyDown buttons
    (keyboardCsr d.mcu), renderBreakpoints_mcu ..⟩)

/-- The application, run for any number of frames. -/
theorem run_attended {inputs : List Input}
    (h : runApplication fuel g inputs = .ok g') :
    Mcu.Attended g.debug.mcu g'.debug.mcu := by
  induction inputs generalizing g with
  | nil =>
      cases h
      exact .refl
  | cons input inputs ih =>
      obtain ⟨g₁, hframe, h⟩ := bind_eq_ok.1 h
      exact (frame_attended hframe).trans (ih h)

-- ================================================================= the ROM

/-- The panel stores in the CLINT only. -/
theorem storeKeyboard_other (s : Mcu L) (csr : U32) {k : DeviceClass}
    (hk : k ≠ .clint) : (storeKeyboard s csr).mem k = s.mem k :=
  Function.update_of_ne hk ..

/-- In the CLINT it stores to the keyboard register only. -/
theorem storeKeyboard_clint (s : Mcu L) (csr : U32) :
    (storeKeyboard s csr).mem .clint
      = (s.mem .clint).poke KEYBOARD_OFFSET 4 csr := by
  show Function.update s.mem .clint
    ((s.mem .clint).poke KEYBOARD_OFFSET 4 csr) .clint = _
  exact Function.update_self ..

/-- No one writes to ROM. -/
theorem attended_rom {s t : Mcu L} (h : Mcu.Attended s t) :
    t.mem .rom = s.mem .rom := by
  refine h.keeps (P := fun u => u.mem .rom = s.mem .rom) ?_ ?_ rfl
  · intro u v hu hnext
    exact (Mcu.nextInstruction_rom_same hnext).trans hu
  · intro u csr hu
    exact (storeKeyboard_other u csr (by decide)).trans hu

/-- The program in the file is the one that runs: whatever the guest and
the user of the application do, every aligned word of ROM is fetched as
the file has it. -/
theorem image_fetched (files : FileSystem) (fuel : Nat) (file : List U8)
    (L : Layout) (d : McuDebug L) (inputs : List Input) (g : Gui L)
    (hnew : McuDebug.new files fuel file = .ok ⟨L, d⟩)
    (hspace : L.romBase.toNat + ROM_SIZE.toNat < 2 ^ 32)
    (hrun : runApplication fuel (new d) inputs = .ok g) :
    Mcu.Attended d.mcu g.debug.mcu
      ∧ ∃ elf rom ram, McuDebug.Built file d elf rom ram
        ∧ ∀ s, Mcu.Attended d.mcu s → ∀ k, (L.romBase.toNat + k) % 4 = 0 →
          k + 4 ≤ ROM_SIZE.toNat →
          s.busRead (L.romBase + BitVec.ofNat 32 k) WORD
            = .ok (STATUS_OK, some (imageWord rom ram k)) := by
  obtain ⟨elf, rom, ram, hbuilt⟩ := McuDebug.built_of_new hnew
  exact ⟨run_attended hrun, elf, rom, ram, hbuilt, fun s hs k hal hk =>
    hbuilt.rom_word hspace (attended_rom hs) hal hk⟩

/-- A frame's input with nothing pressed. -/
def idle : Input := ⟨fun _ => false, 0, false, false, false, false, false⟩

/-- After a step of an instruction, the second word of the file's code is
still what is fetched. -/
theorem image_fetched_store_load :
    ∃ (d : McuDebug .linker) (g : Gui .linker),
      McuDebug.new (fun _ => none) 2 McuDebug.storeLoadFile
          = .ok ⟨.linker, d⟩
        ∧ runApplication 2 (new d) [{ idle with stepi := true }, idle] = .ok g
        ∧ g.debug.mcu.pc = 0x80000004
        ∧ g.debug.mcu.busRead 0x80000004 WORD
          = .ok (STATUS_OK, some 0x0010a023) := by
  have hrun : (McuDebug.new (fun _ => none) 2 McuDebug.storeLoadFile >>=
      fun r => (runApplication 2 (new r.2)
        [{ idle with stepi := true }, idle]).map fun g =>
          (r.1.romBase, r.1.ramBase, g.debug.mcu.pc))
        = .ok (0x80000000, 0x40000000, 0x80000004) := by
    decide +kernel
  obtain ⟨⟨⟨romBase, ramBase⟩, d⟩, hnew, hrun⟩ := bind_eq_ok.1 hrun
  obtain ⟨g, hrun, hbases⟩ := map_eq_ok.1 hrun
  obtain ⟨hrom, hrest⟩ := Prod.mk.inj hbases
  obtain ⟨hram, hpc⟩ := Prod.mk.inj hrest
  dsimp only at hrom hram
  subst hrom hram
  refine ⟨d, g, hnew, hrun, hpc, ?_⟩
  obtain ⟨hattended, elf, rom, ram, hbuilt, hwords⟩ :=
    image_fetched (fun _ => none) 2 McuDebug.storeLoadFile .linker d
      [{ idle with stepi := true }, idle] g hnew (by decide) hrun
  obtain ⟨rfl, rfl⟩ := hbuilt.storeLoad
  exact hwords g.debug.mcu hattended 4 (by decide) (by decide)

-- ================================================================= the keys

/-- The loop over the keys stores the bit of the first one down. -/
theorem keyLoop_eq (isKeyDown : Key → Bool) (csr : U32) :
    keyLoop isKeyDown buttons csr = keyCode isKeyDown := by
  unfold keyCode
  simp only [keyLoop, buttons, List.findIdx?_cons, List.findIdx?_nil]
  cases isKeyDown .Tab with
  | true => rfl
  | false =>
      cases isKeyDown .W with
      | true => rfl
      | false =>
          cases isKeyDown .A with
          | true => rfl
          | false =>
              cases isKeyDown .S with
              | true => rfl
              | false => cases isKeyDown .D <;> rfl

/-- What it has stored is in the register. -/
@[simp] theorem keyboardCsr_storeKeyboard (s : Mcu L) (csr : U32) :
    keyboardCsr (storeKeyboard s csr) = csr := by
  unfold keyboardCsr
  rw [storeKeyboard_clint]
  exact Buffer.peek_poke_same _ _ _

/-- The register is what its four bytes are. -/
theorem keyboardCsr_congr {s t : Mcu L}
    (h : ∀ i : Fin (L.device .clint).deviceSize.toNat, 16 ≤ i.val →
      i.val < 20 → t.mem .clint i = s.mem .clint i) :
    keyboardCsr t = keyboardCsr s :=
  Buffer.peek_congr _ h

/-- No device is empty. -/
theorem device_size_pos (k : DeviceClass) :
    0 < (L.device k).deviceSize.toNat := by
  cases k with
  | rom => exact (by decide : 0 < ROM_SIZE.toNat)
  | ram => exact (by decide : 0 < RAM_SIZE.toNat)
  | video => exact (by decide : 0 < VIDEO_SIZE.toNat)
  | clint => exact (by decide : 0 < CLINT_SIZE.toNat)

/-- The guest loads it. -/
theorem keyboardCsr_loaded (hwf : Mcu.bus.WellFormed L.device)
    (s : Mcu L) :
    s.busRead (CLINT_BASE + 16) WORD
      = .ok (STATUS_OK, some (keyboardCsr s)) := by
  have hsel : Mcu.bus.select L.device (CLINT_BASE + 16) = some .clint :=
    hwf.select_of_interior (Mcu.mem_bus _)
      (by
        show CLINT_BASE.toNat ≤ (CLINT_BASE + 16).toNat
          ∧ (CLINT_BASE + 16).toNat < CLINT_BASE.toNat + CLINT_SIZE.toNat
        decide)
      (by
        show CLINT_BASE.toNat < (CLINT_BASE + 16).toNat
        decide)
      (by
        show CLINT_BASE.toNat + CLINT_SIZE.toNat ≠ 2 ^ 32
        decide)
      fun j _ => device_size_pos j
  have hoff : (L.device .clint).getAddress (CLINT_BASE + 16) = 16 := by
    show (CLINT_BASE + 16 - CLINT_BASE).toNat = 16
    decide
  have hfit : (L.device .clint).getAddress (CLINT_BASE + 16)
      + (L.device .clint).readWidth WORD
        ≤ (L.device .clint).deviceSize.toNat := by
    rw [hoff]
    show 16 + 4 ≤ CLINT_SIZE.toNat
    decide
  rw [Mcu.busRead_eq_ok_iff isAccessSize_word (by decide)]
  refine ⟨.clint, hsel, hfit, eq_of_byteOf_eq (w := 4) fun j hj => ?_⟩
  have hlow := byteOf_setWidth (w := 4) ((s.mem .clint).peek
    ((L.device .clint).getAddress (CLINT_BASE + 16)) _ hfit) hj
  have hbyte : byteOf (keyboardCsr s) j = s.mem .clint ⟨16 + j, by
      show 16 + j < CLINT_SIZE.toNat
      have : CLINT_SIZE.toNat = 24 := by decide
      omega⟩ := Buffer.byteOf_peek _ _ hj
  rw [hlow, Buffer.byteOf_peek _ hfit hj, hbyte]
  exact congrArg (s.mem .clint) (Fin.ext (congrArg (· + j) hoff))

end Gui

namespace Mcu

/-- A cycle that does not store to the register keeps it. -/
theorem nextInstruction_keyboard {s t : Mcu L}
    (h : s.nextInstruction = .ok t) (hkeep : ¬ s.Overwrites) :
    Gui.keyboardCsr t = Gui.keyboardCsr s := by
  refine nextInstruction_keeps
    (P := fun u => Gui.keyboardCsr u = Gui.keyboardCsr s) h ?_ ?_ ?_
  · refine Gui.keyboardCsr_congr fun i hlow _ => ?_
    have hcycle := s.clint_above_nextCycle (i := i) (by omega)
    by_cases hdue : s.Due
    · rw [(interrupt_frame hdue).2.2.1]
      exact hcycle
    · rw [serviceInterrupts_of_not_due hdue]
      exact hcycle
  · intro u v code hattempt hu hexec
    rw [← hu]
    rcases executeInstruction_mem_cases hexec with hmem | ⟨w, hw, hop, hwrite⟩
    · unfold Gui.keyboardCsr
      rw [hmem]
    · refine Gui.keyboardCsr_congr fun i hlow hhigh => ?_
      cases hsel : bus.select L.device (u.effectiveAddr w) with
      | none =>
          unfold busWrite at hwrite
          rw [Bus.write_of_select_none hsel] at hwrite
          exact absurd (Prod.mk.inj (Except.ok.inj hwrite)).1 (by decide)
      | some k =>
          unfold busWrite at hwrite
          rw [Bus.write_of_select hsel] at hwrite
          obtain ⟨⟨status, dev⟩, hdev, hwrite⟩ := bind_eq_ok.1 hwrite
          rw [← (Prod.mk.inj (Except.ok.inj hwrite)).2]
          by_cases hk : k = .clint
          · subst hk
            rw [Function.update_self]
            refine MemoryDevice.write_frame (fun hin => hkeep ?_) hdev
            exact ⟨u, w, hattempt, hw, hop, hsel, by omega, by omega⟩
          · rw [Function.update_of_ne (Ne.symm hk)]
  · intro u code hu
    exact hu

end Mcu

namespace Gui

variable {g g' : Gui L} {fuel : Nat}

/-- The key that is down when a frame is drawn is what the guest loads
from then on, until it stores to the register itself. -/
theorem keyboard_delivered (L : Layout) (fuel : Nat) (g g' : Gui L)
    (input : Input) (n : Nat) (s : Mcu L)
    (hwf : Mcu.bus.WellFormed L.device)
    (hframe : g.frame fuel input = .ok g')
    (hrun : steps Mcu.nextInstruction n g'.debug.mcu = .ok s)
    (hkeep : ∀ i < n, ∀ u,
      steps Mcu.nextInstruction i g'.debug.mcu = .ok u → ¬ u.Overwrites) :
    s.busRead (CLINT_BASE + 16) WORD
      = .ok (STATUS_OK, some (keyCode input.isKeyDown)) := by
  rw [keyboardCsr_loaded hwf]
  have hdrawn : keyboardCsr g'.debug.mcu = keyCode input.isKeyDown := by
    obtain ⟨d, -, rfl⟩ := frame_eq_ok.1 hframe
    show keyboardCsr (renderBreakpoints input _).mcu = _
    rw [renderBreakpoints_mcu, ← keyLoop_eq input.isKeyDown
      (keyboardCsr d.mcu)]
    exact keyboardCsr_storeKeyboard ..
  have hkept : keyboardCsr s = keyboardCsr g'.debug.mcu := by
    induction n generalizing s with
    | zero =>
        cases hrun
        rfl
    | succ n ih =>
        obtain ⟨u, hu, hlast⟩ := steps_succ_eq_ok.1 hrun
        have hstep := Mcu.nextInstruction_keyboard hlast
          (hkeep n (by omega) u hu)
        rw [hstep]
        exact ih u hu fun i hi => hkeep i (by omega)
  rw [hkept, hdrawn]

end Gui

-- ======================================================== a waiting guest

namespace Mcu

variable {s t : Mcu L} {w : U32}

/-- A guest that is parked stores nothing. -/
theorem Parked.not_overwrites (h : s.Parked w) : ¬ s.Overwrites := by
  rintro ⟨u, v, hattempt, hv, hop, -⟩
  rw [hv.unique (h.attempts hattempt).2, opcodeOf_of_opcode h.jal] at hop
  cases hop

/-- Nor does it look at the keys. -/
theorem Parked.not_sees_keys (h : s.Parked w) :
    ¬ s.LooksInCycle Gui.Keyboard := by
  refine h.not_looks fun k i hk => ?_
  obtain ⟨j, hj, hsel, -⟩ := h.word
  rw [hk.1, hsel]
  rcases hj with rfl | rfl
  · decide
  · decide

/-- The application keeps it parked. -/
theorem Parked.attended (h : s.Parked w) (hst : Attended s t) :
    t.Parked w := by
  refine hst.keeps (P := fun u => u.Parked w) ?_ ?_ h
  · intro u v hu hnext
    obtain ⟨v', hnext', hv', -⟩ := hu.next
    rw [hnext] at hnext'
    cases hnext'
    exact hv'
  · intro u csr hu
    exact ⟨hu.word.of_mem fun _ hk => Gui.storeKeyboard_other u csr hk,
      hu.jal, hu.toSelf, hu.synced, hu.off⟩

end Mcu

namespace Gui

/-- An application whose guest waits for good. -/
def waiting : Gui .linker :=
  new ⟨.oneUnit, .program [0x0000006f], [], 0⟩

/-- The guest of the example jumps to itself. -/
theorem waiting_parked : waiting.debug.mcu.Parked 0x0000006f :=
  ⟨Mcu.program_wordAt (i := 0) rfl (by decide), rfl, rfl, rfl, by decide⟩

/-- The key W, and five cycles of the guest. -/
theorem w_delivered :
    ∃ g s, waiting.frame 2 { idle with isKeyDown := fun k => k = .W }
        = .ok g
      ∧ steps Mcu.nextInstruction 5 g.debug.mcu = .ok s
      ∧ s.busRead (CLINT_BASE + 16) WORD = .ok (STATUS_OK, some 2) := by
  let input : Input := { idle with isKeyDown := fun k => k = .W }
  have hframe : waiting.frame 2 input
      = .ok (renderControlPanel input { waiting with
          debug := { waiting.debug with
            mcu := renderIoPanel input waiting.debug.mcu } }) := rfl
  have hparked : (renderIoPanel input waiting.debug.mcu).Parked
      0x0000006f := waiting_parked.attended (.single (.inr ⟨_, rfl⟩))
  obtain ⟨s, hrun, -, -⟩ := hparked.runs 5
  refine ⟨_, s, hframe, hrun, ?_⟩
  exact keyboard_delivered .linker 2 waiting _ input 5 s
    Mcu.linker_wellFormed hframe hrun fun i _ u hu =>
      (hparked.attended (Mcu.attended_of_steps hu)).not_overwrites

end Gui

-- ============================================================ unseen keys

/-- The guest never looks at the keyboard register, whatever becomes of
it. -/
def Mcu.Blind (s : Mcu L) : Prop :=
  ∀ t, Mcu.Attended s t → ¬ t.LooksInCycle Gui.Keyboard

namespace Mcu

variable {s t : Mcu L} {m' : Heap L.device}

/-- A guest that never looks does not do so later. -/
theorem Blind.attended (h : s.Blind) (hst : Attended s t) : t.Blind :=
  fun u hu => h u (hst.trans hu)

/-- The keyboard register is none of the counters. -/
theorem spares_keyboard : SparesClint Gui.Keyboard := fun _ h => h.2

/-- A cycle that does not look at the register takes the same course
without it. -/
theorem Blind.next (h : s.Blind) (hm : AgreeBut Gui.Keyboard s.mem m')
    (hnext : s.nextInstruction = .ok t) :
    ∃ m'', (s.withMem m').nextInstruction = .ok (t.withMem m'')
      ∧ AgreeBut Gui.Keyboard t.mem m'' :=
  nextInstruction_agree spares_keyboard hm (h s .refl) hnext

/-- The panel stores to the register only. -/
theorem storeKeyboard_agree (s : Mcu L) (csr : U32) :
    AgreeBut Gui.Keyboard s.mem (Gui.storeKeyboard s csr).mem := by
  intro k i hk
  by_cases hkc : k = .clint
  · subst hkc
    have hout : i.val < Gui.KEYBOARD_OFFSET
        ∨ Gui.KEYBOARD_OFFSET + 4 ≤ i.val := by
      by_contra hin
      unfold Gui.KEYBOARD_OFFSET at hin
      exact hk ⟨rfl, by omega, by omega⟩
    rw [Gui.storeKeyboard_clint, Buffer.poke_of_not_mem _ _ hout]
  · rw [Gui.storeKeyboard_other _ _ hkc]

/-- What happens to a guest that never looks at the register is a run of
its own: the stores of the panel fall between two of its cycles, and make
no difference to it. -/
theorem Blind.steps_of_attended (h : s.Blind) (hst : Attended s t) :
    ∃ n m, steps nextInstruction n s = .ok (t.withMem m)
      ∧ AgreeBut Gui.Keyboard t.mem m := by
  induction hst with
  | refl => exact ⟨0, s.mem, rfl, fun _ _ _ => rfl⟩
  | tail hsu hstep ih =>
      obtain ⟨n, m, hrun, hm⟩ := ih
      rcases hstep with hnext | ⟨csr, rfl⟩
      · obtain ⟨m₁, hnext', hm₁⟩ := (h.attended hsu).next hm hnext
        exact ⟨n + 1, m₁, steps_succ_eq_ok.2 ⟨_, hrun, hnext'⟩, hm₁⟩
      · exact ⟨n, m, hrun, (storeKeyboard_agree _ csr).symm.trans hm⟩

end Mcu

namespace McuDebug

/-- The debugger with another memory of the machine. -/
def withMem (d : McuDebug L) (m : Heap L.device) : McuDebug L :=
  { d with mcu := d.mcu.withMem m }

variable {d d' : McuDebug L} {m' : Heap L.device}

/-- The loops of the debugger look at the pc and at the lines, and at no
memory. -/
theorem executeLoop_agree {cycles : Nat} (hblind : d.mcu.Blind)
    (hm : Mcu.AgreeBut Gui.Keyboard d.mcu.mem m')
    (h : d.executeLoop cycles = .ok d') :
    ∃ m'', (d.withMem m').executeLoop cycles = .ok (d'.withMem m'')
      ∧ Mcu.AgreeBut Gui.Keyboard d'.mcu.mem m'' := by
  induction cycles generalizing d m' with
  | zero =>
      cases h
      exact ⟨m', rfl, hm⟩
  | succ cycles ih =>
      rw [executeLoop] at h ⊢
      by_cases hbreak : d.isBreakpoint d.mcu.pc = true
      · rw [if_pos hbreak] at h
        cases h
        exact ⟨m', if_pos hbreak, hm⟩
      · rw [if_neg hbreak] at h
        obtain ⟨t, hnext, h⟩ := bind_eq_ok.1 h
        obtain ⟨m₁, hnext', hm₁⟩ := hblind.next hm hnext
        obtain ⟨m₂, hloop, hm₂⟩ := ih (d := { d with mcu := t })
          (hblind.attended (.single (.inl hnext))) hm₁ h
        exact ⟨m₂, (if_neg hbreak).trans (bind_eq_ok.2 ⟨_, hnext', hloop⟩),
          hm₂⟩

/-- A step by an instruction does not see the register. -/
theorem stepInstruction_agree (hblind : d.mcu.Blind)
    (hm : Mcu.AgreeBut Gui.Keyboard d.mcu.mem m')
    (h : d.stepInstruction = .ok d') :
    ∃ m'', (d.withMem m').stepInstruction = .ok (d'.withMem m'')
      ∧ Mcu.AgreeBut Gui.Keyboard d'.mcu.mem m'' := by
  obtain ⟨t, hnext, h⟩ := bind_eq_ok.1 h
  obtain ⟨line, hline, h⟩ := bind_eq_ok.1 h
  cases h
  obtain ⟨m'', hnext', hm''⟩ := hblind.next hm (toProc_eq_ok.1 hnext)
  exact ⟨m'', bind_eq_ok.2 ⟨_, toProc_eq_ok.2 hnext',
    bind_eq_ok.2 ⟨line, hline, rfl⟩⟩, hm''⟩

/-- Nor does one by a line, by induction on the fuel. -/
theorem stepLineLoop_agree {startPc line : U32} {fuel : Nat} {s t : Mcu L}
    (hblind : s.Blind) (hm : Mcu.AgreeBut Gui.Keyboard s.mem m')
    (h : d.stepLineLoop startPc fuel s = .ok (t, line))
    (m₀ : Heap L.device) :
    ∃ m'', (d.withMem m₀).stepLineLoop startPc fuel (s.withMem m')
        = .ok (t.withMem m'', line)
      ∧ Mcu.AgreeBut Gui.Keyboard t.mem m'' := by
  induction fuel generalizing s m' with
  | zero => cases h
  | succ fuel ih =>
      rw [stepLineLoop] at h ⊢
      obtain ⟨u, hnext, h⟩ := bind_eq_ok.1 h
      obtain ⟨curLine, hline, h⟩ := bind_eq_ok.1 h
      have hnext := toProc_eq_ok.1 hnext
      obtain ⟨m₁, hnext', hm₁⟩ := hblind.next hm hnext
      split at h
      · next hgo =>
        obtain ⟨m₂, hloop, hm₂⟩ :=
          ih (hblind.attended (.single (.inl hnext))) hm₁ h
        exact ⟨m₂, bind_eq_ok.2 ⟨_, toProc_eq_ok.2 hnext', bind_eq_ok.2
          ⟨curLine, hline, (if_pos hgo).trans hloop⟩⟩, hm₂⟩
      · next hgo =>
        cases h
        exact ⟨m₁, bind_eq_ok.2 ⟨_, toProc_eq_ok.2 hnext', bind_eq_ok.2
          ⟨_, hline, if_neg hgo⟩⟩, hm₁⟩

end McuDebug

namespace Gui

variable {g g' : Gui L} {fuel : Nat} {m' : Heap L.device}

/-- What is emulated in a frame. -/
theorem emulate_agree {d : McuDebug L} (hblind : g.debug.mcu.Blind)
    (hm : Mcu.AgreeBut Keyboard g.debug.mcu.mem m')
    (h : g.emulate fuel = .ok d) :
    ∃ m'', (g.withMem m').emulate fuel = .ok (d.withMem m'')
      ∧ Mcu.AgreeBut Keyboard d.mcu.mem m'' := by
  unfold emulate at h ⊢
  by_cases hrun : g.isRunEnabled = true
  · rw [if_pos hrun] at h
    obtain ⟨m'', hloop, hm''⟩ :=
      McuDebug.executeLoop_agree hblind hm (toProc_eq_ok.1 h)
    exact ⟨m'', (if_pos hrun).trans (toProc_eq_ok.2 hloop), hm''⟩
  · rw [if_neg hrun] at h
    by_cases hstepI : g.doStepI = true
    · rw [if_pos hstepI] at h
      obtain ⟨m'', hstep, hm''⟩ :=
        McuDebug.stepInstruction_agree hblind hm h
      exact ⟨m'', (if_neg hrun).trans ((if_pos hstepI).trans hstep), hm''⟩
    · rw [if_neg hstepI] at h
      by_cases hstep : g.doStep = true
      · rw [if_pos hstep] at h
        obtain ⟨⟨mcu, line⟩, hloop, h⟩ := bind_eq_ok.1 h
        cases h
        obtain ⟨m'', hloop', hm''⟩ :=
          McuDebug.stepLineLoop_agree hblind hm hloop m'
        exact ⟨m'', (if_neg hrun).trans ((if_neg hstepI).trans
          ((if_pos hstep).trans (bind_eq_ok.2 ⟨_, hloop', rfl⟩))), hm''⟩
      · rw [if_neg hstep] at h
        cases h
        exact ⟨m', (if_neg hrun).trans ((if_neg hstepI).trans
          (if_neg hstep)), hm⟩

/-- Nor do breakpoints look at the machine. -/
theorem addBreakpoint_withMem (d : McuDebug L) (address : U32)
    (m : Heap L.device) :
    (d.withMem m).addBreakpoint address
      = (d.addBreakpoint address).withMem m :=
  (apply_ite (fun d : McuDebug L => d.withMem m) (address ∈ d.breakpoints)
    d { d with breakpoints := d.breakpoints ++ [address] }).symm

/-- The breakpoints do not depend on memory. -/
theorem renderBreakpoints_withMem (input : Input) (d : McuDebug L)
    (m : Heap L.device) :
    renderBreakpoints input (d.withMem m)
      = (renderBreakpoints input d).withMem m := by
  unfold renderBreakpoints
  dsimp only
  cases input.set with
  | false =>
      cases input.remove with
      | false => rfl
      | true => rfl
  | true =>
      rw [if_pos rfl, if_pos rfl, addBreakpoint_withMem]
      cases input.remove with
      | false => rfl
      | true => rfl

/-- A frame of two users who click alike. -/
theorem frame_agree {input input' : Input} (hclicks : SameClicks input input')
    (hblind : g.debug.mcu.Blind)
    (hm : Mcu.AgreeBut Keyboard g.debug.mcu.mem m')
    (h : g.frame fuel input = .ok g') :
    ∃ m'', (g.withMem m').frame fuel input' = .ok (g'.withMem m'')
      ∧ Mcu.AgreeBut Keyboard g'.debug.mcu.mem m'' := by
  obtain ⟨d, hd, rfl⟩ := frame_eq_ok.1 h
  obtain ⟨m₁, hemulate, hm₁⟩ := emulate_agree hblind hm hd
  let csr := keyLoop input.isKeyDown buttons (keyboardCsr d.mcu)
  let csr' := keyLoop input'.isKeyDown buttons
    (keyboardCsr (d.mcu.withMem m₁))
  refine ⟨(storeKeyboard (d.mcu.withMem m₁) csr').mem, frame_eq_ok.2
    ⟨_, hemulate, ?_⟩, ?_⟩
  · rw [show input' = _ from hclicks]
    show _ = renderControlPanel input { g with
      debug := renderBreakpoints input (McuDebug.withMem
        { d with mcu := renderIoPanel input d.mcu } _) }
    rw [renderBreakpoints_withMem]
    rfl
  · show Mcu.AgreeBut Keyboard (renderBreakpoints input _).mcu.mem _
    rw [renderBreakpoints_mcu]
    exact ((Mcu.storeKeyboard_agree d.mcu csr).symm.trans hm₁).trans
      (Mcu.storeKeyboard_agree (d.mcu.withMem m₁) csr')

/-- The keys are unseen: with a guest that never looks at the keyboard
register, two users who click alike have the same application before
them, frame by frame, but for the register itself. -/
theorem keys_unseen (L : Layout) (fuel : Nat) (g g' : Gui L)
    (inputs inputs' : List Input)
    (hclicks : List.Forall₂ SameClicks inputs inputs')
    (hblind : ∀ s, Mcu.Attended g.debug.mcu s → ¬ s.LooksInCycle Keyboard)
    (hrun : runApplication fuel g inputs = .ok g') :
    ∃ m, runApplication fuel g inputs' = .ok (g'.withMem m)
      ∧ Mcu.AgreeBut Keyboard g'.debug.mcu.mem m := by
  have hall : ∀ {g₀ : Gui L} {m' : Heap L.device}, g₀.debug.mcu.Blind →
      Mcu.AgreeBut Keyboard g₀.debug.mcu.mem m' →
      runApplication fuel g₀ inputs = .ok g' →
      ∃ m, runApplication fuel (g₀.withMem m') inputs' = .ok (g'.withMem m)
        ∧ Mcu.AgreeBut Keyboard g'.debug.mcu.mem m := by
    clear hblind hrun
    induction hclicks with
    | nil =>
        intro g₀ m' _ hm h
        cases h
        exact ⟨m', rfl, hm⟩
    | cons hinput _ ih =>
        intro g₀ m' hblind hm h
        obtain ⟨g₁, hframe, h⟩ := bind_eq_ok.1 h
        obtain ⟨m₁, hframe', hm₁⟩ := frame_agree hinput hblind hm hframe
        obtain ⟨m₂, hrest, hm₂⟩ :=
          ih (hblind.attended (frame_attended hframe)) hm₁ h
        exact ⟨m₂, bind_eq_ok.2 ⟨_, hframe', hrest⟩, hm₂⟩
  have hsame : Mcu.AgreeBut Keyboard g.debug.mcu.mem g.debug.mcu.mem :=
    fun _ _ _ => rfl
  exact hall hblind hsame hrun

/-- Whether W is down while the waiting guest is stepped. -/
theorem w_unseen :
    ∃ g m, runApplication 2 waiting
        [{ idle with stepi := true }, idle] = .ok g
      ∧ runApplication 2 waiting
        [{ idle with stepi := true, isKeyDown := fun k => k = .W }, idle]
          = .ok (g.withMem m)
      ∧ g.debug.mcu.pc = 0x80000000 := by
  have hrun : (runApplication 2 waiting
      [{ idle with stepi := true }, idle]).map (fun g => g.debug.mcu.pc)
        = .ok 0x80000000 := by decide +kernel
  obtain ⟨g, hrun, hpc⟩ := map_eq_ok.1 hrun
  obtain ⟨m, hrun', -⟩ := keys_unseen .linker 2 waiting g
    [{ idle with stepi := true }, idle]
    [{ idle with stepi := true, isKeyDown := fun k => k = .W }, idle]
    (.cons rfl (.cons rfl .nil))
    (fun _ hs => (waiting_parked.attended hs).not_sees_keys) hrun
  exact ⟨g, m, hrun, hrun', hpc⟩

/-- The application is transparent: with a guest that never looks at the
keyboard register, whatever the user does, its steps and its breakpoints,
the machine before him is one that it comes to on its own, but for the
register itself. -/
theorem session_transparent (L : Layout) (fuel : Nat) (g g' : Gui L)
    (inputs : List Input)
    (hblind : ∀ s, Mcu.Attended g.debug.mcu s → ¬ s.LooksInCycle Keyboard)
    (hrun : runApplication fuel g inputs = .ok g') :
    ∃ n m, steps Mcu.nextInstruction n g.debug.mcu
        = .ok (g'.debug.mcu.withMem m)
      ∧ Mcu.AgreeBut Keyboard g'.debug.mcu.mem m :=
  have hself : g.debug.mcu.Blind := hblind
  hself.steps_of_attended (run_attended hrun)

/-- The waiting guest is stepped while W is down. -/
theorem step_transparent :
    ∃ g n m, runApplication 2 waiting
        [{ idle with stepi := true, isKeyDown := fun k => k = .W }, idle]
          = .ok g
      ∧ steps Mcu.nextInstruction n waiting.debug.mcu
        = .ok (g.debug.mcu.withMem m) := by
  have hok : (runApplication 2 waiting
      [{ idle with stepi := true, isKeyDown := fun k => k = .W },
        idle]).map (fun g => g.debug.mcu.pc) = .ok 0x80000000 := by
    decide +kernel
  obtain ⟨g, hrun, -⟩ := map_eq_ok.1 hok
  obtain ⟨n, m, hsteps, -⟩ := session_transparent .linker 2 waiting g _
    (fun _ hs => (waiting_parked.attended hs).not_sees_keys) hrun
  exact ⟨g, n, m, hrun, hsteps⟩

end Gui

end T89Emu
