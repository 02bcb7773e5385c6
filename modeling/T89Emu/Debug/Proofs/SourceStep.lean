/-
Whether `stepLine` returns.

The loop of `stepLine` is a run of the guest that is cut off where the
pc comes back to the one the step began at, or is on another line. The
guest need do neither: `stepLine_running` is the rule for a guest that
stays among machines the loop goes on from, and it asks for no more than
one call of `nextInstruction`.
-/
import T89Emu.Core.Proofs.Jump
import T89Emu.Core.Proofs.ReadOnly
import T89Emu.Debug.Proofs.SourceLine
import T89Emu.Dwarf.Proofs.UnitLookup

namespace T89Emu

open Cpp Dwarf Run

variable {L : Layout}

namespace McuDebug

variable {d : McuDebug L}

-- ============================================================= the guest

/-- A pc that ends a step: the one it began at, or one on a line that is
not shown. -/
def EndsAt (d : McuDebug L) (pc : U32) : Prop :=
  pc = d.mcu.pc ∨ ∃ line, d.lineAt pc = .ok line ∧ line ≠ 0
    ∧ line ≠ d.latestSourceLine

/-- Some compile unit contains the pc. -/
def InUnit (d : McuDebug L) (pc : U32) : Prop :=
  ∃ unit ∈ d.dwarfParser.compileUnits, unit.Contains pc

theorem lineAt_isOk {pc : U32} :
    (∃ line, d.lineAt pc = .ok line) ↔ d.InUnit pc :=
  DwarfParser.getLineNumberAtPc_isOk

/-- The guest that runs from `s`, undisturbed, comes to a pc that ends
the step after `n + 1` calls, and is in some compile unit behind each of
them. -/
structure ComesToEnd (d : McuDebug L) (s : Mcu L) (n : Nat) (u : Mcu L) :
    Prop where
  run : steps Mcu.nextInstruction (n + 1) s = .ok u
  ends : d.EndsAt u.pc
  known : ∀ m ≤ n, ∀ t, steps Mcu.nextInstruction (m + 1) s = .ok t →
    d.InUnit t.pc

/-- Where the line is known, the loop goes on exactly at a pc that does
not end the step. -/
theorem goesOn_iff {u : Mcu L} {line : U32}
    (hline : d.lineAt u.pc = .ok line) :
    d.GoesOn u line ↔ ¬ d.EndsAt u.pc := by
  unfold GoesOn EndsAt
  constructor
  · rintro ⟨hsame, hpc⟩ (heq | ⟨line', hline', hzero, hne⟩)
    · exact hpc heq.symm
    · obtain rfl := Except.ok.inj (hline.symm.trans hline')
      exact hsame.elim hzero hne
  · intro h
    refine ⟨?_, fun heq => h (.inl heq.symm)⟩
    by_contra hline'
    exact h (.inr ⟨line, hline, fun h0 => hline' (.inl h0),
      fun h1 => hline' (.inr h1)⟩)

-- ============================================================== the loop

/-- What the loop has run through is a run of the guest, in the compile
units. -/
theorem run_of_lineLoopAt {n : Nat} {s u : Mcu L}
    (h : d.LineLoopAt n s u) :
    steps Mcu.nextInstruction (n + 1) s = .ok u
      ∧ ∀ m < n, ∀ t, steps Mcu.nextInstruction (m + 1) s = .ok t →
        d.InUnit t.pc := by
  induction h with
  | look hnext =>
      exact ⟨(steps_succ_front ..).trans (by rw [hnext]; rfl),
        fun m hm => absurd hm (Nat.not_lt_zero m)⟩
  | @round n s t u line hnext hline hgo _ ih =>
      obtain ⟨hrun, hknown⟩ := ih
      refine ⟨by rw [steps_succ_front, hnext, ok_bind, hrun], ?_⟩
      intro m hm v hv
      rw [steps_succ_front, hnext, ok_bind] at hv
      cases m with
      | zero =>
          obtain rfl := Except.ok.inj hv
          exact lineAt_isOk.1 ⟨line, hline⟩
      | succ m => exact hknown m (by omega) v hv

/-- A guest that comes to an end of the step lets the loop end, there or
before. -/
theorem ends_of_comesToEnd {n : Nat} {s u : Mcu L}
    (h : d.ComesToEnd s n u) :
    ∃ m v line, d.LineLoopAt m s v ∧ d.lineAt v.pc = .ok line
      ∧ ¬ d.GoesOn v line := by
  induction n generalizing s with
  | zero =>
      obtain ⟨hrun, hends, hknown⟩ := h
      obtain ⟨line, hline⟩ := lineAt_isOk.2 (hknown 0 (Nat.le_refl 0) u hrun)
      have hnext : s.nextInstruction = .ok u := hrun
      exact ⟨0, u, line, .look hnext, hline,
        fun hgo => (goesOn_iff hline).1 hgo hends⟩
  | succ n ih =>
      obtain ⟨hrun, hends, hknown⟩ := h
      rw [steps_succ_front] at hrun
      obtain ⟨t, hnext, hrun⟩ := bind_eq_ok.1 hrun
      have hbehind : ∀ m, steps Mcu.nextInstruction (m + 1 + 1) s
          = steps Mcu.nextInstruction (m + 1) t := fun m => by
        rw [steps_succ_front, hnext, ok_bind]
      obtain ⟨line, hline⟩ := lineAt_isOk.2 (hknown 0 (Nat.zero_le _) t hnext)
      by_cases hgo : d.GoesOn t line
      · obtain ⟨m, v, line', hat, hline', hend⟩ := ih
          ⟨hrun, hends, fun m hm v hv =>
            hknown (m + 1) (by omega) v ((hbehind m).trans hv)⟩
        exact ⟨m + 1, v, line', .round hnext hline hgo hat, hline', hend⟩
      · exact ⟨0, t, line, .look hnext, hline, hgo⟩

/-- `stepLine` returns exactly when the guest, left to itself, comes to
the pc it started from or to one on another line, without having left the
compile units. -/
theorem stepLine_returns_iff (d : McuDebug L) :
    (∃ fuel d', d.stepLine fuel = .ok d')
      ↔ ∃ n u, d.ComesToEnd d.mcu n u := by
  constructor
  · rintro ⟨fuel, d', h⟩
    obtain ⟨u, line, ⟨⟨n, hat⟩, hline, hend⟩, -⟩ := stepLine_eq_ok.1 ⟨fuel, h⟩
    obtain ⟨hrun, hknown⟩ := run_of_lineLoopAt hat
    refine ⟨n, u, hrun, ?_, fun m hm t ht => ?_⟩
    · by_contra hgo
      exact hend ((goesOn_iff hline).2 hgo)
    · rcases Nat.lt_or_eq_of_le hm with hlt | rfl
      · exact hknown m hlt t ht
      · obtain rfl := Except.ok.inj (hrun.symm.trans ht)
        exact lineAt_isOk.1 ⟨line, hline⟩
  · rintro ⟨n, u, h⟩
    obtain ⟨m, v, line, hat, hline, hend⟩ := ends_of_comesToEnd h
    obtain ⟨fuel, hfuel⟩ := stepLine_eq_ok.2
      ⟨v, line, ⟨⟨m, hat⟩, hline, hend⟩, rfl⟩
    exact ⟨fuel, _, hfuel⟩

/-- A guest that stays among machines the loop goes on from keeps it
running, whatever the fuel. -/
theorem stepLine_running {P : Mcu L → Prop}
    (hfirst : ∃ t, d.mcu.nextInstruction = .ok t ∧ P t)
    (hnext : ∀ s, P s → ∃ t, s.nextInstruction = .ok t ∧ P t)
    (hgo : ∀ s, P s → ∃ line, d.lineAt s.pc = .ok line ∧ d.GoesOn s line)
    (fuel : Nat) : d.stepLine fuel = .error .running := by
  have hloop : ∀ s, (∃ t, s.nextInstruction = .ok t ∧ P t) →
      d.stepLineLoop d.mcu.pc fuel s = .error .running := by
    induction fuel with
    | zero => exact fun _ _ => rfl
    | succ fuel ih =>
        rintro s ⟨t, hstep, ht⟩
        obtain ⟨line, hline, hgoes⟩ := hgo t ht
        rw [stepLineLoop, hstep]
        show (d.lineAt t.pc >>= _) = _
        rw [hline, ok_bind, if_pos hgoes]
        exact ih t (hnext t ht)
  rw [stepLine, hloop d.mcu hfirst]
  rfl

end McuDebug

-- ==================================================== a jump to itself

namespace Mcu

/-- A fetch from ROM sees the bytes of ROM and nothing else. -/
theorem Fetches.of_rom {s t : Mcu L} {w : U32} (h : s.Fetches w)
    (hpc : t.pc = s.pc) (hselect : bus.select L.device s.pc = some .rom)
    (hrom : t.mem .rom = s.mem .rom) : t.Fetches w := by
  unfold Fetches busRead at h ⊢
  rw [Bus.read_of_select hselect] at h
  rw [hpc, Bus.read_of_select hselect, hrom, h]

/-- `jal x0, 0`, where no interrupt can be taken, changes neither the pc
nor that. -/
theorem nextInstruction_jumpSelf {s : Mcu L} (hmie : s.csr.getMie = 0)
    (hsync : s.nextPc = s.pc) (hw : s.nextCycle.Fetches 0x0000006f) :
    ∃ t, s.nextInstruction = .ok t ∧ t.pc = s.pc ∧ t.nextPc = s.pc
      ∧ t.csr.getMie = 0 := by
  have hstart : s.serviceInterrupts = s.nextCycle :=
    serviceInterrupts_of_not_due (not_due_of_getMie hmie)
  obtain ⟨-, hpc, hnextPc, -, -⟩ := s.nextCycle_frame
  have hjump : Rv32.IsJump (0x0000006f : U32) := .inl rfl
  have hsum : s.nextCycle.jumpSum 0x0000006f = s.pc := by
    show s.nextCycle.pc + 0#32 = s.pc
    rw [hpc, BitVec.add_zero]
  have hexec := executeInstruction_links hw hjump
    (hnextPc.trans (hsync.trans hpc.symm))
  have haligned : s.pc.toNat % 4 = 0 := hpc ▸ hw.aligned
  rw [hsum, if_neg (not_not.2 haligned)] at hexec
  have hnext := (congrArg attempt hstart).trans (attempt_of_ok hexec)
  exact ⟨_, hnext, rfl, rfl,
    (s.getBit_nextCycle _ (by decide)).trans hmie⟩

end Mcu

namespace McuDebug

/-- A step that begins at an instruction in front of a jump to itself, in
a unit without line entries. -/
def endlessLoop : McuDebug .linker where
  dwarfParser := .oneUnit
  mcu := .program [0x00000013, 0x0000006f]
  breakpoints := []
  latestSourceLine := 0

/-- The guest never leaves the unit and never comes back to the first
instruction, and `stepLine` does not return. -/
theorem endless_loop_not_left :
    (¬ ∃ fuel d', endlessLoop.stepLine fuel = .ok d')
      ∧ ∀ fuel, endlessLoop.stepLine fuel = .error .running := by
  have hrunning : ∀ fuel, endlessLoop.stepLine fuel = .error .running := by
    intro fuel
    let P (s : Mcu .linker) : Prop := s.pc = 0x80000004
      ∧ s.nextPc = 0x80000004 ∧ s.csr.getMie = 0
      ∧ s.mem .rom = endlessLoop.mcu.mem .rom
    refine stepLine_running (P := P) ?_ ?_ ?_ fuel
    · have hrun : (endlessLoop.mcu.nextInstruction.map fun t =>
          (t.pc, t.nextPc, t.csr.getMie))
            = .ok (0x80000004, 0x80000004, 0) := by
        decide +kernel
      obtain ⟨t, hnext, ht⟩ := map_eq_ok.1 hrun
      obtain ⟨hpc, hnextPc, hmie⟩ : t.pc = 0x80000004
        ∧ t.nextPc = 0x80000004 ∧ t.csr.getMie = 0 := by simpa using ht
      exact ⟨t, hnext, hpc, hnextPc, hmie, Mcu.nextInstruction_rom_same hnext⟩
    · rintro s ⟨hpc, hnextPc, hmie, hrom⟩
      have hw : Mcu.Fetches { endlessLoop.mcu with pc := 0x80000004 }
          0x0000006f := by
        unfold Mcu.Fetches
        decide +kernel
      have hcycle := s.nextCycle_frame
      obtain ⟨t, hnext, hpc', hnextPc', hmie'⟩ :=
        Mcu.nextInstruction_jumpSelf hmie (hnextPc.trans hpc.symm)
          (hw.of_rom (hcycle.2.1.trans hpc) (by decide +kernel)
            ((hcycle.2.2.2.1 .rom (by decide)).trans hrom))
      exact ⟨t, hnext, hpc'.trans hpc, hnextPc'.trans hpc, hmie',
        (Mcu.nextInstruction_rom_same hnext).trans hrom⟩
    · rintro s ⟨hpc, -⟩
      refine ⟨0, ?_, .inl rfl, ?_⟩
      · rw [hpc]
        rfl
      · rw [hpc]
        decide
  refine ⟨?_, hrunning⟩
  rintro ⟨fuel, d', h⟩
  rw [hrunning fuel] at h
  cases h

end McuDebug

end T89Emu
