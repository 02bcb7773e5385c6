/-
Breakpoints during a run.

The loop of `executeInstructions` looks at the pc between two calls of
`nextInstruction`. A call executes the instruction at that pc, unless it
enters a trap: then the instruction executed, or the second of two, is
the one in the vector slot of the cause, which the loop never sees. So
nothing at a breakpoint is executed exactly when no call enters a trap
whose vector slot is one.

`LoopAt` is the loop as a relation, one constructor for a round, and
`Mcu.ExecutesAt` says of one call which instructions it executes.
-/
import T89Emu.Core.Proofs.Interrupt
import T89Emu.Core.Proofs.Step
import T89Emu.Debug.McuDebug

namespace T89Emu

open Cpp

variable {L : Layout}

namespace Mcu

-- =============================================== the instructions of a call

/-- The addresses of the instructions that a call of `nextInstruction`
fetches and executes. -/
inductive ExecutesAt (s : Mcu L) : U32 → Prop
  | first {w : U32} (hfetch : s.serviceInterrupts.Fetches w) :
      ExecutesAt s s.serviceInterrupts.pc
  | handler {code w : U32} {t : Mcu L}
      (hraise : s.serviceInterrupts.executeInstruction = .ok (code, t))
      (hcode : code ≠ STATUS_OK)
      (hfetch : (t.takeTrap code).Fetches w) :
      ExecutesAt s (t.takeTrap code).pc

/-- A trap that the call enters has a vector slot that is not among the
addresses, or that no word can be fetched from. -/
structure TrapsAvoid (addresses : List U32) (s : Mcu L) : Prop where
  interrupt : s.Due → (∃ w, s.serviceInterrupts.Fetches w) →
    s.csr.getMtvec + 4 * (s.dueCause - 0x80000000) ∉ addresses
  exception : ∀ code t,
    s.serviceInterrupts.executeInstruction = .ok (code, t) →
    code ≠ STATUS_OK → (∃ w, (t.takeTrap code).Fetches w) →
    t.vectorSlot code ∉ addresses

/-- A call made at none of the addresses executes nothing at them exactly
when its traps avoid them. -/
theorem executes_none_iff {addresses : List U32} {s : Mcu L}
    (hpc : s.pc ∉ addresses) :
    (∀ a ∈ addresses, ¬ s.ExecutesAt a) ↔ s.TrapsAvoid addresses := by
  constructor
  · intro h
    refine ⟨fun hdue ⟨w, hw⟩ hmem => ?_, fun code t hraise hcode ⟨w, hw⟩
      hmem => ?_⟩
    · rw [← (interrupt_entry hdue).1] at hmem
      exact h _ hmem (.first hw)
    · rw [← (takeTrap_frame t code).1] at hmem
      exact h _ hmem (.handler hraise hcode hw)
  · rintro ⟨hinterrupt, hexception⟩ a hmem hexec
    cases hexec with
    | @first w hw =>
        by_cases hdue : s.Due
        · rw [(interrupt_entry hdue).1] at hmem
          exact hinterrupt hdue ⟨w, hw⟩ hmem
        · rw [serviceInterrupts_of_not_due hdue] at hmem
          exact hpc hmem
    | @handler code w t hraise hcode hw =>
        rw [(takeTrap_frame t code).1] at hmem
        exact hexception code t hraise hcode ⟨w, hw⟩ hmem

end Mcu

-- ================================================================ the loop

/-- The loop that starts on the first machine has made a number of calls
and tests the pc of the second one. -/
inductive LoopAt (breakpoints : List U32) : Nat → Mcu L → Mcu L → Prop
  | start (s : Mcu L) : LoopAt breakpoints 0 s s
  | round {n : Nat} {s t u : Mcu L} (hgo : s.pc ∉ breakpoints)
      (hnext : s.nextInstruction = .ok t) (hrest : LoopAt breakpoints n t u) :
      LoopAt breakpoints (n + 1) s u

namespace McuDebug

variable {d : McuDebug L}

/-- From a test of the pc on, the loop is the loop with the cycles that
are left. -/
theorem executeLoop_of_loopAt {n cycles : Nat} {u : Mcu L}
    (h : LoopAt d.breakpoints n d.mcu u) :
    d.executeLoop (n + cycles) = executeLoop cycles { d with mcu := u } := by
  generalize hs : d.mcu = s at h
  generalize hb : d.breakpoints = breakpoints at h
  induction h generalizing d with
  | start s =>
      subst hs hb
      rw [Nat.zero_add]
  | @round n s t u hgo hnext _ ih =>
      subst hs hb
      have hstop : ¬ d.isBreakpoint d.mcu.pc = true := by
        simpa [isBreakpoint] using hgo
      rw [Nat.succ_add, executeLoop, if_neg hstop, hnext, ok_bind]
      exact ih (d := { d with mcu := t }) rfl rfl

/-- The loop ends on the machine: the cycles are used up, or its pc is a
breakpoint. -/
def LoopEnds (d : McuDebug L) (cycles : Nat) (u : Mcu L) : Prop :=
  ∃ n ≤ cycles, LoopAt d.breakpoints n d.mcu u
    ∧ (n = cycles ∨ u.pc ∈ d.breakpoints)

/-- Where the loop ends is what it delivers. -/
theorem executeLoop_eq_ok {cycles : Nat} {d' : McuDebug L} :
    d.executeLoop cycles = .ok d'
      ↔ ∃ u, d.LoopEnds cycles u ∧ d' = { d with mcu := u } := by
  constructor
  · intro h
    induction cycles generalizing d with
    | zero =>
        obtain rfl := Except.ok.inj h
        exact ⟨d.mcu, ⟨0, Nat.le_refl 0, .start _, .inl rfl⟩, rfl⟩
    | succ cycles ih =>
        by_cases hbreak : d.mcu.pc ∈ d.breakpoints
        · rw [executeLoop, if_pos (by simpa [isBreakpoint] using hbreak)]
            at h
          obtain rfl := Except.ok.inj h
          exact ⟨d.mcu, ⟨0, Nat.zero_le _, .start _, .inr hbreak⟩, rfl⟩
        · rw [executeLoop, if_neg (by simpa [isBreakpoint] using hbreak)]
            at h
          obtain ⟨t, hnext, h⟩ := bind_eq_ok.1 h
          obtain ⟨u, ⟨n, hn, hat, hend⟩, rfl⟩ := ih h
          exact ⟨u, ⟨n + 1, by omega, .round hbreak hnext hat,
            hend.imp_left (by omega)⟩, rfl⟩
  · rintro ⟨u, ⟨n, hn, hat, hend⟩, rfl⟩
    obtain ⟨left, rfl⟩ := Nat.exists_eq_add_of_le hn
    rw [executeLoop_of_loopAt hat]
    cases left with
    | zero => rfl
    | succ left =>
        have hbreak := hend.resolve_left (by omega)
        rw [executeLoop, if_pos (by simpa [isBreakpoint] using hbreak)]

/-- No instruction at a breakpoint is fetched and executed, and where the
loop comes to one it stops. -/
structure NeverPasses (d : McuDebug L) (cycles : U32) : Prop where
  executes : ∀ n < cycles.toNat, ∀ u, LoopAt d.breakpoints n d.mcu u →
    u.pc ∉ d.breakpoints → ∀ a ∈ d.breakpoints, ¬ u.ExecutesAt a
  stops : ∀ n ≤ cycles.toNat, ∀ u, LoopAt d.breakpoints n d.mcu u →
    u.pc ∈ d.breakpoints →
    d.executeInstructions cycles = .ok { d with mcu := u }

/-- A run passes no breakpoint exactly when no call of `nextInstruction`
in it enters a trap by a vector slot that is one. -/
theorem neverPasses_iff (d : McuDebug L) (cycles : U32) :
    d.NeverPasses cycles
      ↔ ∀ n < cycles.toNat, ∀ u, LoopAt d.breakpoints n d.mcu u →
        u.pc ∉ d.breakpoints → u.TrapsAvoid d.breakpoints := by
  constructor
  · intro h n hn u hat hpc
    exact (Mcu.executes_none_iff hpc).1 (h.executes n hn u hat hpc)
  · intro h
    refine ⟨fun n hn u hat hpc => ?_, fun n hn u hat hbreak => ?_⟩
    · exact (Mcu.executes_none_iff hpc).2 (h n hn u hat hpc)
    · exact executeLoop_eq_ok.2 ⟨u, ⟨n, hn, hat, .inr hbreak⟩, rfl⟩

-- ========================================================= a vector slot

/-- A program that sets mtvec to the base of ROM and makes a call of the
environment, with a breakpoint at the vector slot of that call. -/
def slotBreakpoint : McuDebug .linker where
  dwarfParser := ⟨[], ⟨[], []⟩, []⟩
  mcu := .program
    ([0x800000b7, 0x30509073, 0x00000073] ++ List.replicate 30 0x00000013)
  breakpoints := [0x8000006c]
  latestSourceLine := 0

/-- The third call enters the trap and executes the instruction at the
breakpoint; the loop goes on behind it. -/
theorem slot_breakpoint_passed :
    ¬ slotBreakpoint.NeverPasses 3
      ∧ (slotBreakpoint.executeInstructions 3).map (·.mcu.pc)
        = .ok 0x80000070 := by
  refine ⟨fun h => ?_, by decide +kernel⟩
  have hrun : (do
      let s₁ ← slotBreakpoint.mcu.nextInstruction
      let s₂ ← s₁.nextInstruction
      let (code, t) ← s₂.serviceInterrupts.executeInstruction
      let word ← (t.takeTrap code).busRead (t.takeTrap code).pc WORD
      pure (s₁.pc, s₂.pc, code, (t.takeTrap code).pc, word))
        = .ok (0x80000004, 0x80000008, ECALL_FROM_M_MODE, 0x8000006c,
          (STATUS_OK, some 0x00000013)) := by
    decide +kernel
  obtain ⟨s₁, hnext₁, hrun⟩ := bind_eq_ok.1 hrun
  obtain ⟨s₂, hnext₂, hrun⟩ := bind_eq_ok.1 hrun
  obtain ⟨⟨code, t⟩, hraise, hrun⟩ := bind_eq_ok.1 hrun
  obtain ⟨word, hfetch, hrun⟩ := bind_eq_ok.1 hrun
  simp only [pure_eq_ok, Except.ok.injEq, Prod.mk.injEq] at hrun
  obtain ⟨hpc₁, hpc₂, rfl, hslot, rfl⟩ := hrun
  have hat : LoopAt slotBreakpoint.breakpoints 2 slotBreakpoint.mcu s₂ :=
    .round (by decide) hnext₁ (.round (by rw [hpc₁]; decide) hnext₂
      (.start s₂))
  refine h.executes 2 (by decide) s₂ hat (by rw [hpc₂]; decide) 0x8000006c
    (by decide) ?_
  rw [← hslot]
  exact .handler hraise (by decide) hfetch

end McuDebug

end T89Emu
