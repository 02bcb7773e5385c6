/-
The line that the debugger shows.

A session is a run of commands from the constructor on. The invariant is
`LineFollows`: where the line table has a line at the pc, it is the one
that is shown. `stepInstruction` keeps it; `executeInstructions` does not
look at the table, and `stepLine` stores what it finds even where that is
0, the mark of a pc without a row. What has to hold before each of the
two is `Command.Safe`; `keeps_iff` is the step, and the result
about sessions is the induction over it.
-/
import T89Emu.Debug.Proofs.Breakpoint

namespace T89Emu

open Cpp Dwarf

variable {L : Layout}

-- ================================================================ sessions

/-- The commands of the debugger. -/
inductive Command
  | executeInstructions (cycles : U32)
  | stepInstruction
  | stepLine
  | addBreakpoint (address : U32)
  | removeBreakpoint (address : U32)
  deriving DecidableEq, Repr

/-- The command leads from one state to the other. -/
def Command.Leads (d d' : McuDebug L) : Command → Prop
  | executeInstructions cycles => d.executeInstructions cycles = .ok d'
  | stepInstruction => d.stepInstruction = .ok d'
  | stepLine => ∃ fuel, d.stepLine fuel = .ok d'
  | addBreakpoint address => d.addBreakpoint address = d'
  | removeBreakpoint address => d.removeBreakpoint address = d'

/-- Commands given one after the other, each with the state behind it. -/
inductive Session : McuDebug L → List (Command × McuDebug L) → Prop
  | done (d : McuDebug L) : Session d []
  | command {c : Command} {d d' : McuDebug L}
      {l : List (Command × McuDebug L)} (hleads : c.Leads d d')
      (hrest : Session d' l) : Session d ((c, d') :: l)

namespace McuDebug

variable {d d' : McuDebug L}

/-- Where the unit that contains the pc has a row at it, with a line that
is not 0, the line is the one that is shown. -/
def LineFollows (d : McuDebug L) : Prop :=
  ∀ unit row, d.dwarfParser.getCompileUnitAtPc d.mcu.pc = .ok unit →
    unit.unit.debugLine.getLineEntryAtPc d.mcu.pc = some row →
    row.line ≠ 0 → d.latestSourceLine = row.line

/-- The table's answer at a pc. -/
def lineAt (d : McuDebug L) (pc : U32) : Proc U32 :=
  d.dwarfParser.getLineNumberAtPc pc

theorem lineFollows_iff :
    d.LineFollows ↔ ∀ line, d.lineAt d.mcu.pc = .ok line → line ≠ 0 →
      d.latestSourceLine = line := by
  constructor
  · intro h line hline hne
    obtain ⟨unit, hunit, hline⟩ := bind_eq_ok.1 hline
    have hnumber := Except.ok.inj hline
    rw [LineNumberInfo.getLineNumberAtPc] at hnumber
    cases hrow : unit.unit.debugLine.getLineEntryAtPc d.mcu.pc with
    | none =>
        rw [hrow] at hnumber
        exact absurd hnumber.symm hne
    | some row =>
        rw [hrow] at hnumber
        subst hnumber
        exact h unit row hunit hrow hne
  · intro h unit row hunit hrow hne
    refine h row.line ?_ hne
    refine bind_eq_ok.2 ⟨unit, hunit, ?_⟩
    rw [LineNumberInfo.getLineNumberAtPc, hrow]
    rfl

/-- The constructor shows the line of the first instruction. -/
theorem attach_follows {dwarfParser : DwarfParser} {mcu : Mcu L}
    (h : attach dwarfParser mcu = .ok d) : d.LineFollows := by
  obtain ⟨line, hline, h⟩ := bind_eq_ok.1 h
  obtain rfl := Except.ok.inj h
  refine lineFollows_iff.2 fun line' hline' _ => ?_
  exact Except.ok.inj (hline.symm.trans hline')

-- ======================================================== the loop of step

/-- `stepLine`'s loop goes on from this machine. -/
abbrev GoesOn (d : McuDebug L) (u : Mcu L) (line : U32) : Prop :=
  (line = 0 ∨ line = d.latestSourceLine) ∧ d.mcu.pc ≠ u.pc

/-- The loop of `stepLine`, about to execute an instruction of the first
machine, has made a number of rounds more when it looks at the second
one. -/
inductive LineLoopAt (d : McuDebug L) : Nat → Mcu L → Mcu L → Prop
  | look {s u : Mcu L} (hnext : s.nextInstruction = .ok u) :
      LineLoopAt d 0 s u
  | round {n : Nat} {s t u : Mcu L} {line : U32}
      (hnext : s.nextInstruction = .ok t)
      (hline : d.lineAt t.pc = .ok line) (hgo : d.GoesOn t line)
      (hrest : LineLoopAt d n t u) : LineLoopAt d (n + 1) s u

/-- The loop of `stepLine` ends on the machine, with this line. -/
def LineLoopEnds (d : McuDebug L) (u : Mcu L) (line : U32) : Prop :=
  (∃ n, d.LineLoopAt n d.mcu u) ∧ d.lineAt u.pc = .ok line
    ∧ ¬ d.GoesOn u line

/-- With enough fuel the loop delivers where it ends. -/
theorem stepLineLoop_of_ends {n : Nat} (fuel : Nat) {s u : Mcu L}
    {line : U32}
    (h : d.LineLoopAt n s u) (hline : d.lineAt u.pc = .ok line)
    (hend : ¬ d.GoesOn u line) :
    d.stepLineLoop d.mcu.pc (n + 1 + fuel) s = .ok (u, line) := by
  induction h with
  | @look s u hnext =>
      rw [show 0 + 1 + fuel = fuel + 1 by omega, stepLineLoop, hnext]
      show (d.lineAt u.pc >>= _) = _
      rw [hline, ok_bind, if_neg hend]
      rfl
  | @round n s t u line' hnext hline' hgo _ ih =>
      rw [show n + 1 + 1 + fuel = (n + 1 + fuel) + 1 by omega,
        stepLineLoop, hnext]
      show (d.lineAt t.pc >>= _) = _
      rw [hline', ok_bind, if_pos hgo]
      exact ih hline hend

/-- What the loop delivers is where it ends. -/
theorem ends_of_stepLineLoop {fuel : Nat} {s u : Mcu L} {line : U32}
    (h : d.stepLineLoop d.mcu.pc fuel s = .ok (u, line)) :
    ∃ n, d.LineLoopAt n s u ∧ d.lineAt u.pc = .ok line
      ∧ ¬ d.GoesOn u line := by
  induction fuel generalizing s with
  | zero => simp [stepLineLoop] at h
  | succ fuel ih =>
      rw [stepLineLoop] at h
      obtain ⟨t, hnext, h⟩ := bind_eq_ok.1 h
      obtain ⟨line', hline', h⟩ := bind_eq_ok.1 h
      by_cases hgo : d.GoesOn t line'
      · rw [if_pos hgo] at h
        obtain ⟨n, hat, hline, hend⟩ := ih h
        exact ⟨n + 1, .round (toProc_eq_ok.1 hnext) hline' hgo hat, hline,
          hend⟩
      · rw [if_neg hgo] at h
        obtain ⟨rfl, rfl⟩ := Prod.mk.inj (Except.ok.inj h)
        exact ⟨0, .look (toProc_eq_ok.1 hnext), hline', hgo⟩

/-- Where `stepLine` leads. -/
theorem stepLine_eq_ok :
    (∃ fuel, d.stepLine fuel = .ok d')
      ↔ ∃ u line, d.LineLoopEnds u line
        ∧ d' = { d with mcu := u, latestSourceLine := line } := by
  constructor
  · rintro ⟨fuel, h⟩
    obtain ⟨⟨u, line⟩, hloop, h⟩ := bind_eq_ok.1 h
    obtain ⟨n, hat, hline, hend⟩ := ends_of_stepLineLoop hloop
    exact ⟨u, line, ⟨⟨n, hat⟩, hline, hend⟩, (Except.ok.inj h).symm⟩
  · rintro ⟨u, line, ⟨⟨n, hat⟩, hline, hend⟩, rfl⟩
    refine ⟨n + 1 + 0, ?_⟩
    rw [stepLine, stepLineLoop_of_ends _ hat hline hend]
    rfl

/-- The loop ends on one machine only. -/
theorem LineLoopEnds.unique {u u' : Mcu L} {line line' : U32}
    (h : d.LineLoopEnds u line) (h' : d.LineLoopEnds u' line') :
    u = u' ∧ line = line' := by
  obtain ⟨⟨n, hat⟩, hline, hend⟩ := h
  obtain ⟨⟨n', hat'⟩, hline', hend'⟩ := h'
  have hloop := stepLineLoop_of_ends n' hat hline hend
  have hloop' := stepLineLoop_of_ends n hat' hline' hend'
  rw [show n' + 1 + n = n + 1 + n' by omega, hloop] at hloop'
  exact Prod.mk.inj (Except.ok.inj hloop')

/-- It ends without a line only where it began. -/
theorem lineLoopEnds_zero_iff {u : Mcu L} :
    d.LineLoopEnds u 0
      ↔ (∃ n, d.LineLoopAt n d.mcu u) ∧ u.pc = d.mcu.pc
        ∧ d.lineAt d.mcu.pc = .ok 0 := by
  constructor
  · rintro ⟨hat, hline, hend⟩
    have hpc : u.pc = d.mcu.pc := by
      by_contra hne
      exact hend ⟨.inl rfl, fun h => hne h.symm⟩
    exact ⟨hat, hpc, hpc ▸ hline⟩
  · rintro ⟨hat, hpc, hline⟩
    exact ⟨hat, hpc ▸ hline, fun hgo => hgo.2 hpc.symm⟩

end McuDebug

-- ============================================================== the step

namespace Command

open McuDebug

variable {c : Command} {d d' : McuDebug L}

/-- What has to hold before a command. Where `executeInstructions` ends,
the table has no line or the one that is shown; and `stepLine` does not
come back to where it began without having seen another line, if there
is none there either and one is shown. -/
def Safe (d : McuDebug L) : Command → Prop
  | executeInstructions cycles =>
      ∀ u line, d.LoopEnds cycles.toNat u → d.lineAt u.pc = .ok line →
        line = 0 ∨ line = d.latestSourceLine
  | stepLine =>
      ∀ n u, d.LineLoopAt n d.mcu u → u.pc = d.mcu.pc →
        d.lineAt d.mcu.pc = .ok 0 → d.latestSourceLine = 0
  | _ => True

/-- The line follows behind a command, and is not lost by it. -/
def Keeps (d d' : McuDebug L) : Prop :=
  d'.LineFollows ∧ (d.latestSourceLine ≠ 0 → d'.latestSourceLine ≠ 0)

theorem executeInstructions_keeps_iff {cycles : U32}
    (h : d.executeInstructions cycles = .ok d') :
    Keeps d d' ↔ (executeInstructions cycles).Safe d := by
  obtain ⟨u, hends, rfl⟩ := executeLoop_eq_ok.1 h
  have hkeeps : Keeps d { d with mcu := u } ↔
      LineFollows { d with mcu := u } := and_iff_left id
  rw [hkeeps, lineFollows_iff]
  constructor
  · intro hfollows u' line hends' hline
    have hsame : u' = u := by
      have h' := executeLoop_eq_ok.2 ⟨u', hends', rfl⟩
      exact congrArg McuDebug.mcu (Except.ok.inj (h'.symm.trans h))
    subst hsame
    by_cases hzero : line = 0
    · exact .inl hzero
    · exact .inr (hfollows line hline hzero).symm
  · intro hsafe line hline hne
    exact ((hsafe u line hends hline).resolve_left hne).symm

theorem stepInstruction_keeps (h : d.stepInstruction = .ok d') :
    Keeps d d' := by
  obtain ⟨u, -, h⟩ := bind_eq_ok.1 h
  obtain ⟨curLine, hline, h⟩ := bind_eq_ok.1 h
  obtain rfl := Except.ok.inj h
  refine ⟨lineFollows_iff.2 fun line hline' hne => ?_, fun hne => ?_⟩
  · obtain rfl := Except.ok.inj (hline.symm.trans hline')
    exact if_pos hne
  · show (if curLine ≠ 0 then curLine else d.latestSourceLine) ≠ 0
    split
    case isTrue hcur => exact hcur
    case isFalse => exact hne

theorem stepLine_keeps_iff (h : ∃ fuel, d.stepLine fuel = .ok d') :
    Keeps d d' ↔ stepLine.Safe d := by
  obtain ⟨u, line, hends, rfl⟩ := stepLine_eq_ok.1 h
  have hfollows : LineFollows { d with mcu := u, latestSourceLine := line }
      := lineFollows_iff.2 fun line' hline' _ =>
    Except.ok.inj (hends.2.1.symm.trans hline')
  have hkeeps : Keeps d { d with mcu := u, latestSourceLine := line }
      ↔ (d.latestSourceLine ≠ 0 → line ≠ 0) := and_iff_right hfollows
  rw [hkeeps]
  constructor
  · intro hkept n u' hat hpc hline
    have hends' := lineLoopEnds_zero_iff.2 ⟨⟨n, hat⟩, hpc, hline⟩
    by_contra hne
    exact hkept hne (hends.unique hends').2
  · intro hsafe hne hzero
    subst hzero
    obtain ⟨⟨n, hat⟩, hpc, hline⟩ := lineLoopEnds_zero_iff.1 hends
    exact hne (hsafe n u hat hpc hline)

/-- A command keeps the line exactly when it is safe. -/
theorem keeps_iff (hd : d.LineFollows) (h : c.Leads d d') :
    Keeps d d' ↔ c.Safe d := by
  cases c with
  | executeInstructions cycles => exact executeInstructions_keeps_iff h
  | stepInstruction => exact iff_of_true (stepInstruction_keeps h) trivial
  | stepLine => exact stepLine_keeps_iff h
  | addBreakpoint address =>
      refine iff_of_true ?_ trivial
      subst h
      unfold McuDebug.addBreakpoint
      split
      case isTrue => exact ⟨hd, id⟩
      case isFalse => exact ⟨hd, id⟩
  | removeBreakpoint address =>
      subst h
      exact iff_of_true ⟨hd, id⟩ trivial

end Command

-- =========================================================== the session

namespace McuDebug

/-- The states of a session, the first one included. -/
def states (d : McuDebug L) (l : List (Command × McuDebug L)) :
    List (McuDebug L) :=
  d :: l.map Prod.snd

/-- Each command of a session is safe where it is given. -/
def AllSafe : McuDebug L → List (Command × McuDebug L) → Prop
  | _, [] => True
  | d, (c, d') :: l => c.Safe d ∧ AllSafe d' l

/-- In every state the line follows the pc, and a line that was shown is
not replaced by 0 later on. -/
structure AlwaysFollows (d : McuDebug L)
    (l : List (Command × McuDebug L)) : Prop where
  follows : ∀ x ∈ states d l, x.LineFollows
  never_zero : (states d l).Pairwise fun x y =>
    x.latestSourceLine ≠ 0 → y.latestSourceLine ≠ 0

/-- The property of a session is one of each of its steps. -/
theorem alwaysFollows_cons {c : Command} {d d' : McuDebug L}
    {l : List (Command × McuDebug L)} :
    AlwaysFollows d ((c, d') :: l)
      ↔ d.LineFollows
        ∧ (d.latestSourceLine ≠ 0 → d'.latestSourceLine ≠ 0)
        ∧ AlwaysFollows d' l := by
  constructor
  · rintro ⟨hfollows, hpair⟩
    obtain ⟨hfirst, hrest⟩ := List.pairwise_cons.1 hpair
    exact ⟨hfollows d List.mem_cons_self, hfirst d' List.mem_cons_self,
      fun x hx => hfollows x (List.mem_cons_of_mem _ hx), hrest⟩
  · rintro ⟨hd, hstep, hfollows, hpair⟩
    refine ⟨?_, List.pairwise_cons.2 ⟨?_, hpair⟩⟩
    · rintro x (_ | ⟨_, hx⟩)
      · exact hd
      · exact hfollows x hx
    · rintro y (_ | ⟨_, hy⟩) hne
      · exact hstep hne
      · exact (List.pairwise_cons.1 hpair).1 y hy (hstep hne)

/-- From the constructor on, the line always follows the pc exactly when
every command is safe. -/
theorem line_follows_iff {dwarfParser : DwarfParser} {mcu : Mcu L}
    {d : McuDebug L} {l : List (Command × McuDebug L)}
    (hnew : attach dwarfParser mcu = .ok d) (h : Session d l) :
    AlwaysFollows d l ↔ AllSafe d l := by
  have hd := attach_follows hnew
  clear hnew
  induction h with
  | done d =>
      refine iff_of_true ⟨?_, List.pairwise_singleton ..⟩ trivial
      rintro x (_ | ⟨_, hx⟩)
      · exact hd
      · cases hx
  | @command c d d' l hleads _ ih =>
      rw [alwaysFollows_cons, AllSafe, ← Command.keeps_iff hd hleads]
      constructor
      · rintro ⟨-, hstep, hrest⟩
        have hd' := hrest.follows d' List.mem_cons_self
        exact ⟨⟨hd', hstep⟩, (ih hd').1 hrest⟩
      · rintro ⟨⟨hd', hstep⟩, hsafe⟩
        exact ⟨hd, hstep, (ih hd').2 hsafe⟩

-- ===================================================== a file of two lines

/-- A unit from the base of ROM on. -/
def twoLineUnit : List U8 :=
  [17, 0, 0, 0, 5, 0, 1, 4, 0, 0, 0, 0, 1, 0, 0, 0, 0x80, 16, 0, 0, 0]

/-- Its abbreviation: DW_AT_low_pc and DW_AT_high_pc. -/
def twoLineAbbrev : List U8 :=
  [1, 0x11, 0, 0x11, 0x01, 0x12, 0x06, 0, 0, 0]

/-- Its line program: line 1 at the first instruction and line 2 at the
second one. -/
def twoLineProgram : List U8 :=
  [51, 0, 0, 0, 5, 0, 4, 0, 26, 0, 0, 0, 1, 1, 1, 0xf6, 0xf2, 13]
    ++ [0, 1, 1, 1, 1, 0, 0, 0, 1, 0, 0, 1] ++ [1, 1, 8, 1, 0x2f, 0, 0, 0]
    ++ [0, 5, 2, 0, 0, 0, 0x80, 1, 3, 1, 9, 4, 0, 1, 0, 1, 1]

def twoLineSections : DebugSections where
  elfData := twoLineUnit ++ twoLineAbbrev ++ twoLineProgram
  debugInfoStart := 0
  debugInfoSize := 21
  debugAbbrevStart := 21
  debugStrStart := 0
  debugLineStrStart := 0
  debugLineStart := 31
  debugFrameStart := 0
  debugFrameSize := 0

/-- Its instructions do nothing. -/
def twoLineMachine : Mcu .linker := .program (List.replicate 4 0x00000013)

/-- What an evaluation finds of the first instruction. -/
theorem twoLine_run :
    ∃ p d d', DwarfParser.ofSections (fun _ => none) 2 twoLineSections
        = .ok p
      ∧ attach p twoLineMachine = .ok d ∧ d.executeInstructions 1 = .ok d'
      ∧ d.latestSourceLine = 1 ∧ d'.mcu.pc = 0x80000004
      ∧ p.getLineNumberAtPc 0x80000004 = .ok 2 := by
  have hrun : (do
      let p ← DwarfParser.ofSections (fun _ => none) 2 twoLineSections
      let d ← attach p twoLineMachine
      let d' ← d.executeInstructions 1
      let line ← p.getLineNumberAtPc 0x80000004
      pure (d.latestSourceLine, d'.mcu.pc, line))
        = (.ok (1, 0x80000004, 2) : Proc (U32 × U32 × U32)) := by
    decide +kernel
  obtain ⟨p, hp, hrun⟩ := bind_eq_ok.1 hrun
  obtain ⟨d, hd, hrun⟩ := bind_eq_ok.1 hrun
  obtain ⟨d', hd', hrun⟩ := bind_eq_ok.1 hrun
  obtain ⟨line, hline, hrun⟩ := bind_eq_ok.1 hrun
  simp only [pure_eq_ok, Except.ok.injEq, Prod.mk.injEq] at hrun
  obtain ⟨hfirst, hpc, rfl⟩ := hrun
  exact ⟨p, d, d', hp, hd, toProc_eq_ok.1 hd', hfirst, hpc, hline⟩

/-- A session of one instruction run: its line follows the pc exactly
when that command was safe. -/
theorem twoLine_session :
    ∃ p d d', DwarfParser.ofSections (fun _ => none) 2 twoLineSections
        = .ok p
      ∧ attach p twoLineMachine = .ok d
      ∧ Session d [(.executeInstructions 1, d')]
      ∧ (AlwaysFollows d [(.executeInstructions 1, d')]
        ↔ AllSafe d [(.executeInstructions 1, d')]) := by
  obtain ⟨p, d, d', hp, hd, hd', -⟩ := twoLine_run
  have hsession : Session d [(.executeInstructions 1, d')] :=
    .command hd' (.done d')
  exact ⟨p, d, d', hp, hd, hsession, line_follows_iff hd hsession⟩

/-- Behind the first instruction the pc is on line 2, and line 1 is
shown. -/
theorem shows_old_line :
    ∃ p d d', DwarfParser.ofSections (fun _ => none) 2 twoLineSections
        = .ok p
      ∧ attach p twoLineMachine = .ok d
      ∧ Session d [(.executeInstructions 1, d')]
      ∧ d'.lineAt d'.mcu.pc = .ok 2 ∧ d'.latestSourceLine = 1
      ∧ ¬ AlwaysFollows d [(.executeInstructions 1, d')] := by
  obtain ⟨p, d, d', hp, hd, hd', hfirst, hpc, hline⟩ := twoLine_run
  obtain ⟨u, -, rfl⟩ := executeLoop_eq_ok.1 hd'
  have hparser : d.dwarfParser = p := by
    obtain ⟨line, -, hd⟩ := bind_eq_ok.1 hd
    exact (congrArg McuDebug.dwarfParser (Except.ok.inj hd)).symm
  have hshown : lineAt { d with mcu := u } u.pc = .ok 2 := by
    show d.dwarfParser.getLineNumberAtPc u.pc = .ok 2
    rw [hparser, hpc, hline]
  refine ⟨p, d, _, hp, hd, .command hd' (.done _), hshown, hfirst,
    fun h => ?_⟩
  have hfollows := h.follows { d with mcu := u }
    (List.mem_cons_of_mem _ List.mem_cons_self)
  have hsame : d.latestSourceLine = 2 :=
    lineFollows_iff.1 hfollows 2 hshown (by decide)
  rw [hfirst] at hsame
  exact absurd hsame (by decide)

end McuDebug

end T89Emu
