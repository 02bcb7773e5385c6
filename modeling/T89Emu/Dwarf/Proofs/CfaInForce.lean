/-
The CFA that is found for a location is the one in force there exactly
when what all instructions leave is the rule at the location.

`processInstructions` carries out every instruction of the common entry
and of the frame entry, wherever the location lies. What counts is the
register that was named last and the offset that was set last, with
every advance behind it on top, since a row keeps its location in the
place of its offset. `final_eq` says so of `final`.

Of several frame entries whose ranges contain the location the last one
is taken. Of a common entry of version 4 what is carried out is what its
bytes are read as from the place on at which the parser takes its
instructions to begin (`CarriedOut`).
-/
import Mathlib.Data.List.Induction
import T89Emu.Dwarf.Proofs.CallFrame
import T89Emu.Lib.Lockstep

namespace T89Emu.Dwarf

open Cpp Bytes CallFrame

-- ==================================================== the frame entry taken

/-- Whether a frame entry is taken to be of a location. -/
def Covers (l1 : U32) (f : Fde) : Prop :=
  f.initialLocation ≤ l1 ∧ l1 < f.initialLocation + f.addressRange

instance (l1 : U32) (f : Fde) : Decidable (Covers l1 f) :=
  inferInstanceAs (Decidable (_ ∧ _))

/-- The frame entry that is taken. -/
def lastCovering (l1 : U32) (entries : List Entry) : Option Fde :=
  (fdesOf entries).reverse.find? fun f => decide (Covers l1 f)

/-- A search that goes on when it has found something finds the last
one. -/
theorem foldl_last {α : Type _} (p : α → Bool) (l : List α) :
    l.foldl (fun found a => if p a then some a else found) none
      = l.reverse.find? p := by
  induction l using List.reverseRecOn with
  | nil => rfl
  | append_singleton l a ih =>
      rw [List.foldl_append, ih, List.reverse_append]
      show (if p a then some a else l.reverse.find? p)
        = (a :: l.reverse).find? p
      rw [List.find?_cons]
      cases p a with
      | true => rfl
      | false => rfl

/-- Searches for what is kept of the same thing. -/
theorem find_kept (l1 : U32) {l : List Fde} {m : List FrameDescriptEntry}
    (h : List.Forall₂ IsKept l m) :
    Option.Rel IsKept (l.find? fun f => decide (Covers l1 f))
      (m.find? (FrameDescriptEntry.covers l1)) := by
  refine Lockstep.find_rel h fun f p hkept => ?_
  obtain ⟨following, behind, rfl⟩ := hkept
  exact Bool.decide_and ..

/-- The search goes on to the last frame entry that covers the location.
-/
theorem findFde_kept (behind : List U8) (entries : List Entry) (l1 : U32) :
    Option.Rel IsKept (lastCovering l1 entries)
      ((kept behind 0 entries ⟨[], []⟩).findFde l1) := by
  obtain ⟨fdes, hfdes, hkept⟩ := kept_fdes behind entries 0 ⟨[], []⟩
  rw [CallFrameInfo.findFde, foldl_last, hfdes, List.nil_append]
  exact find_kept l1 (List.forall₂_reverse_iff.2 hkept)

-- ========================================================= what is left

/-- The register that an instruction names for the CFA. -/
def namesRegister : Instr → Option Leb128
  | .defCfa register _ | .defCfaRegister register => some register
  | _ => none

/-- The offset that it sets. -/
def setsOffset : Instr → Option Leb128
  | .defCfa _ distance | .defCfaOffset distance => some distance
  | _ => none

/-- The register that was named last, 0 when there was none. -/
def lastRegister (program : List Instr) : Nat :=
  ((program.reverse.findSome? namesRegister).map Leb128.unsigned).getD 0

/-- The offset that was set last, the initial location when there was
none. -/
def lastOffset (initialLocation : Nat) (program : List Instr) : Nat :=
  ((program.reverse.findSome? setsOffset).map Leb128.unsigned).getD
    initialLocation

/-- What the advances behind that add to it. -/
def advancedSince (codeAlignment : Nat) (program : List Instr) : Nat :=
  ((program.reverse.takeWhile fun i => (setsOffset i).isNone).map
    (codeAdvance codeAlignment)).sum

/-- One more instruction names another register, or leaves it. -/
theorem lastRegister_append (program : List Instr) (i : Instr) :
    lastRegister (program ++ [i])
      = ((namesRegister i).map Leb128.unsigned).getD
          (lastRegister program) := by
  unfold lastRegister
  rw [List.reverse_append]
  show ((List.findSome? _ (i :: program.reverse)).map _).getD 0 = _
  rw [List.findSome?_cons]
  cases namesRegister i with
  | none => rfl
  | some register => rfl

/-- Behind an instruction that sets the offset the count starts anew. -/
theorem lastOffset_set (initialLocation codeAlignment : Nat)
    (program : List Instr) {i : Instr} {distance : Leb128}
    (hi : setsOffset i = some distance) :
    lastOffset initialLocation (program ++ [i]) = distance.unsigned
      ∧ advancedSince codeAlignment (program ++ [i]) = 0 := by
  unfold lastOffset advancedSince
  rw [List.reverse_append]
  show ((List.findSome? _ (i :: program.reverse)).map _).getD _ = _
    ∧ (((i :: program.reverse).takeWhile _).map _).sum = 0
  rw [List.findSome?_cons, hi, List.takeWhile_cons_of_neg (by simp [hi])]
  exact ⟨rfl, rfl⟩

/-- One that sets no offset adds to what comes behind the last one that
does. -/
theorem lastOffset_kept (initialLocation codeAlignment : Nat)
    (program : List Instr) {i : Instr} (hi : setsOffset i = none) :
    lastOffset initialLocation (program ++ [i])
        = lastOffset initialLocation program
      ∧ advancedSince codeAlignment (program ++ [i])
        = codeAdvance codeAlignment i
          + advancedSince codeAlignment program := by
  unfold lastOffset advancedSince
  rw [List.reverse_append]
  show ((List.findSome? _ (i :: program.reverse)).map _).getD _ = _
    ∧ (((i :: program.reverse).takeWhile _).map _).sum = _
  rw [List.findSome?_cons, hi, List.takeWhile_cons_of_pos (by simp [hi])]
  exact ⟨rfl, rfl⟩

/-- One instruction, by what it names and what it sets. -/
theorem effect_eq (codeAlignment : Nat) (cfa : U32 × U32) (i : Instr) :
    effect codeAlignment cfa i
      = (((namesRegister i).map fun e => BitVec.ofNat 32 e.unsigned).getD
            cfa.1,
          ((setsOffset i).map fun e => BitVec.ofNat 32 e.unsigned).getD
            (cfa.2 + BitVec.ofNat 32 (codeAdvance codeAlignment i))) := by
  cases i with
  | defCfaRegister register =>
      exact Prod.ext rfl (BitVec.add_zero cfa.2).symm
  | nop | advanceLoc | advanceLoc1 | defCfa | defCfaOffset | offset
  | restore => rfl

/-- The closed form of a run. -/
theorem final_eq (codeAlignment : Nat) (initialLocation : U32)
    (program : List Instr) :
    final codeAlignment (0, initialLocation) program
      = (BitVec.ofNat 32 (lastRegister program),
        BitVec.ofNat 32 (lastOffset initialLocation.toNat program
          + advancedSince codeAlignment program)) := by
  induction program using List.reverseRecOn with
  | nil =>
      refine Prod.ext rfl ?_
      show initialLocation = BitVec.ofNat 32 (initialLocation.toNat + 0)
      simp
  | append_singleton program i ih =>
      have hlast : final codeAlignment (0, initialLocation) (program ++ [i])
          = effect codeAlignment
              (final codeAlignment (0, initialLocation) program) i := by
        simp [final]
      rw [hlast, ih, effect_eq, lastRegister_append]
      refine Prod.ext ?_ ?_
      · cases namesRegister i with
        | none => rfl
        | some register => rfl
      · cases hi : setsOffset i with
        | none =>
            obtain ⟨hoffset, hadvanced⟩ := lastOffset_kept
              initialLocation.toNat codeAlignment program hi
            show BitVec.ofNat 32 _ + BitVec.ofNat 32 _ = BitVec.ofNat 32 _
            rw [hoffset, hadvanced, ← BitVec.ofNat_add]
            congr 1
            omega
        | some distance =>
            obtain ⟨hoffset, hadvanced⟩ := lastOffset_set
              initialLocation.toNat codeAlignment program hi
            show BitVec.ofNat 32 distance.unsigned = BitVec.ofNat 32 _
            rw [hoffset, hadvanced, Nat.add_zero]

/-- The instructions that are carried out for a common entry: its own,
or what the block behind its head is read as when the head is that of a
version the parser does not know. -/
def CarriedOut (c : Cie) (behind : List U8) (program : List Instr) : Prop :=
  if c.version = 4 then
    ReadsAs program ((seen c).block ++ behind) (seen c).block.length
  else program = c.instructions

/-- These instructions and all of a frame entry leave this register and
this offset. -/
def LeavesRule (c : Cie) (g : Fde) (initial : List Instr) (r o : Nat) :
    Prop :=
  let program := initial ++ g.instructions
  (∀ i ∈ program, Defined i)
    ∧ lastRegister program ≡ r [MOD 2 ^ 32]
    ∧ lastOffset g.initialLocation.toNat program
        + advancedSince (seen c).codeAlignment.unsigned program
      ≡ o [MOD 2 ^ 32]

/-- The rule that is found at a location: what the instructions of the
last frame entry covering it leave, those of its common entry in front.
Other bytes of the file lie behind the section. -/
def RuleLeft (entries : List Entry) (behind : List U8) (l1 : U32)
    (r o : Nat) : Prop :=
  ∃ g c initial, lastCovering l1 entries = some g
    ∧ cieAt g.ciePointer.toNat 0 entries = some c
    ∧ CarriedOut c (sectionBytes (behindCieAt g.ciePointer.toNat 0 entries)
      ++ behind) initial
    ∧ LeavesRule c g initial r o

/-- Read as it is or not, the block is read as the program. -/
theorem CarriedOut.readsAs {c : Cie} {behind : List U8}
    {program : List Instr} (h : CarriedOut c behind program) :
    ReadsAs program ((seen c).block ++ behind) (seen c).block.length := by
  unfold CarriedOut at h
  split at h
  next => exact h
  next hversion =>
    rw [h, seen, if_neg hversion]
    exact readsAs_bytes c.instructions behind

-- ================================================================= lookup

/-- A frame entry of the section is one of its entries. -/
theorem mem_of_fdesOf {entries : List Entry} {f : Fde}
    (hf : f ∈ fdesOf entries) : .fde f ∈ entries := by
  induction entries with
  | nil => cases hf
  | cons e entries ih =>
      cases e with
      | cie c => exact List.mem_cons_of_mem _ (ih hf)
      | fde g =>
          rcases List.mem_cons.1 hf with rfl | hf
          · exact List.mem_cons_self
          · exact List.mem_cons_of_mem _ (ih hf)

/-- And so is a common entry that is found. -/
theorem mem_of_cieAt {entries : List Entry} {offset start : Nat} {c : Cie}
    (hc : cieAt offset start entries = some c) : .cie c ∈ entries := by
  induction entries generalizing start with
  | nil => cases hc
  | cons e entries ih =>
      cases e with
      | fde f => exact List.mem_cons_of_mem _ (ih hc)
      | cie d =>
          unfold cieAt at hc
          split at hc
          · exact Option.some.inj hc ▸ List.mem_cons_self
          · exact List.mem_cons_of_mem _ (ih hc)

/-- An entry lies in the section. -/
theorem length_of_mem {entries : List Entry} {e : Entry}
    (he : e ∈ entries) : e.body.length ≤ (sectionBytes entries).length := by
  induction he with
  | head entries =>
      rw [sectionBytes_cons, List.length_append, Entry.length_bytes]
      omega
  | tail e' _ ih =>
      rw [sectionBytes_cons, List.length_append]
      omega

/-- What is related to something is something. -/
theorem rel_some {α β : Type _} {R : α → β → Prop} {a : α}
    {found : Option β} (h : Option.Rel R (some a) found) :
    ∃ b, found = some b ∧ R a b := by
  cases h with
  | some h => exact ⟨_, rfl, h⟩

/-- What is related to nothing is nothing. -/
theorem rel_none {α β : Type _} {R : α → β → Prop} {found : Option β}
    (h : Option.Rel R (none : Option α) found) : found = none := by
  cases h with
  | none => rfl

/-- Without a common entry there is no table. -/
theorem generateVirtTable_of_no_cie {info : CallFrameInfo} {l1 : U32}
    {fde : FrameDescriptEntry} (hfde : info.findFde l1 = some fde)
    (hcie : info.cies.lookup (fde.ciePointer.setWidth 64) = none) :
    info.generateVirtTable l1 = .ok none := by
  simp only [CallFrameInfo.generateVirtTable, hfde, hcie]
  rfl

/-- The entries that are taken. -/
theorem entries_taken {entries : List Entry} (behind : List U8) {l1 : U32}
    (hlen : (sectionBytes entries).length < 2 ^ 32) {g : Fde} {c : Cie}
    (hg : lastCovering l1 entries = some g)
    (hc : cieAt g.ciePointer.toNat 0 entries = some c) :
    let info := kept behind 0 entries ⟨[], []⟩
    (∃ following fdeBehind,
        info.findFde l1 = some (parsedFde g following fdeBehind))
      ∧ info.cies.lookup (g.ciePointer.setWidth 64)
        = some (parsedCie c
          (sectionBytes (behindCieAt g.ciePointer.toNat 0 entries))
          behind) := by
  constructor
  · have hfde := findFde_kept behind entries l1
    rw [hg] at hfde
    obtain ⟨_, hfde, following, fdeBehind, rfl⟩ := rel_some hfde
    exact ⟨following, fdeBehind, hfde⟩
  · obtain ⟨found, hfound, hcie⟩ :=
      kept_cies behind entries 0 ⟨[], []⟩ g.ciePointer (by omega)
    rw [hc] at hcie
    rw [hfound, hcie]
    rfl

/-- The table is what the instructions carried out for the common entry
and all of the frame entry leave. -/
theorem generateVirtTable_run {entries : List Entry} (behind : List U8)
    {l1 : U32} (hlen : (sectionBytes entries).length < 2 ^ 32) {g : Fde}
    {c : Cie} (hg : lastCovering l1 entries = some g)
    (hc : cieAt g.ciePointer.toNat 0 entries = some c)
    {initial : List Instr} (hcarried : CarriedOut c
      (sectionBytes (behindCieAt g.ciePointer.toNat 0 entries) ++ behind)
      initial) :
    ∃ t, (kept behind 0 entries ⟨[], []⟩).generateVirtTable l1
        = (if ∀ i ∈ initial ++ g.instructions, Defined i then .ok (some t)
          else .error (.undefined .shiftCount))
      ∧ cfaOf t = final (seen c).codeAlignment.unsigned
          (0, g.initialLocation) (initial ++ g.instructions) := by
  obtain ⟨⟨following, fdeBehind, hfde⟩, hcie⟩ :=
    entries_taken behind hlen hg hc
  have hcLength := length_of_mem (mem_of_cieAt hc)
  have hgLength := length_of_mem (mem_of_fdesOf
    (List.mem_reverse.1 (List.mem_of_find?_eq_some hg)))
  rw [length_seen] at hcLength
  rw [length_fde] at hgLength
  let following₁ := sectionBytes (behindCieAt g.ciePointer.toNat 0 entries)
  let cie := parsedCie c following₁ behind
  let first : VirtTable :=
    ⟨[], TableEntry.initial.setLocation g.initialLocation⟩
  have hcaf : cie.codeAlignmentFactor.setWidth 32
      = BitVec.ofNat 32 (seen c).codeAlignment.unsigned := ulebValue_low _
  have hgBound : (CallFrame.bytes g.instructions).length < 2 ^ 64 :=
    Nat.lt_of_le_of_lt (Nat.le_add_left ..)
      (Nat.lt_of_le_of_lt hgLength (by omega))
  have hinitial : Carries cie cie.initialInstructions
      cie.instructionsBlockSize initial :=
    carries_readsAs cie initial following₁ behind (by omega)
      hcarried.readsAs
  have hprogram : Carries cie
      (parsedFde g following fdeBehind).instructions
      (parsedFde g following fdeBehind).instructionsBlockSize
      g.instructions :=
    carries_readsAs cie g.instructions following fdeBehind hgBound
      (readsAs_bytes g.instructions _)
  exact ⟨performAll cie first (initial ++ g.instructions),
    generateVirtTable_carries hfde hcie hinitial hprogram,
    (leaves_performAll (initial ++ g.instructions) hcaf rfl).2⟩

/-- A table that is generated is what some instructions leave. -/
theorem carriedOut_of_generateVirtTable {entries : List Entry}
    {behind : List U8} {l1 : U32}
    (hlen : (sectionBytes entries).length < 2 ^ 32) {g : Fde} {c : Cie}
    (hg : lastCovering l1 entries = some g)
    (hc : cieAt g.ciePointer.toNat 0 entries = some c) {t : VirtTable}
    (h : (kept behind 0 entries ⟨[], []⟩).generateVirtTable l1
      = .ok (some t)) :
    ∃ initial, CarriedOut c
      (sectionBytes (behindCieAt g.ciePointer.toNat 0 entries) ++ behind)
      initial := by
  obtain ⟨⟨following, fdeBehind, hfde⟩, hcie⟩ :=
    entries_taken behind hlen hg hc
  have hcLength := length_of_mem (mem_of_cieAt hc)
  rw [length_seen] at hcLength
  unfold CarriedOut
  by_cases hversion : c.version = 4
  · rw [generateVirtTable_of_cie hfde hcie] at h
    obtain ⟨t₁, hrun, -⟩ := bind_eq_ok.1 h
    obtain ⟨initial, hread, -⟩ := readsAs_of_processInstructions rfl
      (show (seen c).block.length < 2 ^ 64 by omega) hrun
    exact ⟨initial, (if_pos hversion).mpr hread⟩
  · exact ⟨c.instructions, (if_neg hversion).mpr rfl⟩

/-- Without a frame entry for the location, or without its common entry,
there is no table. -/
theorem generateVirtTable_none {entries : List Entry} (behind : List U8)
    {l1 : U32} (hlen : (sectionBytes entries).length < 2 ^ 32)
    (h : ∀ g, lastCovering l1 entries = some g →
      cieAt g.ciePointer.toNat 0 entries = none) :
    (kept behind 0 entries ⟨[], []⟩).generateVirtTable l1 = .ok none := by
  have hfde := findFde_kept behind entries l1
  cases hg : lastCovering l1 entries with
  | none =>
      rw [hg] at hfde
      simp only [CallFrameInfo.generateVirtTable, rel_none hfde]
      rfl
  | some g =>
      rw [hg] at hfde
      obtain ⟨_, hfde, fdeFollowing, fdeBehind, rfl⟩ := rel_some hfde
      obtain ⟨found, hfound, hcie⟩ :=
        kept_cies behind entries 0 ⟨[], []⟩ g.ciePointer (by omega)
      rw [h g hg] at hcie
      rw [hcie] at hfound
      exact generateVirtTable_of_no_cie hfde hfound

-- ============================================================ the address

/-- Different registers can hold different values. -/
theorem registers_differ {r r' : BitVec 5}
    (h : ∀ regs : RegisterFile, regs.read r = regs.read r') : r = r' := by
  have hzero (r r' : BitVec 5)
      (h : ∀ regs : RegisterFile, regs.read r = regs.read r')
      (hr : r ≠ 0#5) : r = r' := by
    by_contra hne
    have hread := h (RegisterFile.reset.write 1 r)
    rw [RegisterFile.read_write_self _ hr,
      RegisterFile.read_write_of_ne _ (Ne.symm hne)] at hread
    exact absurd (show (1 : U32) = 0 from hread) (by decide)
  by_cases hr : r = 0#5
  · by_cases hr' : r' = 0#5
    · rw [hr, hr']
    · exact (hzero r' r (fun regs => (h regs).symm) hr').symm
  · exact hzero r r' h hr

/-- The address is that of a register and an offset, whatever the
registers hold, exactly when they are the two found. -/
theorem address_iff {reg offset : U32} {r : BitVec 5} {o : Nat} :
    (∀ regs, (Eval.toProc (CallFrameInfo.readReg regs reg)
        >>= fun value => .ok (some (value + offset)))
          = (.ok (some (regs.read r + BitVec.ofNat 32 o)) : Proc _))
      ↔ reg.toNat = r.toNat ∧ offset = BitVec.ofNat 32 o := by
  by_cases hreg : reg.toNat < 32
  · have hread (regs : RegisterFile) :
        Eval.toProc (CallFrameInfo.readReg regs reg)
          = .ok (regs.read (reg.setWidth 5)) := by
      rw [CallFrameInfo.readReg, if_pos hreg, toProc_ok]
    have hnumber : reg.toNat = r.toNat ↔ reg.setWidth 5 = r := by
      rw [← BitVec.toNat_inj, BitVec.toNat_setWidth, Nat.mod_eq_of_lt hreg]
    simp only [hread, ok_bind, Except.ok.injEq, Option.some.injEq, hnumber]
    constructor
    · intro h
      have hoffset : offset = BitVec.ofNat 32 o := by
        have hreset := h RegisterFile.reset
        simpa [RegisterFile.reset, RegisterFile.read] using hreset
      refine ⟨registers_differ fun regs => ?_, hoffset⟩
      have hsum := h regs
      rwa [hoffset, BitVec.add_left_inj] at hsum
    · rintro ⟨rfl, rfl⟩ regs
      rfl
  · have hread (regs : RegisterFile) :
        Eval.toProc (CallFrameInfo.readReg regs reg)
          = .error (.undefined .outOfBounds) := by
      rw [CallFrameInfo.readReg, if_neg hreg, toProc_error]
    constructor
    · intro h
      have hreset := h RegisterFile.reset
      rw [hread] at hreset
      cases hreset
    · rintro ⟨hnumber, -⟩
      have hr := r.isLt
      omega

/-- The address is taken from the last row of the table. -/
theorem getCfaAtLocation_eq (info : CallFrameInfo) (l1 : U32)
    (regs : RegisterFile) :
    info.getCfaAtLocation l1 regs
      = info.generateVirtTable l1 >>= fun t => match t with
        | none => .ok none
        | some t => Eval.toProc (CallFrameInfo.readReg regs t.back.regNum)
            >>= fun value => .ok (some (value + t.back.regOffset)) := rfl

/-- What a table is asked for. -/
theorem address_of_table {info : CallFrameInfo} {l1 : U32} {t : VirtTable}
    (h : info.generateVirtTable l1 = .ok (some t)) (r : BitVec 5)
    (o : Nat) :
    (∀ regs, info.getCfaAtLocation l1 regs
        = .ok (some (regs.read r + BitVec.ofNat 32 o)))
      ↔ t.back.regNum.toNat = r.toNat
        ∧ t.back.regOffset = BitVec.ofNat 32 o := by
  simp only [getCfaAtLocation_eq, h, ok_bind]
  exact address_iff

/-- A CFA is one of a table. -/
theorem table_of_getCfaAtLocation {info : CallFrameInfo} {l1 : U32}
    {regs : RegisterFile} {cfa : U32}
    (h : info.getCfaAtLocation l1 regs = .ok (some cfa)) :
    ∃ t, info.generateVirtTable l1 = .ok (some t) := by
  rw [getCfaAtLocation_eq] at h
  obtain ⟨t, ht, h⟩ := bind_eq_ok.1 h
  cases t with
  | none => cases h
  | some t => exact ⟨t, ht⟩

/-- The CFA that the instructions carried out give. -/
theorem getCfaAtLocation_carriedOut {entries : List Entry}
    (behind : List U8) {l1 : U32} (r : BitVec 5) (o : Nat)
    (hlen : (sectionBytes entries).length < 2 ^ 32) {g : Fde} {c : Cie}
    (hg : lastCovering l1 entries = some g)
    (hc : cieAt g.ciePointer.toNat 0 entries = some c)
    {initial : List Instr} (hcarried : CarriedOut c
      (sectionBytes (behindCieAt g.ciePointer.toNat 0 entries) ++ behind)
      initial) :
    (∀ regs, (kept behind 0 entries ⟨[], []⟩).getCfaAtLocation l1 regs
        = .ok (some (regs.read r + BitVec.ofNat 32 o)))
      ↔ LeavesRule c g initial r.toNat o := by
  obtain ⟨t, hrun, hcfa⟩ :=
    generateVirtTable_run behind hlen hg hc hcarried
  rw [final_eq] at hcfa
  obtain ⟨hreg, hoffset⟩ := Prod.ext_iff.1 hcfa
  by_cases hdef : ∀ i ∈ initial ++ g.instructions, Defined i
  · rw [if_pos hdef] at hrun
    have hnumber : t.back.regNum.toNat = r.toNat
        ↔ lastRegister (initial ++ g.instructions)
          ≡ r.toNat [MOD 2 ^ 32] := by
      have hr := r.isLt
      rw [show t.back.regNum = _ from hreg, BitVec.toNat_ofNat, Nat.ModEq,
        Nat.mod_eq_of_lt (show r.toNat < 2 ^ 32 by omega)]
    rw [address_of_table hrun, hnumber,
      show t.back.regOffset = _ from hoffset, ofNat_eq_iff]
    exact (and_iff_right hdef).symm
  · rw [if_neg hdef] at hrun
    refine iff_of_false (fun h => ?_) fun h => hdef h.1
    obtain ⟨t, htable⟩ := table_of_getCfaAtLocation (h RegisterFile.reset)
    rw [hrun] at htable
    cases htable

/-- The CFA that is found, in words of the section alone. -/
theorem getCfaAtLocation_iff (entries : List Entry) (behind : List U8)
    (l1 : U32) (r : BitVec 5) (o : Nat)
    (hlen : (sectionBytes entries).length < 2 ^ 32) :
    (∀ regs, (kept behind 0 entries ⟨[], []⟩).getCfaAtLocation l1 regs
        = .ok (some (regs.read r + BitVec.ofNat 32 o)))
      ↔ RuleLeft entries behind l1 r.toNat o := by
  constructor
  · intro h
    obtain ⟨t, htable⟩ := table_of_getCfaAtLocation (h RegisterFile.reset)
    by_cases htaken : ∃ g c, lastCovering l1 entries = some g
        ∧ cieAt g.ciePointer.toNat 0 entries = some c
    · obtain ⟨g, c, hg, hc⟩ := htaken
      obtain ⟨initial, hcarried⟩ :=
        carriedOut_of_generateVirtTable hlen hg hc htable
      exact ⟨g, c, initial, hg, hc, hcarried, (getCfaAtLocation_carriedOut
        behind r o hlen hg hc hcarried).1 h⟩
    · rw [generateVirtTable_none behind hlen fun g hg =>
        Option.eq_none_iff_forall_ne_some.2 fun c hc =>
          htaken ⟨g, c, hg, hc⟩] at htable
      cases htable
  · rintro ⟨g, c, initial, hg, hc, hcarried, hrule⟩
    exact (getCfaAtLocation_carriedOut behind r o hlen hg hc hcarried).2
      hrule

-- ====================================================== the CFA in force

/-- The rule for the CFA that is in force at a location: that of a frame
entry in whose range the location lies. -/
def InForce (entries : List Entry) (l1 : U32) (r : BitVec 5) (o : Nat) :
    Prop :=
  ∃ f ∈ fdesOf entries, f.initialLocation.toNat ≤ l1.toNat
    ∧ l1.toNat < f.initialLocation.toNat + f.addressRange.toNat
    ∧ cfaRule entries f l1.toNat = some (r.toNat, o)

/-- `getCfaAtLocation` delivers the address that a rule gives, whatever
the registers hold. Other bytes of the file lie behind the section. -/
def FindsCfa (entries : List Entry) (behind : List U8) (l1 : U32)
    (r : BitVec 5) (o : Nat) : Prop :=
  ∃ info, CallFrameInfo.new (sectionBytes entries ++ behind)
      (sectionBytes entries).length = .ok info
    ∧ ∀ regs, info.getCfaAtLocation l1 regs
      = .ok (some (regs.read r + BitVec.ofNat 32 o))

/-- The address is found exactly if the section is parsed, and the rule
left at the end is the one. -/
theorem findsCfa_iff (entries : List Entry) (behind : List U8) (l1 : U32)
    (r : BitVec 5) (o : Nat)
    (hlen : (sectionBytes entries).length < 2 ^ 32) :
    FindsCfa entries behind l1 r o
      ↔ (∀ e ∈ entries, Readable e)
        ∧ RuleLeft entries behind l1 r.toNat o := by
  unfold FindsCfa
  rw [callFrameInfo_new entries behind hlen,
    ← getCfaAtLocation_iff entries behind l1 r o hlen]
  by_cases hread : ∀ e ∈ entries, Readable e
  · rw [if_pos hread]
    constructor
    · rintro ⟨info, hinfo, hfinds⟩
      obtain rfl := Except.ok.inj hinfo
      exact ⟨hread, hfinds⟩
    · rintro ⟨-, hfinds⟩
      exact ⟨_, rfl, hfinds⟩
  · rw [if_neg hread]
    constructor
    · rintro ⟨info, hinfo, -⟩
      cases hinfo
    · rintro ⟨hread', -⟩
      exact absurd hread' hread

/-- The CFA that is found at a location is the one in force there exactly
when the entries can be read, and what all instructions of the last
frame entry covering the location leave is the rule in force. -/
theorem cfa_in_force_iff (entries : List Entry) (behind : List U8)
    (l1 : U32) (hlen : (sectionBytes entries).length < 2 ^ 32) :
    (∀ r o, InForce entries l1 r o → FindsCfa entries behind l1 r o)
      ↔ ∀ r o, InForce entries l1 r o →
        (∀ e ∈ entries, Readable e)
          ∧ RuleLeft entries behind l1 r.toNat o :=
  forall₂_congr fun r o =>
    imp_congr_right fun _ => findsCfa_iff entries behind l1 r o hlen

/-- Two entries: the CFA is x2 to begin with, and then what the
instructions of a function at 0x80000000 make of it. -/
def frameOf (instructions : List Instr) : List Entry :=
  [.cie ⟨3, .single 1, .single 0x7c, .single 1,
      [.defCfa (.single 2) (.single 0)], by decide, by decide⟩,
    .fde ⟨0, 0x80000000, 8, instructions, by decide⟩]

/-- In a function that leaves the stack alone the CFA is the one in
force. -/
theorem leaf_function :
    InForce (frameOf [.nop]) 0x80000004 2 0
      ∧ ∀ r o, InForce (frameOf [.nop]) 0x80000004 r o →
        FindsCfa (frameOf [.nop]) [] 0x80000004 r o := by
  have hrule : cfaRule (frameOf [.nop])
      ⟨0, 0x80000000, 8, [.nop], by decide⟩ 0x80000004 = some (2, 0) := by
    decide
  refine ⟨⟨_, List.mem_singleton_self _, by decide, by decide, hrule⟩,
    (cfa_in_force_iff (frameOf [.nop]) [] 0x80000004 (by decide)).2 ?_⟩
  rintro r o ⟨f, hf, -, -, hf'⟩
  obtain rfl := List.mem_singleton.1 hf
  obtain ⟨hr, rfl⟩ :=
    Prod.mk.inj (Option.some.inj (hrule.symm.trans hf'))
  obtain rfl : r = 2#5 := BitVec.eq_of_toNat_eq hr.symm
  exact ⟨by decide, _, _, _, rfl, rfl, rfl, by decide, by decide,
    by decide⟩

/-- In front of the instruction that makes room on the stack, the CFA is
found as if it was behind it. -/
theorem offset_of_later_row :
    InForce (frameOf [.advanceLoc 2, .defCfaOffset (.single 16)])
        0x80000000 2 0
      ∧ ¬ FindsCfa (frameOf [.advanceLoc 2, .defCfaOffset (.single 16)]) []
        0x80000000 2 0 := by
  have hrule : cfaRule
      (frameOf [.advanceLoc 2, .defCfaOffset (.single 16)])
      ⟨0, 0x80000000, 8, [.advanceLoc 2, .defCfaOffset (.single 16)],
        by decide⟩ 0x80000000 = some (2, 0) := by
    decide
  refine ⟨⟨_, List.mem_singleton_self _, by decide, by decide, hrule⟩, ?_⟩
  rintro ⟨info, hnew, hfinds⟩
  have hrun : (CallFrameInfo.new (sectionBytes (frameOf
      [.advanceLoc 2, .defCfaOffset (.single 16)]) ++ []) (sectionBytes
        (frameOf [.advanceLoc 2, .defCfaOffset (.single 16)])).length
      >>= fun info => info.getCfaAtLocation 0x80000000 RegisterFile.reset)
        = .ok (some 16) := by
    decide +kernel
  rw [hnew, ok_bind, hfinds] at hrun
  exact absurd hrun (by decide)

end T89Emu.Dwarf
