/-
Which files are safe to load.

`SafeToLoad` is the promise: what `initStructures` accepts has its
headers and both segments inside the file, so that nothing that is done
with them afterwards leaves it. `initStructures` does not check any of
this, and `safeToLoad_iff` says of which files it is true all the same.

The scan for the segments is described by `Scanned`: which entries the
two headers are, after the first `n` entries of the table. It holds
after every round (`scanned_succ`), so it holds of what the scan ends
with (`scanned_of_scan`), and a scan that does not end fails in a round
that such a prefix leads to (`scan_error`).
-/
import T89Emu.Elf.Proofs.Segments

namespace T89Emu

open Bytes Cpp Elf ElfParser

variable {elfData : List U8}

-- ================================================ statement vocabulary

/-- Entry `idx` of the table is read as a segment of this kind. -/
def IsSegment (elfData : List U8) (kind : Segment) (idx : Nat) : Prop :=
  ∃ p, getProgramHeader elfData idx = .ok p
    ∧ classify elfData p = .ok kind

/-- What a header at `p` designates lies inside the file: the first
`min(filesz, memsz)` bytes from its offset on, or none. -/
def BytesInside (elfData : List U8) (p : Nat) : Prop :=
  ∃ offset size, SegmentAt elfData p offset size

/-- The header of a load entry with these flags, and its bytes. -/
def IsLoad (elfData : List U8) (mask : U32) (p : Nat) : Prop :=
  phType elfData p = .ok PT_LOAD
    ∧ (∃ flags, phFlags elfData p = .ok flags ∧ flags &&& PF_R ≠ 0
      ∧ flags &&& mask ≠ 0)
    ∧ BytesInside elfData p

/-- The table of program headers lies inside the file. -/
def TableInside (elfData : List U8) : Prop :=
  ∃ phnum, halfAt elfData PHNUM = .ok phnum
    ∧ ∀ idx < phnum.toNat, ∃ p, getProgramHeader elfData idx = .ok p
      ∧ p + PROGRAM_HEADER_SIZE ≤ elfData.length

/-- What an accepted file promises. With a device that has room for the
segments nothing can stop `flashRom` but a byte outside the file. -/
structure Loadable (s : ElfParser) : Prop where
  header : HEADER_SIZE ≤ s.elfData.length
  table : TableInside s.elfData
  rom : ∃ p, s.romHeader = some p ∧ IsLoad s.elfData PF_X p
  ram : ∃ p, s.ramHeader = some p ∧ IsLoad s.elfData PF_W p
  romStart : ∃ a, s.getRomStart = .ok a
  ramStart : ∃ a, s.getRamStart = .ok a
  flashes : ∃ room, ∀ n, room ≤ n → ∀ buf : Buffer n,
    ∃ firmware, s.flashRom buf = .ok firmware

/-- The file is rejected, or the program ends, or what is accepted keeps
the promise. A check that reads outside the file promises nothing. -/
def SafeToLoad (file : List U8) : Prop :=
  match initStructures file with
  | .ok none => True
  | .ok (some s) => Loadable s
  | .error e => e = .exit

-- ============================================================ conditions

/-- The table has two entries for RAM, and the scan gets to the second
one inside the file. -/
def TwoRams (elfData : List U8) : Prop :=
  ∃ phnum, halfAt elfData PHNUM = .ok phnum
    ∧ ∃ j < phnum.toNat, (∀ i < j, ∃ kind, IsSegment elfData kind i)
      ∧ (∃ i < j, IsSegment elfData .ram i) ∧ IsSegment elfData .ram j

/-- Header and table are inside the file, one entry is for RAM, one at
least for ROM, and the bytes of that one and of the first one for ROM
are inside the file as well. -/
def Complete (elfData : List U8) : Prop :=
  HEADER_SIZE ≤ elfData.length ∧ TableInside elfData
    ∧ ∃ phnum, halfAt elfData PHNUM = .ok phnum
      ∧ (∃ i < phnum.toNat, IsSegment elfData .ram i
        ∧ (∀ j < phnum.toNat, IsSegment elfData .ram j → j = i)
        ∧ ∃ p, getProgramHeader elfData i = .ok p
          ∧ BytesInside elfData p)
      ∧ (∃ i < phnum.toNat, IsSegment elfData .rom i
        ∧ (∀ j < i, ¬ IsSegment elfData .rom j)
        ∧ ∃ p, getProgramHeader elfData i = .ok p
          ∧ BytesInside elfData p)

/-- The file is empty as far as its size is kept, or the first member of
the header that differs from the format lies inside the file, or it has
the format and its table is one of the two above. -/
def SafeContents (file : List U8) : Prop :=
  contents file = [] ∨ allPass (contents file) format = .ok false
    ∨ (allPass (contents file) format = .ok true
      ∧ (TwoRams (contents file) ∨ Complete (contents file)))

-- ============================================================== the scan

/-- The header is that of the first entry of a kind among the first
`n`. -/
def FirstOf (elfData : List U8) (kind : Segment) (n : Nat) :
    Option Nat → Prop
  | none => ∀ i < n, ¬ IsSegment elfData kind i
  | some p => ∃ i < n, getProgramHeader elfData i = .ok p
      ∧ IsSegment elfData kind i ∧ ∀ j < i, ¬ IsSegment elfData kind j

/-- What the headers are after the first `n` entries. -/
structure Scanned (elfData : List U8) (n : Nat) (s : ElfParser) : Prop where
  data : s.elfData = elfData
  readable : ∀ i < n, ∃ kind, IsSegment elfData kind i
  ram : FirstOf elfData .ram n s.ramHeader
  single : ∀ i < n, ∀ j < n, IsSegment elfData .ram i →
    IsSegment elfData .ram j → i = j
  rom : FirstOf elfData .rom n s.romHeader

/-- An entry is read as one kind only. -/
theorem IsSegment.unique {kind kind' : Segment} {idx : Nat}
    (h : IsSegment elfData kind idx) (h' : IsSegment elfData kind' idx) :
    kind = kind' := by
  obtain ⟨p, hp, hk⟩ := h
  obtain ⟨p', hp', hk'⟩ := h'
  rw [hp, Except.ok.injEq] at hp'
  subst hp'
  rw [hk, Except.ok.injEq] at hk'
  exact hk'

/-- A round of the scan that goes on. -/
theorem scanEntry_ok {s s' : ElfParser} {idx : Nat}
    (h : s.scanEntry idx = .ok s') :
    ∃ p kind, getProgramHeader s.elfData idx = .ok p
      ∧ classify s.elfData p = .ok kind
      ∧ match kind with
        | .ram => s.ramHeader = none ∧ s' = { s with ramHeader := some p }
        | .rom => s' = { s with romHeader := s.romHeader.or (some p) }
        | .other => s' = s := by
  obtain ⟨data, ram, rom⟩ := s
  rw [scanEntry, bind_eq_ok] at h
  obtain ⟨p, hp, h⟩ := h
  rw [bind_eq_ok] at h
  obtain ⟨kind, hkind, h⟩ := h
  refine ⟨p, kind, hp, toProc_eq_ok.1 hkind, ?_⟩
  cases kind with
  | ram =>
      cases ram with
      | none => exact ⟨rfl, (Except.ok.inj h).symm⟩
      | some q => exact absurd h (by simp)
  | rom =>
      cases rom with
      | none => exact (Except.ok.inj h).symm
      | some q => exact (Except.ok.inj h).symm
  | other => exact (Except.ok.inj h).symm

/-- Where an entry lies can only be undefined. -/
theorem getProgramHeader_ne_exit (idx : Nat) :
    getProgramHeader elfData idx ≠ .error .exit := by
  intro h
  rw [getProgramHeader, bind_eq_error] at h
  rcases h with h | ⟨phoff, -, h⟩
  · obtain ⟨_, ⟨⟩⟩ := undefined_of_toProc h
  · rw [bind_eq_error] at h
    rcases h with h | ⟨phentsize, -, h⟩
    · obtain ⟨_, ⟨⟩⟩ := undefined_of_toProc h
    · split at h <;> exact absurd h (by simp)

/-- A round that does not: the entry is not read, or a second one for
RAM ends the program. -/
theorem scanEntry_error {s : ElfParser} {idx : Nat} {e : Halt}
    (h : s.scanEntry idx = .error e) :
    (e ≠ .exit ∧ ∀ kind, ¬ IsSegment s.elfData kind idx)
      ∨ (e = .exit ∧ IsSegment s.elfData .ram idx
        ∧ ∃ p, s.ramHeader = some p) := by
  obtain ⟨data, ram, rom⟩ := s
  rw [scanEntry, bind_eq_error] at h
  rcases h with h | ⟨p, hp, h⟩
  · refine .inl ⟨?_, ?_⟩
    · rintro rfl
      exact getProgramHeader_ne_exit idx h
    · rintro kind ⟨p, hp, -⟩
      rw [h] at hp
      exact absurd hp (by simp)
  · rw [bind_eq_error] at h
    rcases h with h | ⟨kind, hkind, h⟩
    · refine .inl ⟨?_, ?_⟩
      · rintro rfl
        obtain ⟨_, ⟨⟩⟩ := undefined_of_toProc h
      · rintro kind ⟨p', hp', hkind⟩
        rw [hp, Except.ok.injEq] at hp'
        subst hp'
        have hlift : (Eval.toProc (classify data p) : Proc Segment)
            = .error e := h
        rw [hkind, toProc_ok] at hlift
        exact absurd hlift (by simp)
    · have hseg : IsSegment data kind idx :=
        ⟨p, hp, toProc_eq_ok.1 hkind⟩
      cases kind with
      | ram =>
          cases ram with
          | none => exact absurd h (by simp)
          | some q =>
              refine .inr ⟨?_, hseg, q, rfl⟩
              exact (Except.error.inj h).symm
      | rom =>
          cases rom with
          | none => exact absurd h (by simp)
          | some q => exact absurd h (by simp)
      | other => exact absurd h (by simp)

-- =================================================== one round more

/-- An entry of another kind changes nothing. -/
theorem FirstOf.skip {kind kind' : Segment} {n : Nat} {header : Option Nat}
    (h : FirstOf elfData kind n header) (hn : IsSegment elfData kind' n)
    (hne : kind' ≠ kind) : FirstOf elfData kind (n + 1) header := by
  cases header with
  | none =>
      intro i hi hi'
      rcases Nat.lt_succ_iff_lt_or_eq.1 hi with hi | rfl
      · exact h i hi hi'
      · exact hne (hn.unique hi')
  | some p =>
      obtain ⟨i, hi, hfound⟩ := h
      exact ⟨i, by omega, hfound⟩

/-- One of the kind is the first one when none was before it. -/
theorem FirstOf.found {kind : Segment} {n p : Nat} {header : Option Nat}
    (h : FirstOf elfData kind n header)
    (hp : getProgramHeader elfData n = .ok p)
    (hn : IsSegment elfData kind n) :
    FirstOf elfData kind (n + 1) (header.or (some p)) := by
  cases header with
  | none => exact ⟨n, by omega, hp, hn, h⟩
  | some q =>
      obtain ⟨i, hi, hfound⟩ := h
      exact ⟨i, by omega, hfound⟩

/-- There is still only one for RAM. -/
theorem single_succ {n : Nat}
    (h : ∀ i < n, ∀ j < n, IsSegment elfData .ram i →
      IsSegment elfData .ram j → i = j)
    (hn : IsSegment elfData .ram n →
      ∀ i < n, ¬ IsSegment elfData .ram i) :
    ∀ i < n + 1, ∀ j < n + 1, IsSegment elfData .ram i →
      IsSegment elfData .ram j → i = j := by
  intro i hi j hj hi' hj'
  rcases Nat.lt_succ_iff_lt_or_eq.1 hi with hi | rfl
  · rcases Nat.lt_succ_iff_lt_or_eq.1 hj with hj | rfl
    · exact h i hi j hj hi' hj'
    · exact absurd hi' (hn hj' i hi)
  · rcases Nat.lt_succ_iff_lt_or_eq.1 hj with hj | rfl
    · exact absurd hj' (hn hi' j hj)
    · rfl

/-- A round of the scan keeps the description. -/
theorem scanned_succ {n : Nat} {s s' : ElfParser}
    (hs : Scanned elfData n s) (h : s.scanEntry n = .ok s') :
    Scanned elfData (n + 1) s' := by
  obtain ⟨p, kind, hp, hkind, hs'⟩ := scanEntry_ok h
  rw [hs.data] at hp hkind
  have hseg : IsSegment elfData kind n := ⟨p, hp, hkind⟩
  have hreadable : ∀ i < n + 1, ∃ kind, IsSegment elfData kind i := by
    intro i hi
    rcases Nat.lt_succ_iff_lt_or_eq.1 hi with hi | rfl
    · exact hs.readable i hi
    · exact ⟨kind, hseg⟩
  have hother : kind ≠ .ram → IsSegment elfData .ram n →
      ∀ i < n, ¬ IsSegment elfData .ram i := fun hne hram =>
    absurd (hseg.unique hram) hne
  cases kind with
  | ram =>
      obtain ⟨hnone, rfl⟩ := hs'
      have hram := hs.ram
      rw [hnone] at hram
      exact ⟨hs.data, hreadable, hram.found hp hseg,
        single_succ hs.single fun _ => hram,
        hs.rom.skip hseg (by decide)⟩
  | rom =>
      subst hs'
      exact ⟨hs.data, hreadable, hs.ram.skip hseg (by decide),
        single_succ hs.single (hother (by decide)),
        hs.rom.found hp hseg⟩
  | other =>
      subst hs'
      exact ⟨hs.data, hreadable, hs.ram.skip hseg (by decide),
        single_succ hs.single (hother (by decide)),
        hs.rom.skip hseg (by decide)⟩

/-- The scan of one entry more is a round behind the scan. -/
theorem scan_append (s : ElfParser) (l : List Nat) (idx : Nat) :
    s.scan (l ++ [idx]) = s.scan l >>= fun s => s.scanEntry idx := by
  induction l generalizing s with
  | nil =>
      show (s.scanEntry idx >>= fun s => pure s) = s.scanEntry idx
      cases s.scanEntry idx with
      | error e => rfl
      | ok s' => rfl
  | cons i l ih =>
      show (s.scanEntry i >>= fun s => s.scan (l ++ [idx])) = _
      rw [scan]
      cases s.scanEntry i with
      | error e => rfl
      | ok s' => exact ih s'

/-- The scan ends with the headers described. -/
theorem scanned_of_scan {n : Nat} {s : ElfParser}
    (h : scan ⟨elfData, none, none⟩ (List.range n) = .ok s) :
    Scanned elfData n s := by
  induction n generalizing s with
  | zero =>
      rw [List.range_zero, scan, pure_eq_ok, Except.ok.injEq] at h
      subst h
      exact ⟨rfl, by simp, by simp [FirstOf], by simp, by simp [FirstOf]⟩
  | succ n ih =>
      rw [List.range_succ, scan_append, bind_eq_ok] at h
      obtain ⟨s', hs', hround⟩ := h
      exact scanned_succ (ih hs') hround

/-- A scan that does not end fails in a round behind some prefix. -/
theorem scan_error {n : Nat} {e : Halt}
    (h : scan ⟨elfData, none, none⟩ (List.range n) = .error e) :
    ∃ j < n, ∃ s, Scanned elfData j s ∧ s.scanEntry j = .error e := by
  induction n with
  | zero => exact absurd h (by simp [scan])
  | succ n ih =>
      rw [List.range_succ, scan_append] at h
      cases hs : scan ⟨elfData, none, none⟩ (List.range n) with
      | error e' =>
          rw [hs, error_bind, Except.error.injEq] at h
          obtain ⟨j, hj, hround⟩ := ih (h ▸ hs)
          exact ⟨j, by omega, hround⟩
      | ok s =>
          rw [hs, ok_bind] at h
          exact ⟨n, by omega, s, scanned_of_scan hs, h⟩

-- ===================================================== the two segments

/-- What an entry taken for a segment says of itself. -/
theorem classify_load {p : Nat} {kind : Segment}
    (h : classify elfData p = .ok kind) (hkind : kind ≠ .other) :
    phType elfData p = .ok PT_LOAD
      ∧ ∃ flags, phFlags elfData p = .ok flags ∧ segmentOf flags = kind := by
  rw [classify, bind_eq_ok] at h
  obtain ⟨type, htype, h⟩ := h
  by_cases hload : type = PT_LOAD
  · rw [if_neg (by simpa using hload), bind_eq_ok] at h
    obtain ⟨flags, hflags, h⟩ := h
    exact ⟨hload ▸ htype, flags, hflags, Except.ok.inj h⟩
  · rw [if_pos (by simpa using hload)] at h
    exact absurd (Except.ok.inj h).symm hkind

theorem isLoad_ram {p : Nat} (h : classify elfData p = .ok .ram)
    (hbytes : BytesInside elfData p) : IsLoad elfData PF_W p := by
  obtain ⟨htype, flags, hflags, hkind⟩ := classify_load h (by decide)
  refine ⟨htype, ⟨flags, hflags, ?_⟩, hbytes⟩
  by_contra hnot
  rw [segmentOf, if_neg hnot] at hkind
  split at hkind <;> exact absurd hkind (by decide)

theorem isLoad_rom {p : Nat} (h : classify elfData p = .ok .rom)
    (hbytes : BytesInside elfData p) : IsLoad elfData PF_X p := by
  obtain ⟨htype, flags, hflags, hkind⟩ := classify_load h (by decide)
  refine ⟨htype, ⟨flags, hflags, ?_⟩, hbytes⟩
  by_contra hnot
  rw [segmentOf, if_neg hnot] at hkind
  split at hkind <;> exact absurd hkind (by decide)

-- ============================================================ the result

/-- What `initStructures` does with a file of the right format. -/
theorem initStructures_format {file : List U8} (hne : contents file ≠ [])
    (hformat : allPass (contents file) format = .ok true) :
    initStructures file = (do
      let phnum ← (halfAt (contents file) PHNUM : Proc U16)
      let s ← scan ⟨contents file, none, none⟩ (List.range phnum.toNat)
      pure (some s)) := by
  rw [initStructures, if_neg hne, hformat]
  rfl

/-- The first entries of two searches are one. -/
theorem first_unique {kind : Segment} {i j : Nat}
    (hi : IsSegment elfData kind i)
    (hbefore : ∀ k < i, ¬ IsSegment elfData kind k)
    (hj : IsSegment elfData kind j)
    (hbefore' : ∀ k < j, ¬ IsSegment elfData kind k) : i = j := by
  rcases Nat.lt_trichotomy i j with hlt | heq | hgt
  · exact absurd hi (hbefore' i hlt)
  · exact heq
  · exact absurd hj (hbefore j hgt)

/-- The header found is the one of the first entry of its kind. -/
theorem FirstOf.header {kind : Segment} {n i p : Nat} {header : Option Nat}
    (h : FirstOf elfData kind n header) (hi : i < n)
    (hp : getProgramHeader elfData i = .ok p)
    (hseg : IsSegment elfData kind i)
    (hfirst : ∀ j < i, ¬ IsSegment elfData kind j) :
    header = some p ∧ classify elfData p = .ok kind := by
  have hkind : classify elfData p = .ok kind := by
    obtain ⟨q, hq, hkind⟩ := hseg
    rw [hp, Except.ok.injEq] at hq
    exact hq ▸ hkind
  refine ⟨?_, hkind⟩
  cases header with
  | none => exact absurd hseg (h i hi)
  | some q =>
      obtain ⟨j, hj, hq, hseg', hfirst'⟩ := h
      rw [first_unique hseg' hfirst' hseg hfirst, hp,
        Except.ok.injEq] at hq
      rw [hq]

/-- A complete file whose scan ended keeps the promise. -/
theorem loadable_of_complete {phnum : U16} {s : ElfParser}
    (hphnum : halfAt elfData PHNUM = .ok phnum)
    (hcomplete : Complete elfData)
    (hs : Scanned elfData phnum.toNat s) : Loadable s := by
  obtain ⟨hheader, htable, phnum', hphnum', ⟨i, hi, hram, honly, p, hp, hin⟩,
    ⟨j, hj, hrom, hfirst, q, hq, hin'⟩⟩ := hcomplete
  rw [hphnum, Except.ok.injEq] at hphnum'
  subst hphnum'
  obtain ⟨hramHeader, hramKind⟩ := hs.ram.header hi hp hram
    fun k hk hk' => by
      have heq := honly k (by omega) hk'
      omega
  obtain ⟨hromHeader, hromKind⟩ := hs.rom.header hj hq hrom hfirst
  have hdata := hs.data
  subst hdata
  obtain ⟨phnum', hphnum', hentries⟩ := htable
  have hinside : ∀ idx < phnum.toNat, ∀ p,
      getProgramHeader s.elfData idx = .ok p →
      p + PROGRAM_HEADER_SIZE ≤ s.elfData.length := by
    intro idx hidx p hp
    rw [hphnum, Except.ok.injEq] at hphnum'
    obtain ⟨p', hp', hle⟩ := hentries idx (hphnum' ▸ hidx)
    rw [hp, Except.ok.injEq] at hp'
    exact hp' ▸ hle
  have hpaddr : ∀ idx < phnum.toNat, ∀ p,
      getProgramHeader s.elfData idx = .ok p →
      ∃ a, phPaddr s.elfData p = .ok a := by
    intro idx hidx p hp
    have hle := hinside idx hidx p hp
    unfold PROGRAM_HEADER_SIZE at hle
    exact wordAt_inside (by omega)
  obtain ⟨romAddr, hromAddr⟩ := hpaddr j hj q hq
  obtain ⟨ramAddr, hramAddr⟩ := hpaddr i hi p hp
  exact {
    header := hheader
    table := ⟨phnum', hphnum', hentries⟩
    rom := ⟨q, hromHeader, isLoad_rom hromKind hin'⟩
    ram := ⟨p, hramHeader, isLoad_ram hramKind hin⟩
    romStart := ⟨romAddr, by
      rw [getRomStart, hromHeader, dereference, pure_eq_ok, ok_bind,
        hromAddr]
      rfl⟩
    ramStart := ⟨ramAddr, by
      rw [getRamStart, hramHeader, dereference, pure_eq_ok, ok_bind,
        hramAddr]
      rfl⟩
    flashes := by
      obtain ⟨romOffset, f, hromAt⟩ := hin'
      obtain ⟨ramOffset, d, hramAt⟩ := hin
      refine ⟨f + d, fun n hroom buf => ?_⟩
      have hrun := flashRom_run buf hromHeader hramHeader hromAt hramAt
      exact ⟨_, hrun.trans (if_pos hroom)⟩ }

/-- And a file whose parser keeps it is complete. -/
theorem complete_of_loadable {phnum : U16} {s : ElfParser}
    (hphnum : halfAt elfData PHNUM = .ok phnum)
    (hs : Scanned elfData phnum.toNat s) (h : Loadable s) :
    Complete elfData := by
  have hdata := hs.data
  subst hdata
  obtain ⟨p, hp, -, -, hram⟩ := h.ram
  obtain ⟨q, hq, -, -, hrom⟩ := h.rom
  have hfoundRam := hs.ram
  rw [hp] at hfoundRam
  obtain ⟨i, hi, hpi, hsegi, -⟩ := hfoundRam
  have hfoundRom := hs.rom
  rw [hq] at hfoundRom
  obtain ⟨j, hj, hqj, hsegj, hfirst⟩ := hfoundRom
  exact ⟨h.header, h.table, phnum, hphnum,
    ⟨i, hi, hsegi, fun k hk hk' => hs.single k hk i hi hk' hsegi, p, hpi,
      hram⟩,
    ⟨j, hj, hsegj, hfirst, q, hqj, hrom⟩⟩

/-- Nothing but a second entry for RAM ends the program, and only when
all entries before it are inside the file. -/
theorem twoRams_of_exit {phnum : U16}
    (hphnum : halfAt elfData PHNUM = .ok phnum)
    (h : scan ⟨elfData, none, none⟩ (List.range phnum.toNat)
      = .error .exit) : TwoRams elfData := by
  obtain ⟨j, hj, s, hs, hround⟩ := scan_error h
  rcases scanEntry_error hround with ⟨hne, -⟩ | ⟨-, hseg, p, hp⟩
  · exact absurd rfl hne
  · have hfound := hs.ram
    rw [hp] at hfound
    obtain ⟨i, hi, -, hsegi, -⟩ := hfound
    rw [hs.data] at hseg
    exact ⟨phnum, hphnum, j, hj, hs.readable, ⟨i, hi, hsegi⟩, hseg⟩

/-- With two entries for RAM the scan ends the program. -/
theorem exit_of_twoRams {phnum : U16}
    (hphnum : halfAt elfData PHNUM = .ok phnum) (h : TwoRams elfData) :
    scan ⟨elfData, none, none⟩ (List.range phnum.toNat)
      = .error .exit := by
  obtain ⟨phnum', hphnum', j, hj, hreadable, ⟨i, hi, hsegi⟩, hsegj⟩ := h
  rw [hphnum, Except.ok.injEq] at hphnum'
  subst hphnum'
  cases hscan : scan ⟨elfData, none, none⟩ (List.range phnum.toNat) with
  | ok s =>
      have heq := (scanned_of_scan hscan).single i (by omega) j hj hsegi hsegj
      omega
  | error e =>
      obtain ⟨k, hk, s, hs, hround⟩ := scan_error hscan
      rcases scanEntry_error hround with ⟨-, hunread⟩ | ⟨rfl, -, -⟩
      · rw [hs.data] at hunread
        -- the entry that is not read lies behind both entries for RAM
        rcases Nat.lt_trichotomy k j with hlt | rfl | hgt
        · obtain ⟨kind, hkind⟩ := hreadable k hlt
          exact absurd hkind (hunread kind)
        · exact absurd hsegj (hunread .ram)
        · have heq := hs.single i (by omega) j hgt hsegi hsegj
          omega
      · rfl

/-- The entries of a table inside the file are read. -/
theorem readable_of_table {phnum : U16}
    (hphnum : halfAt elfData PHNUM = .ok phnum)
    (htable : TableInside elfData) {idx : Nat} (hidx : idx < phnum.toNat) :
    ∃ kind, IsSegment elfData kind idx := by
  obtain ⟨phnum', hphnum', hentries⟩ := htable
  rw [hphnum, Except.ok.injEq] at hphnum'
  obtain ⟨p, hp, hle⟩ := hentries idx (hphnum' ▸ hidx)
  unfold PROGRAM_HEADER_SIZE at hle
  obtain ⟨type, htype⟩ : ∃ type, phType elfData p = .ok type :=
    wordAt_inside (by omega)
  obtain ⟨flags, hflags⟩ : ∃ flags, phFlags elfData p = .ok flags :=
    wordAt_inside (by omega)
  by_cases hload : type = PT_LOAD
  · refine ⟨segmentOf flags, p, hp, ?_⟩
    rw [classify, htype, ok_bind, if_neg (by simpa using hload), hflags]
    rfl
  · refine ⟨.other, p, hp, ?_⟩
    rw [classify, htype, ok_bind, if_pos (by simpa using hload)]
    rfl

/-- The scan of a complete file ends, or the program does. -/
theorem exit_of_complete {phnum : U16} {e : Halt}
    (hphnum : halfAt elfData PHNUM = .ok phnum) (h : Complete elfData)
    (hscan : scan ⟨elfData, none, none⟩ (List.range phnum.toNat)
      = .error e) : e = .exit := by
  obtain ⟨j, hj, s, hs, hround⟩ := scan_error hscan
  rcases scanEntry_error hround with ⟨-, hunread⟩ | ⟨he, -, -⟩
  · rw [hs.data] at hunread
    obtain ⟨kind, hkind⟩ := readable_of_table hphnum h.2.1 hj
    exact absurd hkind (hunread kind)
  · exact he

/-- With the right format, the promise is kept exactly by the two kinds
of tables. -/
theorem safeToLoad_format {file : List U8} (hne : contents file ≠ [])
    (hformat : allPass (contents file) format = .ok true) :
    SafeToLoad file
      ↔ TwoRams (contents file) ∨ Complete (contents file) := by
  rw [SafeToLoad, initStructures_format hne hformat]
  cases hphnum : halfAt (contents file) PHNUM with
  | error u =>
      show (Halt.undefined u = .exit) ↔ _
      constructor
      · intro h
        exact absurd h (by simp)
      · rintro (⟨phnum, hphnum', -⟩ | ⟨-, -, phnum, hphnum', -⟩)
          <;> rw [hphnum] at hphnum' <;> exact absurd hphnum' (by simp)
  | ok phnum =>
      cases hscan : scan ⟨contents file, none, none⟩
          (List.range phnum.toNat) with
      | error e =>
          have hrun : (do
              let phnum ← (Except.ok phnum : Eval U16)
              let s ← scan ⟨contents file, none, none⟩
                (List.range phnum.toNat)
              pure (some s) : Proc (Option ElfParser)) = .error e := by
            show (scan _ (List.range phnum.toNat) >>= _) = _
            rw [hscan, error_bind]
          rw [hrun]
          constructor
          · rintro rfl
            exact .inl (twoRams_of_exit hphnum hscan)
          · rintro (h | h)
            · rw [exit_of_twoRams hphnum h] at hscan
              exact (Except.error.inj hscan).symm
            · exact exit_of_complete hphnum h hscan
      | ok s =>
          have hrun : (do
              let phnum ← (Except.ok phnum : Eval U16)
              let s ← scan ⟨contents file, none, none⟩
                (List.range phnum.toNat)
              pure (some s) : Proc (Option ElfParser)) = .ok (some s) := by
            show (scan _ (List.range phnum.toNat) >>= _) = _
            rw [hscan, ok_bind, pure_eq_ok]
          rw [hrun]
          constructor
          · exact fun h =>
              .inr (complete_of_loadable hphnum (scanned_of_scan hscan) h)
          · rintro (h | h)
            · rw [exit_of_twoRams hphnum h] at hscan
              exact absurd hscan (by simp)
            · exact loadable_of_complete hphnum h (scanned_of_scan hscan)

/-- A file is safe to load exactly when its contents are. -/
theorem safeToLoad_iff (file : List U8) :
    SafeToLoad file ↔ SafeContents file := by
  by_cases hne : contents file = []
  · rw [SafeToLoad, initStructures, if_pos hne]
    exact ⟨fun _ => .inl hne, fun _ => trivial⟩
  · cases hformat : allPass (contents file) format with
    | error u =>
        rw [SafeToLoad, initStructures, if_neg hne, hformat]
        show (Halt.undefined u = .exit) ↔ _
        simp [SafeContents, hne, hformat]
    | ok pass =>
        cases pass with
        | false =>
            rw [SafeToLoad, initStructures, if_neg hne, hformat]
            exact ⟨fun _ => .inr (.inl hformat), fun _ => trivial⟩
        | true =>
            rw [safeToLoad_format hne hformat]
            simp [SafeContents, hne, hformat]

/-- A header of the right format and nothing else. -/
def bareHeader : List U8 :=
  [0x7f, 0x45, 0x4c, 0x46, 1, 1, 1, 0, 0, 0, 0, 0, 0, 0, 0, 0,
    2, 0, 0xf3, 0, 1, 0, 0, 0, 0, 0, 0, 0, 0, 0, 0, 0, 0, 0, 0, 0,
    0, 0, 0, 0, 52, 0, 32, 0, 0, 0, 40, 0, 0, 0, 0, 0]

/-- It is accepted, and asking for the start of ROM uses a null
pointer. -/
theorem bareHeader_accepted :
    initStructures bareHeader = .ok (some ⟨bareHeader, none, none⟩)
      ∧ getRomStart ⟨bareHeader, none, none⟩ = .error .nullDereference
      ∧ ¬ SafeToLoad bareHeader := by
  have haccepted : initStructures bareHeader
      = .ok (some ⟨bareHeader, none, none⟩) := by decide
  refine ⟨haccepted, rfl, ?_⟩
  rw [SafeToLoad, haccepted]
  intro h
  obtain ⟨p, hp, -⟩ := h.rom
  exact absurd hp (by simp)

end T89Emu
