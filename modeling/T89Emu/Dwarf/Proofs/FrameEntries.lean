/-
The entries that the walk over .debug_frame finds, and how many rounds it
takes.

On a section of entries the walk records each of them (`walk_raw`); what
is recorded has the numbers of the entry, and the stream of instructions
that will be made of it is the bytes left in the entry (`Streams`).

The exception is a common entry of version 1 whose return address is in a
register from 128 on. Its byte is taken for the first one of a number,
which takes bytes of the instructions with it. That none of the entries
is such a one is seen from what was recorded: whatever is recorded was
read at the entry's offset (`parsed_of_lookup`), and there the block
comes out too short (`narrow_of_found`).

On any bytes, a round that returns has moved the cursor on, by the length
that it read and four (`parseEntry_advances`), which bounds the number of
rounds (`rounds_bounded`).
-/
import T89Emu.Dwarf.Proofs.FrameWalk

namespace T89Emu.Dwarf

open Cpp Decode Bytes CallFrame

-- ================================================================ records

/-- The stream of these instructions consists of these bytes. -/
structure Streams (block : List U8) (instructions : Option (List U8))
    (blockSize : U64) : Prop where
  length : blockSize.toNat = block.length
  bytes : (instructions.getD []).take blockSize.toNat = block

/-- What is recorded of a common entry is what it says. -/
structure RecordsCie (c : RawCie) (p : CommonInfoEntry) : Prop where
  version : p.version = c.version
  augmentation : p.augmentation = []
  codeAlignmentFactor : p.codeAlignmentFactor.toNat = c.codeAlignment.unsigned
  dataAlignmentFactor : p.dataAlignmentFactor.toInt = c.dataAlignment.signed
  returnAddressRegister :
    p.returnAddressRegister.toNat = c.returnAddress.register
  instructions :
    Streams c.block p.initialInstructions p.instructionsBlockSize

/-- And so is what is recorded of a frame entry. -/
structure RecordsFde (f : RawFde) (p : FrameDescriptEntry) : Prop where
  ciePointer : p.ciePointer = f.ciePointer
  initialLocation : p.initialLocation = f.initialLocation
  addressRange : p.addressRange = f.addressRange
  instructions : Streams f.block p.instructions p.instructionsBlockSize

/-- A pointer to a block, or null at the section's end. -/
theorem streams_pointerTo {block : List U8} (hlen : block.length < 2 ^ 64)
    (following behind : List U8) :
    Streams block (pointerTo (block ++ following) behind)
      (BitVec.ofNat 64 block.length) := by
  have hsize : (BitVec.ofNat 64 block.length).toNat = block.length := by
    rw [BitVec.toNat_ofNat, Nat.mod_eq_of_lt hlen]
  refine ⟨hsize, ?_⟩
  rw [hsize, pointerTo]
  split
  · have hblock : block = [] := (List.append_eq_nil_iff.1 ‹_›).1
    rw [hblock]
    rfl
  · rw [Option.getD_some, List.append_assoc]
    exact List.take_left ..

/-- A number of at most four bytes is recorded as it is. -/
theorem toNat_ulebValue {e : Leb128} (he : e.size ≤ 4) :
    (ulebValue e).toNat = e.unsigned := by
  have hlt := e.unsigned_lt
  have hpow : 2 ^ (7 * e.size) ≤ 2 ^ 28 :=
    Nat.pow_le_pow_right (by omega) (by omega)
  rw [ulebValue_exact he, BitVec.toNat_ofNat, Nat.mod_eq_of_lt (by omega)]

/-- So is one with a sign: its range is far from that of the member. -/
theorem toInt_slebValue {e : Leb128} (he : e.size ≤ 4) :
    (slebValue e).toInt = e.signed := by
  have hlt := e.unsigned_lt
  have hpow : 2 ^ (7 * e.size) ≤ 2 ^ 28 :=
    Nat.pow_le_pow_right (by omega) (by omega)
  have hrange : -2 ^ 63 ≤ e.signed ∧ e.signed < 2 ^ 63 := by
    unfold Leb128.signed
    split <;> omega
  rw [slebValue_exact he, BitVec.toInt_ofInt]
  exact Int.bmod_eq_of_le (by omega) (by omega)

/-- A common entry is recorded as it is if its register is. -/
theorem recordsCie {c : RawCie} (hc : c.Plain 4)
    (hnarrow : c.returnAddress.Narrow) (hlen : c.block.length < 2 ^ 64)
    (following behind : List U8) :
    RecordsCie c (recordedCie c following behind) where
  version := rfl
  augmentation := rfl
  codeAlignmentFactor := toNat_ulebValue hc.codeAlignment
  dataAlignmentFactor := toInt_slebValue hc.dataAlignment
  returnAddressRegister :=
    (toNat_ulebValue (hc.encoding_size (by omega))).trans
      (ReturnAddress.encoding_unsigned hnarrow)
  instructions := streams_pointerTo hlen following behind

/-- A frame entry has no numbers that could be too long. -/
theorem recordsFde {f : RawFde} (hlen : f.block.length < 2 ^ 64)
    (following behind : List U8) :
    RecordsFde f (recordedFde f following behind) where
  ciePointer := rfl
  initialLocation := rfl
  addressRange := rfl
  instructions := streams_pointerTo hlen following behind

/-- The decoders deliver the numbers of plain entries. -/
theorem rawReadable_of_plain {c : RawCie} (hc : c.Plain 4) :
    RawReadable (.cie c) :=
  ⟨Nat.le_succ_of_le hc.codeAlignment, .inl hc.dataAlignment,
    Nat.le_succ_of_le (hc.encoding_size (by omega))⟩

/-- An entry of a section is no longer than the section. -/
theorem block_length_le {entries : List RawEntry} {e : RawEntry}
    (he : e ∈ entries) : e.block.length ≤ (rawBytes entries).length := by
  obtain ⟨before, behind, rfl⟩ := List.append_of_mem he
  have hbody := e.length_body
  have hbytes := e.length_bytes
  simp only [rawBytes, List.flatMap_append, List.flatMap_cons,
    List.length_append]
  omega

/-- The frame entries of a section are entries of it. -/
theorem mem_of_rawFdesOf {entries : List RawEntry} {f : RawFde}
    (hf : f ∈ rawFdesOf entries) : .fde f ∈ entries := by
  induction entries with
  | nil => cases hf
  | cons e entries ih =>
      cases e with
      | cie c => exact List.mem_cons_of_mem _ (ih hf)
      | fde f' =>
          rcases List.mem_cons.1 hf with rfl | hf
          · exact List.mem_cons_self
          · exact List.mem_cons_of_mem _ (ih hf)

-- ========================================================== any round

/-- A round reads a fixed number of words and numbers, none of which can
run out of fuel, and each of which only moves the cursor. The augmentation
is the one read with a loop, and the loop is on the bytes in front. -/
theorem avoids_augmentation : Avoids .running decodeAugmentation := by
  have hloop : ∀ l, augmentationOf l ≠ .error .running := by
    intro l
    induction l with
    | nil => exact nofun
    | cons c rest ih =>
        rw [augmentationOf]
        split
        · exact nofun
        · exact bind_ne_error ih fun _ => nofun
  exact fun s => bind_ne_error (hloop s.rest) fun _ => nofun

/-- It ends behind its terminator. -/
theorem advances_augmentation : Advances decodeAugmentation := by
  intro s a s' h
  obtain ⟨augmentation, -, h⟩ := bind_eq_ok.1 h
  exact ⟨_, (Prod.mk.inj (Except.ok.inj h)).2.symm⟩

/-- The cursor is asked for twice in an entry. -/
theorem avoids_get :
    Avoids .running (MonadState.get : Decoder DataStream) := fun _ => nofun

/-- The five fields of a common entry. -/
theorem parseCie_avoids (length cieId offset : U32) :
    Avoids .running (parseCie length cieId offset) :=
  avoids_uint8.bind fun _ => avoids_augmentation.bind fun _ =>
    avoids_uleb.bind fun _ => avoids_leb.bind fun _ =>
      avoids_uleb.bind fun _ => avoids_get.bind fun _ => Avoids.pure _

theorem parseCie_advances (length cieId offset : U32) :
    Advances (parseCie length cieId offset) :=
  advances_uint8.bind fun _ => advances_augmentation.bind fun _ =>
    advances_uleb.bind fun _ => advances_leb.bind fun _ =>
      advances_uleb.bind fun _ => Advances.get.bind fun _ =>
        Advances.pure _

/-- The two words of a frame entry. -/
theorem parseFde_avoids (length ciePointer : U32) :
    Avoids .running (parseFde length ciePointer) :=
  avoids_get.bind fun _ => avoids_uint32.bind fun _ =>
    avoids_uint32.bind fun _ => avoids_get.bind fun _ => Avoids.pure _

theorem parseFde_advances (length ciePointer : U32) :
    Advances (parseFde length ciePointer) :=
  Advances.get.bind fun _ => advances_uint32.bind fun _ =>
    advances_uint32.bind fun _ => Advances.get.bind fun _ =>
      Advances.pure _

/-- Whatever the mark is, one of the two is read. -/
theorem parseBody_avoids (info : CallFrameInfo) (length identifier : U32) :
    Avoids .running (parseBody info length identifier) := by
  unfold parseBody
  split
  · exact avoids_get.bind fun _ => (parseCie_avoids _ _ _).bind fun _ =>
      Avoids.pure _
  · exact (parseFde_avoids _ _).bind fun _ => Avoids.pure _

theorem parseBody_advances (info : CallFrameInfo)
    (length identifier : U32) :
    Advances (parseBody info length identifier) := by
  unfold parseBody
  split
  · exact Advances.get.bind fun _ => (parseCie_advances _ _ _).bind fun _ =>
      Advances.pure _
  · exact (parseFde_advances _ _).bind fun _ => Advances.pure _

/-- So no round runs out of fuel: only their number can. -/
theorem parseEntry_avoids (info : CallFrameInfo) :
    Avoids .running (parseEntry info) := by
  intro s
  rw [parseEntry_eq]
  exact bind_ne_error (avoids_uint32 s) fun r =>
    bind_ne_error (avoids_uint32 r.2) fun q =>
      bind_ne_error (parseBody_avoids info r.1 q.1 q.2) fun _ => nofun

/-- A round that returns has set the cursor behind the length and what
the length counts. -/
theorem parseEntry_advances {info info' : CallFrameInfo}
    {s s' : DataStream} (h : parseEntry info s = .ok (info', s')) :
    ∃ length, decodeUInt32 s = .ok (length, s.skip 4)
      ∧ s' = s.skip (4 + length.toNat) := by
  rw [parseEntry_eq] at h
  obtain ⟨⟨length, s₁⟩, hlength, h⟩ := bind_eq_ok.1 h
  obtain ⟨⟨identifier, s₂⟩, hidentifier, h⟩ := bind_eq_ok.1 h
  obtain ⟨⟨_, s₃⟩, hbody, h⟩ := bind_eq_ok.1 h
  obtain ⟨v, t, hs⟩ := front_of_uint32 hlength
  have hskip : s₁ = s.skip 4 :=
    (Prod.mk.inj (Except.ok.inj (hlength.symm.trans (word_run v hs)))).2
  obtain ⟨m, rfl⟩ := advances_uint32 _ _ _ hidentifier
  obtain ⟨n, rfl⟩ := parseBody_advances _ _ _ _ _ _ hbody
  obtain ⟨-, rfl⟩ := Prod.mk.inj (Except.ok.inj h)
  subst hskip
  refine ⟨length, hlength, ?_⟩
  rw [toNat_getLen]
  rfl

/-- In a section that fits in a memory the cursor does not wrap. -/
theorem parseEntry_no_wrap {s : DataStream} {length : U32}
    (hlen : s.streamLen ≤ 2 ^ 63) (hgo : s.isStreamable = true) :
    (indexOf s + getLen length).toNat
      = (s.skip (4 + length.toNat)).index := by
  have hindex := index_lt_of_streamable hgo
  have hlength := length.isLt
  rw [BitVec.toNat_add, toNat_getLen, indexOf, BitVec.toNat_ofNat]
  simp only [DataStream.getIndex, DataStream.skip]
  omega

/-- The loop ends after at most a round for every four bytes in front,
and one more. -/
theorem rounds_bounded {fuel : Nat} {info : CallFrameInfo} {s : DataStream}
    (hfuel : (s.streamLen - s.index + 3) / 4 < fuel) :
    generateFrameInfo fuel info s ≠ .error .running := by
  induction fuel generalizing info s with
  | zero => omega
  | succ fuel ih =>
      cases hgo : s.isStreamable with
      | false =>
          rw [walk_end fuel info hgo]
          exact nofun
      | true =>
          rw [walk_step fuel info hgo]
          intro hrun
          rcases bind_eq_error.1 hrun with hround | ⟨⟨_, s'⟩, hround, hloop⟩
          · exact parseEntry_avoids info s hround
          · obtain ⟨length, -, rfl⟩ := parseEntry_advances hround
            -- the length itself is four bytes
            have hindex := index_lt_of_streamable hgo
            refine ih ?_ hloop
            simp only [DataStream.skip]
            omega

-- ================================================== where entries were read

/-- The common entry was read at the cursor, behind its length and its
mark, and its key is the position of the cursor as it is found behind
them. -/
def ParsedAt (s : DataStream) (key : U64) (p : CommonInfoEntry) : Prop :=
  ∃ length r, decodeUInt32 s = .ok (length, s.skip 4)
    ∧ key = ((indexOf (s.skip 8) - 8).setWidth 32).setWidth 64
    ∧ parseCie length 0xffffffff ((indexOf (s.skip 8) - 8).setWidth 32)
      (s.skip 8) = .ok (p, r)

/-- A round finds a common entry at the cursor, or none. -/
theorem parsed_of_round {info info' : CallFrameInfo} {s s' : DataStream}
    (h : parseEntry info s = .ok (info', s')) {key : U64}
    {p : CommonInfoEntry} (hp : info'.cies.lookup key = some p) :
    info.cies.lookup key = some p ∨ ParsedAt s key p := by
  rw [parseEntry_eq] at h
  obtain ⟨⟨length, s₁⟩, hlength, h⟩ := bind_eq_ok.1 h
  obtain ⟨⟨identifier, s₂⟩, hidentifier, h⟩ := bind_eq_ok.1 h
  obtain ⟨⟨info₁, s₃⟩, hbody, h⟩ := bind_eq_ok.1 h
  obtain ⟨rfl, -⟩ := Prod.mk.inj (Except.ok.inj h)
  obtain ⟨v, t, hs⟩ := front_of_uint32 hlength
  obtain ⟨-, rfl⟩ :=
    Prod.mk.inj (Except.ok.inj (hlength.symm.trans (word_run v hs)))
  obtain ⟨w, t', hs'⟩ := front_of_uint32 hidentifier
  obtain ⟨-, rfl⟩ :=
    Prod.mk.inj (Except.ok.inj (hidentifier.symm.trans (word_run w hs')))
  unfold parseBody at hbody
  split at hbody
  · next hmark =>
    subst hmark
    obtain ⟨⟨cie, r⟩, hcie, hbody⟩ := bind_eq_ok.1 hbody
    obtain ⟨rfl, -⟩ := Prod.mk.inj (Except.ok.inj hbody)
    -- an entry that is there already is not replaced
    rw [insertCie_lookup] at hp
    cases hold : info.cies.lookup key with
    | some old =>
        rw [hold, Option.some_or] at hp
        exact .inl hp
    | none =>
        rw [hold, Option.none_or] at hp
        split at hp
        · next hkey =>
          cases hp
          exact .inr ⟨length, r, hlength, hkey, hcie⟩
        · cases hp
  · obtain ⟨⟨fde, r⟩, -, hbody⟩ := bind_eq_ok.1 hbody
    obtain ⟨rfl, -⟩ := Prod.mk.inj (Except.ok.inj hbody)
    exact .inl hp

/-- Every common entry that the walk has recorded was read at a place of
the section. -/
theorem parsed_of_lookup {fuel : Nat} {info info' : CallFrameInfo}
    {s s' : DataStream} (h : generateFrameInfo fuel info s = .ok (info', s'))
    {key : U64} {p : CommonInfoEntry} (hp : info'.cies.lookup key = some p) :
    info.cies.lookup key = some p
      ∨ ∃ n, (s.skip n).isStreamable = true ∧ ParsedAt (s.skip n) key p := by
  induction fuel generalizing info s with
  | zero => cases h
  | succ fuel ih =>
      cases hgo : s.isStreamable with
      | false =>
          rw [walk_end fuel info hgo] at h
          cases h
          exact .inl hp
      | true =>
          rw [walk_step fuel info hgo] at h
          obtain ⟨⟨info₁, s₁⟩, hround, hloop⟩ := bind_eq_ok.1 h
          obtain ⟨length, -, rfl⟩ := parseEntry_advances hround
          rcases ih hloop with hfirst | ⟨n, hgo', hparsed⟩
          · -- recorded by this round, or before the loop
            rcases parsed_of_round hround hfirst with hold | hparsed
            · exact .inl hold
            · exact .inr ⟨0, hgo, hparsed⟩
          · have hskip : (s.skip (4 + length.toNat)).skip n
                = s.skip (4 + length.toNat + n) := by
              simp only [DataStream.skip, Nat.add_assoc]
            rw [hskip] at hgo' hparsed
            exact .inr ⟨_, hgo', hparsed⟩

-- ======================================================= wide registers

/-- A byte from 128 on is not all of a number. -/
theorem wide_number {s s' : DataStream} {v : U64} {register : U8}
    {t : List U8} (hs : s.rest = register :: t)
    (hwide : register.msb = true) (h : decodeULeb128 s = .ok (v, s')) :
    ∃ n, s' = s.skip n ∧ 1 < n ∧ n ≤ 5 := by
  obtain ⟨e, t', hs', hsize⟩ := encoding_of_uleb h
  obtain ⟨-, hr⟩ := uleb_of_ok hs' h
  obtain ⟨-, rfl⟩ := Prod.mk.inj hr
  refine ⟨e.size, rfl, ?_, hsize⟩
  obtain ⟨_ | ⟨g, init⟩, last⟩ := e
  · -- the only byte of a short number has its top bit clear
    rw [hs] at hs'
    obtain ⟨rfl, -⟩ := List.cons.inj hs'
    rw [Leb128.msb_byte] at hwide
    cases hwide
  · rw [Leb128.size_eq, List.length_cons]
    omega

/-- The block of a common entry with such a byte comes out too short, by
the bytes that the number has taken of it. -/
theorem short_block {c : RawCie} {register : U8} {s r : DataStream}
    {offset : Nat} {following behind : List U8} {p : CommonInfoEntry}
    (hplain : c.Plain 4) (hregister : c.returnAddress = .byte register)
    (hwide : register.msb = true)
    (hat : At s (offset + 8) (c.head ++ (c.block ++ following)) behind)
    (h : parseCie (BitVec.ofNat 32 (RawEntry.cie c).body.length) 0xffffffff
      (BitVec.ofNat 32 offset) s = .ok (p, r)) :
    p.instructionsBlockSize.toNat ≠ c.block.length := by
  have hbody := (RawEntry.cie c).length_body
  have hhead : (RawEntry.cie c).head.length
      = 2 + c.codeAlignment.size + c.dataAlignment.size + 1 := by
    show c.head.length = _
    simp [RawCie.head, hregister, ReturnAddress.bytes]
    omega
  unfold RawCie.head at hat
  rw [hregister] at hat
  simp only [List.append_assoc] at hat
  have hat₁ := hat.skip (n := 1) rfl
  have hat₂ := hat₁.skip (n := 1) rfl
  have hat₃ := hat₂.skip (Leb128.length_bytes _)
  have hat₄ := hat₃.skip (Leb128.length_bytes _)
  -- the numbers in front of the register are read as they are
  have hversion : decodeUInt8 s = .ok (c.version, s.skip 1) :=
    reads_uint8 c.version s _ hat.front
  have hdata := sleb_run c.dataAlignment hat₃.front
  rw [if_pos (.inl hplain.dataAlignment)] at hdata
  obtain ⟨r₁, h₁, h⟩ := bind_eq_ok.1 h
  cases hversion.symm.trans h₁
  obtain ⟨r₂, h₂, h⟩ := bind_eq_ok.1 h
  cases (augmentation_run hat₁.front).symm.trans h₂
  obtain ⟨r₃, h₃, h⟩ := bind_eq_ok.1 h
  cases (uleb_run (Nat.le_succ_of_le hplain.codeAlignment)
    hat₂.front).symm.trans h₃
  obtain ⟨r₄, h₄, h⟩ := bind_eq_ok.1 h
  cases hdata.symm.trans h₄
  -- and the register with more than its byte
  obtain ⟨⟨v, s₅⟩, h₅, h⟩ := bind_eq_ok.1 h
  obtain ⟨n, rfl, hlow, hhigh⟩ := wide_number hat₄.front hwide h₅
  obtain ⟨rfl, -⟩ := Prod.mk.inj (Except.ok.inj h)
  have hindex := hat₄.index
  show (getLen (BitVec.ofNat 32 _) - (BitVec.ofNat 64 (DataStream.index _ + n)
    - (BitVec.ofNat 32 offset).setWidth 64)).toNat ≠ _
  rw [hindex, hbody]
  have hfour : (4 : U64).toNat = 4 := rfl
  have hblock : (RawEntry.cie c).block.length = c.block.length := rfl
  simp only [getLen, BitVec.toNat_sub, BitVec.toNat_add, hfour,
    BitVec.toNat_setWidth, BitVec.toNat_ofNat]
  omega

-- ============================================================ the section

/-- The common entries are recorded under their offsets, nothing else is,
and the frame entries are recorded in order. -/
structure Records (entries : List RawEntry) (info : CallFrameInfo) :
    Prop where
  cies : ∀ before c following, entries = before ++ .cie c :: following →
    ∃ p, info.cies.lookup (BitVec.ofNat 64 (rawBytes before).length) = some p
      ∧ RecordsCie c p
  noOther : ∀ key p, info.cies.lookup key = some p →
    ∃ before c following, entries = before ++ .cie c :: following
      ∧ key.toNat = (rawBytes before).length
  fdes : List.Forall₂ RecordsFde (rawFdesOf entries) info.fdes

/-- The walk over a section ends behind its last entry, with all of them
recorded. -/
def Found (fuel : Nat) (entries : List RawEntry) (behind : List U8) : Prop :=
  ∃ info s, generateFrameInfo fuel ⟨[], []⟩ (sectionStream entries behind)
      = .ok (info, s)
    ∧ s.index = (rawBytes entries).length ∧ Records entries info

/-- What the loop has recorded of entries whose registers are read as they
are. -/
theorem records_recorded {entries : List RawEntry}
    (hplain : ∀ c, RawEntry.cie c ∈ entries → c.Plain 4)
    (hnarrow : ∀ e ∈ entries, e.Narrow)
    (hlen : (rawBytes entries).length < 2 ^ 32) (behind : List U8) :
    Records entries (recorded behind 0 entries ⟨[], []⟩) where
  cies := by
    intro before c following hentries
    have hmem : RawEntry.cie c ∈ entries := by
      rw [hentries]
      exact List.mem_append_right _ List.mem_cons_self
    have hblock : c.block.length ≤ _ := block_length_le hmem
    have hbefore : (rawBytes before).length ≤ (rawBytes entries).length := by
      rw [hentries]
      simp [rawBytes]
    have hat : rawCieAt (rawBytes before).length 0 entries
        = some (c, following) :=
      rawCieAt_eq_some_iff.2 ⟨before, hentries, (Nat.zero_add _).symm⟩
    refine ⟨recordedCie c (rawBytes following) behind, ?_,
      recordsCie (hplain c hmem) (hnarrow _ hmem) (by omega) _ _⟩
    rw [recorded_cies behind entries 0 ⟨[], []⟩ (by omega) (by omega), hat]
    rfl
  noOther := by
    intro key p hp
    have hkey : key = BitVec.ofNat 64 key.toNat := by simp
    rw [hkey, recorded_cies behind entries 0 ⟨[], []⟩ key.isLt
      (by omega)] at hp
    cases hat : rawCieAt key.toNat 0 entries with
    | none =>
        rw [hat] at hp
        cases hp
    | some found =>
        obtain ⟨before, hentries, hoffset⟩ := rawCieAt_eq_some_iff.1 hat
        exact ⟨before, found.1, found.2, hentries,
          hoffset.trans (Nat.zero_add _)⟩
  fdes := by
    obtain ⟨fdes, hfdes, hrecorded⟩ :=
      recorded_fdes behind entries 0 ⟨[], []⟩
    rw [hfdes]
    have hblock : ∀ f ∈ rawFdesOf entries,
        f.block.length ≤ (rawBytes entries).length :=
      fun f hf => block_length_le (mem_of_rawFdesOf hf)
    refine (List.forall₂_and_left _ _).2 ⟨hblock, hrecorded⟩ |>.imp ?_
    rintro f p ⟨hf, following, rfl⟩
    exact recordsFde (by omega) following behind

/-- A section is found if its registers are narrow. -/
theorem found_of_narrow {entries : List RawEntry} {fuel : Nat}
    (hplain : ∀ c, RawEntry.cie c ∈ entries → c.Plain 4)
    (hnarrow : ∀ e ∈ entries, e.Narrow)
    (hlen : (rawBytes entries).length < 2 ^ 32)
    (hfuel : (rawBytes entries).length < fuel) (behind : List U8) :
    Found fuel entries behind := by
  have hread : ∀ e ∈ entries, RawReadable e := by
    rintro (c | f) he
    · exact rawReadable_of_plain (hplain c he)
    · trivial
  refine ⟨recorded behind 0 entries ⟨[], []⟩,
    (sectionStream entries behind).skip (rawBytes entries).length, ?_,
    Nat.zero_add _, records_recorded hplain hnarrow hlen behind⟩
  rw [walk_raw entries ⟨[], []⟩ hnarrow (sectionStream_at entries behind)
    (by omega) hfuel, if_pos hread]

/-- The place where a recorded entry was read is that of its offset. -/
theorem place_of_key {n offset : Nat} {entries : List RawEntry}
    {behind : List U8}
    (hkey : BitVec.ofNat 64 offset = ((indexOf
      (((sectionStream entries behind).skip n).skip 8) - 8).setWidth
        32).setWidth 64)
    (hgo : ((sectionStream entries behind).skip n).isStreamable = true)
    (hlen : (rawBytes entries).length < 2 ^ 32)
    (hoffset : offset < 2 ^ 32) : n = offset := by
  have hindex : n < (rawBytes entries).length := by
    have hlt := index_lt_of_streamable hgo
    simpa [DataStream.skip, sectionStream] using hlt
  have hstart : (indexOf (((sectionStream entries behind).skip n).skip 8)
      - 8).setWidth 32 = BitVec.ofNat 32 n := by
    have hplace : (((sectionStream entries behind).skip n).skip 8).index
        = n + 8 := by
      simp [DataStream.skip, sectionStream]
    rw [indexOf, DataStream.getIndex, hplace]
    exact start_index n
  rw [hstart] at hkey
  have hnat := congrArg BitVec.toNat hkey
  rw [BitVec.toNat_ofNat, BitVec.toNat_setWidth, BitVec.toNat_ofNat] at hnat
  omega

/-- And only then: the entry was read at its offset, and with a wide
register its block would be too short. -/
theorem narrow_of_found {entries : List RawEntry} {fuel : Nat}
    {behind : List U8} (hplain : ∀ c, RawEntry.cie c ∈ entries → c.Plain 4)
    (hlen : (rawBytes entries).length < 2 ^ 32)
    (h : Found fuel entries behind) {c : RawCie} {register : U8}
    (hc : RawEntry.cie c ∈ entries)
    (hregister : c.returnAddress = .byte register) :
    register.msb = false := by
  obtain ⟨info, s, hrun, -, hrecords⟩ := h
  obtain ⟨before, following, rfl⟩ := List.append_of_mem hc
  obtain ⟨p, hp, hrecord⟩ := hrecords.cies before c following rfl
  have hsplit : rawBytes (before ++ .cie c :: following)
      = rawBytes before
        ++ ((RawEntry.cie c).bytes ++ rawBytes following) := by
    simp [rawBytes]
  have hlengths := congrArg List.length hsplit
  rw [List.length_append, List.length_append, RawEntry.length_bytes]
    at hlengths
  rcases parsed_of_lookup hrun hp with hnone | ⟨n, hgo, hparsed⟩
  · cases hnone
  · obtain ⟨length, r, hlength, hkey, hparse⟩ := hparsed
    obtain rfl := place_of_key hkey hgo hlen (by omega)
    -- what stands there is the entry
    have hat := sectionStream_at (before ++ .cie c :: following) behind
    rw [hsplit] at hat
    have hentry := hat.skip rfl
    rw [Nat.zero_add, bytes_append] at hentry
    have hmark := hentry.skip (n := 4) rfl
    have hhead := hmark.skip (n := 4) rfl
    cases hlength.symm.trans (word_run _ hentry.front)
    have hstart : (indexOf (((sectionStream (before ++ .cie c :: following)
        behind).skip (rawBytes before).length).skip 8) - 8).setWidth 32
          = BitVec.ofNat 32 (rawBytes before).length := by
      rw [indexOf, DataStream.getIndex]
      exact (congrArg (fun i => (BitVec.ofNat 64 i - 8#64).setWidth 32)
        hhead.index).trans (start_index _)
    rw [hstart] at hparse
    rw [← Bool.not_eq_true]
    exact fun hwide => short_block (hplain c hc) hregister hwide hhead hparse
      hrecord.instructions.length

/-- The walk finds every entry of a section of entries and ends behind the
last one, exactly if no common entry of version 1 has its return address
in a register from 128 on. On any bytes a round that returns moves the
cursor on, by the length it read and four, and there is at most one for
every four bytes. -/
theorem frame_walk_finds_iff (fuel : Nat) :
    (∀ (entries : List RawEntry) (behind : List U8),
      (∀ c, RawEntry.cie c ∈ entries → c.Plain 4) →
      (rawBytes entries).length < 2 ^ 32 →
      (rawBytes entries).length < fuel →
      (Found fuel entries behind
        ↔ ∀ c register, RawEntry.cie c ∈ entries →
          c.returnAddress = .byte register → register < 0x80))
    ∧ (∀ (info info' : CallFrameInfo) (s s' : DataStream),
      s.streamLen ≤ 2 ^ 63 → s.isStreamable = true →
      parseEntry info s = .ok (info', s') →
      ∃ length, decodeUInt32 s = .ok (length, s.skip 4)
        ∧ s' = s.skip (4 + length.toNat)
        ∧ s'.index = (indexOf s + getLen length).toNat)
    ∧ ∀ (bytes : List U8) (size : Nat), (size + 3) / 4 < fuel →
      generateFrameInfo fuel ⟨[], []⟩ ⟨some bytes, 0, size⟩
        ≠ .error .running := by
  refine ⟨?found, ?moved, ?ended⟩
  case found =>
    intro entries behind hplain hlen hfuel
    constructor
    · intro hfound c register hc hregister
      exact (ReturnAddress.narrow_byte_iff register).2
        (narrow_of_found hplain hlen hfound hc hregister)
    · intro hnarrow
      refine found_of_narrow hplain ?_ hlen hfuel behind
      rintro (c | f) he
      · show c.returnAddress.Narrow
        cases hregister : c.returnAddress with
        | byte register => exact hnarrow c register he hregister
        | number e => trivial
      · trivial
  case moved =>
    intro info info' s s' hlen hgo hround
    obtain ⟨length, hlength, rfl⟩ := parseEntry_advances hround
    exact ⟨length, hlength, rfl, (parseEntry_no_wrap hlen hgo).symm⟩
  case ended =>
    intro bytes size hfuel
    exact rounds_bounded hfuel

/-- A common entry of version 1 between two frame entries, the last of
them without an instruction. -/
def twoFrames : List RawEntry :=
  [.fde ⟨19, 0x80000000, 8, [0x42, 0x0e, 0x10], by decide⟩,
    .cie ⟨1, .single 1, .single 0x7c, .byte 1, [0x0c, 0x02, 0x00]⟩,
    .fde ⟨19, 0x80000008, 4, [], by decide⟩]

/-- They are found; a round at the section's start ends at the second
entry, and fourteen rounds are enough. -/
theorem two_frames_found :
    Found 64 twoFrames []
      ∧ (∀ info s, parseEntry ⟨[], []⟩ (sectionStream twoFrames [])
          = .ok (info, s) → s.index = 19)
      ∧ generateFrameInfo 14 ⟨[], []⟩ (sectionStream twoFrames [])
        ≠ .error .running := by
  obtain ⟨hfound, hmoved, -⟩ := frame_walk_finds_iff 64
  obtain ⟨-, -, hended⟩ := frame_walk_finds_iff 14
  have honly : ∀ c, RawEntry.cie c ∈ twoFrames →
      c = ⟨1, .single 1, .single 0x7c, .byte 1, [0x0c, 0x02, 0x00]⟩ := by
    intro c hc
    simpa [twoFrames] using hc
  have hplain : ∀ c, RawEntry.cie c ∈ twoFrames → c.Plain 4 := by
    intro c hc
    obtain rfl := honly c hc
    exact ⟨.inl ⟨rfl, 1, rfl⟩, by decide, by decide⟩
  refine ⟨(hfound twoFrames [] hplain (by decide) (by decide)).2 ?_, ?_,
    hended _ _ (by decide)⟩
  · intro c register hc hregister
    obtain rfl := honly c hc
    cases hregister
    decide
  · intro info s hround
    obtain ⟨length, hlength, rfl, -⟩ :=
      hmoved ⟨[], []⟩ info (sectionStream twoFrames []) s (by decide)
        (by decide) hround
    have hword : decodeUInt32 (sectionStream twoFrames [])
        = .ok (15, (sectionStream twoFrames []).skip 4) := by
      decide
    obtain ⟨rfl, -⟩ := Prod.mk.inj (Except.ok.inj (hlength.symm.trans hword))
    rfl

/-- A common entry of version 1 with the return address in register
128. -/
def wideRegister : List RawEntry :=
  [.cie ⟨1, .single 1, .single 0x7c, .byte 0x80, [0x0c, 0x02, 0x00]⟩]

/-- The first byte of its instructions is taken for a part of the
register. -/
theorem wide_register_lost :
    (∀ c, RawEntry.cie c ∈ wideRegister → c.Plain 4)
      ∧ (rawBytes wideRegister).length = 16
      ∧ (∃ info s p, generateFrameInfo 64 ⟨[], []⟩
          (sectionStream wideRegister []) = .ok (info, s)
        ∧ info.cies.lookup 0 = some p ∧ p.returnAddressRegister = 1536
        ∧ p.instructionsBlockSize = 2)
      ∧ ¬ Found 64 wideRegister [] := by
  have hrun : ∃ info s p, generateFrameInfo 64 ⟨[], []⟩
        (sectionStream wideRegister []) = .ok (info, s)
      ∧ info.cies.lookup 0 = some p ∧ p.returnAddressRegister = 1536
      ∧ p.instructionsBlockSize = 2 :=
    ⟨_, _, _, rfl, rfl, rfl, rfl⟩
  refine ⟨?_, by decide, hrun, ?_⟩
  · intro c hc
    obtain rfl : c = _ := by simpa [wideRegister] using hc
    exact ⟨.inl ⟨rfl, 0x80, rfl⟩, by decide, by decide⟩
  · rintro ⟨info', s', hrun', -, hrecords⟩
    obtain ⟨info, s, p, hrun, hp, -, hsize⟩ := hrun
    cases hrun.symm.trans hrun'
    obtain ⟨p', hp', hrecord⟩ := hrecords.cies [] _ [] rfl
    cases hp.symm.trans hp'
    have hlength := hrecord.instructions.length
    rw [hsize] at hlength
    exact absurd hlength (by decide)

end T89Emu.Dwarf
