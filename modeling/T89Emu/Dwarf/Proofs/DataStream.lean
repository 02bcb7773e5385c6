/-
What the stream decoders read.

Each decoder is placed in the `Reads` calculus: it takes exactly the
bytes of an encoding and delivers the number, whatever lies behind. For
LEB128 that holds up to the number of bytes whose groups an `int` can
still be shifted by: five, of which four keep all 64 bits of the result
right and the fifth only its low 32.
-/
import Mathlib.Tactic.IntervalCases
import T89Emu.Lib.Bytes
import T89Emu.Lib.Leb128
import T89Emu.Dwarf.DataStream

namespace T89Emu.Dwarf

open Cpp Decode Bytes

-- ================================================= fixed-width decoders

/-- The cursor's word, as the decoders look at it. -/
theorem rest_eq {s : DataStream} {w t : List U8}
    (h : Cursor.rest s = w ++ t) : s.rest = w ++ t := h

/-- Inside its bytes a stream goes on. -/
theorem isStreamable_iff {s : DataStream} (hs : s.data.isSome = true) :
    s.isStreamable = true ↔ s.index < s.streamLen := by
  simp [DataStream.isStreamable, hs]

/-- And behind them it does not. -/
theorem isStreamable_eq_false_iff {s : DataStream}
    (hs : s.data.isSome = true) :
    s.isStreamable = false ↔ s.streamLen ≤ s.index := by
  rw [← Bool.not_eq_true, isStreamable_iff hs, Nat.not_lt]

/-- Whatever its bytes, it goes on inside its length only. -/
theorem index_lt_of_streamable {s : DataStream}
    (h : s.isStreamable = true) : s.index < s.streamLen := by
  simp only [DataStream.isStreamable, Bool.and_eq_true,
    decide_eq_true_eq] at h
  exact h.2

/-- A byte is one byte. -/
theorem reads_uint8 (b : U8) : Reads decodeUInt8 [b] b := by
  intro s t hs
  simp only [decodeUInt8, StateT.run, rest_eq hs]
  rfl

/-- The bytes of a halfword that is put together. -/
theorem byteOf_halfword (b0 b1 : U8) :
    let v : U16 := b1 ++ b0
    byteOf v 0 = b0 ∧ byteOf v 1 = b1 :=
  ⟨byteOf_append_zero b1 b0,
    (byteOf_append_succ b1 b0 0).trans (byteOf_byte b1)⟩

/-- And of a word. -/
theorem byteOf_word (b0 b1 b2 b3 : U8) :
    let v : U32 := b3 ++ b2 ++ b1 ++ b0
    byteOf v 0 = b0 ∧ byteOf v 1 = b1 ∧ byteOf v 2 = b2
      ∧ byteOf v 3 = b3 := by
  refine ⟨byteOf_append_zero _ b0, ?_, ?_, ?_⟩
  · exact (byteOf_append_succ _ b0 0).trans (byteOf_append_zero _ b1)
  · exact (byteOf_append_succ _ b0 1).trans
      ((byteOf_append_succ _ b1 0).trans (byteOf_append_zero _ b2))
  · exact (byteOf_append_succ _ b0 2).trans
      ((byteOf_append_succ _ b1 1).trans
        ((byteOf_append_succ _ b2 0).trans (byteOf_byte b3)))

/-- A half has its low byte in front. -/
theorem reads_uint16 (v : U16) :
    Reads decodeUInt16 [byteOf v 0, byteOf v 1] v := by
  intro s t hs
  have hv : (byteOf v 1 ++ byteOf v 0 : U16) = v := by
    obtain ⟨h0, h1⟩ := byteOf_halfword (byteOf v 0) (byteOf v 1)
    refine eq_of_byteOf_eq (w := 2) fun k hk => ?_
    interval_cases k
    · exact h0
    · exact h1
  simp only [decodeUInt16, StateT.run, rest_eq hs]
  show Except.ok ((byteOf v 1 ++ byteOf v 0 : U16), _) = _
  rw [hv]
  rfl

/-- And so has a word. -/
theorem reads_uint32 (v : U32) :
    Reads decodeUInt32 [byteOf v 0, byteOf v 1, byteOf v 2, byteOf v 3]
      v := by
  intro s t hs
  have hv : (byteOf v 3 ++ byteOf v 2 ++ byteOf v 1 ++ byteOf v 0 : U32)
      = v := by
    obtain ⟨h0, h1, h2, h3⟩ :=
      byteOf_word (byteOf v 0) (byteOf v 1) (byteOf v 2) (byteOf v 3)
    refine eq_of_byteOf_eq (w := 4) fun k hk => ?_
    interval_cases k
    · exact h0
    · exact h1
    · exact h2
    · exact h3
  simp only [decodeUInt32, StateT.run, rest_eq hs]
  show Except.ok ((byteOf v 3 ++ byteOf v 2 ++ byteOf v 1 ++ byteOf v 0
    : U32), _) = _
  rw [hv]
  rfl

/-- A byte by its number, as a dispatch on it has it. -/
theorem eq_of_toNat {b : U8} {n : Nat} (h : b.toNat = n) :
    b = BitVec.ofNat 8 n := by
  rw [← h, BitVec.ofNat_toNat, BitVec.setWidth_eq]

/-- A byte that was delivered lay in front. -/
theorem front_of_uint8 {s : DataStream} {r : U8 × DataStream}
    (h : decodeUInt8 s = .ok r) :
    s.rest = r.1 :: (s.skip 1).rest ∧ r.2 = s.skip 1 := by
  obtain ⟨b, hb, h⟩ := bind_eq_ok.1 h
  obtain rfl := Except.ok.inj h
  cases hrest : s.rest with
  | nil =>
      rw [hrest] at hb
      cases hb
  | cons b' rest =>
      rw [hrest] at hb
      obtain rfl : b' = b := Except.ok.inj (toProc_eq_ok.1 hb)
      have hback : (s.skip 1).rest = rest :=
        rest_skip_append (σ := DataStream) (w := [b']) hrest
      rw [hback]
      exact ⟨rfl, rfl⟩

/-- So did the bytes of a halfword. -/
theorem front_of_uint16 {s : DataStream} {r : U16 × DataStream}
    (h : decodeUInt16 s = .ok r) :
    ∃ (v : U16) (t : List U8), s.rest = [byteOf v 0, byteOf v 1] ++ t := by
  obtain ⟨b0, h0, h⟩ := bind_eq_ok.1 h
  obtain ⟨b1, h1, -⟩ := bind_eq_ok.1 h
  rcases hrest : s.rest with _ | ⟨c0, _ | ⟨c1, t⟩⟩
  · rw [hrest] at h0
    cases h0
  · rw [hrest] at h1
    cases h1
  · obtain ⟨hc0, hc1⟩ := byteOf_halfword c0 c1
    refine ⟨c1 ++ c0, t, ?_⟩
    rw [hc0, hc1]
    rfl

/-- So did the bytes of a word. -/
theorem front_of_uint32 {s : DataStream} {r : U32 × DataStream}
    (h : decodeUInt32 s = .ok r) :
    ∃ (v : U32) (t : List U8),
      s.rest = [byteOf v 0, byteOf v 1, byteOf v 2, byteOf v 3] ++ t := by
  obtain ⟨b0, h0, h⟩ := bind_eq_ok.1 h
  obtain ⟨b1, h1, h⟩ := bind_eq_ok.1 h
  obtain ⟨b2, h2, h⟩ := bind_eq_ok.1 h
  obtain ⟨b3, h3, -⟩ := bind_eq_ok.1 h
  rcases hrest : s.rest with _ | ⟨c0, _ | ⟨c1, _ | ⟨c2, _ | ⟨c3, t⟩⟩⟩⟩
  · rw [hrest] at h0
    cases h0
  · rw [hrest] at h1
    cases h1
  · rw [hrest] at h2
    cases h2
  · rw [hrest] at h3
    cases h3
  · obtain ⟨hc0, hc1, hc2, hc3⟩ := byteOf_word c0 c1 c2 c3
    refine ⟨c3 ++ c2 ++ c1 ++ c0, t, ?_⟩
    rw [hc0, hc1, hc2, hc3]
    rfl

-- ====================================================== the LEB128 loop

/-- What a group contributes at a shift. -/
def lebGroup (g : BitVec 7) (shift : Nat) : U64 :=
  (g.setWidth 32 <<< shift).signExtend 64

/-- The groups of a number put together the way the loop does it. -/
def lebValue : List (BitVec 7) → Nat → U64
  | [], _ => 0#64
  | g :: gs, shift => lebGroup g shift ||| lebValue gs (shift + 7)

/-- A group is shifted as an `int`, its top bit aside. -/
theorem lebPart_byte (more : Bool) (g : BitVec 7) {shift : Nat}
    (h : shift < 32) :
    lebPart (Leb128.byte more g) shift = .ok (lebGroup g shift) := by
  have hwiden : (g.setWidth 8).setWidth 32 = g.setWidth 32 := by
    apply BitVec.eq_of_toNat_eq
    have hg := g.isLt
    simp only [BitVec.toNat_setWidth]
    omega
  rw [lebPart, if_pos h, Leb128.byte_low, lebGroup, hwiden]

/-- A round on a byte that another one follows. -/
theorem lebLoop_more (g : BitVec 7) (rest : List U8) (result : U64)
    {shift : Nat} (h : shift < 32) :
    lebLoop (Leb128.byte true g :: rest) result shift
      = (lebLoop rest (result ||| lebGroup g shift) (shift + 7)).map
          fun (r, last, n) => (r, last, n + 1) := by
  have hhigh : 0x80#8 &&& Leb128.byte true g ≠ 0#8 := fun h0 =>
    Bool.noConfusion ((Leb128.byte_high true g).1 h0)
  rw [lebLoop, lebPart_byte true g h, ok_bind]
  simp only [if_neg hhigh]
  rfl

/-- The round on the last byte. -/
theorem lebLoop_last (g : BitVec 7) (rest : List U8) (result : U64)
    {shift : Nat} (h : shift < 32) :
    lebLoop (Leb128.byte false g :: rest) result shift
      = .ok (result ||| lebGroup g shift, Leb128.byte false g, 1) := by
  have hlow : 0x80#8 &&& Leb128.byte false g = 0#8 :=
    (Leb128.byte_high false g).2 rfl
  rw [lebLoop, lebPart_byte false g h, ok_bind]
  simp only [if_pos hlow]
  rfl

/-- A round whose shift is undefined. -/
theorem lebLoop_overflow (byte : U8) (rest : List U8) (result : U64)
    {shift : Nat} (h : 32 ≤ shift) :
    lebLoop (byte :: rest) result shift = .error .shiftCount := by
  rw [lebLoop, lebPart, if_neg (by omega), error_bind]

/-- The loop takes an encoding and nothing else, as long as its shifts
are defined. -/
theorem lebLoop_bytes (l : List (BitVec 7)) (h : BitVec 7) (t : List U8)
    (result : U64) (shift : Nat) (hs : shift + 7 * l.length < 32) :
    lebLoop ((⟨l, h⟩ : Leb128).bytes ++ t) result shift
      = .ok (result ||| lebValue (l ++ [h]) shift, Leb128.byte false h,
          l.length + 1) := by
  induction l generalizing result shift with
  | nil =>
      show lebLoop (Leb128.byte false h :: t) result shift = _
      rw [lebLoop_last h t result (by simpa using hs)]
      simp [lebValue]
  | cons g l ih =>
      rw [List.length_cons] at hs
      show lebLoop (Leb128.byte true g :: ((⟨l, h⟩ : Leb128).bytes ++ t))
        result shift = _
      rw [lebLoop_more g _ result (by omega), ih _ _ (by omega)]
      simp [Except.map, lebValue, BitVec.or_assoc]

/-- From the sixth byte on a shift is undefined. -/
theorem lebLoop_long (l : List (BitVec 7)) (h : BitVec 7) (t : List U8)
    (result : U64) (shift : Nat) (hs : 32 ≤ shift + 7 * l.length) :
    lebLoop ((⟨l, h⟩ : Leb128).bytes ++ t) result shift
      = .error .shiftCount := by
  induction l generalizing result shift with
  | nil => exact lebLoop_overflow _ t result (by simpa using hs)
  | cons g l ih =>
      rw [List.length_cons] at hs
      show lebLoop (Leb128.byte true g :: ((⟨l, h⟩ : Leb128).bytes ++ t))
        result shift = _
      by_cases h32 : shift < 32
      · rw [lebLoop_more g _ result h32, ih _ _ (by omega)]
        rfl
      · exact lebLoop_overflow _ _ result (by omega)

/-- Whatever the loop takes is an encoding. -/
theorem encoding_of_lebLoop {l : List U8} {result : U64} {shift : Nat}
    {r : U64 × U8 × Nat} (h : lebLoop l result shift = .ok r) :
    ∃ (e : Leb128) (t : List U8), l = e.bytes ++ t := by
  induction l generalizing result shift r with
  | nil => cases h
  | cons b l ih =>
      have hbyte := Leb128.byte_split b
      cases hmore : b.msb with
      | false =>
          rw [hmore] at hbyte
          refine ⟨.single (b.setWidth 7), l, ?_⟩
          show b :: l = Leb128.byte false (b.setWidth 7) :: l
          rw [hbyte]
      | true =>
          rw [hmore] at hbyte
          by_cases h32 : shift < 32
          · rw [← hbyte, lebLoop_more _ l result h32] at h
            obtain ⟨r', hrest, -⟩ := map_eq_ok.1 h
            obtain ⟨e, t, rfl⟩ := ih hrest
            refine ⟨⟨b.setWidth 7 :: e.init, e.last⟩, t, ?_⟩
            show b :: (e.bytes ++ t)
              = Leb128.byte true (b.setWidth 7) :: (e.bytes ++ t)
            rw [hbyte]
          · rw [lebLoop_overflow b l result (by omega)] at h
            cases h

-- ========================================================= their numbers

/-- A group below the digits that follow it. -/
theorem digits_shift (g : BitVec 7) (n shift : Nat) :
    g.toNat <<< shift ||| n <<< (shift + 7)
      = (g.toNat + 128 * n) <<< shift := by
  have hor : g.toNat + 128 * n = g.toNat ||| n <<< 7 := by
    have h := Nat.two_pow_add_eq_or_of_lt (i := 7) g.isLt n
    rw [Nat.shiftLeft_eq, Nat.mul_comm n, Nat.or_comm, ← h]
    omega
  rw [hor, Nat.shiftLeft_or_distrib, Nat.add_comm shift 7,
    Nat.shiftLeft_add]

/-- A group is a number of 32 bits when it is shifted. -/
theorem shifted_group (g : BitVec 7) (shift : Nat) :
    g.setWidth 32 <<< shift = BitVec.ofNat 32 (g.toNat <<< shift) := by
  apply BitVec.eq_of_toNat_eq
  rw [BitVec.toNat_shiftLeft, BitVec.toNat_setWidth, BitVec.toNat_ofNat,
    Nat.mod_eq_of_lt (a := g.toNat)]
  exact Nat.lt_of_lt_of_le g.isLt (by norm_num)

/-- The low word has what the shift leaves in it. -/
theorem lebGroup_low (g : BitVec 7) (shift : Nat) :
    (lebGroup g shift).setWidth 32
      = BitVec.ofNat 32 (g.toNat <<< shift) := by
  rw [← shifted_group, lebGroup]
  exact setWidth_signExtend _ (by decide)

/-- Nothing is lost where the group does not reach the sign. -/
theorem lebGroup_exact (g : BitVec 7) {shift : Nat}
    (h : shift + 7 < 32) :
    lebGroup g shift = BitVec.ofNat 64 (g.toNat <<< shift) := by
  have hlt : g.toNat <<< shift < 2 ^ 31 := by
    rw [Nat.shiftLeft_eq]
    calc g.toNat * 2 ^ shift
        < 2 ^ 7 * 2 ^ shift :=
          Nat.mul_lt_mul_of_pos_right g.isLt (Nat.two_pow_pos shift)
      _ = 2 ^ (shift + 7) := by rw [← Nat.pow_add, Nat.add_comm]
      _ ≤ 2 ^ 31 := Nat.pow_le_pow_right (by omega) (by omega)
  rw [lebGroup, shifted_group]
  generalize g.toNat <<< shift = n at hlt
  have hmsb : (BitVec.ofNat 32 n).msb = false := by
    rw [BitVec.msb_eq_false_iff_two_mul_lt, BitVec.toNat_ofNat]
    omega
  rw [BitVec.signExtend_eq_setWidth_of_msb_false hmsb]
  apply BitVec.eq_of_toNat_eq
  rw [BitVec.toNat_setWidth, BitVec.toNat_ofNat, BitVec.toNat_ofNat]
  omega

/-- The low 32 bits are those of the number. -/
theorem lebValue_low (gs : List (BitVec 7)) (shift : Nat) :
    (lebValue gs shift).setWidth 32
      = BitVec.ofNat 32
          (Nat.ofDigits 128 (gs.map BitVec.toNat) <<< shift) := by
  induction gs generalizing shift with
  | nil => simp [lebValue]
  | cons g gs ih =>
      rw [lebValue, BitVec.setWidth_or, ih, lebGroup_low,
        ← BitVec.ofNat_or, digits_shift, List.map_cons,
        Nat.ofDigits_cons]

/-- As long as nothing reaches the sign bit, all of them are. -/
theorem lebValue_exact (gs : List (BitVec 7)) {shift : Nat}
    (h : shift + 7 * gs.length < 32) :
    lebValue gs shift
      = BitVec.ofNat 64
          (Nat.ofDigits 128 (gs.map BitVec.toNat) <<< shift) := by
  induction gs generalizing shift with
  | nil => simp [lebValue]
  | cons g gs ih =>
      rw [List.length_cons] at h
      rw [lebValue, ih (by omega), lebGroup_exact g (by omega),
        ← BitVec.ofNat_or, digits_shift, List.map_cons,
        Nat.ofDigits_cons]

-- ======================================================== LEB128 numbers

/-- The bytes of an encoding whose every shift is defined. -/
theorem uleb_run {e : Leb128} (he : e.size ≤ 5) {s : DataStream}
    {t : List U8} (hs : s.rest = e.bytes ++ t) :
    decodeULeb128 s = .ok (lebValue e.groups 0, s.skip e.size) := by
  have hloop := lebLoop_bytes e.init e.last t 0 0 (by
    have hsize := e.size_eq
    omega)
  simp only [decodeULeb128, hs, hloop]
  simp [Leb128.groups, Leb128.size]
  rfl

/-- An encoding of six bytes or more is not decoded. -/
theorem uleb_long {e : Leb128} (he : 5 < e.size) {s : DataStream}
    {t : List U8} (hs : s.rest = e.bytes ++ t) :
    decodeULeb128 s = .error (.undefined .shiftCount) := by
  have hloop := lebLoop_long e.init e.last t 0 0 (by
    have hsize := e.size_eq
    omega)
  simp only [decodeULeb128, hs, hloop]
  rfl

/-- Up to four bytes the number is delivered as it is. -/
theorem reads_uleb {e : Leb128} (he : e.size ≤ 4) :
    Reads decodeULeb128 e.bytes (BitVec.ofNat 64 e.unsigned) := by
  intro s t hs
  have hvalue : lebValue e.groups 0 = BitVec.ofNat 64 e.unsigned :=
    lebValue_exact e.groups (by rw [Leb128.length_groups]; omega)
  rw [StateT.run, uleb_run (by omega) (rest_eq hs), hvalue,
    Leb128.length_bytes]
  rfl

/-- The sign that is put on an encoding of at most four bytes. -/
theorem or_sign {n u : Nat} (hn : n ≤ 4) (hu : u < 2 ^ (7 * n)) :
    BitVec.ofNat 64 u ||| (-(1#32 <<< (7 * n))).signExtend 64
      = BitVec.ofInt 64 ((u : Int) - (2 ^ (7 * n) : Nat)) := by
  have hsign : (-(1#32 <<< (7 * n))).signExtend 64
      = BitVec.ofNat 64 (2 ^ (7 * n) * (2 ^ (64 - 7 * n) - 1)) := by
    interval_cases n <;> decide
  have hor : u ||| 2 ^ (7 * n) * (2 ^ (64 - 7 * n) - 1)
      = 2 ^ (7 * n) * (2 ^ (64 - 7 * n) - 1) + u := by
    rw [Nat.two_pow_add_eq_or_of_lt hu, Nat.or_comm]
  rw [hsign, ← BitVec.ofNat_or, hor]
  apply BitVec.eq_of_toNat_eq
  rw [BitVec.toNat_ofNat, BitVec.toNat_ofInt]
  interval_cases n <;> omega

/-- What the signed decoder does with an encoding whose loop is
defined. -/
theorem leb_run {e : Leb128} (he : e.size ≤ 5) {s : DataStream}
    {t : List U8} (hs : s.rest = e.bytes ++ t) :
    decodeLeb128 s
      = if e.last.msb = false then
          .ok (lebValue e.groups 0, s.skip e.size)
        else if e.size ≤ 4 then
          .ok (lebValue e.groups 0
            ||| (-(1#32 <<< (7 * e.size))).signExtend 64, s.skip e.size)
        else .error (.undefined .shiftCount) := by
  have hloop := lebLoop_bytes e.init e.last t 0 0 (by
    have hsize := e.size_eq
    omega)
  have hsize : e.init.length + 1 = e.size := rfl
  rw [hsize] at hloop
  have hfour : 7 * e.size < 32 ↔ e.size ≤ 4 := by omega
  simp only [decodeLeb128, hs, hloop]
  show (if 0x40#8 &&& Leb128.byte false e.last = 0#8 then
      (Except.ok (0 ||| lebValue e.groups 0, s.skip e.size)
        : Proc (U64 × DataStream))
    else if 7 * e.size < 32 then
      .ok (0 ||| lebValue e.groups 0
        ||| (-(1#32 <<< (7 * e.size))).signExtend 64, s.skip e.size)
    else .error (.undefined .shiftCount)) = _
  have hzero : (0 : U64) ||| lebValue e.groups 0 = lebValue e.groups 0 :=
    BitVec.zero_or
  simp only [Leb128.byte_sign, hfour, hzero]

/-- Up to four bytes the number is delivered with its sign. -/
theorem reads_leb {e : Leb128} (he : e.size ≤ 4) :
    Reads decodeLeb128 e.bytes (BitVec.ofInt 64 e.signed) := by
  intro s t hs
  have hvalue : lebValue e.groups 0 = BitVec.ofNat 64 e.unsigned :=
    lebValue_exact e.groups (by rw [Leb128.length_groups]; omega)
  rw [StateT.run, leb_run (by omega) (rest_eq hs), hvalue,
    Leb128.length_bytes, Leb128.signed]
  cases hsign : e.last.msb with
  | false =>
      rw [if_pos rfl, if_neg (by simp)]
      rfl
  | true =>
      rw [if_neg (by simp), if_pos he, if_pos rfl,
        or_sign he e.unsigned_lt]
      rfl

/-- Nor is a signed one of six bytes or more. -/
theorem leb_long {e : Leb128} (he : 5 < e.size) {s : DataStream}
    {t : List U8} (hs : s.rest = e.bytes ++ t) :
    decodeLeb128 s = .error (.undefined .shiftCount) := by
  have hloop := lebLoop_long e.init e.last t 0 0 (by
    have hsize := e.size_eq
    omega)
  simp only [decodeLeb128, hs, hloop]
  rfl

-- ====================================================== low 32 bits

/-- Truncation of a number that fits in 64 bits or not. -/
theorem setWidth_ofNat (n : Nat) :
    (BitVec.ofNat 64 n).setWidth 32 = BitVec.ofNat 32 n := by
  apply BitVec.eq_of_toNat_eq
  simp only [BitVec.toNat_setWidth, BitVec.toNat_ofNat]
  omega

/-- A number with a sign keeps its low word. -/
theorem setWidth_ofInt (n : Int) :
    (BitVec.ofInt 64 n).setWidth 32 = BitVec.ofInt 32 n := by
  apply BitVec.eq_of_toNat_eq
  simp only [BitVec.toNat_setWidth, BitVec.toNat_ofInt]
  omega

/-- The signed decoder delivers up to four bytes, and five without a
sign. -/
def LebDefined (e : Leb128) : Prop :=
  e.size ≤ 4 ∨ e.size = 5 ∧ e.last.msb = false

instance (e : Leb128) : Decidable (LebDefined e) :=
  inferInstanceAs (Decidable (_ ∨ _))

/-- A delivered number with its sign, in 32 bits. -/
theorem leb_low (e : Leb128) {s : DataStream} {t : List U8}
    (hs : s.rest = e.bytes ++ t) :
    (decodeLeb128 s).map (fun r => (r.1.setWidth 32, r.2))
      = if LebDefined e then .ok (BitVec.ofInt 32 e.signed, s.skip e.size)
        else .error (.undefined .shiftCount) := by
  by_cases h4 : e.size ≤ 4
  · have hread := reads_leb h4 s t hs
    rw [StateT.run, Leb128.length_bytes] at hread
    rw [hread, if_pos (.inl h4), ← setWidth_ofInt]
    rfl
  by_cases h5 : e.size ≤ 5
  · rw [leb_run h5 hs, if_neg h4]
    cases hsign : e.last.msb with
    | true =>
        rw [if_neg (by simp), if_neg (by simp [LebDefined, h4, hsign])]
        rfl
    | false =>
        rw [if_pos rfl, if_pos (.inr ⟨by omega, hsign⟩), Leb128.signed,
          hsign]
        show Except.ok ((lebValue e.groups 0).setWidth 32, _) = _
        rw [lebValue_low, Nat.shiftLeft_zero]
        rfl
  · rw [leb_long (by omega) hs, if_neg]
    · rfl
    · rintro (h | h)
      · exact h4 h
      · exact h5 (by omega)

-- ================================================================ outcomes

/-- What the signed decoder makes of the groups. -/
def slebValue (e : Leb128) : U64 :=
  if e.last.msb = false then lebValue e.groups 0
  else lebValue e.groups 0 ||| (-(1#32 <<< (7 * e.size))).signExtend 64

/-- One with a sign is delivered where its shifts are defined. -/
theorem sleb_run (e : Leb128) {s : DataStream} {t : List U8}
    (hs : s.rest = e.bytes ++ t) :
    decodeLeb128 s
      = if LebDefined e then .ok (slebValue e, s.skip e.size)
        else .error (.undefined .shiftCount) := by
  by_cases h5 : e.size ≤ 5
  · rw [leb_run h5 hs]
    by_cases hsign : e.last.msb = false
    · have hdef : LebDefined e := by
        rcases Nat.lt_or_ge e.size 5 with h | h
        · exact .inl (by omega)
        · exact .inr ⟨by omega, hsign⟩
      rw [if_pos hsign, if_pos hdef, slebValue, if_pos hsign]
    · have hdef : LebDefined e ↔ e.size ≤ 4 :=
        or_iff_left fun h => hsign h.2
      rw [if_neg hsign, slebValue, if_neg hsign]
      simp only [hdef]
  · have hdef : ¬ LebDefined e := by
      rintro (h | ⟨h, -⟩)
      · omega
      · omega
    rw [leb_long (by omega) hs, if_neg hdef]

/-- What the unsigned one does. -/
def ulebValue (e : Leb128) : U64 := lebValue e.groups 0

/-- The low 32 bits are those of the number. -/
theorem ulebValue_low (e : Leb128) :
    (ulebValue e).setWidth 32 = BitVec.ofNat 32 e.unsigned := by
  rw [ulebValue, lebValue_low, Nat.shiftLeft_zero]
  rfl

/-- Up to four bytes, all of them are. -/
theorem ulebValue_exact {e : Leb128} (he : e.size ≤ 4) :
    ulebValue e = BitVec.ofNat 64 e.unsigned :=
  lebValue_exact e.groups (by rw [Leb128.length_groups]; omega)

/-- Four bytes are read as they are. -/
theorem slebValue_exact {e : Leb128} (he : e.size ≤ 4) :
    slebValue e = BitVec.ofInt 64 e.signed := by
  let s : DataStream := .unbounded (some e.bytes)
  have hs : s.rest = e.bytes ++ [] := (List.append_nil _).symm
  have hreads := reads_leb he s [] hs
  rw [StateT.run, sleb_run e hs, if_pos (.inl he)] at hreads
  exact (Prod.mk.inj (Except.ok.inj hreads)).1

/-- A number at the cursor is delivered exactly if it is short enough. -/
theorem uleb_all (e : Leb128) {s : DataStream} {t : List U8}
    (hs : s.rest = e.bytes ++ t) :
    decodeULeb128 s
      = if e.size ≤ 5 then .ok (ulebValue e, s.skip e.size)
        else .error (.undefined .shiftCount) := by
  by_cases h5 : e.size ≤ 5
  · rw [uleb_run h5 hs, if_pos h5, ulebValue]
  · rw [uleb_long (by omega) hs, if_neg h5]

/-- What becomes of an encoding in the unsigned decoder. -/
def ulebOutcome (e : Leb128) : Proc U64 :=
  if e.size ≤ 5 then .ok (ulebValue e)
  else .error (.undefined .shiftCount)

/-- A number takes its bytes, or fails on them. -/
theorem takes_uleb (e : Leb128) :
    Takes decodeULeb128 e.bytes (ulebOutcome e) := by
  intro s t hs
  rw [StateT.run, uleb_all e (rest_eq hs), ulebOutcome, Leb128.length_bytes]
  split <;> rfl

/-- And in the signed one. -/
def slebOutcome (e : Leb128) : Proc U64 :=
  if LebDefined e then .ok (slebValue e)
  else .error (.undefined .shiftCount)

/-- So does one with a sign. -/
theorem takes_leb (e : Leb128) :
    Takes decodeLeb128 e.bytes (slebOutcome e) := by
  intro s t hs
  rw [StateT.run, sleb_run e (rest_eq hs), slebOutcome, Leb128.length_bytes]
  split <;> rfl

/-- In front of an encoding the unsigned decoder delivers its number, if
it delivers any. -/
theorem uleb_of_ok {e : Leb128} {s : DataStream} {t : List U8}
    {r : U64 × DataStream} (hs : s.rest = e.bytes ++ t)
    (h : decodeULeb128 s = .ok r) :
    e.size ≤ 5 ∧ r = (ulebValue e, s.skip e.size) := by
  rw [uleb_all e hs] at h
  by_cases hsize : e.size ≤ 5
  · rw [if_pos hsize] at h
    exact ⟨hsize, (Except.ok.inj h).symm⟩
  · rw [if_neg hsize] at h
    cases h

/-- What the unsigned decoder delivers is an encoding. -/
theorem encoding_of_uleb {s : DataStream} {r : U64 × DataStream}
    (h : decodeULeb128 s = .ok r) :
    ∃ (e : Leb128) (t : List U8), s.rest = e.bytes ++ t ∧ e.size ≤ 5 := by
  obtain ⟨_, hloop, -⟩ := bind_eq_ok.1 h
  obtain ⟨e, t, hs⟩ := encoding_of_lebLoop (toProc_eq_ok.1 hloop)
  exact ⟨e, t, hs, (uleb_of_ok hs h).1⟩

/-- What was read with a sign was a number as well. -/
theorem encoding_of_leb {s : DataStream} {r : U64 × DataStream}
    (h : decodeLeb128 s = .ok r) :
    ∃ (e : Leb128) (t : List U8), s.rest = e.bytes ++ t := by
  obtain ⟨_, hloop, -⟩ := bind_eq_ok.1 h
  exact encoding_of_lebLoop (toProc_eq_ok.1 hloop)

/-- What is left behind a word that was skipped. -/
theorem rest_skip {s : DataStream} {w t : List U8} {n : Nat}
    (hs : s.rest = w ++ t) (hn : w.length = n) : (s.skip n).rest = t := by
  subst hn
  exact rest_skip_append (σ := DataStream) hs

-- =============================================================== failures

/-- No decoder is still going when it fails. -/
theorem avoids_uint8 : Avoids .running decodeUInt8 := fun _ =>
  bind_ne_error (toProc_ne_running _) fun _ => nofun

/-- No decoder runs out of fuel, since none has a loop but on the bytes in
front; the half has none at all. -/
theorem avoids_uint16 : Avoids .running decodeUInt16 := fun _ =>
  bind_ne_error (toProc_ne_running _) fun _ =>
    bind_ne_error (toProc_ne_running _) fun _ => nofun

/-- Nor has the word. -/
theorem avoids_uint32 : Avoids .running decodeUInt32 := fun _ =>
  bind_ne_error (toProc_ne_running _) fun _ =>
    bind_ne_error (toProc_ne_running _) fun _ =>
      bind_ne_error (toProc_ne_running _) fun _ =>
        bind_ne_error (toProc_ne_running _) fun _ => nofun

/-- The loop of a number is on the bytes. -/
theorem avoids_uleb : Avoids .running decodeULeb128 := fun _ =>
  bind_ne_error (toProc_ne_running _) fun _ => nofun

/-- And so is that of a number with a sign. -/
theorem avoids_leb : Avoids .running decodeLeb128 := fun _ =>
  bind_ne_error (toProc_ne_running _) fun r => by
    dsimp only
    split
    · exact nofun
    · split <;> exact nofun

-- ================================================================ moves

/-- The decoders only move the cursor. -/
theorem advances_uint8 : Advances decodeUInt8 := by
  intro s a s' h
  obtain ⟨_, -, h⟩ := bind_eq_ok.1 h
  exact ⟨1, (Prod.mk.inj (Except.ok.inj h)).2.symm⟩

/-- A half moves the cursor by two bytes. -/
theorem advances_uint16 : Advances decodeUInt16 := by
  intro s a s' h
  obtain ⟨_, -, h⟩ := bind_eq_ok.1 h
  obtain ⟨_, -, h⟩ := bind_eq_ok.1 h
  exact ⟨2, (Prod.mk.inj (Except.ok.inj h)).2.symm⟩

/-- A word moves it by four. -/
theorem advances_uint32 : Advances decodeUInt32 := by
  intro s a s' h
  obtain ⟨_, -, h⟩ := bind_eq_ok.1 h
  obtain ⟨_, -, h⟩ := bind_eq_ok.1 h
  obtain ⟨_, -, h⟩ := bind_eq_ok.1 h
  obtain ⟨_, -, h⟩ := bind_eq_ok.1 h
  exact ⟨4, (Prod.mk.inj (Except.ok.inj h)).2.symm⟩

/-- A number moves it by those that it has taken. -/
theorem advances_uleb : Advances decodeULeb128 := by
  intro s a s' h
  obtain ⟨⟨_, _, n⟩, -, h⟩ := bind_eq_ok.1 h
  exact ⟨n, (Prod.mk.inj (Except.ok.inj h)).2.symm⟩

/-- And so does a number with a sign. -/
theorem advances_leb : Advances decodeLeb128 := by
  intro s a s' h
  obtain ⟨⟨_, byte, n⟩, -, h⟩ := bind_eq_ok.1 h
  dsimp only at h
  split at h
  · exact ⟨n, (Prod.mk.inj (Except.ok.inj h)).2.symm⟩
  · split at h
    · exact ⟨n, (Prod.mk.inj (Except.ok.inj h)).2.symm⟩
    · cases h

end T89Emu.Dwarf
