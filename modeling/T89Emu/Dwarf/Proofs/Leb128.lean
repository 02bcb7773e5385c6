/-
Which LEB128 numbers the decoders give back.

A group is an `int` when it is shifted, so the loop puts together 32 bits
and widens what it has with the sign of bit 31 (`lebValue_eq`); the
sixth group would be shifted by 35. So an unsigned number comes back
exactly when it is written in at most five bytes and bit 31 and the bits
above are clear (`uleb_inverts_iff`), whatever padding it is written
with. The sign of a number is put on by a shift of the same width, which
five bytes already overflow: of the shortest encodings it is the range
from -2^27 to 2^31 that comes back (`sleb_inverts_iff`).
-/
import T89Emu.Dwarf.Proofs.DataStream

namespace T89Emu.Dwarf

open Cpp Decode

-- ================================================== what the loop makes

/-- The loop puts together 32 bits and widens them with their sign. -/
theorem lebValue_eq (gs : List (BitVec 7)) (shift : Nat) :
    lebValue gs shift
      = (BitVec.ofNat 32
          (Nat.ofDigits 128 (gs.map BitVec.toNat) <<< shift)).signExtend
        64 := by
  induction gs generalizing shift with
  | nil => simp [lebValue]
  | cons g gs ih =>
      rw [lebValue, ih, lebGroup, shifted_group, ← BitVec.signExtend_or,
        ← BitVec.ofNat_or, digits_shift, List.map_cons,
        Nat.ofDigits_cons]

/-- Widening keeps a number of at most five groups exactly when its bits
from 31 on are clear. -/
theorem signExtend_eq_iff {u : Nat} (hu : u < 2 ^ 35) :
    (BitVec.ofNat 32 u).signExtend 64 = BitVec.ofNat 64 u
      ↔ u < 2 ^ 31 := by
  rw [← BitVec.toNat_inj, BitVec.toNat_signExtend, BitVec.toNat_setWidth,
    BitVec.msb_eq_decide, BitVec.toNat_ofNat, BitVec.toNat_ofNat]
  simp only [decide_eq_true_eq]
  split
  · next h => omega
  · next h => omega

/-- Five bytes of an encoding deliver its number exactly then. -/
theorem lebValue_eq_iff {e : Leb128} (he : e.size ≤ 5) :
    lebValue e.groups 0 = BitVec.ofNat 64 e.unsigned
      ↔ e.unsigned < 2 ^ 31 := by
  have hlt : e.unsigned < 2 ^ 35 :=
    Nat.lt_of_lt_of_le e.unsigned_lt
      (Nat.pow_le_pow_right (by omega) (by omega))
  rw [lebValue_eq, Nat.shiftLeft_zero]
  exact signExtend_eq_iff hlt

-- =============================================================== unsigned

/-- Decoding inverts encoding exactly for the numbers below 2^31 that are
written in at most five bytes, padding included. -/
theorem uleb_inverts_iff (e : Leb128) {s : DataStream} {t : List U8}
    (hs : s.rest = e.bytes ++ t) :
    decodeULeb128 s = .ok (BitVec.ofNat 64 e.unsigned, s.skip e.size)
      ↔ e.size ≤ 5 ∧ e.unsigned < 2 ^ 31 := by
  by_cases h5 : e.size ≤ 5
  · rw [uleb_run h5 hs, ← lebValue_eq_iff h5, Except.ok.injEq,
      Prod.mk.injEq]
    simp [h5]
  · rw [uleb_long (by omega) hs]
    simp [h5]

/-- 2^31 in its five bytes comes back with 32 ones above it, and 1 padded
to six bytes makes a shift undefined. -/
theorem uleb_differs :
    let e : Leb128 := ⟨[0, 0, 0, 0], 8⟩
    let padded : Leb128 := ⟨[1, 0, 0, 0, 0], 0⟩
    e.unsigned = 2 ^ 31 ∧ e.bytes = [0x80, 0x80, 0x80, 0x80, 0x08]
      ∧ decodeULeb128 (.unbounded (some e.bytes))
        = .ok (0xffffffff80000000, (DataStream.unbounded
            (some e.bytes)).skip 5)
      ∧ decodeULeb128 (.unbounded (some e.bytes))
        ≠ .ok (BitVec.ofNat 64 e.unsigned,
            (DataStream.unbounded (some e.bytes)).skip e.size)
      ∧ padded.unsigned = 1
      ∧ decodeULeb128 (.unbounded (some padded.bytes))
        = .error (.undefined .shiftCount) := by
  decide

/-- 624485 in its three bytes, behind two others and in front of one. -/
theorem uleb_round_trip :
    decodeULeb128 ⟨some [7, 7, 0xe5, 0x8e, 0x26, 7], 2, 6⟩
      = .ok (624485, ⟨some [7, 7, 0xe5, 0x8e, 0x26, 7], 5, 6⟩) :=
  (uleb_inverts_iff ⟨[0x65, 0x0e], 0x26⟩ (t := [7]) rfl).2
    ⟨by decide, by decide⟩

-- ================================================================ signed

/-- A number of five bytes with its sign clear. -/
theorem signed_of_msb {e : Leb128} (h : e.last.msb = false) :
    e.signed = e.unsigned := by
  unfold Leb128.signed
  rw [h, if_neg (by decide)]

/-- One with the sign set is negative. -/
theorem signed_neg {e : Leb128} (h : e.last.msb = true) : e.signed < 0 := by
  have hlt := e.unsigned_lt
  unfold Leb128.signed
  rw [h, if_pos rfl]
  omega

/-- Of the shortest encodings, decoding inverts exactly those of the
numbers from -2^27 up to 2^31. -/
theorem sleb_inverts_iff (e : Leb128) (he : e.Minimal) {s : DataStream}
    {t : List U8} (hs : s.rest = e.bytes ++ t) :
    decodeLeb128 s = .ok (BitVec.ofInt 64 e.signed, s.skip e.size)
      ↔ -2 ^ 27 ≤ e.signed ∧ e.signed < 2 ^ 31 := by
  have hfits := e.signed_fits
  by_cases h4 : e.size ≤ 4
  · -- all of them come back, and they are in the range
    have hread := reads_leb h4 s t hs
    rw [StateT.run, Leb128.length_bytes] at hread
    refine iff_of_true hread ?_
    have hpow : (2 ^ (7 * e.size - 1) : Nat) ≤ 2 ^ 27 :=
      Nat.pow_le_pow_right (by omega) (by omega)
    unfold Leb128.Fits at hfits
    omega
  · -- a shorter encoding would do below 2^27
    have hlarge : ¬ Leb128.Fits 4 e.signed := fun h =>
      h4 (he.size_le (by omega) h)
    unfold Leb128.Fits at hlarge
    by_cases h5 : e.size ≤ 5
    · rw [leb_run h5 hs, if_neg h4]
      cases hsign : e.last.msb with
      | true =>
          have hneg := signed_neg hsign
          rw [if_neg (by decide)]
          refine iff_of_false nofun ?_
          omega
      | false =>
          have hvalue := signed_of_msb hsign
          rw [if_pos rfl, hvalue, BitVec.ofInt_natCast, Except.ok.injEq,
            Prod.mk.injEq, and_iff_left rfl, lebValue_eq_iff h5]
          omega
    · rw [leb_long (by omega) hs]
      refine iff_of_false nofun fun h => ?_
      have hfive : Leb128.Fits 5 e.signed := by
        unfold Leb128.Fits
        omega
      exact h5 (he.size_le (by omega) hfive)

/-- The shortest encoding of -2^27 - 1 has five bytes, whose sign is put
on by an undefined shift. -/
theorem sleb_differs :
    let e : Leb128 := ⟨[0x7f, 0x7f, 0x7f, 0x3f], 0x7f⟩
    e.Minimal ∧ e.signed = -2 ^ 27 - 1
      ∧ e.bytes = [0xff, 0xff, 0xff, 0xbf, 0x7f]
      ∧ decodeLeb128 (.unbounded (some e.bytes))
        = .error (.undefined .shiftCount) := by
  intro e
  have hsigned : e.signed = -2 ^ 27 - 1 := by decide
  refine ⟨Leb128.minimal_of_not_fits (n := 4) rfl ?_, hsigned, by decide,
    by decide⟩
  rw [hsigned]
  unfold Leb128.Fits
  omega

/-- -129 in its two bytes, behind another and in front of two. -/
theorem sleb_round_trip :
    decodeLeb128 ⟨some [7, 0xff, 0x7e, 7, 7], 1, 5⟩
      = .ok (BitVec.ofInt 64 (-129), ⟨some [7, 0xff, 0x7e, 7, 7], 3, 5⟩) := by
  have hminimal : (⟨[0x7f], 0x7e⟩ : Leb128).Minimal := by
    refine Leb128.minimal_of_not_fits (n := 1) rfl ?_
    rw [show (⟨[0x7f], 0x7e⟩ : Leb128).signed = -129 by decide]
    unfold Leb128.Fits
    omega
  exact (sleb_inverts_iff ⟨[0x7f], 0x7e⟩ hminimal (t := [7, 7]) rfl).2
    (by decide)

end T89Emu.Dwarf
