/-
LEB128 numbers: seven bits to a byte, the least significant group first,
the top bit of a byte saying whether another one follows.

An encoding is kept as its groups, so that it need not be the shortest
one of its number. `unsigned` reads the groups as a numeral in base 128;
`signed` reads the same bits in two's complement at the width they have.
-/
import Mathlib.Data.Nat.Digits.Lemmas
import T89Emu.Lib.Eval

/-- An encoding: groups that another one follows, and the last one. -/
structure Leb128 where
  init : List (BitVec 7)
  last : BitVec 7
  deriving DecidableEq, Repr

namespace Leb128

/-- The byte of a group with its continuation bit. -/
def byte (more : Bool) (g : BitVec 7) : BitVec 8 :=
  BitVec.ofBool more ++ g

/-- The bytes of the encoding. -/
def bytes (e : Leb128) : List (BitVec 8) :=
  e.init.map (byte true) ++ [byte false e.last]

/-- The number of bytes. -/
def size (e : Leb128) : Nat := e.init.length + 1

def groups (e : Leb128) : List (BitVec 7) := e.init ++ [e.last]

/-- The number encoded, without a sign. -/
def unsigned (e : Leb128) : Nat :=
  Nat.ofDigits 128 (e.groups.map BitVec.toNat)

/-- The number encoded, the top bit of the last group being the sign. -/
def signed (e : Leb128) : Int :=
  if e.last.msb then (e.unsigned : Int) - (2 ^ (7 * e.size) : Nat)
  else e.unsigned

/-- The encoding of one group. -/
def single (g : BitVec 7) : Leb128 := ⟨[], g⟩

/-- An encoding with one more group below the others. -/
def cons (g : BitVec 7) (e : Leb128) : Leb128 := ⟨g :: e.init, e.last⟩

/-- No encoding of the same signed number is shorter. -/
def Minimal (e : Leb128) : Prop :=
  ∀ e' : Leb128, e'.signed = e.signed → e.size ≤ e'.size

@[simp] theorem length_bytes (e : Leb128) : e.bytes.length = e.size := by
  simp [bytes, size]

@[simp] theorem length_groups (e : Leb128) :
    e.groups.length = e.size := by
  simp [groups, size]

theorem size_eq (e : Leb128) : e.size = e.init.length + 1 := rfl

theorem size_pos (e : Leb128) : 0 < e.size := Nat.succ_pos _

-- ================================================================= bytes

@[simp] theorem byte_low (more : Bool) (g : BitVec 7) :
    0x7f#8 &&& byte more g = g.setWidth 8 := by
  cases more <;> revert g <;> decide

/-- The continuation bit is the top one. -/
theorem byte_high (more : Bool) (g : BitVec 7) :
    0x80#8 &&& byte more g = 0#8 ↔ more = false := by
  cases more <;> revert g <;> decide

/-- The sign bit of a group lies below its continuation bit. -/
theorem byte_sign (more : Bool) (g : BitVec 7) :
    0x40#8 &&& byte more g = 0#8 ↔ g.msb = false := by
  cases more <;> revert g <;> decide

@[simp] theorem msb_byte (more : Bool) (g : BitVec 7) :
    (byte more g).msb = more := by
  cases more <;> revert g <;> decide

/-- Every byte is a group with a continuation bit. -/
theorem byte_split (b : BitVec 8) : byte b.msb (b.setWidth 7) = b := by
  revert b
  decide

-- =============================================================== numbers

/-- `n` groups encode a number below `2 ^ (7 * n)`. -/
theorem unsigned_lt (e : Leb128) : e.unsigned < 2 ^ (7 * e.size) := by
  have hlt : e.unsigned < 128 ^ e.size := by
    have hdigits := Nat.ofDigits_lt_base_pow_length (b := 128)
      (l := e.groups.map BitVec.toNat) (by omega) (by
        intro d hd
        obtain ⟨g, _, rfl⟩ := List.mem_map.1 hd
        exact g.isLt)
    simpa [unsigned, groups, size] using hdigits
  rwa [Nat.pow_mul]

@[simp] theorem size_cons (g : BitVec 7) (e : Leb128) :
    (cons g e).size = e.size + 1 := rfl

theorem unsigned_single (g : BitVec 7) : (single g).unsigned = g.toNat := by
  simp [unsigned, groups, single]

theorem unsigned_cons (g : BitVec 7) (e : Leb128) :
    (cons g e).unsigned = g.toNat + 128 * e.unsigned := by
  simp [unsigned, groups, cons, Nat.ofDigits_cons]

/-- A signed number of one group. -/
theorem signed_single (g : BitVec 7) : (single g).signed = g.toInt := by
  unfold signed
  rw [unsigned_single, BitVec.toInt_eq_msb_cond]
  rfl

/-- The sign is that of the groups above. -/
theorem signed_cons (g : BitVec 7) (e : Leb128) :
    (cons g e).signed = g.toNat + 128 * e.signed := by
  have hpow : (2 ^ (7 * (e.size + 1)) : Nat) = 128 * 2 ^ (7 * e.size) := by
    rw [Nat.mul_add, Nat.pow_add, Nat.mul_comm]
  unfold signed
  rw [unsigned_cons, size_cons, hpow]
  show (if e.last.msb = true then _ else _) = _
  split
  · push_cast
    ring
  · push_cast
    rfl

/-- Induction on the groups, from the last one down. -/
theorem cons_induction {P : Leb128 → Prop} (hsingle : ∀ g, P (single g))
    (hcons : ∀ g e, P e → P (cons g e)) (e : Leb128) : P e := by
  obtain ⟨init, last⟩ := e
  induction init with
  | nil => exact hsingle last
  | cons g init ih => exact hcons g _ ih

/-- The range of the signed numbers of `n` groups. -/
def Fits (n : Nat) (v : Int) : Prop :=
  -(2 ^ (7 * n - 1) : Nat) ≤ v ∧ v < (2 ^ (7 * n - 1) : Nat)

theorem fits_succ {n : Nat} (hn : 0 < n) {g : Nat} (hg : g < 128)
    {v : Int} : Fits (n + 1) (g + 128 * v) ↔ Fits n v := by
  have hpow : (2 ^ (7 * (n + 1) - 1) : Nat) = 128 * 2 ^ (7 * n - 1) := by
    rw [show 7 * (n + 1) - 1 = 7 + (7 * n - 1) by omega, Nat.pow_add]
  unfold Fits
  rw [hpow]
  generalize (2 ^ (7 * n - 1) : Nat) = m
  constructor
  · rintro ⟨hlo, hhi⟩
    constructor
    · omega
    · omega
  · rintro ⟨hlo, hhi⟩
    constructor
    · omega
    · omega

/-- `n` groups encode a signed number of their range. -/
theorem signed_fits (e : Leb128) : Fits e.size e.signed := by
  induction e using cons_induction with
  | hsingle g =>
      rw [signed_single]
      have hlo := g.le_toInt
      have hhi := g.toInt_lt
      exact ⟨hlo, hhi⟩
  | hcons g e ih =>
      rw [signed_cons, size_cons, fits_succ e.size_pos g.isLt]
      exact ih

/-- And they encode all of it. -/
theorem exists_signed {n : Nat} (hn : 0 < n) {v : Int} (h : Fits n v) :
    ∃ e : Leb128, e.size = n ∧ e.signed = v := by
  induction n, hn using Nat.le_induction generalizing v with
  | base =>
      refine ⟨single (BitVec.ofInt 7 v), rfl, ?_⟩
      rw [signed_single, BitVec.toInt_ofInt]
      have hlo : -64 ≤ v := h.1
      have hhi : v < 64 := h.2
      exact Int.bmod_eq_of_le hlo hhi
  | succ n hn ih =>
      have hg : (v % 128).toNat < 128 := by omega
      have hv : ((v % 128).toNat : Int) + 128 * (v / 128) = v := by omega
      rw [← hv, fits_succ (by omega) hg] at h
      obtain ⟨e, hsize, hsigned⟩ := ih h
      refine ⟨cons (BitVec.ofNat 7 (v % 128).toNat) e, ?_, ?_⟩
      · rw [size_cons, hsize]
      · rw [signed_cons, hsigned, BitVec.toNat_ofNat, Nat.mod_eq_of_lt hg]
        exact hv

/-- A minimal encoding of a number in the range of `n` groups has no
more. -/
theorem Minimal.size_le {e : Leb128} (he : e.Minimal) {n : Nat}
    (hn : 0 < n) (h : Fits n e.signed) : e.size ≤ n := by
  obtain ⟨e', hsize, hsigned⟩ := exists_signed hn h
  rw [← hsize]
  exact he e' hsigned

theorem Fits.mono {m n : Nat} {v : Int} (h : Fits m v) (hmn : m ≤ n) :
    Fits n v := by
  have hpow : (2 ^ (7 * m - 1) : Nat) ≤ 2 ^ (7 * n - 1) :=
    Nat.pow_le_pow_right (by omega) (by omega)
  unfold Fits at h ⊢
  omega

/-- An encoding is minimal if one group less would not do. -/
theorem minimal_of_not_fits {e : Leb128} {n : Nat} (hsize : e.size = n + 1)
    (h : ¬ Fits n e.signed) : e.Minimal := by
  intro e' he'
  by_contra hlt
  have hfits := e'.signed_fits
  rw [he'] at hfits
  exact h (hfits.mono (by omega))

end Leb128
