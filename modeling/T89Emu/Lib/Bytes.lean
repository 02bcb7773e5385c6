/-
Byte buffers and little-endian multi-byte values.

A buffer of `n` bytes is a function on `Fin n`: there is no index at
which a byte could be missing or a stray one could hide. A `w`-byte
value is a bit vector of `8 * w` bits; `join` assembles one from its
bytes, least significant first, and `byteOf` takes it apart again.

# Reads and writes

`peek` and `poke` are the accesses of a caller that knows its range to
be inside the buffer; `load` and `store` are the checked ones, `none`
outside. The laws are those of an array: a read after a write of the
same range returns the value written (`peek_poke_same`), a disjoint
range is unaffected (`peek_poke_disjoint`), and a read depends on
nothing but the bytes of its range (`peek_congr`).

`peek_setWidth_eq_iff` answers when a wide read and a narrow one at the
same place agree as numbers: exactly when the bytes only the wide one
sees are zero. `toNat_join` ties the assembled value to the positional
numeral system of Mathlib (`Nat.ofDigits`).
-/
import Mathlib.Data.List.GetD
import Mathlib.Data.Nat.Digits.Defs
import Mathlib.Data.List.OfFn

namespace Bytes

-- ================================================== joining and taking apart

/-- The `w` bytes `f 0, f 1, …` as one value, least significant byte
first. -/
def join : (w : Nat) → (Fin w → BitVec 8) → BitVec (8 * w)
  | 0, _ => 0#0
  | w + 1, f => (join w (fun i => f i.succ) ++ f 0 : BitVec (8 * w + 8))

/-- Byte `k` of a value, counted from the least significant one. -/
def byteOf {m : Nat} (v : BitVec m) (k : Nat) : BitVec 8 :=
  v.extractLsb' (8 * k) 8

/-- A byte is its own byte. -/
theorem byteOf_byte (b : BitVec 8) : byteOf b 0 = b :=
  BitVec.extractLsb'_eq_self

/-- The lowest byte of a value with a byte put below it. -/
theorem byteOf_append_zero {m : Nat} (v : BitVec m) (b : BitVec 8) :
    byteOf (v ++ b) 0 = b := by
  apply BitVec.eq_of_getLsbD_eq
  intro i hi
  unfold byteOf
  rw [BitVec.getLsbD_extractLsb', BitVec.getLsbD_append]
  simp [hi]

/-- And the bytes above it. -/
theorem byteOf_append_succ {m : Nat} (v : BitVec m) (b : BitVec 8)
    (k : Nat) : byteOf (v ++ b) (k + 1) = byteOf v k := by
  apply BitVec.eq_of_getLsbD_eq
  intro i hi
  unfold byteOf
  rw [BitVec.getLsbD_extractLsb', BitVec.getLsbD_extractLsb',
    BitVec.getLsbD_append, if_neg (by simp; omega)]
  congr 2
  omega

/-- Bit `i` of a value is bit `i % 8` of byte `i / 8`. -/
theorem getLsbD_eq_byteOf {m : Nat} (v : BitVec m) (i : Nat) :
    v.getLsbD i = (byteOf v (i / 8)).getLsbD (i % 8) := by
  have hmod : i % 8 < 8 := by omega
  have hsplit : 8 * (i / 8) + i % 8 = i := by omega
  unfold byteOf
  rw [BitVec.getLsbD_extractLsb', hsplit, decide_eq_true hmod,
    Bool.true_and]

/-- Taking a joined value apart gives its bytes back. -/
theorem byteOf_join {w : Nat} (f : Fin w → BitVec 8) {k : Nat}
    (hk : k < w) : byteOf (join w f) k = f ⟨k, hk⟩ := by
  induction w generalizing k with
  | zero => omega
  | succ w ih =>
      cases k with
      | zero => exact byteOf_append_zero _ (f 0)
      | succ k =>
          exact (byteOf_append_succ _ (f 0) k).trans
            (ih (fun i => f i.succ) (Nat.lt_of_succ_lt_succ hk))

theorem getLsbD_join {w : Nat} (f : Fin w → BitVec 8) {i : Nat}
    (hi : i < 8 * w) :
    (join w f).getLsbD i = (f ⟨i / 8, by omega⟩).getLsbD (i % 8) := by
  rw [getLsbD_eq_byteOf, byteOf_join]

/-- A value is determined by its bytes. -/
theorem eq_of_byteOf_eq {w : Nat} {u v : BitVec (8 * w)}
    (h : ∀ k < w, byteOf u k = byteOf v k) : u = v := by
  apply BitVec.eq_of_getLsbD_eq
  intro i hi
  rw [getLsbD_eq_byteOf u, getLsbD_eq_byteOf v, h (i / 8) (by omega)]

/-- Truncating a value keeps the bytes that are left. -/
theorem byteOf_setWidth {m w k : Nat} (v : BitVec m) (hk : k < w) :
    byteOf (v.setWidth (8 * w)) k = byteOf v k := by
  apply BitVec.eq_of_getLsbD_eq
  intro i hi
  unfold byteOf
  rw [BitVec.getLsbD_extractLsb', BitVec.getLsbD_extractLsb',
    BitVec.getLsbD_setWidth]
  simp only [hi, decide_true, Bool.true_and, Bool.and_eq_right_iff_imp,
    decide_eq_true_eq]
  omega

/-- The bytes of a part of a value. -/
theorem byteOf_extractLsb' {m w k : Nat} (v : BitVec m) (o : Nat)
    (hk : k < w) :
    byteOf (v.extractLsb' (8 * o) (8 * w)) k = byteOf v (o + k) := by
  apply BitVec.eq_of_getLsbD_eq
  intro i hi
  unfold byteOf
  rw [BitVec.getLsbD_extractLsb', BitVec.getLsbD_extractLsb',
    BitVec.getLsbD_extractLsb']
  simp only [hi, show 8 * k + i < 8 * w by omega, decide_true,
    Bool.true_and, Nat.mul_add, Nat.add_assoc]

/-- Past its top byte a value has zeros. -/
theorem byteOf_of_le {m k : Nat} (v : BitVec m) (hk : m ≤ 8 * k) :
    byteOf v k = BitVec.fill 8 false := by
  apply BitVec.eq_of_getLsbD_eq
  intro i hi
  unfold byteOf
  rw [BitVec.getLsbD_extractLsb', BitVec.getLsbD_of_ge v _ (by omega)]
  simp [BitVec.fill]

/-- Sign extension and then truncation give the value back. -/
theorem setWidth_signExtend {m n : Nat} (v : BitVec m) (h : m ≤ n) :
    (v.signExtend n).setWidth m = v := by
  apply BitVec.eq_of_getLsbD_eq
  intro i hi
  rw [BitVec.getLsbD_setWidth, BitVec.getLsbD_signExtend]
  simp only [hi, show i < n by omega, decide_true, Bool.true_and, if_true]

/-- Sign extension keeps the bytes of the value. -/
theorem byteOf_signExtend {m w k : Nat} (v : BitVec m) (hk : k < w)
    (hm : 8 * k + 8 ≤ m) : byteOf (v.signExtend (8 * w)) k = byteOf v k := by
  apply BitVec.eq_of_getLsbD_eq
  intro i hi
  unfold byteOf
  rw [BitVec.getLsbD_extractLsb', BitVec.getLsbD_extractLsb',
    BitVec.getLsbD_signExtend]
  simp [hi, show 8 * k + i < 8 * w by omega, show 8 * k + i < m by omega]

/-- And fills the bytes above with its top bit. -/
theorem byteOf_signExtend_of_le {m w k : Nat} (v : BitVec m) (hk : k < w)
    (hm : m ≤ 8 * k) :
    byteOf (v.signExtend (8 * w)) k = BitVec.fill 8 v.msb := by
  apply BitVec.eq_of_getLsbD_eq
  intro i hi
  unfold byteOf
  rw [BitVec.getLsbD_extractLsb', BitVec.getLsbD_signExtend]
  simp only [hi, show 8 * k + i < 8 * w by omega,
    show ¬ 8 * k + i < m by omega, decide_true, Bool.true_and, if_false]
  cases v.msb
  · simp [BitVec.fill]
  · rw [show BitVec.fill 8 true = BitVec.allOnes 8 from rfl,
      BitVec.getLsbD_allOnes]
    simp [hi]

/-- The joined value read as a numeral in base 256. -/
theorem toNat_join : ∀ (w : Nat) (f : Fin w → BitVec 8),
    (join w f).toNat = Nat.ofDigits 256 (List.ofFn fun i => (f i).toNat) := by
  intro w
  induction w with
  | zero => intro f; rfl
  | succ w ih =>
      intro f
      show (join w (fun i => f i.succ) ++ f 0).toNat = _
      rw [BitVec.toNat_append, List.ofFn_succ, Nat.ofDigits_cons, ← ih,
        Nat.shiftLeft_eq, Nat.mul_comm _ (2 ^ 8),
        ← Nat.two_pow_add_eq_or_of_lt (f 0).isLt]
      omega

-- ============================================================== buffers

/-- An array of `n` bytes. -/
abbrev Buffer (n : Nat) := Fin n → BitVec 8

namespace Buffer

variable {n : Nat}

/-- The `w`-byte value at offset `o`, all of it inside the buffer. -/
def peek (b : Buffer n) (o w : Nat) (h : o + w ≤ n) : BitVec (8 * w) :=
  join w fun k => b ⟨o + k, by omega⟩

/-- The numeral that the `w` bytes at offset `o` spell, least significant
byte first. -/
def value (b : Buffer n) (o w : Nat) (h : o + w ≤ n) : Nat :=
  Nat.ofDigits 256 (List.ofFn fun k : Fin w => (b ⟨o + k, by omega⟩).toNat)

/-- The buffer with the bytes of `v` written from offset `o` on. -/
def poke (b : Buffer n) (o w : Nat) (v : BitVec (8 * w)) : Buffer n :=
  fun i => if o ≤ i ∧ i < o + w then byteOf v (i - o) else b i

/-- Checked read: `none` when a byte of the range is outside. -/
def load (b : Buffer n) (o w : Nat) : Option (BitVec (8 * w)) :=
  if h : o + w ≤ n then some (b.peek o w h) else none

/-- Checked write: `none` when a byte of the range is outside. -/
def store (b : Buffer n) (o w : Nat) (v : BitVec (8 * w)) :
    Option (Buffer n) :=
  if o + w ≤ n then some (b.poke o w v) else none

theorem load_of_le (b : Buffer n) {o w : Nat} (h : o + w ≤ n) :
    b.load o w = some (b.peek o w h) := dif_pos h

theorem load_of_lt (b : Buffer n) {o w : Nat} (h : n < o + w) :
    b.load o w = none := dif_neg (by omega)

theorem store_of_le (b : Buffer n) {o w : Nat} (v : BitVec (8 * w))
    (h : o + w ≤ n) : b.store o w v = some (b.poke o w v) := if_pos h

theorem store_of_lt (b : Buffer n) {o w : Nat} (v : BitVec (8 * w))
    (h : n < o + w) : b.store o w v = none :=
  if_neg (by omega)

/-- A read delivers the numeral its bytes spell. -/
theorem toNat_peek (b : Buffer n) {o w : Nat} (h : o + w ≤ n) :
    (b.peek o w h).toNat = b.value o w h := toNat_join _ _

/-- Widening a read keeps its numeral. -/
theorem toNat_setWidth_peek (b : Buffer n) {o w N : Nat} (h : o + w ≤ n)
    (hN : 8 * w ≤ N) :
    ((b.peek o w h).setWidth N).toNat = b.value o w h := by
  rw [BitVec.toNat_setWidth, toNat_peek, Nat.mod_eq_of_lt]
  rw [← toNat_peek]
  exact Nat.lt_of_lt_of_le (b.peek o w h).isLt
    (Nat.pow_le_pow_right (by omega) hN)

/-- Byte `k` of a read is the byte stored at `o + k`. -/
theorem byteOf_peek (b : Buffer n) {o w k : Nat} (h : o + w ≤ n)
    (hk : k < w) : byteOf (b.peek o w h) k = b ⟨o + k, by omega⟩ :=
  byteOf_join _ hk

/-- Inside the range written, the buffer holds the bytes of the value. -/
theorem poke_of_mem (b : Buffer n) {o w : Nat} (v : BitVec (8 * w))
    {i : Fin n} (h : o ≤ i ∧ i < o + w) :
    b.poke o w v i = byteOf v (i - o) := if_pos h

/-- Outside the range written, the buffer is unchanged. -/
theorem poke_of_not_mem (b : Buffer n) {o w : Nat} (v : BitVec (8 * w))
    {i : Fin n} (h : i < o ∨ o + w ≤ i) : b.poke o w v i = b i :=
  if_neg (by omega)

/-- A read depends on the bytes of its range only. -/
theorem peek_congr {b b' : Buffer n} {o w : Nat} (h : o + w ≤ n)
    (hb : ∀ i : Fin n, o ≤ i → i < o + w → b i = b' i) :
    b.peek o w h = b'.peek o w h := by
  unfold peek
  congr 1
  funext k
  exact hb _ (by simp) (by simp)

/-- Reading the range just written returns the value written. -/
@[simp] theorem peek_poke_same (b : Buffer n) {o w : Nat}
    (v : BitVec (8 * w)) (h : o + w ≤ n) :
    (b.poke o w v).peek o w h = v := by
  refine eq_of_byteOf_eq fun k hk => ?_
  rw [byteOf_peek _ h hk, poke_of_mem _ _ (by simp; omega)]
  simp

/-- A read of a range disjoint from the one written is unaffected. -/
theorem peek_poke_disjoint (b : Buffer n) {o o' w w' : Nat}
    (v : BitVec (8 * w)) (h : o' + w' ≤ n)
    (hdis : o' + w' ≤ o ∨ o + w ≤ o') :
    (b.poke o w v).peek o' w' h = b.peek o' w' h :=
  peek_congr h fun i hlo hhi => poke_of_not_mem b v (by omega)

/-- A wide read and a narrow read of one place agree as `N`-bit numbers
exactly when the bytes that only the wide one covers are zero. -/
theorem peek_setWidth_eq_iff (b : Buffer n) {o w w' N : Nat}
    (hw : w ≤ w') (hN : 8 * w' ≤ N) (h : o + w' ≤ n) :
    (b.peek o w' h).setWidth N = (b.peek o w (by omega)).setWidth N
      ↔ ∀ i : Fin n, o + w ≤ i → i < o + w' → b i = 0#8 := by
  constructor
  · intro heq i hlo hhi
    apply BitVec.eq_of_getLsbD_eq
    intro j hj
    have hbit := congrArg
      (fun v : BitVec N => v.getLsbD (8 * (i - o) + j)) heq
    have hwide : (b.peek o w' h).getLsbD (8 * (i - o) + j)
        = (b i).getLsbD j := by
      rw [← show byteOf (b.peek o w' h) (i - o) = b i by
        rw [byteOf_peek b h (by omega)]
        congr 1
        exact Fin.ext (by simp only; omega)]
      simp [byteOf, hj]
    have hnarrow : (b.peek o w (by omega)).getLsbD (8 * (i - o) + j)
        = false := BitVec.getLsbD_of_ge _ _ (by omega)
    simpa [BitVec.getLsbD_setWidth, hwide, hnarrow,
      show 8 * (i - o) + j < N by omega] using hbit
  · intro hzero
    apply BitVec.eq_of_getLsbD_eq
    intro i hi
    simp only [BitVec.getLsbD_setWidth, hi, decide_true, Bool.true_and]
    by_cases hin : i < 8 * w
    · rw [peek, peek, getLsbD_join _ (by omega), getLsbD_join _ hin]
    · rw [BitVec.getLsbD_of_ge (b.peek o w (by omega)) i (by omega)]
      by_cases hin' : i < 8 * w'
      · rw [peek, getLsbD_join _ hin',
          hzero _ (by simp only; omega) (by simp only; omega)]
        simp
      · rw [BitVec.getLsbD_of_ge _ _ (by omega)]

-- ============================================================== overlays

/-- The bytes put over those of the buffer, from `o` on. -/
def overlay (b : Buffer n) (o : Nat) (bytes : List (BitVec 8)) : Buffer n :=
  fun i => if o ≤ i then bytes.getD (i - o) (b i) else b i

theorem overlay_nil (b : Buffer n) (o : Nat) : b.overlay o [] = b := by
  funext i
  simp [overlay]

/-- The first byte can be written first. -/
theorem overlay_cons (b : Buffer n) {o : Nat} (ho : o < n) (byte : BitVec 8)
    (bytes : List (BitVec 8)) :
    overlay (Function.update b ⟨o, ho⟩ byte) (o + 1) bytes
      = b.overlay o (byte :: bytes) := by
  funext i
  unfold overlay
  by_cases heq : i = ⟨o, ho⟩
  · subst heq
    rw [if_neg (Nat.not_succ_le_self o), if_pos (Nat.le_refl o),
      Function.update_self]
    simp
  · have hne : (i : Nat) ≠ o := fun h => heq (Fin.ext h)
    rw [Function.update_of_ne heq]
    by_cases hlt : o ≤ i
    · obtain ⟨j, hj⟩ : ∃ j, (i : Nat) - o = j + 1 := ⟨i - o - 1, by omega⟩
      rw [if_pos (by omega), if_pos hlt, hj,
        show (i : Nat) - (o + 1) = j by omega, List.getD_cons_succ]
    · rw [if_neg (by omega), if_neg hlt]

/-- Bytes behind bytes. -/
theorem overlay_append (b : Buffer n) (o : Nat)
    (as bs : List (BitVec 8)) :
    (b.overlay o as).overlay (o + as.length) bs
      = b.overlay o (as ++ bs) := by
  funext i
  unfold overlay
  by_cases ho : o ≤ i
  · by_cases hmid : o + as.length ≤ i
    · rw [if_pos hmid, if_pos ho, if_pos ho,
        List.getD_append_right _ _ _ _ (by omega),
        List.getD_eq_default as _ (by omega), Nat.sub_add_eq]
    · rw [if_neg hmid, if_pos ho, if_pos ho,
        List.getD_append _ _ _ _ (by omega)]
  · rw [if_neg (by omega), if_neg ho, if_neg ho]

end Buffer

end Bytes
