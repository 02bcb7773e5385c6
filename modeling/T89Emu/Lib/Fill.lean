/-
A window of a buffer, filled byte by byte.

`fill` says of a loop that stores at consecutive places what it leaves
behind: the window holds the bytes, the rest is as it was. A store is a
window (`poke_eq_fill`), and two windows that meet are one
(`fill_fill`), which is all that the induction over such a loop needs.
-/
import T89Emu.Lib.Bytes

namespace Bytes

namespace Buffer

variable {n : Nat}

/-- The byte at an offset, and 0 behind the end. -/
def get (b : Buffer n) (i : Nat) : BitVec 8 :=
  if h : i < n then b ⟨i, h⟩ else 0

theorem get_of_lt (b : Buffer n) {i : Nat} (h : i < n) :
    b.get i = b ⟨i, h⟩ := dif_pos h

/-- The bytes of a read. -/
theorem byteOf_peek_get (b : Buffer n) {o w j : Nat} (h : o + w ≤ n)
    (hj : j < w) : byteOf (b.peek o w h) j = b.get (o + j) := by
  rw [byteOf_peek b h hj, get_of_lt b (by omega)]

/-- The buffer with the bytes `f 0`, `f 1`, … from offset `o` on. -/
def fill (b : Buffer n) (o len : Nat) (f : Nat → BitVec 8) : Buffer n :=
  fun i => if o ≤ i ∧ i < o + len then f (i - o) else b i

theorem fill_of_mem (b : Buffer n) {o len : Nat} (f : Nat → BitVec 8)
    {i : Fin n} (h : o ≤ i ∧ i < o + len) :
    b.fill o len f i = f (i - o) := if_pos h

theorem fill_of_not_mem (b : Buffer n) {o len : Nat} (f : Nat → BitVec 8)
    {i : Fin n} (h : i < o ∨ o + len ≤ i) : b.fill o len f i = b i :=
  if_neg (by omega)

@[simp] theorem fill_zero (b : Buffer n) (o : Nat) (f : Nat → BitVec 8) :
    b.fill o 0 f = b :=
  funext fun _ => if_neg (by omega)

/-- A store fills the window of its bytes. -/
theorem poke_eq_fill (b : Buffer n) (o w : Nat) (v : BitVec (8 * w)) :
    b.poke o w v = b.fill o w (byteOf v) := rfl

theorem get_fill_of_mem (b : Buffer n) {o len i : Nat}
    (f : Nat → BitVec 8) (h : o ≤ i ∧ i < o + len) (hi : i < n) :
    (b.fill o len f).get i = f (i - o) := by
  rw [get_of_lt _ hi]
  exact if_pos h

theorem get_fill_of_not_mem (b : Buffer n) {o len i : Nat}
    (f : Nat → BitVec 8) (h : i < o ∨ o + len ≤ i) :
    (b.fill o len f).get i = b.get i := by
  by_cases hi : i < n
  · rw [get_of_lt _ hi, get_of_lt _ hi]
    exact fill_of_not_mem b f h
  · unfold get
    rw [dif_neg hi, dif_neg hi]

/-- Only the bytes of the window count. -/
theorem fill_congr (b : Buffer n) (o : Nat) {len : Nat}
    {f g : Nat → BitVec 8} (h : ∀ j < len, f j = g j) :
    b.fill o len f = b.fill o len g := by
  funext i
  by_cases hi : o ≤ i ∧ i < o + len
  · rw [fill_of_mem _ _ hi, fill_of_mem _ _ hi, h _ (by omega)]
  · rw [fill_of_not_mem _ _ (by omega), fill_of_not_mem _ _ (by omega)]

/-- A window behind another one. -/
theorem fill_fill (b : Buffer n) (o len len' : Nat) (f : Nat → BitVec 8) :
    (b.fill o len f).fill (o + len) len' (fun j => f (len + j))
      = b.fill o (len + len') f := by
  funext i
  by_cases hlow : o + len ≤ i ∧ i < o + len + len'
  · rw [fill_of_mem _ _ hlow, fill_of_mem _ _ (by omega)]
    congr 1
    omega
  · rw [fill_of_not_mem _ _ (by omega)]
    by_cases hi : o ≤ i ∧ i < o + len
    · rw [fill_of_mem _ _ hi, fill_of_mem _ _ (by omega)]
    · rw [fill_of_not_mem _ _ (by omega), fill_of_not_mem _ _ (by omega)]

end Buffer

end Bytes
