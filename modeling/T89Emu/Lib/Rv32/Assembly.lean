/-
Assembler source whose lines jump to labels.

A `Source` is a list of blocks, each under its label; `place` counts the
lines in front of a label, and `words` are the lines as words, a jump
with the distance to its label. Laid out from some address on, a jump
lands on the first word of the block it names (`jump_lands`), as long as
the source is no longer than a JAL reaches.

`la` and `call` reach any address, by an AUIPC with the upper part of the
distance and a second instruction with the lower one, which is extended
by its sign (`high_add_low`). A linker that relaxes calls makes a JAL of
a `call` whose target a JAL reaches.
-/
import T89Emu.Lib.Rv32.Machine

namespace Rv32

/-- A line: a JAL to a label, or any other instruction. -/
inductive Line (ℓ : Type)
  | jal (rd : BitVec 5) (target : ℓ)
  | word (w : BitVec 32)
  deriving DecidableEq

abbrev Source (ℓ : Type) : Type := List (ℓ × List (Line ℓ))

namespace Source

variable {ℓ : Type} [DecidableEq ℓ]

def lines (src : Source ℓ) : List (Line ℓ) := src.flatMap Prod.snd

/-- The number of lines in front of a label. -/
def place : Source ℓ → ℓ → Nat
  | [], _ => 0
  | (l, block) :: src, l' =>
      if l = l' then 0 else block.length + place src l'

/-- The lines under it. -/
def block : Source ℓ → ℓ → List (Line ℓ)
  | [], _ => []
  | (l, block) :: src, l' => if l = l' then block else Source.block src l'

/-- A JAL over a number of words. -/
def jump (rd : BitVec 5) (d : Int) : Instruction :=
  .jal rd (BitVec.ofInt 20 (2 * d))

/-- The word of the line with a number. -/
def assemble (src : Source ℓ) (i : Nat) : Line ℓ → BitVec 32
  | .jal rd target => (jump rd (src.place target - i)).encode
  | .word w => w

def words (src : Source ℓ) : List (BitVec 32) :=
  src.lines.mapIdx src.assemble

-- ============================================================ the blocks

/-- The block of a label stands where `place` says. -/
theorem getElem?_place {src : Source ℓ} {l : ℓ} {j : Nat}
    (hj : j < (src.block l).length) :
    src.lines[src.place l + j]? = (src.block l)[j]? := by
  induction src with
  | nil => cases hj
  | cons b src ih =>
      show (b.2 ++ lines src)[place (b :: src) l + j]? = _
      unfold block at hj
      unfold place block
      by_cases hb : b.1 = l
      · rw [if_pos hb] at hj ⊢
        rw [if_pos hb, Nat.zero_add]
        exact List.getElem?_append_left hj
      · rw [if_neg hb] at hj ⊢
        rw [if_neg hb, Nat.add_assoc,
          List.getElem?_append_right (Nat.le_add_right ..),
          Nat.add_sub_cancel_left]
        exact ih hj

/-- And the words of its lines stand there. -/
theorem words_place {src : Source ℓ} {l : ℓ} {j : Nat} {line : Line ℓ}
    (hj : (src.block l)[j]? = some line) :
    src.words[src.place l + j]?
      = some (src.assemble (src.place l + j) line) := by
  obtain ⟨hlt, -⟩ := List.getElem?_eq_some_iff.1 hj
  unfold words
  rw [List.getElem?_mapIdx, getElem?_place hlt, hj]
  rfl

-- ============================================================= the jumps

theorem toInt_append_zero {n : Nat} (v : BitVec n) :
    (v ++ 0#1).toInt = 2 * v.toInt := by
  have h : (v ++ 0#1).toNat = 2 * v.toNat := by
    rw [BitVec.toNat_append]
    simp [Nat.shiftLeft_eq]
    omega
  rw [BitVec.toInt_eq_toNat_cond, BitVec.toInt_eq_toNat_cond, h,
    Nat.pow_succ]
  split
  · rw [if_pos (by omega)]
    omega
  · rw [if_neg (by omega)]
    omega

/-- The offset of a jump that a JAL can reach. -/
theorem halfwords_jump {d : Int} (hlow : -2 ^ 18 ≤ d) (hhigh : d < 2 ^ 18) :
    halfwords (BitVec.ofInt 20 (2 * d)) = BitVec.ofInt 32 (4 * d) := by
  apply BitVec.eq_of_toInt_eq
  unfold halfwords
  rw [BitVec.toInt_signExtend_of_le (by decide), toInt_append_zero,
    BitVec.toInt_ofInt, BitVec.toInt_ofInt,
    Int.bmod_eq_of_le (by omega) (by omega),
    Int.bmod_eq_of_le (by omega) (by omega)]
  omega

theorem jImmediate_jump (rd : BitVec 5) (d : Int) :
    jImmediate (jump rd d).encode
      = halfwords (BitVec.ofInt 20 (2 * d)) :=
  jImmediate_jWord rd _ _ (getLsbD_append_one _)

/-- A jump lands on the block that it names. -/
theorem jump_lands (rd : BitVec 5) (base : BitVec 32) {i p : Nat}
    (hi : i < 2 ^ 17) (hp : p < 2 ^ 17) :
    base + BitVec.ofNat 32 (4 * i) + jImmediate (jump rd (p - i)).encode
      = base + BitVec.ofNat 32 (4 * p) := by
  have hdistance : (4 * i : Int) + 4 * (p - i) = 4 * p := by omega
  rw [jImmediate_jump, halfwords_jump (by omega) (by omega),
    BitVec.add_assoc, ← BitVec.ofInt_natCast, ← BitVec.ofInt_natCast,
    ← BitVec.ofInt_add, Int.natCast_mul, Int.natCast_mul]
  exact congrArg (base + BitVec.ofInt 32 ·) hdistance

/-- A jump to the label it stands under stays where it is. -/
theorem jImmediate_self (rd : BitVec 5) (i : Nat) :
    jImmediate (jump rd (i - i)).encode = 0#32 := by
  rw [jImmediate_jump, Int.sub_self]
  rfl

end Source

-- ========================================================== the addresses

/-- The upper part of a distance: the lower one can be negative. -/
def high (d : BitVec 32) : BitVec 20 := (d + 0x800).extractLsb' 12 20

def low (d : BitVec 32) : BitVec 12 := d.setWidth 12

theorem toNat_upper (imm : BitVec 20) :
    (upper imm).toNat = 4096 * imm.toNat := by
  unfold upper
  rw [BitVec.toNat_append]
  simp [Nat.shiftLeft_eq]
  omega

/-- Together they are the distance. -/
theorem high_add_low (d : BitVec 32) :
    upper (high d) + (low d).signExtend 32 = d := by
  have hd := d.isLt
  have hhigh : (high d).toNat = (d.toNat + 0x800) % 2 ^ 32 / 4096 := by
    unfold high
    rw [BitVec.extractLsb'_toNat, BitVec.toNat_add, Nat.shiftRight_eq_div_pow]
    show (d.toNat + 0x800) % 2 ^ 32 / 4096 % 2 ^ 20 = _
    omega
  have hlow : (low d).toNat = d.toNat % 4096 := BitVec.toNat_setWidth ..
  apply BitVec.eq_of_toNat_eq
  rw [BitVec.toNat_add, toNat_upper, hhigh, BitVec.toNat_signExtend,
    BitVec.toNat_setWidth, BitVec.msb_eq_decide, hlow]
  show (4096 * _ + (d.toNat % 4096 % 2 ^ 32
    + if decide (2 ^ 11 ≤ d.toNat % 4096) = true then 2 ^ 32 - 2 ^ 12 else 0))
      % 2 ^ 32 = d.toNat
  split
  · next h =>
    have hnegative := of_decide_eq_true h
    omega
  · next h =>
    have hpositive := mt decide_eq_true h
    omega

/-- `la rd, target` at an address. -/
def la (rd : BitVec 5) (pc target : BitVec 32) : List Instruction :=
  [.auipc rd (high (target - pc)),
    .immediate .addi rd rd (low (target - pc))]

/-- A JAL goes this far. -/
def Reaches (d : BitVec 32) : Prop := halfwords (d.extractLsb' 1 20) = d

instance (d : BitVec 32) : Decidable (Reaches d) :=
  inferInstanceAs (Decidable (_ = _))

/-- `call target` at an address, with the linker's relaxation of calls or
without it. -/
def call (relax : Bool) (pc target : BitVec 32) : List Instruction :=
  if relax = true ∧ Reaches (target - pc) then
    [.jal 1 ((target - pc).extractLsb' 1 20)]
  else [.auipc 1 (high (target - pc)), .jalr 1 1 (low (target - pc))]

/-- Where the code behind a `call` begins. -/
def afterCall (relax : Bool) (pc target : BitVec 32) : BitVec 32 :=
  pc + BitVec.ofNat 32 (4 * (call relax pc target).length)

end Rv32
