/-
Guest memory as a little-endian byte array.

A guest access is promised what an array of bytes would give it
(`Access.Kept`): a write changes the bytes it names, to the low bytes
of the value in little-endian order, and a read delivers the numeral
they spell. `Faithful` says so along a whole sequence of accesses.

# Where the devices keep the promise

Writes keep it always. Reads of the CLINT and word reads keep it too.
A byte or halfword read of ROM, RAM or VRAM falls through to the word
case and delivers four bytes; it is right exactly when the bytes it was
not asked for are there and zero (`Access.Clean`). `faithful_iff_clean`
is the step fact `kept_iff_clean` carried along the sequence.
-/
import T89Emu.Memory.Proofs.Device

namespace T89Emu

open Bytes Cpp

-- ================================================ statement vocabulary

/-- One guest access. -/
inductive Access
  | read (addr : U32) (size : Nat)
  | write (addr value : U32) (size : Nat)

namespace Access

def addr : Access → U32
  | .read addr _ => addr
  | .write addr _ _ => addr

def size : Access → Nat
  | .read _ size => size
  | .write _ _ size => size

variable (d : MemoryDevice)

/-- The access has size 1, 2 or 4, is aligned, and lies wholly inside
the device. -/
structure Fits (a : Access) : Prop where
  isAccessSize : IsAccessSize a.size
  aligned : a.addr.toNat % a.size = 0
  inside : d.getAddress a.addr + a.size ≤ d.deviceSize.toNat

/-- What an array of bytes promises for an access: the status, the value
delivered to a read, and the bytes afterwards. -/
def Kept (mem : d.Mem) (outcome : Eval (U32 × Option U32 × d.Mem)) :
    Access → Prop
  | .read addr size =>
      ∃ (h : d.getAddress addr + size ≤ d.deviceSize.toNat) (v : U32),
        outcome = .ok (STATUS_OK, some v, mem)
          ∧ v.toNat = mem.value (d.getAddress addr) size h
  | .write addr value size =>
      ∃ status mem', outcome = .ok (status, none, mem')
        ∧ (status = STATUS_OK → ∀ i : Fin d.deviceSize.toNat,
            mem' i = if d.getAddress addr ≤ i
                ∧ i < d.getAddress addr + size then
              byteOf value (i - d.getAddress addr) else mem i)
        ∧ (status ≠ STATUS_OK → mem' = mem)

/-- The bytes a read was not asked for do not show in its result. -/
def Clean (mem : d.Mem) : Access → Prop
  | .read addr size =>
      d.cls = .clint ∨ size = 4
        ∨ (d.getAddress addr + 4 ≤ d.deviceSize.toNat
          ∧ ∀ i : Fin d.deviceSize.toNat, d.getAddress addr + size ≤ i →
              i < d.getAddress addr + 4 → mem i = 0#8)
  | .write _ _ _ => True

end Access

namespace MemoryDevice

variable (d : MemoryDevice)

/-- An access on the device: the status, what it stored through
`readValue`, and the bytes. -/
def access (mem : d.Mem) : Access → Eval (U32 × Option U32 × d.Mem)
  | .read addr size => do
      let (status, readValue) ← d.read mem addr size
      .ok (status, readValue, mem)
  | .write addr value size => do
      let (status, mem) ← d.write mem addr value size
      .ok (status, none, mem)

/-- The promise is kept by every access of a sequence. -/
def Faithful : d.Mem → List Access → Prop
  | _, [] => True
  | mem, a :: as => a.Kept d mem (d.access mem a)
      ∧ ∀ r, d.access mem a = .ok r → Faithful r.2.2 as

/-- Every access of a sequence is clean in the state it meets. -/
def Clean : d.Mem → List Access → Prop
  | _, [] => True
  | mem, a :: as => a.Clean d mem
      ∧ ∀ r, d.access mem a = .ok r → Clean r.2.2 as

-- ====================================================== the step facts

variable {d} {mem : d.Mem}

/-- A fitting read, as one dereference of the class's width. -/
theorem access_read {addr : U32} {size : Nat}
    (hfit : (Access.read addr size).Fits d) :
    d.access mem (.read addr size)
      = (d.loadAt mem addr (d.readWidth size) >>= fun v =>
          .ok (STATUS_OK, some v, mem)) := by
  have hsize : IsAccessSize size := hfit.isAccessSize
  have hal : addr.toNat % size = 0 := hfit.aligned
  show (d.read mem addr size >>= _) = _
  rw [read_eq hsize hal]
  cases d.loadAt mem addr (d.readWidth size) with
  | error e => rfl
  | ok v => rfl

/-- ROM refuses a write. -/
theorem access_write_rom {addr value : U32} {size : Nat}
    (hcls : d.cls = .rom) :
    d.access mem (.write addr value size)
      = .ok (ILLEGAL_INSTRUCTION, none, mem) := by
  show (d.write mem addr value size >>= _) = _
  rw [write_rom hcls]
  rfl

/-- A fitting write to the other classes. -/
theorem access_write {addr value : U32} {size : Nat}
    (hcls : d.cls ≠ .rom) (hfit : (Access.write addr value size).Fits d) :
    d.access mem (.write addr value size)
      = .ok (STATUS_OK, none, mem.poke (d.getAddress addr) size
          (value.setWidth (8 * size))) := by
  have hsize : IsAccessSize size := hfit.isAccessSize
  have hal : addr.toNat % size = 0 := hfit.aligned
  have hin : d.getAddress addr + size ≤ d.deviceSize.toNat := hfit.inside
  show (d.write mem addr value size >>= _) = _
  rw [write_eq hcls hsize hal, storeAt_of_le hin]
  rfl

/-- A read keeps the promise exactly when it is clean. -/
theorem read_kept_iff_clean {addr : U32} {size : Nat}
    (hfit : (Access.read addr size).Fits d) :
    (Access.read addr size).Kept d mem (d.access mem (.read addr size))
      ↔ (Access.read addr size).Clean d mem := by
  have hsize : IsAccessSize size := hfit.isAccessSize
  have hin : d.getAddress addr + size ≤ d.deviceSize.toNat := hfit.inside
  have hle := hsize.le_four
  rw [access_read hfit]
  simp only [Access.Kept, Access.Clean]
  by_cases hexact : d.cls = .clint ∨ size = 4
  · -- the dereference is as wide as the access
    have hwidth : d.readWidth size = size := by
      unfold readWidth
      rcases hexact with h | h
      · rw [if_pos h]
      · split
        · rfl
        · exact h.symm
    rw [hwidth, loadAt_of_le hin]
    refine iff_of_true ⟨hin, _, rfl, ?_⟩ (by tauto)
    exact mem.toNat_setWidth_peek hin (by omega)
  · -- the dereference takes a whole word
    have hwidth : d.readWidth size = 4 := by
      unfold readWidth
      rw [if_neg fun h => hexact (.inl h)]
    rw [hwidth]
    by_cases hword : d.getAddress addr + 4 ≤ d.deviceSize.toNat
    · rw [loadAt_of_le hword]
      have hzero := mem.peek_setWidth_eq_iff hle (Nat.le_refl 32) hword
      have hnat : ((mem.peek (d.getAddress addr) 4 hword).setWidth 32).toNat
            = mem.value (d.getAddress addr) size hin
          ↔ (mem.peek (d.getAddress addr) 4 hword).setWidth 32
            = (mem.peek (d.getAddress addr) size hin).setWidth 32 := by
        rw [← mem.toNat_setWidth_peek hin (show 8 * size ≤ 32 by omega),
          BitVec.toNat_inj]
      constructor
      · rintro ⟨_, v, hv, hval⟩
        simp only [ok_bind, Except.ok.injEq, Prod.mk.injEq,
          Option.some.injEq, true_and, and_true] at hv
        subst hv
        exact .inr (.inr ⟨hword, hzero.1 (hnat.1 hval)⟩)
      · intro hclean
        have hz := (hclean.resolve_left fun h => hexact (.inl h)).resolve_left
          fun h => hexact (.inr h)
        exact ⟨hin, _, rfl, hnat.2 (hzero.2 hz.2)⟩
    · rw [loadAt_of_lt (by omega)]
      refine iff_of_false ?_ ?_
      · rintro ⟨-, v, hv, -⟩
        cases hv
      · rintro (h | h | h)
        · exact hexact (.inl h)
        · exact hexact (.inr h)
        · exact hword h.1

/-- A write keeps the promise. -/
theorem write_kept {addr value : U32} {size : Nat}
    (hfit : (Access.write addr value size).Fits d) :
    (Access.write addr value size).Kept d mem
      (d.access mem (.write addr value size)) := by
  by_cases hcls : d.cls = .rom
  · rw [access_write_rom hcls]
    refine ⟨ILLEGAL_INSTRUCTION, mem, rfl, ?_, fun _ => rfl⟩
    intro h
    exact absurd h (by decide)
  · rw [access_write hcls hfit]
    refine ⟨STATUS_OK, _, rfl, fun _ i => ?_, fun h => absurd rfl h⟩
    by_cases hi : d.getAddress addr ≤ i
        ∧ i < d.getAddress addr + size
    · rw [mem.poke_of_mem _ hi, if_pos hi, byteOf_setWidth _ (by omega)]
    · rw [mem.poke_of_not_mem _ (by omega), if_neg hi]

/-- An access keeps the promise exactly when it is clean. -/
theorem kept_iff_clean {a : Access} (hfit : a.Fits d) :
    a.Kept d mem (d.access mem a) ↔ a.Clean d mem := by
  cases a with
  | read addr size => exact read_kept_iff_clean hfit
  | write addr value size => exact iff_of_true (write_kept hfit) trivial

-- ====================================================== along a sequence

/-- A device behaves as a little-endian byte array along a sequence of
accesses exactly when each of them is clean in the state it meets: it
is not a byte or halfword read of ROM, RAM or VRAM, or the bytes up to
the word's width are inside the device and zero. -/
theorem faithful_iff_clean (d : MemoryDevice) (mem : d.Mem)
    (as : List Access) (hfit : ∀ a ∈ as, a.Fits d) :
    d.Faithful mem as ↔ d.Clean mem as := by
  induction as generalizing mem with
  | nil => exact Iff.rfl
  | cons a as ih =>
      unfold Faithful Clean
      have hstep : a.Kept d mem (d.access mem a) ↔ a.Clean d mem :=
        kept_iff_clean (hfit a List.mem_cons_self)
      have hrest : ∀ r : U32 × Option U32 × d.Mem,
          d.Faithful r.2.2 as ↔ d.Clean r.2.2 as := fun r =>
        ih r.2.2 fun b hb => hfit b (List.mem_cons_of_mem a hb)
      rw [hstep]
      simp only [hrest]

/-- RAM as the constructor sizes it, every byte 0xff: the byte read at
its base delivers the word. -/
theorem byte_read_of_ram_delivers_word :
    let d : MemoryDevice := ⟨.ram, 0x40000000, 1048576⟩
    let mem : d.Mem := fun _ => 0xff
    let a := Access.read 0x40000000 1
    a.Fits d ∧ d.access mem a = .ok (STATUS_OK, some 0xffffffff, mem)
      ∧ ¬ d.Faithful mem [a] := by
  intro d mem a
  have hfit : a.Fits d := ⟨by decide, by decide, by decide⟩
  have hacc : d.access mem a = .ok (STATUS_OK, some 0xffffffff, mem) := by
    rw [access_read hfit, loadAt_of_le (by decide)]
    have hword : (mem.peek (d.getAddress 0x40000000) 4 (by decide)).setWidth
        32 = 0xffffffff#32 := by decide
    exact congrArg (fun v => Except.ok (STATUS_OK, some v, mem)) hword
  refine ⟨hfit, hacc, ?_⟩
  rintro ⟨⟨h, v, hv, hval⟩, -⟩
  rw [hacc] at hv
  simp only [Except.ok.injEq, Prod.mk.injEq, Option.some.injEq, true_and,
    and_true] at hv
  subst hv
  have hbyte : mem.value (d.getAddress 0x40000000) 1 (by decide) = 255 := by
    decide
  exact absurd (hval.trans hbyte) (by decide)

/-- A word store to RAM and a word load of it, on the same device. -/
theorem faithful_store_load :
    let d : MemoryDevice := ⟨.ram, 0x40000000, 1048576⟩
    d.Faithful d.zeroed
      [.write 0x40000004 0x12345678 4, .read 0x40000004 4] := by
  intro d
  refine (faithful_iff_clean d d.zeroed _ ?_).2 ?_
  · intro a ha
    simp only [List.mem_cons, List.not_mem_nil, or_false] at ha
    rcases ha with rfl | rfl
    · exact ⟨by decide, by decide, by decide⟩
    · exact ⟨by decide, by decide, by decide⟩
  · exact ⟨trivial, fun r _ => ⟨.inr (.inl rfl), fun _ _ => trivial⟩⟩

-- ==================================================== what follows from it

/-- Two devices at the same place deliver the same to a clean read,
whatever their classes. -/
theorem read_agrees {d' : MemoryDevice} {mem' : d'.Mem} {addr : U32}
    {size : Nat} (hbase : d'.baseAddress = d.baseAddress)
    (hsz : d'.deviceSize = d.deviceSize)
    (hmem : ∀ i (h : i < d.deviceSize.toNat) (h' : i < d'.deviceSize.toNat),
      mem' ⟨i, h'⟩ = mem ⟨i, h⟩)
    (hfit : (Access.read addr size).Fits d)
    (hclean : (Access.read addr size).Clean d mem)
    (hclean' : (Access.read addr size).Clean d' mem') :
    ∃ v, d.access mem (.read addr size) = .ok (STATUS_OK, some v, mem)
      ∧ d'.access mem' (.read addr size) = .ok (STATUS_OK, some v, mem') := by
  have haddr : d'.getAddress addr = d.getAddress addr := by
    unfold getAddress
    rw [hbase]
  have hfit' : (Access.read addr size).Fits d' :=
    ⟨hfit.isAccessSize, hfit.aligned, by
      have := hfit.inside
      simp only [Access.addr, Access.size] at this ⊢
      rw [haddr, hsz]
      exact this⟩
  obtain ⟨h, v, hv, hval⟩ := (kept_iff_clean hfit).2 hclean
  obtain ⟨h', v', hv', hval'⟩ := (kept_iff_clean hfit').2 hclean'
  refine ⟨v, hv, ?_⟩
  rw [hv']
  have hvv : v' = v := by
    rw [← BitVec.toNat_inj, hval, hval']
    unfold Buffer.value
    congr 2
    funext k
    rw [hmem _ (by omega)]
    simp only [haddr]
  rw [hvv]

/-- A clean read right after a write of the same bytes delivers the value
written, truncated to its size. -/
theorem read_after_write {addr value : U32} {size : Nat} {mem' : d.Mem}
    (hfit : (Access.write addr value size).Fits d)
    (hw : d.access mem (.write addr value size)
      = .ok (STATUS_OK, none, mem'))
    (hclean : (Access.read addr size).Clean d mem') :
    d.access mem' (.read addr size)
      = .ok (STATUS_OK,
          some ((value.setWidth (8 * size)).setWidth 32), mem') := by
  have hcls : d.cls ≠ .rom := by
    intro hrom
    rw [access_write_rom hrom] at hw
    injection hw with hw
    exact absurd (Prod.mk.inj hw).1 (by decide)
  have hin : d.getAddress addr + size ≤ d.deviceSize.toNat := hfit.inside
  have hsize : IsAccessSize size := hfit.isAccessSize
  rw [access_write hcls hfit] at hw
  simp only [Except.ok.injEq, Prod.mk.injEq, true_and] at hw
  have hfit' : (Access.read addr size).Fits d := ⟨hsize, hfit.aligned, hin⟩
  obtain ⟨h, v, hv, hval⟩ := (kept_iff_clean hfit').2 hclean
  rw [hv]
  have hle := hsize.le_four
  have hvv : v = (value.setWidth (8 * size)).setWidth 32 := by
    rw [← BitVec.toNat_inj, hval,
      ← mem'.toNat_setWidth_peek hin (show 8 * size ≤ 32 by omega), ← hw,
      Buffer.peek_poke_same]
  rw [hvv]

end MemoryDevice

end T89Emu
