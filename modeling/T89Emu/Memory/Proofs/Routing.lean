/-
Bus routing.

A device owns the addresses of the half-open range
`[base, base + size)`, taken over the integers. `RoutesExactly` says
that the bus dispatches an address to the device that owns it, and to
none when none does; `ServesExactly` is what the guest sees of that.

# Where the bus does so

The loop tests the closed range up to the 32-bit end address instead,
and that differs from ownership in two places (`hits_iff`): the address
just past a device is accepted, and a device that ends at the top of
memory has end address 0 and is never accepted. The first makes the
answer depend on the order: a device that ends at the address hides the
one that starts there, unless that one was registered before it. Both
halves of `routes_exactly_iff` are instances of the first-match rules
of `Lib/FirstMatch.lean`.
-/
import Mathlib.Data.List.Pairwise
import Mathlib.Tactic.ByContra
import Mathlib.Tactic.Tauto
import T89Emu.Memory.Bus
import T89Emu.Memory.Proofs.Device

namespace T89Emu

open Cpp FirstMatch

namespace MemoryDevice

variable (d : MemoryDevice)

/-- The end of the device's range as an integer. -/
def limit : Nat := d.baseAddress.toNat + d.deviceSize.toNat

/-- The address lies in the device's half-open range. -/
def Owns (addr : U32) : Prop :=
  d.baseAddress.toNat ≤ addr.toNat ∧ addr.toNat < d.limit

instance (addr : U32) : Decidable (d.Owns addr) :=
  inferInstanceAs (Decidable (_ ∧ _))

/-- The device's range lies in the 32-bit address space. -/
def FitsSpace : Prop := d.limit ≤ 2 ^ 32

instance : Decidable d.FitsSpace := inferInstanceAs (Decidable (_ ≤ _))

/-- Two devices share no address. -/
def DisjointFrom (d e : MemoryDevice) : Prop :=
  ∀ addr, ¬ (d.Owns addr ∧ e.Owns addr)

instance : Std.Symm DisjointFrom where
  symm _ _ h addr hboth := h addr hboth.symm

variable {d}

/-- Devices of which one ends before the other starts, or there, share
nothing. -/
theorem disjointFrom_of_apart {e : MemoryDevice}
    (h : d.limit ≤ e.baseAddress.toNat ∨ e.limit ≤ d.baseAddress.toNat) :
    d.DisjointFrom e := by
  intro addr hboth
  have hd := hboth.1
  have he := hboth.2
  unfold Owns at hd he
  omega

/-- What the bus's range test accepts: the addresses the device owns,
unless it ends at the top of memory, and the address just past it. -/
theorem hits_iff {addr : U32} (hfits : d.FitsSpace) :
    Bus.Hits d addr
      ↔ d.Owns addr ∧ d.limit ≠ 2 ^ 32 ∨ d.limit = addr.toNat := by
  have haddr := addr.isLt
  have hsz := d.deviceSize.isLt
  have hend : d.getEndAddress.toNat = d.limit % 2 ^ 32 := BitVec.toNat_add ..
  unfold Bus.Hits Owns
  rw [ge_iff_le, BitVec.le_def, BitVec.le_def, hend]
  unfold FitsSpace at hfits
  unfold limit at *
  omega

/-- The test agrees with ownership exactly when the address is not the
one past the device, and the device does not end at the top of memory
if it owns the address. -/
theorem hits_iff_owns_iff {addr : U32} (hfits : d.FitsSpace) :
    (Bus.Hits d addr ↔ d.Owns addr)
      ↔ d.limit ≠ addr.toNat ∧ (d.Owns addr → d.limit ≠ 2 ^ 32) := by
  have hlim : d.Owns addr → d.limit ≠ addr.toNat := fun h => by
    have := h.2
    omega
  rw [hits_iff hfits]
  by_cases howns : d.Owns addr
  · have := hlim howns
    tauto
  · tauto

end MemoryDevice

namespace Bus

variable {ι : Type} (dev : ι → MemoryDevice)

/-- The bus dispatches the address to the device that owns it, and to
none when none does. -/
def RoutesExactly (bus : Bus ι) (addr : U32) : Prop :=
  (∀ i ∈ bus, (dev i).Owns addr → bus.select dev addr = some i)
    ∧ ((∀ i ∈ bus, ¬ (dev i).Owns addr) → bus.select dev addr = none)

/-- The outcome of every access at the address is that of the device
that owns it, or an access fault with every byte unchanged. -/
def ServesExactly [DecidableEq ι] (bus : Bus ι) (addr : U32) : Prop :=
  ∀ (heap : Heap dev) (data : U32) (size : Nat),
    (∀ i ∈ bus, (dev i).Owns addr →
      bus.read dev heap addr size = (dev i).read (heap i) addr size
        ∧ bus.write dev heap addr data size
          = (dev i).write (heap i) addr data size >>= fun r =>
              .ok (r.1, Function.update heap i r.2))
    ∧ ((∀ i ∈ bus, ¬ (dev i).Owns addr) →
      bus.read dev heap addr size = .ok (LOAD_ACCESS_FAULT, none)
        ∧ bus.write dev heap addr data size
          = .ok (STORE_ACCESS_FAULT, heap))

/-- The registered devices lie in the 32-bit address space and share no
address. -/
structure WellFormed (bus : Bus ι) : Prop where
  fits : ∀ i ∈ bus, (dev i).FitsSpace
  disjoint : bus.Pairwise fun i j => (dev i).DisjointFrom (dev j)

variable {dev}

/-- At most one registered device owns an address. -/
theorem WellFormed.unique {bus : Bus ι} (h : bus.WellFormed dev)
    (addr : U32) : Unique (fun i => (dev i).Owns addr) bus := by
  intro i hi j hj howni hownj
  by_contra hne
  have : Std.Symm fun i j => (dev i).DisjointFrom (dev j) :=
    ⟨fun i j hij => Std.Symm.symm (r := MemoryDevice.DisjointFrom) _ _ hij⟩
  exact h.disjoint.forall hi hj hne addr ⟨howni, hownj⟩

/-- Past its first byte a device that does not end at the top of memory
is found by the loop, whatever ends where: a device that ended there
would share the byte before. -/
theorem WellFormed.select_of_interior {bus : Bus ι} {addr : U32} {i : ι}
    (h : bus.WellFormed dev) (hi : i ∈ bus) (howns : (dev i).Owns addr)
    (hpast : (dev i).baseAddress.toNat < addr.toNat)
    (htop : (dev i).limit ≠ 2 ^ 32)
    (hsize : ∀ j ∈ bus, 0 < (dev j).deviceSize.toNat) :
    bus.select dev addr = some i := by
  have huniq := h.unique addr
  have hagree : ∀ j ∈ bus, (Hits (dev j) addr ↔ (dev j).Owns addr) := by
    intro j hj
    refine (MemoryDevice.hits_iff_owns_iff (h.fits j hj)).2 ⟨?_, ?_⟩
    · intro hlim
      have hpred : (addr - 1).toNat = addr.toNat - 1 := by
        have := addr.isLt
        rw [BitVec.toNat_sub]
        show (2 ^ 32 - 1 + addr.toNat) % 2 ^ 32 = _
        omega
      have hj1 : (dev j).Owns (addr - 1) := by
        have := hsize j hj
        unfold MemoryDevice.Owns
        rw [hpred]
        unfold MemoryDevice.limit at hlim ⊢
        omega
      have hi1 : (dev i).Owns (addr - 1) := by
        have := howns.2
        unfold MemoryDevice.Owns
        rw [hpred]
        omega
      rw [h.unique (addr - 1) j hj i hi hj1 hi1] at hlim
      have := howns.2
      omega
    · intro hj1
      rw [huniq j hj i hi hj1 howns]
      exact htop
  exact ((exact_perm_iff huniq).2 hagree bus (.refl _)).1 i hi howns

/-- The two loops use the routing and nothing else. -/
theorem RoutesExactly.serves [DecidableEq ι] {bus : Bus ι} {addr : U32}
    (h : bus.RoutesExactly dev addr) : bus.ServesExactly dev addr := by
  intro heap data size
  refine ⟨fun i hi howns => ?_, fun hnone => ?_⟩
  · have hsel := h.1 i hi howns
    exact ⟨read_of_select hsel, write_of_select hsel⟩
  · have hsel := h.2 hnone
    exact ⟨read_of_select_none hsel, write_of_select_none hsel⟩

/-- Routing is exact for this order of registration exactly when the
owner does not end at the top of memory, and every device that ends at
the address was registered after the owner; it is exact for every
order exactly when no device ends at the address and the owner does
not end at the top of memory. -/
theorem routes_exactly_iff [DecidableEq ι] (dev : ι → MemoryDevice)
    (bus : Bus ι) (addr : U32) (hwf : bus.WellFormed dev) :
    (bus.RoutesExactly dev addr
      ↔ (∀ i ∈ bus, (dev i).Owns addr → (dev i).limit ≠ 2 ^ 32)
        ∧ ∀ before i after, bus = before ++ i :: after →
            (dev i).limit = addr.toNat →
            ∃ j ∈ before, (dev j).Owns addr)
    ∧ ((∀ bus' : Bus ι, bus'.Perm bus → bus'.RoutesExactly dev addr)
      ↔ ∀ i ∈ bus, (dev i).limit ≠ addr.toNat
          ∧ ((dev i).Owns addr → (dev i).limit ≠ 2 ^ 32))
    ∧ (∀ bus' : Bus ι, bus'.RoutesExactly dev addr →
        bus'.ServesExactly dev addr) := by
  have hunique := hwf.unique addr
  refine ⟨?_, ?_, fun _ => RoutesExactly.serves⟩
  · refine (exact_iff hunique).trans (and_congr ?_ ?_)
    · refine forall₂_congr fun i hi => forall_congr' fun howns => ?_
      have hlim := howns.2
      rw [MemoryDevice.hits_iff (hwf.fits i hi)]
      constructor
      · rintro (h | h)
        · exact h.2
        · omega
      · exact fun h => .inl ⟨howns, h⟩
    · refine forall₃_congr fun before i after =>
        forall_congr' fun hsplit => ?_
      have hi : i ∈ bus := by rw [hsplit]; simp
      rw [MemoryDevice.hits_iff (hwf.fits i hi)]
      constructor
      · intro h hlim
        refine h (.inr hlim) fun howns => ?_
        have := howns.2
        omega
      · rintro h (hhit | hlim) hnot
        · exact absurd hhit.1 hnot
        · exact h hlim
  · refine (exact_perm_iff hunique).trans ?_
    exact forall₂_congr fun i hi =>
      MemoryDevice.hits_iff_owns_iff (hwf.fits i hi)

/-- Two adjacent memories of 16 bytes each. -/
private theorem adjacent_wellFormed :
    WellFormed id [⟨.ram, 0x1000, 16⟩, ⟨.ram, 0x1010, 16⟩] where
  fits i hi := by
    rcases List.mem_cons.1 hi with rfl | hi
    · decide
    · rw [List.mem_singleton.1 hi]
      decide
  disjoint := by
    refine List.pairwise_pair.2 ?_
    exact MemoryDevice.disjointFrom_of_apart (.inl (by decide))

/-- The memory that ends at 0x1010 takes the accesses of the one that
starts there, and a load of its first word leaves the array. -/
theorem end_address_taken_from_neighbour :
    let lo : MemoryDevice := ⟨.ram, 0x1000, 16⟩
    let hi : MemoryDevice := ⟨.ram, 0x1010, 16⟩
    WellFormed id [lo, hi] ∧ hi.Owns 0x1010
      ∧ select id [lo, hi] 0x1010 = some lo
      ∧ ¬ RoutesExactly id [lo, hi] 0x1010
      ∧ Bus.read id [lo, hi] (fun i => i.zeroed) 0x1010 4
        = .error .outOfBounds := by
  intro lo hi
  have howns : hi.Owns 0x1010 := by decide
  have hsel : select id [lo, hi] 0x1010 = some lo := by decide
  refine ⟨adjacent_wellFormed, howns, hsel, fun h => ?_, ?_⟩
  · have hhi := h.1 hi (by simp) howns
    rw [hsel] at hhi
    exact absurd (Option.some.inj hhi) (by decide)
  · have hread : lo.read lo.zeroed 0x1010 4 = .error .outOfBounds := by
      rw [MemoryDevice.read_eq isAccessSize_word (by decide),
        MemoryDevice.loadAt_of_lt (by decide), error_bind]
    rw [read_of_select hsel]
    exact hread

/-- Inside the second of them, routing is exact. -/
theorem routes_exactly_inside :
    RoutesExactly id [(⟨.ram, 0x1000, 16⟩ : MemoryDevice),
      ⟨.ram, 0x1010, 16⟩] 0x1014 := by
  refine (routes_exactly_iff id _ 0x1014 adjacent_wellFormed).1.2
    ⟨?_, ?_⟩
  · intro i hi _
    rcases List.mem_cons.1 hi with rfl | hi
    · decide
    · rw [List.mem_singleton.1 hi]
      decide
  · intro before i after hsplit hlim
    have hi : i ∈ [(⟨.ram, 0x1000, 16⟩ : MemoryDevice),
        ⟨.ram, 0x1010, 16⟩] := by rw [hsplit]; simp
    rcases List.mem_cons.1 hi with rfl | hi
    · exact absurd hlim (by decide)
    · rw [List.mem_singleton.1 hi] at hlim
      exact absurd hlim (by decide)

end Bus

end T89Emu
