/-
Line tables as the DWARF standard reads them: sequences of rows whose
addresses do not decrease, each closed by a row that is one byte behind
its last instruction.

A row is in force from its address up to that of the next row; the closing
row only says where the sequence ends. `rowInForce` is the row in force at
an address. The rows are of any type that has addresses.
-/
import Mathlib.Data.List.Pairwise
import Mathlib.Order.Lattice

namespace LineTable

variable {ρ α : Type _} [LinearOrder α]

/-- Rows and the row that closes them. -/
structure Sequence (address : ρ → α) where
  rows : List ρ
  stop : ρ
  sorted : (rows ++ [stop]).Pairwise fun r r' => address r ≤ address r'

variable {address : ρ → α}

namespace Sequence

/-- From the address of the first row up to the one that closes. -/
def Covers (q : Sequence address) (pc : α) : Prop :=
  (∃ r ∈ q.rows.head?, address r ≤ pc) ∧ pc < address q.stop

instance (q : Sequence address) (pc : α) : Decidable (q.Covers pc) :=
  inferInstanceAs (Decidable (_ ∧ _))

/-- The last row that begins at or before the address. -/
def inForce (q : Sequence address) (pc : α) : Option ρ :=
  (q.rows.filter fun r => address r ≤ pc).getLast?

end Sequence

/-- The rows of all sequences. -/
def table (qs : List (Sequence address)) : List ρ :=
  qs.flatMap fun q => q.rows ++ [q.stop]

/-- No address lies in two sequences. -/
def Disjoint (qs : List (Sequence address)) : Prop :=
  qs.Pairwise fun p q => ∀ pc, ¬ (p.Covers pc ∧ q.Covers pc)

/-- The row in force at an address, if a sequence contains it. -/
def rowInForce (qs : List (Sequence address)) (pc : α) : Option ρ :=
  (qs.find? fun q => q.Covers pc).bind fun q => q.inForce pc

-- ========================================================== one sequence

namespace Sequence

variable {q : Sequence address} {pc : α} {r : ρ}

theorem le_stop (hr : r ∈ q.rows) : address r ≤ address q.stop :=
  (List.pairwise_append.1 q.sorted).2.2 r hr q.stop List.mem_cons_self

/-- The first row has the least address. -/
theorem head_le (hr : r ∈ q.rows) :
    ∃ first ∈ q.rows.head?, address first ≤ address r := by
  have hsorted := (List.pairwise_append.1 q.sorted).1
  cases hrows : q.rows with
  | nil => rw [hrows] at hr; cases hr
  | cons first rest =>
      rw [hrows] at hr hsorted
      refine ⟨first, rfl, ?_⟩
      rcases List.mem_cons.1 hr with rfl | hr
      · exact le_refl _
      · exact (List.pairwise_cons.1 hsorted).1 r hr

/-- A row in front of the end lies in the sequence's range. -/
theorem covers_of_mem (hr : r ∈ q.rows)
    (hstop : address r ≠ address q.stop) : q.Covers (address r) :=
  ⟨head_le hr, lt_of_le_of_ne (le_stop hr) hstop⟩

/-- At the address of a row, the row in force is one with that address. -/
theorem inForce_of_mem (hr : r ∈ q.rows) :
    ∃ r' ∈ q.rows, q.inForce (address r) = some r'
      ∧ address r' = address r := by
  have hsorted := (List.pairwise_append.1 q.sorted).1
  have hmem : r ∈ q.rows.filter fun r' => address r' ≤ address r :=
    List.mem_filter.2 ⟨hr, decide_eq_true (le_refl _)⟩
  obtain ⟨r', hlast⟩ : ∃ r', (q.rows.filter fun r' =>
      address r' ≤ address r).getLast? = some r' :=
    Option.isSome_iff_exists.1
      (List.getLast?_isSome.2 (List.ne_nil_of_mem hmem))
  obtain ⟨hr', hle⟩ := List.mem_filter.1 (List.mem_of_getLast? hlast)
  refine ⟨r', hr', hlast, le_antisymm (of_decide_eq_true hle) ?_⟩
  -- nothing behind the last of the sorted rows is above it
  obtain ⟨init, hinit⟩ := List.getLast?_eq_some_iff.1 hlast
  have hfiltered := hsorted.filter fun r' => address r' ≤ address r
  rw [hinit] at hfiltered hmem
  rcases List.mem_append.1 hmem with hmem | hmem
  · exact (List.pairwise_append.1 hfiltered).2.2 r hmem r'
      List.mem_cons_self
  · obtain rfl := List.mem_singleton.1 hmem
    exact le_refl _

end Sequence

-- ======================================================= several sequences

variable {qs : List (Sequence address)} {q : Sequence address} {pc : α}

theorem mem_table {r : ρ} :
    r ∈ table qs ↔ ∃ q ∈ qs, r ∈ q.rows ∨ r = q.stop := by
  simp [table, List.mem_flatMap]

/-- Two sequences of a table that contain the same address are the same. -/
theorem Disjoint.eq (hqs : Disjoint qs) {p : Sequence address}
    (hp : p ∈ qs) (hq : q ∈ qs) (hpc : p.Covers pc) (hqc : q.Covers pc) :
    p = q := by
  by_contra hne
  have hsymm : Std.Symm fun p q : Sequence address =>
      ∀ pc, ¬ (p.Covers pc ∧ q.Covers pc) :=
    ⟨fun _ _ h pc hpc => h pc hpc.symm⟩
  exact List.Pairwise.forall hqs hp hq hne pc ⟨hpc, hqc⟩

/-- In the sequence that contains the address, the row in force is that of
the sequence. -/
theorem rowInForce_of_covers (hqs : Disjoint qs) (hq : q ∈ qs)
    (hpc : q.Covers pc) : rowInForce qs pc = q.inForce pc := by
  cases hfind : qs.find? (fun q => q.Covers pc) with
  | none =>
      exact absurd (decide_eq_true hpc) (List.find?_eq_none.1 hfind q hq)
  | some p =>
      have hfound := List.find?_some hfind
      obtain rfl : p = q := hqs.eq (List.mem_of_find?_eq_some hfind) hq
        (of_decide_eq_true hfound) hpc
      rw [rowInForce, hfind]
      rfl

/-- In no sequence, none is. -/
theorem rowInForce_of_not_covers (hpc : ∀ q ∈ qs, ¬ q.Covers pc) :
    rowInForce qs pc = none := by
  have hfind : qs.find? (fun q => q.Covers pc) = none :=
    List.find?_eq_none.2 fun q hq => by simpa using hpc q hq
  rw [rowInForce, hfind]
  rfl

/-- A row of the table at an address where no sequence ends is a row of
the sequence that contains the address. -/
theorem mem_rows_of_mem_table
    (hopen : ∀ q ∈ qs, address q.stop ≠ pc) {r : ρ} (hr : r ∈ table qs)
    (hpc : address r = pc) :
    ∃ q ∈ qs, q.Covers pc ∧ r ∈ q.rows := by
  obtain ⟨q, hq, hr | rfl⟩ := mem_table.1 hr
  · have hstop : address r ≠ address q.stop := fun h =>
      hopen q hq (h.symm.trans hpc)
    exact ⟨q, hq, hpc ▸ q.covers_of_mem hr hstop, hr⟩
  · exact absurd hpc (hopen q hq)

end LineTable
