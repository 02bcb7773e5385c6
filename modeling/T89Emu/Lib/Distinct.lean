/-
A loop that adds an element to a list unless one with its key is there:
no two elements have one key (`keys_nodup`), no key is lost
(`mem_keys_fold`), and nothing else gets in (`mem_fold`). Where the key
says which element it is, the loop collects a set (`mem_fold_iff`).
-/
import Mathlib.Data.List.Nodup

namespace Distinct

variable {α κ : Type _} [DecidableEq κ] (key : α → κ)

/-- Add an element with a new key. -/
def add (acc : List α) (a : α) : List α :=
  if acc.any fun b => key a = key b then acc else acc ++ [a]

variable {key} {acc as : List α} {a b : α}

theorem any_key : (acc.any fun b => key a = key b) = true
    ↔ key a ∈ acc.map key := by
  rw [List.any_eq_true, List.mem_map]
  constructor
  · rintro ⟨b, hb, hkey⟩
    exact ⟨b, hb, (of_decide_eq_true hkey).symm⟩
  · rintro ⟨b, hb, hkey⟩
    exact ⟨b, hb, decide_eq_true hkey.symm⟩

theorem mem_add (h : b ∈ add key acc a) : b ∈ acc ∨ b = a := by
  unfold add at h
  split at h
  · exact .inl h
  · exact (List.mem_append.1 h).imp_right List.mem_singleton.1

theorem keys_nodup_add (h : (acc.map key).Nodup) :
    ((add key acc a).map key).Nodup := by
  unfold add
  split
  · exact h
  · next hnew =>
    rw [List.map_append]
    refine List.nodup_append.2 ⟨h, List.nodup_singleton _, ?_⟩
    intro k hk k' hk' hkk
    rw [hkk, List.mem_singleton.1 hk'] at hk
    exact hnew (any_key.2 hk)

/-- What is there stays, and the key of the element is there after. -/
theorem mem_keys_add (k : κ) :
    k ∈ (add key acc a).map key ↔ k ∈ acc.map key ∨ k = key a := by
  unfold add
  split
  · next hold =>
    refine ⟨.inl, ?_⟩
    rintro (h | rfl)
    · exact h
    · exact any_key.1 hold
  · rw [List.map_append, List.mem_append]
    exact or_congr_right List.mem_singleton

-- =============================================================== the loop

theorem mem_fold (h : b ∈ as.foldl (add key) acc) : b ∈ acc ∨ b ∈ as := by
  induction as generalizing acc with
  | nil => exact .inl h
  | cons a as ih =>
      rcases ih h with h | h
      · rcases mem_add h with h | rfl
        · exact .inl h
        · exact .inr List.mem_cons_self
      · exact .inr (List.mem_cons_of_mem _ h)

theorem mem_keys_fold (k : κ) : k ∈ (as.foldl (add key) acc).map key
    ↔ k ∈ acc.map key ∨ k ∈ as.map key := by
  induction as generalizing acc with
  | nil => simp
  | cons a as ih =>
      rw [List.foldl_cons, ih, mem_keys_add, List.map_cons,
        List.mem_cons, or_assoc]

theorem keys_nodup (h : (acc.map key).Nodup) :
    ((as.foldl (add key) acc).map key).Nodup := by
  induction as generalizing acc with
  | nil => exact h
  | cons a as ih => exact ih (keys_nodup_add h)

/-- If elements with one key are the same, none is lost. -/
theorem mem_fold_iff
    (hkey : ∀ a ∈ as, ∀ b ∈ as, key a = key b → a = b) :
    b ∈ as.foldl (add key) [] ↔ b ∈ as := by
  refine ⟨fun h => (mem_fold h).resolve_left List.not_mem_nil,
    fun hb => ?_⟩
  have hk : key b ∈ (as.foldl (add key) []).map key :=
    (mem_keys_fold _).2 (.inr (List.mem_map.2 ⟨b, hb, rfl⟩))
  obtain ⟨a, ha, hab⟩ := List.mem_map.1 hk
  have hin := (mem_fold ha).resolve_left List.not_mem_nil
  exact hkey a hin b hb hab ▸ ha

end Distinct
