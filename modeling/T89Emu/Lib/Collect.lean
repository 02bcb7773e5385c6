/-
Loops that append to a list.

Each round appends a block of its own, so what the loop leaves behind is
the blocks in order behind what was there (`collect_eq_ok`). What only
one round can append is found in that round's block
(`filter_flatten`).
-/
import Mathlib.Data.List.Nodup
import T89Emu.Lib.Eval
import T89Emu.Lib.Lockstep

namespace Collect

open Cpp

variable {α β ε : Type} {f : α → Except ε (List β)} {xs : List α}

/-- The loop fails if a round does. -/
theorem collect_eq_ok {acc result : List β} :
    xs.foldlM (fun acc a => do
        let block ← f a
        pure (acc ++ block)) acc = .ok result
      ↔ ∃ blocks, List.Forall₂ (fun a b => f a = .ok b) xs blocks
        ∧ result = acc ++ blocks.flatten := by
  induction xs generalizing acc with
  | nil =>
      constructor
      · intro h
        cases h
        exact ⟨[], .nil, (List.append_nil _).symm⟩
      · rintro ⟨blocks, h, rfl⟩
        cases h
        exact congrArg Except.ok (List.append_nil _).symm
  | cons a xs ih =>
      rw [List.foldlM_cons]
      cases hf : f a with
      | error e =>
          constructor
          · intro h
            cases h
          · rintro ⟨blocks, h, -⟩
            cases h with
            | cons ha => exact nomatch hf.symm.trans ha
      | ok b =>
          refine Iff.trans (@ih (acc ++ b)) ?_
          constructor
          · rintro ⟨blocks, h, rfl⟩
            exact ⟨b :: blocks, .cons hf h, by
              rw [List.flatten_cons, List.append_assoc]⟩
          · rintro ⟨blocks, h, rfl⟩
            cases h with
            | @cons _ b' _ blocks ha h =>
                cases hf.symm.trans ha
                exact ⟨blocks, h, by
                  rw [List.flatten_cons, List.append_assoc]⟩

/-- What is there at the start changes nothing. -/
theorem collect_append {acc result : List β}
    (h : xs.foldlM (fun acc a => do
        let block ← f a
        pure (acc ++ block)) [] = .ok result) :
    xs.foldlM (fun acc a => do
        let block ← f a
        pure (acc ++ block)) acc = .ok (acc ++ result) := by
  obtain ⟨blocks, hblocks, rfl⟩ := collect_eq_ok.1 h
  exact collect_eq_ok.2 ⟨blocks, hblocks, rfl⟩

/-- The loop comes to its end if every round does. -/
theorem exists_collect (h : ∀ a ∈ xs, ∃ block, f a = .ok block) :
    ∃ blocks, List.Forall₂ (fun a b => f a = .ok b) xs blocks := by
  induction xs with
  | nil => exact ⟨[], .nil⟩
  | cons a xs ih =>
      obtain ⟨⟨b, hb⟩, hrest⟩ := List.forall_mem_cons.1 h
      obtain ⟨blocks, hblocks⟩ := ih hrest
      exact ⟨b :: blocks, .cons hb hblocks⟩

/-- A loop with one element a round. -/
theorem mapM_eq_ok {f : α → Except ε β} {ys : List β} :
    xs.mapM f = .ok ys ↔ List.Forall₂ (fun a b => f a = .ok b) xs ys := by
  induction xs generalizing ys with
  | nil =>
      rw [List.mapM_nil, List.forall₂_nil_left_iff]
      constructor
      · rintro ⟨⟩
        rfl
      · rintro rfl
        rfl
  | cons a xs ih =>
      rw [List.mapM_cons, bind_eq_ok]
      constructor
      · rintro ⟨b, hb, h⟩
        obtain ⟨bs, hbs, h⟩ := bind_eq_ok.1 h
        cases h
        exact .cons hb (ih.1 hbs)
      · intro h
        cases h with
        | cons hb h => exact ⟨_, hb, bind_eq_ok.2 ⟨_, ih.2 h, rfl⟩⟩

/-- It comes to its end exactly if every round does. -/
theorem exists_mapM {f : α → Except ε β} :
    (∃ ys, xs.mapM f = .ok ys) ↔ ∀ a ∈ xs, ∃ b, f a = .ok b := by
  constructor
  · rintro ⟨ys, h⟩ a ha
    obtain ⟨b, -, hb⟩ := Lockstep.exists_partner (mapM_eq_ok.1 h) ha
    exact ⟨b, hb⟩
  · intro h
    induction xs with
    | nil => exact ⟨[], rfl⟩
    | cons a xs ih =>
        obtain ⟨⟨b, hb⟩, hrest⟩ := List.forall_mem_cons.1 h
        obtain ⟨bs, hbs⟩ := ih hrest
        exact ⟨b :: bs, mapM_eq_ok.2 (.cons hb (mapM_eq_ok.1 hbs))⟩

/-- Two loops whose rounds do the same. -/
theorem mapM_congr₂ {γ : Type} {f : α → Except ε β} {g : γ → Except ε β}
    {zs : List γ} (h : List.Forall₂ (fun a c => f a = g c) xs zs) :
    xs.mapM f = zs.mapM g := by
  induction h with
  | nil => rfl
  | cons hround _ ih => rw [List.mapM_cons, List.mapM_cons, hround, ih]

variable {R : α → List β → Prop} {blocks : List (List β)} {p : β → Bool}

theorem filter_flatten_nil (h : List.Forall₂ R xs blocks)
    (hnone : ∀ a ∈ xs, ∀ b, R a b → b.filter p = []) :
    blocks.flatten.filter p = [] := by
  induction h with
  | nil => rfl
  | cons hab _ ih =>
      obtain ⟨ha, has⟩ := List.forall_mem_cons.1 hnone
      rw [List.flatten_cons, List.filter_append, ha _ hab, ih has]
      rfl

/-- If the test holds in the block of one round only, the list is searched
by searching that block. -/
theorem filter_flatten {front back : List α} {a : α}
    (h : List.Forall₂ R (front ++ a :: back) blocks)
    (hother : ∀ x ∈ front ++ back, ∀ b, R x b → b.filter p = []) :
    ∃ b, R a b ∧ b ∈ blocks ∧ blocks.flatten.filter p = b.filter p := by
  induction front generalizing blocks with
  | nil =>
      cases h with
      | @cons _ b _ blocks hab h =>
          refine ⟨b, hab, List.mem_cons_self, ?_⟩
          rw [List.flatten_cons, List.filter_append,
            filter_flatten_nil h hother, List.append_nil]
  | cons x front ih =>
      cases h with
      | @cons _ b₀ _ blocks hx h =>
          obtain ⟨hnone, hothers⟩ := List.forall_mem_cons.1 hother
          obtain ⟨b, hab, hmem, hfilter⟩ := ih h hothers
          refine ⟨b, hab, List.mem_cons_of_mem _ hmem, ?_⟩
          rw [List.flatten_cons, List.filter_append, hnone _ hx, hfilter]
          rfl

/-- A loop with an index, and a test that one index passes. -/
theorem filter_mapIdx {f : Nat → α → β} {k : Nat}
    (hp : ∀ i a, p (f i a) = true ↔ i = k) :
    (xs.mapIdx f).filter p = (xs[k]?.map (f k)).toList := by
  induction xs generalizing f k with
  | nil => rfl
  | cons a xs ih =>
      rw [List.mapIdx_cons]
      cases k with
      | zero =>
          rw [List.filter_cons_of_pos ((hp 0 a).2 rfl),
            List.filter_eq_nil_iff.2]
          · rfl
          · intro b hb hpb
            obtain ⟨i, hi, rfl⟩ := List.mem_mapIdx.1 hb
            cases (hp (i + 1) _).1 hpb
      | succ k =>
          rw [List.filter_cons_of_neg fun h => nomatch (hp 0 a).1 h]
          exact ih fun i b => (hp (i + 1) b).trans Nat.succ_inj

/-- A member stands alone in a list without duplicates. -/
theorem exists_split {a : α} (hnodup : xs.Nodup) (ha : a ∈ xs) :
    ∃ front back, xs = front ++ a :: back ∧ ∀ x ∈ front ++ back, x ≠ a := by
  obtain ⟨front, back, rfl⟩ := List.append_of_mem ha
  refine ⟨front, back, rfl, ?_⟩
  rintro x hx rfl
  exact (List.nodup_cons.1 (List.nodup_middle.1 hnodup)).1 hx

theorem filter_eq_singleton {p : α → Bool} {a : α} (hnodup : xs.Nodup)
    (ha : a ∈ xs) (hp : ∀ x ∈ xs, p x = true ↔ x = a) :
    xs.filter p = [a] := by
  obtain ⟨front, back, rfl, hother⟩ := exists_split hnodup ha
  have hnone : ∀ x ∈ front ++ back, ¬ p x = true := fun x hx h =>
    hother x hx ((hp x (List.mem_append.2 ((List.mem_append.1 hx).imp_right
      (List.mem_cons_of_mem a)))).1 h)
  rw [List.filter_append, List.filter_cons_of_pos ((hp a ha).2 rfl),
    List.filter_eq_nil_iff.2 fun x hx =>
      hnone x (List.mem_append_left back hx),
    List.filter_eq_nil_iff.2 fun x hx =>
      hnone x (List.mem_append_right front hx)]
  rfl

end Collect
