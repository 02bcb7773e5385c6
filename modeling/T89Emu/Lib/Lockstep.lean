/-
Two lists of one length whose elements are related in order
(`List.Forall₂`), as what a program keeps is to what it stands for.

An element has a partner (`exists_partner`), a search for partners finds
partners (`find_rel`), and both lists can grow at their ends
(`forall₂_snoc`).
-/
import Mathlib.Data.List.Forall2

namespace Lockstep

variable {α β : Type _} {R S : α → β → Prop} {as : List α} {bs : List β}

/-- Each member of the first list has a partner. -/
theorem exists_partner (h : List.Forall₂ R as bs) {a : α} (ha : a ∈ as) :
    ∃ b ∈ bs, R a b := by
  induction h with
  | nil => cases ha
  | @cons a' b as bs hab _ ih =>
      rcases List.mem_cons.1 ha with rfl | ha
      · exact ⟨b, List.mem_cons_self, hab⟩
      · obtain ⟨b', hb', hab'⟩ := ih ha
        exact ⟨b', List.mem_cons_of_mem b hb', hab'⟩

/-- So has each member of the second one. -/
theorem exists_partner_right (h : List.Forall₂ R as bs) {b : β}
    (hb : b ∈ bs) : ∃ a ∈ as, R a b :=
  exists_partner h.flip hb

/-- Two searches find partners, if their tests agree on partners. -/
theorem find_rel (h : List.Forall₂ R as bs) {p : α → Bool} {q : β → Bool}
    (htests : ∀ a b, R a b → p a = q b) :
    Option.Rel R (as.find? p) (bs.find? q) := by
  induction h with
  | nil => exact .none
  | @cons a b as bs hab _ ih =>
      rw [List.find?_cons, List.find?_cons, htests a b hab]
      cases q b with
      | true => exact .some hab
      | false => exact ih

/-- One more element at both ends. -/
theorem forall₂_snoc {a : α} {b : β} :
    List.Forall₂ R (as ++ [a]) (bs ++ [b])
      ↔ List.Forall₂ R as bs ∧ R a b := by
  rw [← List.forall₂_reverse_iff]
  simp [List.forall₂_reverse_iff, and_comm]

/-- A part of the relation that the second list alone decides. -/
theorem forall₂_split {q : β → Prop}
    (hsplit : ∀ a ∈ as, ∀ b, R a b ↔ S a b ∧ q b) :
    List.Forall₂ R as bs ↔ List.Forall₂ S as bs ∧ ∀ b ∈ bs, q b := by
  induction as generalizing bs with
  | nil => cases bs <;> simp
  | cons a as ih =>
      obtain ⟨ha, has⟩ := List.forall_mem_cons.1 hsplit
      cases bs with
      | nil => simp
      | cons b bs =>
          rw [List.forall₂_cons, List.forall₂_cons, ha b, ih has,
            List.forall_mem_cons, and_and_and_comm]

end Lockstep
