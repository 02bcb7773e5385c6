/-
First-match dispatch over a list: a table is searched in order with a
test `p`, while what the search is meant to find is described by
another predicate `q` that holds of at most one entry.

# Exactness

`Exact p q l` says that the search does what it is meant to: it stops
at the entry `q` describes, and finds nothing when there is none.
Whether that is so depends on the order only through entries that the
test accepts although `q` does not hold of them, and `exact_iff` says
how: each of them must be preceded by the entry that is meant.
`exact_perm_iff` is the order-free form: the search is exact for every
order of the list exactly when test and description agree on its
entries.
-/
import Mathlib.Data.List.Perm.Basic

namespace FirstMatch

variable {α : Type _} {p q : α → Prop} [DecidablePred p]

/-- The entry that a search with test `p` stops at. -/
def search (p : α → Prop) [DecidablePred p] (l : List α) : Option α :=
  l.find? fun a => decide (p a)

/-- The search with test `p` finds the entry that `q` describes, and
nothing when no entry fits. -/
def Exact (p q : α → Prop) [DecidablePred p] (l : List α) : Prop :=
  (∀ a ∈ l, q a → search p l = some a)
    ∧ ((∀ a ∈ l, ¬ q a) → search p l = none)

@[simp] theorem search_nil : search p [] = none := rfl

theorem search_cons_of_pos {a : α} {l : List α} (h : p a) :
    search p (a :: l) = some a := by
  simp [search, h]

theorem search_cons_of_neg {a : α} {l : List α} (h : ¬ p a) :
    search p (a :: l) = search p l := by
  simp [search, h]

/-- What a search finds is an entry of the list that passes the test. -/
theorem search_eq_some {a : α} {l : List α} (h : search p l = some a) :
    a ∈ l ∧ p a :=
  ⟨List.mem_of_find?_eq_some h, by simpa using List.find?_some h⟩

/-- And none before it does. -/
theorem search_eq_some_iff {a : α} {l : List α} :
    search p l = some a
      ↔ p a ∧ ∃ l₁ l₂, l = l₁ ++ a :: l₂ ∧ ∀ b ∈ l₁, ¬ p b := by
  simp [search, List.find?_eq_some_iff_append]

theorem search_eq_none_iff {l : List α} :
    search p l = none ↔ ∀ a ∈ l, ¬ p a := by
  simp [search]

/-- A test that also accepts more finds the same entry exactly when each
entry it accepts wrongly comes after one that is meant. -/
theorem search_eq_search_iff [DecidablePred q] {l : List α}
    (hqp : ∀ a ∈ l, q a → p a) :
    search p l = search q l
      ↔ ∀ l₁ a l₂, l = l₁ ++ a :: l₂ → p a → ¬ q a → ∃ b ∈ l₁, q b := by
  constructor
  · rintro hsame l₁ a l₂ rfl hpa hqa
    cases hfound : search p (l₁ ++ a :: l₂) with
    | none => exact absurd hpa (search_eq_none_iff.1 hfound a (by simp))
    | some b =>
        have hqb := (search_eq_some (hsame ▸ hfound)).2
        obtain ⟨-, l₁', l₂', hsplit, hbefore⟩ := search_eq_some_iff.1 hfound
        -- the first entry that is accepted does not come after `a`
        rcases List.append_eq_append_iff.1 hsplit with
          ⟨l, rfl, hrest⟩ | ⟨l, rfl, hrest⟩
        · cases l with
          | nil =>
              rw [List.nil_append] at hrest
              obtain ⟨rfl, -⟩ := List.cons.inj hrest
              exact absurd hqb hqa
          | cons c l =>
              obtain ⟨rfl, -⟩ := List.cons.inj hrest
              exact absurd hpa (hbefore a (by simp))
        · cases l with
          | nil =>
              rw [List.nil_append] at hrest
              obtain ⟨rfl, -⟩ := List.cons.inj hrest
              exact absurd hqb hqa
          | cons c l =>
              obtain ⟨rfl, -⟩ := List.cons.inj hrest
              exact ⟨b, by simp, hqb⟩
  · intro hord
    cases hfound : search p l with
    | none =>
        have hnone := search_eq_none_iff.1 hfound
        exact (search_eq_none_iff.2 fun a ha hqa =>
          hnone a ha (hqp a ha hqa)).symm
    | some a =>
        obtain ⟨hpa, l₁, l₂, rfl, hbefore⟩ := search_eq_some_iff.1 hfound
        have hnone : ∀ b ∈ l₁, ¬ q b := fun b hb hqb =>
          hbefore b hb (hqp b (List.mem_append_left _ hb) hqb)
        by_cases hqa : q a
        · exact (search_eq_some_iff.2 ⟨hqa, l₁, l₂, rfl, hnone⟩).symm
        · obtain ⟨b, hb, hqb⟩ := hord l₁ a l₂ rfl hpa hqa
          exact absurd hqb (hnone b hb)

/-- The table holds at most one entry that `q` describes. -/
def Unique (q : α → Prop) (l : List α) : Prop :=
  ∀ a ∈ l, ∀ b ∈ l, q a → q b → a = b

theorem Unique.tail {a : α} {l : List α} (h : Unique q (a :: l)) :
    Unique q l := fun b hb c hc =>
  h b (List.mem_cons_of_mem a hb) c (List.mem_cons_of_mem a hc)

/-- An exact search of the tail makes an exact search of the whole,
when the head is neither accepted nor meant. -/
private theorem exact_cons_iff {a : α} {l : List α} (hp : ¬ p a)
    (hq : ¬ q a) : Exact p q (a :: l) ↔ Exact p q l := by
  unfold Exact
  rw [search_cons_of_neg hp]
  constructor
  · rintro ⟨hsome, hnone⟩
    refine ⟨fun b hb => hsome b (List.mem_cons_of_mem a hb), fun h => ?_⟩
    refine hnone fun b hb => ?_
    rcases List.mem_cons.1 hb with rfl | hb
    · exact hq
    · exact h b hb
  · rintro ⟨hsome, hnone⟩
    refine ⟨fun b hb hqb => ?_, fun h => ?_⟩
    · rcases List.mem_cons.1 hb with rfl | hb
      · exact absurd hqb hq
      · exact hsome b hb hqb
    · exact hnone fun b hb => h b (List.mem_cons_of_mem a hb)

/-- The search is exact for this order of the list exactly when the
test accepts the entry that is meant, and every entry it accepts
wrongly comes after that one. -/
theorem exact_iff {l : List α} (huniq : Unique q l) :
    Exact p q l ↔ (∀ a ∈ l, q a → p a)
      ∧ ∀ l₁ a l₂, l = l₁ ++ a :: l₂ → p a → ¬ q a → ∃ b ∈ l₁, q b := by
  induction l with
  | nil => simp [Exact]
  | cons a l ih =>
      by_cases hq : q a
      · -- the head is the entry that is meant
        have hne : ∀ b ∈ a :: l, q b → b = a := fun b hb hqb =>
          huniq b hb a (List.mem_cons_self ..) hqb hq
        constructor
        · rintro ⟨hsome, -⟩
          have ha : p a := (search_eq_some (hsome a (by simp) hq)).2
          refine ⟨fun b hb hqb => hne b hb hqb ▸ ha, ?_⟩
          intro l₁ b l₂ hsplit _ hqb
          cases l₁ with
          | nil => simp_all
          | cons c l₁ =>
              simp only [List.cons_append, List.cons.injEq] at hsplit
              exact ⟨c, by simp, hsplit.1 ▸ hq⟩
        · rintro ⟨hacc, -⟩
          refine ⟨fun b hb hqb => ?_, fun h => absurd hq (h a (by simp))⟩
          rw [hne b hb hqb]
          exact search_cons_of_pos (hacc a (by simp) hq)
      · by_cases hp : p a
        · -- the head is accepted wrongly, and nothing precedes it
          constructor
          · rintro ⟨hsome, hnone⟩
            exfalso
            by_cases hex : ∃ b ∈ a :: l, q b
            · obtain ⟨b, hb, hqb⟩ := hex
              have hab := hsome b hb hqb
              rw [search_cons_of_pos hp, Option.some.injEq] at hab
              exact hq (hab ▸ hqb)
            · push Not at hex
              have := hnone hex
              rw [search_cons_of_pos hp] at this
              cases this
          · rintro ⟨-, hord⟩
            obtain ⟨b, hb, -⟩ := hord [] a l rfl hp hq
            cases hb
        · rw [exact_cons_iff hp hq, ih huniq.tail]
          refine and_congr ?_ ?_
          · simp [hq]
          · constructor
            · intro hord l₁ b l₂ hsplit hpb hqb
              cases l₁ with
              | nil =>
                  simp only [List.nil_append, List.cons.injEq] at hsplit
                  exact absurd (hsplit.1 ▸ hpb) hp
              | cons c l₁ =>
                  simp only [List.cons_append, List.cons.injEq] at hsplit
                  obtain ⟨d, hd, hqd⟩ := hord l₁ b l₂ hsplit.2 hpb hqb
                  exact ⟨d, List.mem_cons_of_mem c hd, hqd⟩
            · intro hord l₁ b l₂ hsplit hpb hqb
              obtain ⟨d, hd, hqd⟩ :=
                hord (a :: l₁) b l₂ (by rw [hsplit]; rfl) hpb hqb
              rcases List.mem_cons.1 hd with rfl | hd
              · exact absurd hqd hq
              · exact ⟨d, hd, hqd⟩

/-- The search is exact for every order of the list exactly when test
and description agree on its entries. -/
theorem exact_perm_iff {l : List α} (huniq : Unique q l) :
    (∀ l', l'.Perm l → Exact p q l') ↔ ∀ a ∈ l, (p a ↔ q a) := by
  constructor
  · intro hall a ha
    -- the order that puts `a` in front decides about `a`
    obtain ⟨l₁, l₂, rfl⟩ := List.append_of_mem ha
    have hperm : (a :: (l₁ ++ l₂)).Perm (l₁ ++ a :: l₂) :=
      List.perm_middle.symm
    have huniq' : Unique q (a :: (l₁ ++ l₂)) := fun b hb c hc =>
      huniq b (hperm.subset hb) c (hperm.subset hc)
    obtain ⟨hacc, hord⟩ := (exact_iff huniq').1 (hall _ hperm)
    refine ⟨fun hpa => ?_, hacc a (List.mem_cons_self ..)⟩
    by_contra hqa
    obtain ⟨b, hb, -⟩ := hord [] a _ rfl hpa hqa
    cases hb
  · intro hagree l' hperm
    have huniq' : Unique q l' := fun b hb c hc =>
      huniq b (hperm.subset hb) c (hperm.subset hc)
    refine (exact_iff huniq').2 ⟨fun a ha hqa => ?_, ?_⟩
    · exact (hagree a (hperm.subset ha)).2 hqa
    · intro l₁ a l₂ hsplit hpa hqa
      have ha : a ∈ l' := by rw [hsplit]; simp
      exact absurd ((hagree a (hperm.subset ha)).1 hpa) hqa

end FirstMatch
