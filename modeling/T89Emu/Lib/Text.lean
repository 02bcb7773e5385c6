/-
The conversions of `printf`, and reading them back.

Each conversion is a function to strings. Numbers are spelled by the
digits of the standard library (`Nat.toDigits`) and a number is
determined by its spelling (`hex_inj`, `decimal_inj`). A `row` is a name
padded to a column and behind it fields with commas in between; it
determines the name and the fields, provided that no name contains a
blank and no field a comma (`row_inj`).
-/
import Mathlib.Algebra.Ring.Nat
import Mathlib.Data.List.Basic

namespace Text

-- ========================================================== conversions

/-- `%x` -/
def hex (n : Nat) : String := String.ofList (Nat.toDigits 16 n)

/-- `%08x`, for the width 8. -/
def hexPadded (width n : Nat) : String :=
  String.ofList (List.replicate (width - (Nat.toDigits 16 n).length) '0')
    ++ hex n

/-- `%d` -/
def decimal (i : Int) : String :=
  (if i < 0 then "-" else "") ++ String.ofList (Nat.toDigits 10 i.natAbs)

/-- `%-8s`, for the width 8. -/
def padRight (width : Nat) (s : String) : String :=
  s ++ String.ofList (List.replicate (width - s.length) ' ')

/-- A padded name and fields with commas in between. -/
def row (width : Nat) (name : String) (fields : List String) : String :=
  padRight width name ++ String.intercalate "," fields

-- =============================================================== digits

/-- What is spelled is spelled with digits. -/
theorem mem_toDigits {b : Nat} (hb : 1 < b) (n : Nat) {c : Char}
    (hc : c ∈ Nat.toDigits b n) : ∃ d < b, c = d.digitChar := by
  induction n using Nat.strongRecOn with
  | ind n ih =>
      rw [Nat.toDigits_eq_if hb] at hc
      split at hc
      · next hlt => exact ⟨n, hlt, List.mem_singleton.1 hc⟩
      · next hge =>
        rcases List.mem_append.1 hc with hc | hc
        · exact ih (n / b) (Nat.div_lt_self (by omega) hb) hc
        · exact ⟨n % b, Nat.mod_lt _ (by omega), List.mem_singleton.1 hc⟩

/-- Up to base 16 the digits differ. -/
theorem digitChar_inj : ∀ d < 16, ∀ e < 16,
    d.digitChar = e.digitChar → d = e := by decide

/-- Up to base 16 a number is determined by its digits. -/
theorem toDigits_inj {b : Nat} (hb : 1 < b) (hb' : b ≤ 16) (m n : Nat)
    (h : Nat.toDigits b m = Nat.toDigits b n) : m = n := by
  induction m using Nat.strongRecOn generalizing n with
  | ind m ih =>
      rw [Nat.toDigits_eq_if hb, Nat.toDigits_eq_if (n := n) hb] at h
      split at h
      · next hm =>
        split at h
        · next hn =>
          exact digitChar_inj m (by omega) n (by omega)
            (List.singleton_inj.1 h)
        · exact absurd (List.append_eq_singleton_iff.1 h.symm) (by
            simp [Nat.toDigits_ne_nil])
      · next hm =>
        split at h
        · exact absurd (List.append_eq_singleton_iff.1 h) (by
            simp [Nat.toDigits_ne_nil])
        · next hn =>
          obtain ⟨hhigh, hlow⟩ := List.append_inj' h rfl
          have hdiv := ih (m / b) (Nat.div_lt_self (by omega) hb) (n / b)
            hhigh
          have hmod := digitChar_inj (m % b)
            (Nat.lt_of_lt_of_le (Nat.mod_lt _ (by omega)) hb') (n % b)
            (Nat.lt_of_lt_of_le (Nat.mod_lt _ (by omega)) hb')
            (List.singleton_inj.1 hlow)
          rw [← Nat.div_add_mod m b, ← Nat.div_add_mod n b, hdiv, hmod]

/-- A character that is no digit does not occur. -/
theorem notMem_hex {c : Char} (hc : ∀ d < 16, d.digitChar ≠ c) (n : Nat) :
    c ∉ (hex n).toList := by
  intro h
  unfold hex at h
  rw [String.toList_ofList] at h
  obtain ⟨d, hd, rfl⟩ := mem_toDigits (by decide) n h
  exact hc d hd rfl

theorem notMem_hexPadded {c : Char} (hc : ∀ d < 16, d.digitChar ≠ c)
    (width n : Nat) : c ∉ (hexPadded width n).toList := by
  intro h
  unfold hexPadded at h
  rw [String.toList_append, String.toList_ofList] at h
  rcases List.mem_append.1 h with h | h
  · exact hc 0 (by decide) (List.eq_of_mem_replicate h).symm
  · exact notMem_hex hc n h

theorem notMem_decimal {c : Char} (hc : ∀ d < 16, d.digitChar ≠ c)
    (hsign : c ≠ '-') (i : Int) : c ∉ (decimal i).toList := by
  intro h
  unfold decimal at h
  rw [String.toList_append, String.toList_ofList] at h
  rcases List.mem_append.1 h with h | h
  · split at h
    · exact hsign (List.mem_singleton.1 h)
    · cases h
  · obtain ⟨d, hd, rfl⟩ := mem_toDigits (by decide) _ h
    exact hc d (by omega) rfl

theorem hex_inj {m n : Nat} (h : hex m = hex n) : m = n :=
  toDigits_inj (by decide) (by decide) m n (String.ofList_injective h)

/-- Only the number 0 starts with the digit 0. -/
theorem toDigits_ne_zero_cons {b n : Nat} (hb : 1 < b) (hb' : b ≤ 16)
    (hn : 0 < n) (cs : List Char) : Nat.toDigits b n ≠ '0' :: cs := by
  induction n using Nat.strongRecOn generalizing cs with
  | ind n ih =>
      rw [Nat.toDigits_eq_if hb]
      split
      · next hlt =>
        intro h
        exact absurd (digitChar_inj n (by omega) 0 (by decide)
          (List.cons.inj h).1) (by omega)
      · next hge =>
        have hpos : 0 < n / b := Nat.div_pos (by omega) (by omega)
        intro h
        cases hhigh : Nat.toDigits b (n / b) with
        | nil => exact absurd hhigh Nat.toDigits_ne_nil
        | cons c high =>
            rw [hhigh, List.cons_append] at h
            obtain ⟨rfl, -⟩ := List.cons.inj h
            exact ih (n / b) (Nat.div_lt_self hn hb) hpos high hhigh

/-- So zeros in front of a number can be told from its digits. -/
theorem toDigits_eq_zeros {k m n : Nat}
    (h : Nat.toDigits 16 m = List.replicate k '0' ++ Nat.toDigits 16 n) :
    m = n := by
  cases k with
  | zero => exact toDigits_inj (by decide) (by decide) m n h
  | succ k =>
      rcases Nat.eq_zero_or_pos m with rfl | hpos
      · have hnil := (List.append_eq_nil_iff.1 (List.cons.inj h).2.symm).2
        exact absurd hnil Nat.toDigits_ne_nil
      · exact absurd h (toDigits_ne_zero_cons (by decide) (by decide) hpos _)

theorem hexPadded_inj {width m n : Nat}
    (h : hexPadded width m = hexPadded width n) : m = n := by
  unfold hexPadded hex at h
  rw [← String.toList_inj] at h
  simp only [String.toList_append, String.toList_ofList] at h
  generalize width - (Nat.toDigits 16 m).length = i at h
  generalize width - (Nat.toDigits 16 n).length = j at h
  rcases Nat.le_total i j with hij | hij
  · obtain ⟨k, rfl⟩ := Nat.exists_eq_add_of_le hij
    rw [← List.replicate_append_replicate, List.append_assoc] at h
    exact toDigits_eq_zeros (List.append_cancel_left h)
  · obtain ⟨k, rfl⟩ := Nat.exists_eq_add_of_le hij
    rw [← List.replicate_append_replicate, List.append_assoc] at h
    exact (toDigits_eq_zeros (List.append_cancel_left h.symm)).symm

/-- The sign of a number can be told from its first character. -/
theorem decimal_inj {i j : Int} (h : decimal i = decimal j) : i = j := by
  have hdigits : ∀ {m n : Nat}, Nat.toDigits 10 m = Nat.toDigits 10 n →
      m = n := fun h => toDigits_inj (by decide) (by decide) _ _ h
  have hminus : ∀ (n : Nat) (cs : List Char),
      Nat.toDigits 10 n ≠ '-' :: cs := by
    intro n cs hn
    obtain ⟨d, hd, hc⟩ := mem_toDigits (b := 10) (by decide) n
      (hn ▸ List.mem_cons_self)
    exact absurd hc ((by decide : ∀ d < 10, '-' ≠ d.digitChar) d hd)
  unfold decimal at h
  rw [← String.toList_inj] at h
  simp only [String.toList_append, String.toList_ofList] at h
  split at h
  · split at h
    · have := hdigits (List.cons_inj_right _ |>.1 h)
      omega
    · exact absurd h.symm (hminus _ _)
  · split at h
    · exact absurd h (hminus _ _)
    · have := hdigits h
      omega

/-- A padded number fills its width. -/
theorem le_length_hexPadded (width n : Nat) :
    width ≤ (hexPadded width n).toList.length := by
  unfold hexPadded hex
  simp only [String.toList_append, String.toList_ofList, List.length_append,
    List.length_replicate]
  omega

/-- The digits that a number below the power has. -/
theorem length_hex {n k : Nat} (hk : 0 < k) (hn : n < 16 ^ k) :
    (hex n).length ≤ k := by
  unfold hex
  rw [String.length_ofList]
  exact (Nat.length_toDigits_le_iff (by decide) hk).2 hn

theorem length_hexPadded {width n k : Nat} (hk : 0 < k) (hn : n < 16 ^ k)
    (hwidth : k ≤ width) : (hexPadded width n).length = width := by
  have hdigits := length_hex hk hn
  unfold hexPadded
  unfold hex at hdigits ⊢
  rw [String.length_ofList] at hdigits
  rw [String.length_append, String.length_ofList, String.length_ofList,
    List.length_replicate]
  omega

theorem length_decimal {i : Int} {k : Nat} (hk : 0 < k)
    (hi : i.natAbs < 10 ^ k) : (decimal i).length ≤ k + 1 := by
  have hdigits : (Nat.toDigits 10 i.natAbs).length ≤ k :=
    (Nat.length_toDigits_le_iff (by decide) hk).2 hi
  have hsign : (if i < 0 then "-" else "").length ≤ 1 := by
    split
    · exact Nat.le_refl 1
    · exact Nat.zero_le 1
  unfold decimal
  rw [String.length_append, String.length_ofList]
  omega

-- ================================================================= rows

/-- A padded name without blanks can be read back. -/
theorem padRight_inj {width : Nat} {s t : String} (hs : ' ' ∉ s.toList)
    (ht : ' ' ∉ t.toList) (h : padRight width s = padRight width t) :
    s = t := by
  have hname : ∀ u : String, ' ' ∉ u.toList →
      (padRight width u).toList.takeWhile (· != ' ') = u.toList := by
    intro u hu
    unfold padRight
    rw [String.toList_append, String.toList_ofList,
      List.takeWhile_append_of_pos]
    · cases width - u.length with
      | zero => simp
      | succ k => simp [List.replicate_succ]
    · intro c hc
      simp only [bne_iff_ne, ne_eq]
      rintro rfl
      exact hu hc
  rw [← String.toList_inj, ← hname s hs, h, hname t ht]

theorem length_padRight {width : Nat} {s : String} (hs : s.length ≤ width) :
    (padRight width s).toList.length = width := by
  unfold padRight
  rw [String.toList_append, String.toList_ofList, List.length_append,
    List.length_replicate, String.length_toList]
  omega

/-- A row determines its name and its fields. -/
theorem row_inj {width : Nat} {name name' : String}
    {fields fields' : List String} (hlen : name.length ≤ width)
    (hlen' : name'.length ≤ width) (hname : ' ' ∉ name.toList)
    (hname' : ' ' ∉ name'.toList) (hfields : ∀ f ∈ fields, ',' ∉ f.toList)
    (hfields' : ∀ f ∈ fields', ',' ∉ f.toList) (hne : fields ≠ [])
    (hne' : fields' ≠ [])
    (h : row width name fields = row width name' fields') :
    name = name' ∧ fields = fields' := by
  unfold row at h
  rw [← String.toList_inj, String.toList_append, String.toList_append] at h
  obtain ⟨hpad, hrest⟩ := List.append_inj h
    ((length_padRight hlen).trans (length_padRight hlen').symm)
  refine ⟨padRight_inj hname hname' (String.toList_inj.1 hpad), ?_⟩
  have hsplit : ∀ fs : List String, fs ≠ [] →
      (∀ f ∈ fs, ',' ∉ f.toList) →
      (String.intercalate "," fs).toList.splitOn ','
        = fs.map String.toList := by
    intro fs hfs hcomma
    rw [String.toList_intercalate]
    refine List.splitOn_intercalate ',' (fun l hl => ?_) (by simpa using hfs)
    obtain ⟨f, hf, rfl⟩ := List.mem_map.1 hl
    exact hcomma f hf
  have hmap := congrArg (List.splitOn ',') hrest
  rw [hsplit fields hne hfields, hsplit fields' hne' hfields'] at hmap
  exact List.map_injective_iff.2 (fun _ _ => String.toList_inj.1) hmap

/-- A row is at least as long as its column. -/
theorem le_length_row (width : Nat) (name : String) (fields : List String) :
    width ≤ (row width name fields).toList.length := by
  unfold row padRight
  simp only [String.toList_append, String.toList_ofList, List.length_append,
    List.length_replicate, String.length_toList]
  omega

/-- Fields and the commas in between. -/
theorem length_intercalate_le (fields : List String) :
    (String.intercalate "," fields).length
      ≤ (fields.map (·.length + 1)).sum := by
  induction fields with
  | nil => exact Nat.le_refl 0
  | cons f fields ih =>
      cases fields with
      | nil =>
          rw [String.intercalate_singleton]
          simp
      | cons g fields =>
          rw [String.intercalate_cons_cons, String.length_append,
            String.length_append, List.map_cons, List.sum_cons]
          have hcomma : ",".length = 1 := rfl
          omega

/-- A row under a name that fits its column. -/
theorem length_row_le {width : Nat} {name : String}
    (hname : name.length ≤ width) (fields : List String) :
    (row width name fields).length
      ≤ width + (fields.map (·.length + 1)).sum := by
  have hpad := length_padRight hname
  rw [String.length_toList] at hpad
  unfold row
  rw [String.length_append, hpad]
  exact Nat.add_le_add_left (length_intercalate_le fields) width

/-- Two fields have a comma in between. -/
theorem comma_mem_row (width : Nat) (name f g : String)
    (fields : List String) :
    ',' ∈ (row width name (f :: g :: fields)).toList := by
  unfold row
  rw [String.intercalate_cons_cons]
  simp

end Text
