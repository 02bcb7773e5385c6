/-
Abbreviation tables survive parsing, and which do not.

The parser reads every number of a table with the unsigned decoder. A
code comes back if it is below 2^31, and the others if they fit in the
32 bits of their enumeration; a constant has a sign, which the unsigned
decoder knows nothing of, and comes back only if that makes no
difference (`ConstOk`).

The first number that does not come back spoils the table whatever
follows it. The declaration that contains it is in the table with
another tag or other attributes, and the first declaration of a code
stays (`declares_of_run`); or the code itself is missing, because no
decoded number is equal to it (`Widened`). So a table survives exactly
when all of its declarations are sound (`abbreviations_survive_iff`).
-/
import T89Emu.Dwarf.DwarfParser
import T89Emu.Dwarf.Proofs.Leb128
import T89Emu.Lib.Dwarf.Abbreviation

namespace T89Emu.Dwarf

open Cpp Decode Abbreviation

-- ================================================ statement vocabulary

/-- The attribute is what the specification says. -/
structure Specifies (a : Spec) (entry : AttributeEntry) : Prop where
  name : entry.name.code.toNat = a.name.unsigned
  form : entry.form.code.toNat = a.form.unsigned
  special : entry.special.toInt = a.constant

/-- The entry is what the declaration says. -/
structure Declares (d : Decl) (entry : AbbrevEntry) : Prop where
  dieCode : entry.dieCode = BitVec.ofNat 64 d.code.unsigned
  dieTag : entry.dieTag.code.toNat = d.tag.unsigned
  hasChild : entry.hasChild = d.children
  attEntries : List.Forall₂ Specifies d.specs entry.attEntries

/-- The bytes of the table, whatever lies behind them, become a table
with the declarations and no others, and no more than they is
consumed. -/
def Survives (decls : List Decl) (behind : List U8) : Prop :=
  let start := bytes decls ++ behind
  let s := DataStream.unbounded (some start)
  ∃ t, AbbrevTable.new start = .ok t
    ∧ decodeAbbrevEntries (start.length + 1) ⟨[]⟩ s
      = .ok (t, s.skip (bytes decls).length)
    ∧ (∀ d ∈ decls, ∃ entry,
        t.getAbbrevEntry (BitVec.ofNat 64 d.code.unsigned) = some entry
          ∧ Declares d entry)
    ∧ ∀ code : U64,
        (∀ d ∈ decls, code ≠ BitVec.ofNat 64 d.code.unsigned) →
        t.getAbbrevEntry code = none

/-- The number comes back in 32 bits. -/
def Fits32 (e : Leb128) : Prop := e.size ≤ 5 ∧ e.unsigned < 2 ^ 32

/-- The constant comes back with its sign, although it is read without:
it has none and at most four bytes, or it has five, whose bit 31 is
taken for the sign. -/
def ConstOk (e : Leb128) : Prop :=
  e.size ≤ 4 ∧ 0 ≤ e.signed
    ∨ e.size = 5 ∧ -2 ^ 31 ≤ e.signed ∧ e.signed < 2 ^ 31

/-- The specification comes back. -/
structure Spec.Sound (a : Spec) : Prop where
  name : Fits32 a.name
  form : Fits32 a.form
  const : a.form.unsigned = implicitConst → ConstOk a.const

/-- The declaration comes back. -/
structure Decl.Sound (d : Decl) : Prop where
  code : d.code.size ≤ 5 ∧ d.code.unsigned < 2 ^ 31
  tag : Fits32 d.tag
  specs : ∀ a ∈ d.specs, Spec.Sound a

-- ================================================================ numbers

/-- The enumerator of a number has its value exactly if that fits. -/
theorem low_eq_iff (e : Leb128) :
    ((ulebValue e).setWidth 32).toNat = e.unsigned
      ↔ e.unsigned < 2 ^ 32 := by
  rw [ulebValue_low, BitVec.toNat_ofNat]
  omega

/-- The signed number that the unsigned decoder's bits stand for. -/
theorem toInt_ulebValue (e : Leb128) :
    (ulebValue e).toInt = Int.bmod e.unsigned (2 ^ 32) := by
  rw [ulebValue, lebValue_eq, Nat.shiftLeft_zero,
    BitVec.toInt_signExtend_of_le (by decide), BitVec.toInt_ofNat']
  rfl

/-- A constant of at most five bytes comes back with its sign exactly
when it is sound. -/
theorem toInt_eq_signed_iff {e : Leb128} (h5 : e.size ≤ 5) :
    (ulebValue e).toInt = e.signed ↔ ConstOk e := by
  have hlt := e.unsigned_lt
  have hfour : e.size ≤ 4 → 2 ^ (7 * e.size) ≤ 2 ^ 28 := fun h =>
    Nat.pow_le_pow_right (by omega) (by omega)
  have hfive : e.size = 5 → 2 ^ (7 * e.size) = 2 ^ 35 := fun h => by rw [h]
  rw [toInt_ulebValue]
  unfold ConstOk Leb128.signed Int.bmod
  generalize 2 ^ (7 * e.size) = m at hlt hfour hfive
  dsimp only
  split
  · split
    · omega
    · omega
  · split
    · omega
    · omega

/-- A number that was widened with its sign from 32 bits. -/
def Widened (v : U64) : Prop := ∃ x : U32, v = x.signExtend 64

/-- Every number that the unsigned decoder delivers is one. -/
theorem widened_of_uleb {s : DataStream} {r : U64 × DataStream}
    (h : decodeULeb128 s = .ok r) : Widened r.1 := by
  obtain ⟨e, t, hs, -⟩ := encoding_of_uleb h
  obtain ⟨-, rfl⟩ := uleb_of_ok hs h
  exact ⟨_, lebValue_eq e.groups 0⟩

/-- The numbers of five bytes among them are those below 2^31. -/
theorem lt_of_widened {u : Nat} (hu : u < 2 ^ 35)
    (h : Widened (BitVec.ofNat 64 u)) : u < 2 ^ 31 := by
  obtain ⟨x, hx⟩ := h
  have hlow : x = BitVec.ofNat 32 u := by
    rw [← setWidth_ofNat, hx]
    exact (Bytes.setWidth_signExtend x (by decide)).symm
  rw [hlow] at hx
  exact (signExtend_eq_iff hu).1 hx.symm

/-- The form with a constant is recognized by its low 32 bits. -/
theorem ofCode_eq_implicit_const_iff (code : U64) :
    FormEncoding.ofCode code = .implicit_const
      ↔ code.setWidth 32 = 0x21#32 := by
  constructor
  · intro h
    rw [← FormEncoding.code_ofCode, h]
    rfl
  · intro h
    unfold FormEncoding.ofCode
    rw [h]
    rfl

/-- Of a form that fits they are all of it. -/
theorem implicit_const_iff {e : Leb128} (h : Fits32 e) :
    FormEncoding.ofCode (ulebValue e) = .implicit_const
      ↔ e.unsigned = implicitConst := by
  have hlt := h.2
  rw [ofCode_eq_implicit_const_iff, ulebValue_low, ← BitVec.toNat_inj,
    BitVec.toNat_ofNat, Nat.mod_eq_of_lt hlt]
  rfl

-- ========================================================= specifications

/-- What the parser makes of a specification. -/
def attributeOf (a : Spec) : AttributeEntry where
  name := .ofCode (ulebValue a.name)
  form := .ofCode (ulebValue a.form)
  special := if a.form.unsigned = implicitConst then ulebValue a.const else 0

/-- That is right exactly if the specification is sound. -/
theorem specifies_attributeOf_iff {a : Spec} (hname : a.name.size ≤ 5)
    (hform : a.form.size ≤ 5)
    (hconst : a.form.unsigned = implicitConst → a.const.size ≤ 5) :
    Specifies a (attributeOf a) ↔ Spec.Sound a := by
  have hspecial : (attributeOf a).special.toInt = a.constant
      ↔ (a.form.unsigned = implicitConst → ConstOk a.const) := by
    unfold attributeOf Spec.constant
    dsimp only
    by_cases himp : a.form.unsigned = implicitConst
    · rw [if_pos himp, if_pos himp, toInt_eq_signed_iff (hconst himp)]
      exact ⟨fun h _ => h, fun h => h himp⟩
    · rw [if_neg himp, if_neg himp]
      exact iff_of_true rfl fun h => absurd h himp
  have hcodeName : (attributeOf a).name.code.toNat = a.name.unsigned
      ↔ a.name.unsigned < 2 ^ 32 := by
    rw [← low_eq_iff, ← AttributeEncoding.code_ofCode]
    rfl
  have hcodeForm : (attributeOf a).form.code.toNat = a.form.unsigned
      ↔ a.form.unsigned < 2 ^ 32 := by
    rw [← low_eq_iff, ← FormEncoding.code_ofCode]
    rfl
  constructor
  · intro h
    exact ⟨⟨hname, hcodeName.1 h.name⟩, ⟨hform, hcodeForm.1 h.form⟩,
      hspecial.1 h.special⟩
  · intro h
    exact ⟨hcodeName.2 h.name.2, hcodeForm.2 h.form.2, hspecial.2 h.const⟩

/-- What is read behind a form. -/
def specialOf (form : U64) : Decoder U64 :=
  if FormEncoding.ofCode form = .implicit_const then decodeULeb128
  else pure 0

/-- A round of the inner loop, from the numbers of a pair on. -/
theorem attributes_pair {name form : Leb128} (hname : name.size ≤ 5)
    (hform : form.size ≤ 5) (fuel : Nat) {s : DataStream} {t : List U8}
    (hs : s.rest = name.bytes ++ (form.bytes ++ t)) :
    decodeAttributeEntries (fuel + 1) s
      = if (ulebValue name).setWidth 32 = 0#32
          ∧ (ulebValue form).setWidth 32 = 0#32 then
          .ok ([], (s.skip name.size).skip form.size)
        else (do
          let (special, s) ← specialOf (ulebValue form)
            ((s.skip name.size).skip form.size)
          let (entries, s) ← decodeAttributeEntries fuel s
          pure (⟨.ofCode (ulebValue name), .ofCode (ulebValue form),
            special⟩ :: entries, s)) := by
  have hrest : (s.skip name.size).rest = form.bytes ++ t :=
    rest_skip hs (Leb128.length_bytes name)
  show (decodeULeb128 s >>= _) = _
  rw [uleb_all name hs, if_pos hname, ok_bind]
  show (decodeULeb128 (s.skip name.size) >>= _) = _
  rw [uleb_all form hrest, if_pos hform, ok_bind]
  by_cases hend : (ulebValue name).setWidth 32 = 0#32
      ∧ (ulebValue form).setWidth 32 = 0#32
  · rw [if_pos hend]
    dsimp only
    rw [if_pos hend]
    rfl
  · rw [if_neg hend]
    dsimp only
    rw [if_neg hend]
    unfold specialOf
    split
    · rfl
    · rfl

/-- A loop that returns has read both numbers. -/
theorem short_of_attributes {name form : Leb128} {fuel : Nat}
    {s : DataStream} {t : List U8}
    {r : List AttributeEntry × DataStream}
    (hs : s.rest = name.bytes ++ (form.bytes ++ t))
    (h : decodeAttributeEntries (fuel + 1) s = .ok r) :
    name.size ≤ 5 ∧ form.size ≤ 5 := by
  have hrest : (s.skip name.size).rest = form.bytes ++ t :=
    rest_skip hs (Leb128.length_bytes name)
  obtain ⟨_, hfirst, h⟩ := bind_eq_ok.1 h
  obtain ⟨_, hsecond, -⟩ := bind_eq_ok.1 h
  obtain ⟨hname, rfl⟩ := uleb_of_ok hs hfirst
  exact ⟨hname, (uleb_of_ok hrest hsecond).1⟩

/-- The zeros end it. -/
theorem attributes_end (fuel : Nat) {s : DataStream} {t : List U8}
    (hs : s.rest = [0, 0] ++ t) :
    decodeAttributeEntries (fuel + 1) s = .ok ([], s.skip 2) := by
  have hzero : (Leb128.single 0).bytes = [0] := by decide
  have hvalue : (ulebValue (Leb128.single 0)).setWidth 32 = 0#32 := by decide
  have hpair : s.rest = (Leb128.single 0).bytes
      ++ ((Leb128.single 0).bytes ++ t) := by
    rw [hs, hzero]
    rfl
  rw [attributes_pair (by decide) (by decide) fuel hpair,
    if_pos ⟨hvalue, hvalue⟩]
  rfl

/-- The constant of a specification whose form fits. -/
theorem special_run {a : Spec} (hform : Fits32 a.form) {s : DataStream}
    {t : List U8} (hs : s.rest = a.constBytes ++ t) :
    specialOf (ulebValue a.form) s
      = if a.form.unsigned = implicitConst → a.const.size ≤ 5 then
          .ok ((attributeOf a).special, s.skip a.constBytes.length)
        else .error (.undefined .shiftCount) := by
  unfold specialOf attributeOf Spec.constBytes at *
  dsimp only
  by_cases himp : a.form.unsigned = implicitConst
  · rw [if_pos himp] at hs
    rw [if_pos ((implicit_const_iff hform).2 himp), if_pos himp,
      if_pos himp, uleb_all a.const hs, Leb128.length_bytes]
    simp only [himp, forall_const]
  · rw [if_neg fun h => himp ((implicit_const_iff hform).1 h),
      if_neg himp, if_neg himp, if_pos fun h => absurd h himp]
    rfl

/-- No sound specification is taken for the end. -/
theorem not_end {a : Spec} (hname : Fits32 a.name) (hform : Fits32 a.form) :
    ¬ ((ulebValue a.name).setWidth 32 = 0#32
      ∧ (ulebValue a.form).setWidth 32 = 0#32) := by
  rintro ⟨hn, hf⟩
  refine a.notEnd ⟨?_, ?_⟩
  · rw [← (low_eq_iff a.name).2 hname.2, hn]
    rfl
  · rw [← (low_eq_iff a.form).2 hform.2, hf]
    rfl

/-- The stream behind the name, the form and the constant. -/
theorem skip_spec (a : Spec) (s : DataStream) :
    (((s.skip a.name.size).skip a.form.size).skip a.constBytes.length)
      = s.skip a.bytes.length := by
  simp [DataStream.skip, Spec.bytes, Nat.add_assoc]

/-- Sound specifications come back. -/
theorem attributes_run {specs : List Spec}
    (h : ∀ a ∈ specs, Spec.Sound a) {fuel : Nat}
    (hfuel : specs.length < fuel) {s : DataStream} {t : List U8}
    (hs : s.rest = specBytes specs ++ t) :
    decodeAttributeEntries fuel s
      = .ok (specs.map attributeOf, s.skip (specBytes specs).length) := by
  induction specs generalizing fuel s with
  | nil =>
      obtain ⟨fuel, rfl⟩ : ∃ k, fuel = k + 1 := ⟨fuel - 1, by omega⟩
      exact attributes_end fuel hs
  | cons a specs ih =>
      rw [List.length_cons] at hfuel
      obtain ⟨fuel, rfl⟩ : ∃ k, fuel = k + 1 := ⟨fuel - 1, by omega⟩
      have ha : Spec.Sound a := h a List.mem_cons_self
      rw [specBytes_cons, List.append_assoc] at hs
      have hrest := rest_skip (n := a.bytes.length) hs rfl
      rw [Spec.bytes, List.append_assoc, List.append_assoc] at hs
      have hform : ((s.skip a.name.size).skip a.form.size).rest
          = a.constBytes ++ (specBytes specs ++ t) :=
        rest_skip (rest_skip hs (Leb128.length_bytes _))
          (Leb128.length_bytes _)
      have hconst : a.form.unsigned = implicitConst → a.const.size ≤ 5 := by
        intro himp
        rcases ha.const himp with h4 | h5
        · omega
        · omega
      rw [attributes_pair ha.name.1 ha.form.1 fuel hs,
        if_neg (not_end ha.name ha.form), special_run ha.form hform,
        if_pos hconst, ok_bind]
      dsimp only
      rw [skip_spec, ih (fun b hb => h b (List.mem_cons_of_mem a hb))
        (by omega) hrest, ok_bind, specBytes_cons, List.length_append]
      refine congrArg Except.ok (Prod.ext rfl ?_)
      simp [DataStream.skip, Nat.add_assoc]

/-- And if what the loop returns is right, they were sound. -/
theorem attributes_sound {specs : List Spec} {fuel : Nat} {s s' : DataStream}
    {t : List U8} {entries : List AttributeEntry}
    (hs : s.rest = specBytes specs ++ t)
    (h : decodeAttributeEntries fuel s = .ok (entries, s'))
    (hspec : List.Forall₂ Specifies specs entries) :
    ∀ a ∈ specs, Spec.Sound a := by
  induction specs generalizing fuel s s' entries with
  | nil => exact fun a ha => absurd ha List.not_mem_nil
  | cons a specs ih =>
      cases fuel with
      | zero => cases h
      | succ fuel =>
          rw [specBytes_cons, List.append_assoc] at hs
          have hrest := rest_skip (n := a.bytes.length) hs rfl
          rw [Spec.bytes, List.append_assoc, List.append_assoc] at hs
          obtain ⟨hname, hform⟩ := short_of_attributes hs h
          have hnext : ((s.skip a.name.size).skip a.form.size).rest
              = a.constBytes ++ (specBytes specs ++ t) :=
            rest_skip (rest_skip hs (Leb128.length_bytes _))
              (Leb128.length_bytes _)
          rw [attributes_pair hname hform fuel hs] at h
          split at h
          · -- taken for the end: an attribute is missing
            cases h
            cases hspec
          · obtain ⟨⟨special, s₁⟩, hspecial, h⟩ := bind_eq_ok.1 h
            obtain ⟨⟨rest, s₂⟩, hrun, h⟩ := bind_eq_ok.1 h
            obtain ⟨rfl, -⟩ := Prod.mk.inj (Except.ok.inj h)
            obtain ⟨hhead, htail⟩ := List.forall₂_cons.1 hspec
            have hname32 : Fits32 a.name := by
              refine ⟨hname, (low_eq_iff a.name).1 ?_⟩
              rw [← AttributeEncoding.code_ofCode]
              exact hhead.name
            have hform32 : Fits32 a.form := by
              refine ⟨hform, (low_eq_iff a.form).1 ?_⟩
              rw [← FormEncoding.code_ofCode]
              exact hhead.form
            rw [special_run hform32 hnext] at hspecial
            split at hspecial
            · next hconst =>
              obtain ⟨rfl, rfl⟩ := Prod.mk.inj (Except.ok.inj hspecial)
              have ha : Spec.Sound a :=
                (specifies_attributeOf_iff hname hform hconst).1 hhead
              rw [skip_spec] at hrun
              intro b hb
              rcases List.mem_cons.1 hb with rfl | hb
              · exact ha
              · exact ih hrest hrun htail b hb
            · cases hspecial

-- ============================================================= the table

/-- A code that is there already stays, another one is added. -/
theorem getAbbrevEntry_insert (t : AbbrevTable) (dieCode : U64)
    (entry : AbbrevEntry) (code : U64) :
    (t.insert dieCode entry).getAbbrevEntry code
      = (t.getAbbrevEntry code).or
          (if code = dieCode then some entry else none) := by
  unfold AbbrevTable.insert AbbrevTable.getAbbrevEntry
  cases hkey : t.abbrevEntries.lookup dieCode with
  | some e =>
      dsimp only
      by_cases hcode : code = dieCode
      · rw [hcode, hkey]
        rfl
      · rw [if_neg hcode, Option.or_none]
  | none =>
      dsimp only
      rw [List.lookup_append]
      by_cases hcode : code = dieCode
      · rw [if_pos hcode, hcode, List.lookup_cons_self]
      · have hkeys : (code == dieCode) = false := beq_eq_false_iff_ne.2 hcode
        rw [if_neg hcode, List.lookup_cons, hkeys]
        rfl

/-- A round of the outer loop that returns. -/
theorem abbrevs_cases {fuel : Nat} {t t' : AbbrevTable} {s s' : DataStream}
    (h : decodeAbbrevEntries (fuel + 1) t s = .ok (t', s')) :
    ∃ code s₁, decodeULeb128 s = .ok (code, s₁)
      ∧ (code = 0#64 ∧ t' = t
        ∨ code ≠ 0#64 ∧ ∃ tag s₂ child s₃ attEntries s₄,
          decodeULeb128 s₁ = .ok (tag, s₂)
            ∧ decodeULeb128 s₂ = .ok (child, s₃)
            ∧ decodeAttributeEntries (s₃.rest.length + 1) s₃
              = .ok (attEntries, s₄)
            ∧ decodeAbbrevEntries fuel (t.insert code
                ⟨code, .ofCode tag, child ≠ 0#64, attEntries⟩) s₄
              = .ok (t', s')) := by
  obtain ⟨⟨code, s₁⟩, hcode, h⟩ := bind_eq_ok.1 h
  refine ⟨code, s₁, hcode, ?_⟩
  dsimp only at h
  by_cases hzero : code = 0#64
  · rw [if_pos hzero] at h
    exact .inl ⟨hzero, (Prod.mk.inj (Except.ok.inj h)).1.symm⟩
  · rw [if_neg hzero] at h
    obtain ⟨⟨tag, s₂⟩, htag, h⟩ := bind_eq_ok.1 h
    obtain ⟨⟨child, s₃⟩, hchild, h⟩ := bind_eq_ok.1 h
    obtain ⟨⟨attEntries, s₄⟩, hattrs, h⟩ := bind_eq_ok.1 h
    exact .inr ⟨hzero, tag, s₂, child, s₃, attEntries, s₄, htag, hchild,
      hattrs, h⟩

/-- What is in the table stays in it. -/
theorem getAbbrevEntry_stays {fuel : Nat} {t t' : AbbrevTable}
    {s s' : DataStream}
    (h : decodeAbbrevEntries fuel t s = .ok (t', s')) (code : U64)
    {entry : AbbrevEntry} (hentry : t.getAbbrevEntry code = some entry) :
    t'.getAbbrevEntry code = some entry := by
  induction fuel generalizing t s with
  | zero => cases h
  | succ fuel ih =>
      obtain ⟨_, _, -, ⟨-, rfl⟩ | ⟨-, _, _, _, _, _, _, -, -, -, hrest⟩⟩ :=
        abbrevs_cases h
      · exact hentry
      · refine ih hrest ?_
        rw [getAbbrevEntry_insert, hentry]
        rfl

/-- What comes into it has the code of a decoded number. -/
theorem widened_of_getAbbrevEntry {fuel : Nat} {t t' : AbbrevTable}
    {s s' : DataStream} {code : U64}
    (h : decodeAbbrevEntries fuel t s = .ok (t', s'))
    (hbefore : t.getAbbrevEntry code ≠ none → Widened code)
    (hafter : t'.getAbbrevEntry code ≠ none) : Widened code := by
  induction fuel generalizing t s with
  | zero => cases h
  | succ fuel ih =>
      obtain ⟨key, _, hkey, ⟨-, rfl⟩ | ⟨-, _, _, _, _, _, _, -, -, -, hrest⟩⟩
        := abbrevs_cases h
      · exact hbefore hafter
      · refine ih hrest fun hinserted => ?_
        rw [getAbbrevEntry_insert] at hinserted
        by_cases hcode : code = key
        · rw [hcode]
          exact widened_of_uleb hkey
        · rw [if_neg hcode, Option.or_none] at hinserted
          exact hbefore hinserted

-- =========================================================== declarations

/-- What the parser makes of a sound declaration. -/
def abbrevOf (d : Decl) : AbbrevEntry where
  dieCode := BitVec.ofNat 64 d.code.unsigned
  dieTag := .ofCode (ulebValue d.tag)
  hasChild := d.children
  attEntries := d.specs.map attributeOf

/-- That is right. -/
theorem declares_abbrevOf {d : Decl} (h : Decl.Sound d) :
    Declares d (abbrevOf d) where
  dieCode := rfl
  dieTag := by
    rw [← (low_eq_iff d.tag).2 h.tag.2, ← TagEncoding.code_ofCode]
    rfl
  hasChild := rfl
  attEntries := by
    rw [abbrevOf, List.forall₂_map_right_iff, List.forall₂_same]
    intro a ha
    have hsound : Spec.Sound a := h.specs a ha
    refine (specifies_attributeOf_iff hsound.name.1 hsound.form.1
      fun himp => ?_).2
      hsound
    rcases hsound.const himp with h4 | h5
    · omega
    · omega

/-- The flag is a number of one byte. -/
theorem flag_run (children : Bool) {s : DataStream} {t : List U8}
    (hs : s.rest = (if children then 1 else 0) :: t) :
    decodeULeb128 s
      = .ok (if children then 1 else 0, s.skip 1) := by
  cases children with
  | true => exact uleb_run (e := .single 1) (by decide) hs
  | false => exact uleb_run (e := .single 0) (by decide) hs

/-- The code of a sound declaration is not taken for the end. -/
theorem code_of_sound {e : Leb128} (h : e.size ≤ 5 ∧ e.unsigned < 2 ^ 31)
    (hne : e.unsigned ≠ 0) :
    ulebValue e = BitVec.ofNat 64 e.unsigned ∧ ulebValue e ≠ 0#64 := by
  have hvalue : ulebValue e = BitVec.ofNat 64 e.unsigned :=
    (lebValue_eq_iff h.1).2 h.2
  refine ⟨hvalue, fun hzero => hne ?_⟩
  have hnat := congrArg BitVec.toNat (hvalue.symm.trans hzero)
  rw [BitVec.toNat_ofNat] at hnat
  have hlt := h.2
  simp only [BitVec.toNat_ofNat] at hnat
  omega

/-- The stream behind the code, the tag, the flag and the specifications
of a declaration. -/
theorem skip_decl (d : Decl) (s : DataStream) :
    ((((s.skip d.code.size).skip d.tag.size).skip 1).skip
        (specBytes d.specs).length)
      = s.skip d.bytes.length := by
  simp only [DataStream.skip, Decl.bytes, List.length_append,
    List.length_cons, Leb128.length_bytes]
  congr 1
  omega

/-- In front of a declaration lie its code, its tag, its flag and its
attributes. -/
theorem decl_fronts {d : Decl} {s : DataStream} {rest : List U8}
    (hs : s.rest = d.bytes ++ rest) :
    s.rest = d.code.bytes ++ (d.tag.bytes
        ++ ((if d.children then 1 else 0) :: (specBytes d.specs ++ rest)))
      ∧ (s.skip d.code.size).rest = d.tag.bytes
        ++ ((if d.children then 1 else 0) :: (specBytes d.specs ++ rest))
      ∧ ((s.skip d.code.size).skip d.tag.size).rest
        = (if d.children then 1 else 0) :: (specBytes d.specs ++ rest)
      ∧ (((s.skip d.code.size).skip d.tag.size).skip 1).rest
        = specBytes d.specs ++ rest := by
  rw [Decl.bytes, List.append_assoc, List.append_assoc,
    List.cons_append] at hs
  have hs₁ := rest_skip hs (Leb128.length_bytes _)
  have hs₂ := rest_skip hs₁ (Leb128.length_bytes _)
  exact ⟨hs, hs₁, hs₂,
    rest_skip (w := [if d.children then 1 else 0]) hs₂ rfl⟩

/-- A round on a sound declaration. -/
theorem abbrevs_decl {d : Decl} (h : Decl.Sound d) (fuel : Nat)
    (t : AbbrevTable) {s : DataStream} {rest : List U8}
    (hs : s.rest = d.bytes ++ rest) :
    decodeAbbrevEntries (fuel + 1) t s
      = decodeAbbrevEntries fuel
          (t.insert (BitVec.ofNat 64 d.code.unsigned) (abbrevOf d))
          (s.skip d.bytes.length) := by
  obtain ⟨hvalue, hzero⟩ := code_of_sound h.code d.nonzero
  obtain ⟨hs₀, hs₁, hs₂, hs₃⟩ := decl_fronts hs
  have hfuel : d.specs.length
      < ((((s.skip d.code.size).skip d.tag.size).skip 1).rest).length
        + 1 := by
    have hlen := length_specs_lt d.specs
    rw [hs₃, List.length_append]
    omega
  show (decodeULeb128 s >>= _) = _
  rw [uleb_all d.code hs₀, if_pos h.code.1, ok_bind]
  dsimp only
  rw [if_neg hzero]
  show (decodeULeb128 (s.skip d.code.size) >>= _) = _
  rw [uleb_all d.tag hs₁, if_pos h.tag.1, ok_bind]
  show (decodeULeb128 ((s.skip d.code.size).skip d.tag.size) >>= _) = _
  rw [flag_run d.children hs₂, ok_bind]
  show (decodeAttributeEntries _
    (((s.skip d.code.size).skip d.tag.size).skip 1) >>= _) = _
  rw [attributes_run h.specs hfuel hs₃, ok_bind, skip_decl, hvalue]
  cases hflag : d.children with
  | true =>
      rw [abbrevOf, hflag]
      rfl
  | false =>
      rw [abbrevOf, hflag]
      rfl

/-- Code 0 ends the table. -/
theorem abbrevs_end (fuel : Nat) (t : AbbrevTable) {s : DataStream}
    {rest : List U8} (hs : s.rest = [0] ++ rest) :
    decodeAbbrevEntries (fuel + 1) t s = .ok (t, s.skip 1) := by
  have hcode : decodeULeb128 s = .ok (0#64, s.skip 1) :=
    uleb_run (e := .single 0) (by decide) hs
  show (decodeULeb128 s >>= _) = _
  rw [hcode, ok_bind]
  rfl

/-- The table with the declarations put in, in their order. -/
def inserted (t : AbbrevTable) (decls : List Decl) : AbbrevTable :=
  decls.foldl
    (fun t d => t.insert (BitVec.ofNat 64 d.code.unsigned) (abbrevOf d)) t

/-- Sound declarations come back. -/
theorem abbrevs_run {decls : List Decl} (h : ∀ d ∈ decls, Decl.Sound d)
    {fuel : Nat} (hfuel : decls.length < fuel) (t : AbbrevTable)
    {s : DataStream} {behind : List U8}
    (hs : s.rest = bytes decls ++ behind) :
    decodeAbbrevEntries fuel t s
      = .ok (inserted t decls, s.skip (bytes decls).length) := by
  induction decls generalizing fuel t s with
  | nil =>
      obtain ⟨fuel, rfl⟩ : ∃ k, fuel = k + 1 := ⟨fuel - 1, by omega⟩
      exact abbrevs_end fuel t hs
  | cons d decls ih =>
      rw [List.length_cons] at hfuel
      obtain ⟨fuel, rfl⟩ : ∃ k, fuel = k + 1 := ⟨fuel - 1, by omega⟩
      rw [bytes_cons, List.append_assoc] at hs
      rw [abbrevs_decl (h d List.mem_cons_self) fuel t hs,
        ih (fun b hb => h b (List.mem_cons_of_mem d hb)) (by omega) _
          (rest_skip hs rfl), bytes_cons, List.length_append]
      refine congrArg Except.ok (Prod.ext rfl ?_)
      simp [DataStream.skip, Nat.add_assoc]

/-- Looking up in it: the first declaration of the code. -/
theorem getAbbrevEntry_inserted (t : AbbrevTable) (decls : List Decl)
    (code : U64) :
    (inserted t decls).getAbbrevEntry code
      = (t.getAbbrevEntry code).or
          ((decls.find? fun d =>
            code = BitVec.ofNat 64 d.code.unsigned).map abbrevOf) := by
  induction decls generalizing t with
  | nil => rw [List.find?_nil, Option.map_none, Option.or_none]; rfl
  | cons d decls ih =>
      show (inserted (t.insert _ (abbrevOf d)) decls).getAbbrevEntry code = _
      rw [ih, getAbbrevEntry_insert, Option.or_assoc, List.find?_cons]
      by_cases hcode : code = BitVec.ofNat 64 d.code.unsigned
      · rw [if_pos hcode, decide_eq_true hcode]
        rfl
      · rw [if_neg hcode, decide_eq_false hcode, Option.none_or]

-- ========================================================= the other way

/-- The declaration in front is sound if a table that is returned has it
and its code was new. -/
theorem sound_of_round {d : Decl} {fuel : Nat} {t t' : AbbrevTable}
    {s s' : DataStream} {rest : List U8} (hs : s.rest = d.bytes ++ rest)
    (hfresh : d.code.unsigned < 2 ^ 64 →
      t.getAbbrevEntry (BitVec.ofNat 64 d.code.unsigned) = none)
    (hkey : Widened (BitVec.ofNat 64 d.code.unsigned))
    (h : decodeAbbrevEntries (fuel + 1) t s = .ok (t', s'))
    {entry : AbbrevEntry}
    (hentry : t'.getAbbrevEntry (BitVec.ofNat 64 d.code.unsigned)
      = some entry) (hdecl : Declares d entry) : Decl.Sound d := by
  obtain ⟨hs₀, hs₁, hs₂, hs₃⟩ := decl_fronts hs
  obtain ⟨code, _, hcode, hround⟩ := abbrevs_cases h
  obtain ⟨hsize, hcode⟩ := uleb_of_ok hs₀ hcode
  obtain ⟨rfl, rfl⟩ := Prod.mk.inj hcode
  have hlt : d.code.unsigned < 2 ^ 35 :=
    Nat.lt_of_lt_of_le d.code.unsigned_lt
      (Nat.pow_le_pow_right (by omega) (by omega))
  -- no decoded number is a code from 2^31 on
  have hcode31 : d.code.size ≤ 5 ∧ d.code.unsigned < 2 ^ 31 :=
    ⟨hsize, lt_of_widened hlt hkey⟩
  obtain ⟨hvalue, hzero⟩ := code_of_sound hcode31 d.nonzero
  rcases hround with
    ⟨h0, -⟩ | ⟨-, _, _, _, _, attEntries, s₄, htag, hchild, hattrs, hround⟩
  · exact absurd h0 hzero
  · obtain ⟨htagSize, htag⟩ := uleb_of_ok hs₁ htag
    obtain ⟨rfl, rfl⟩ := Prod.mk.inj htag
    rw [flag_run d.children hs₂] at hchild
    obtain ⟨rfl, rfl⟩ := Prod.mk.inj (Except.ok.inj hchild)
    -- the entry of the code is the one of this round
    have hstays := getAbbrevEntry_stays hround
      (BitVec.ofNat 64 d.code.unsigned) (by
        rw [getAbbrevEntry_insert, hfresh (by omega), hvalue, if_pos rfl,
          Option.none_or])
    rw [hentry] at hstays
    rw [Option.some.inj hstays] at hdecl
    exact {
      code := hcode31
      tag := by
        refine ⟨htagSize, (low_eq_iff d.tag).1 ?_⟩
        rw [← TagEncoding.code_ofCode]
        exact hdecl.dieTag
      specs := attributes_sound hs₃ hattrs hdecl.attEntries }

/-- If a table that is returned has the declarations of the bytes, they
were sound. The induction is on the declarations: the first one goes
into the table unless its code is there already, and stays. -/
theorem declares_of_run {decls : List Decl} {fuel : Nat}
    {t t' : AbbrevTable} {s s' : DataStream} {behind : List U8}
    (hs : s.rest = bytes decls ++ behind)
    (hdistinct : (decls.map (·.code.unsigned)).Nodup)
    (hfresh : ∀ d ∈ decls, d.code.unsigned < 2 ^ 64 →
      t.getAbbrevEntry (BitVec.ofNat 64 d.code.unsigned) = none)
    (hwidened : ∀ code, t.getAbbrevEntry code ≠ none → Widened code)
    (h : decodeAbbrevEntries fuel t s = .ok (t', s'))
    (hdeclares : ∀ d ∈ decls, ∃ entry,
      t'.getAbbrevEntry (BitVec.ofNat 64 d.code.unsigned) = some entry
        ∧ Declares d entry) :
    ∀ d ∈ decls, Decl.Sound d := by
  induction decls generalizing fuel t s with
  | nil => exact fun d hd => absurd hd List.not_mem_nil
  | cons d decls ih =>
      cases fuel with
      | zero => cases h
      | succ fuel =>
          obtain ⟨entry, hentry, hdecl⟩ := hdeclares d List.mem_cons_self
          rw [bytes_cons, List.append_assoc] at hs
          have hkey : Widened (BitVec.ofNat 64 d.code.unsigned) :=
            widened_of_getAbbrevEntry h (hwidened _) (by simp [hentry])
          have hd : Decl.Sound d :=
            sound_of_round hs (hfresh d List.mem_cons_self) hkey h hentry
              hdecl
          have hlt := hd.code.2
          rw [abbrevs_decl hd fuel t hs] at h
          rw [List.map_cons, List.nodup_cons] at hdistinct
          have hothers : ∀ e ∈ decls, e.code.unsigned ≠ d.code.unsigned :=
            fun e he heq => hdistinct.1 (heq ▸ List.mem_map_of_mem he)
          intro e he
          rcases List.mem_cons.1 he with rfl | he
          · exact hd
          · refine ih (rest_skip hs rfl) hdistinct.2 (fun b hb hb64 => ?_)
              (fun code hcode => ?_) h
              (fun b hb => hdeclares b (List.mem_cons_of_mem d hb)) e he
            · rw [getAbbrevEntry_insert,
                hfresh b (List.mem_cons_of_mem d hb) hb64, if_neg]
              · rfl
              · intro heq
                have hnat := congrArg BitVec.toNat heq
                rw [BitVec.toNat_ofNat, BitVec.toNat_ofNat] at hnat
                have hne := hothers b hb
                omega
            · rw [getAbbrevEntry_insert] at hcode
              by_cases hsame : code = BitVec.ofNat 64 d.code.unsigned
              · rw [hsame]
                exact hkey
              · rw [if_neg hsame, Option.or_none] at hcode
                exact hwidened code hcode

/-- A table survives parsing exactly when all of its declarations are
sound: the codes are below 2^31, tags, names and forms below 2^32, none
of them in more than five bytes, and no constant loses its sign. -/
theorem abbreviations_survive_iff (decls : List Decl) (behind : List U8)
    (hdistinct : (decls.map (·.code.unsigned)).Nodup) :
    Survives decls behind ↔ ∀ d ∈ decls, Decl.Sound d := by
  have hrest : (DataStream.unbounded (some (bytes decls ++ behind))).rest
      = bytes decls ++ behind := rfl
  constructor
  · rintro ⟨t, -, hrun, hdeclares, -⟩
    exact declares_of_run hrest hdistinct (fun _ _ _ => rfl)
      (fun _ h => absurd rfl h) hrun hdeclares
  · intro h
    have hfuel : decls.length < (bytes decls ++ behind).length + 1 := by
      have hlen := length_lt decls
      rw [List.length_append]
      omega
    have hrun := abbrevs_run h hfuel ⟨[]⟩ hrest
    refine ⟨inserted ⟨[]⟩ decls, ?_, hrun, fun d hd => ?_,
      fun code hcode => ?_⟩
    · unfold AbbrevTable.new
      dsimp only
      rw [hrun]
      rfl
    · refine ⟨abbrevOf d, ?_, declares_abbrevOf (h d hd)⟩
      rw [getAbbrevEntry_inserted]
      show ((decls.find? _).map abbrevOf) = _
      -- the first declaration with the code is this one
      have hsame : ∀ e ∈ decls, BitVec.ofNat 64 d.code.unsigned
          = BitVec.ofNat 64 e.code.unsigned → e = d := by
        intro e he heq
        refine List.inj_on_of_nodup_map hdistinct he hd ?_
        have hlt := (h d hd).code.2
        have hlt' := (h e he).code.2
        have hnat := congrArg BitVec.toNat heq
        rw [BitVec.toNat_ofNat, BitVec.toNat_ofNat] at hnat
        show e.code.unsigned = d.code.unsigned
        omega
      cases hfind : decls.find? (fun e => decide
          (BitVec.ofNat 64 d.code.unsigned
            = BitVec.ofNat 64 e.code.unsigned)) with
      | none =>
          have hno := List.find?_eq_none.1 hfind d hd
          exact absurd (decide_eq_true rfl) hno
      | some e =>
          have hcode := List.find?_some hfind
          rw [hsame e (List.mem_of_find?_eq_some hfind)
            (of_decide_eq_true hcode)]
          rfl
    · rw [getAbbrevEntry_inserted]
      show ((decls.find? _).map abbrevOf) = none
      rw [List.find?_eq_none.2 fun d hd => by simpa using hcode d hd]
      rfl

/-- A declaration of code 1 with one attribute, `decl_line`, whose value
is a constant. -/
def constantDecl (const : Leb128) : Decl where
  code := .single 1
  tag := .single 0x2e
  children := false
  specs := [⟨.single 0x3b, .single 0x21, const, by decide⟩]
  nonzero := by decide

/-- The constant -1, one byte, is taken for 127. -/
theorem negative_constant_lost :
    bytes [constantDecl (.single 0x7f)]
        = [0x01, 0x2e, 0x00, 0x3b, 0x21, 0x7f, 0x00, 0x00, 0x00]
      ∧ (Leb128.single 0x7f).signed = -1
      ∧ AbbrevTable.new (bytes [constantDecl (.single 0x7f)])
        = .ok ⟨[(1, ⟨1, .subprogram, false,
          [⟨.decl_line, .implicit_const, 127⟩]⟩)]⟩
      ∧ ¬ Survives [constantDecl (.single 0x7f)] [] := by
  have hnew : AbbrevTable.new (bytes [constantDecl (.single 0x7f)])
      = .ok ⟨[(1, ⟨1, .subprogram, false,
        [⟨.decl_line, .implicit_const, 127⟩]⟩)]⟩ := by
    decide
  refine ⟨by decide, by decide, hnew, ?_⟩
  rintro ⟨t, hnew', -, hdeclares, -⟩
  rw [List.append_nil, hnew] at hnew'
  obtain rfl := Except.ok.inj hnew'
  obtain ⟨entry, hentry, hdecl⟩ := hdeclares _ List.mem_cons_self
  obtain rfl := Option.some.inj hentry
  obtain ⟨hspec, -⟩ := List.forall₂_cons.1 hdecl.attEntries
  have hspecial := hspec.special
  exact absurd hspecial (by decide)

/-- The constant 5 is one that comes back. -/
theorem positive_constant_survives :
    Survives [constantDecl (.single 5)] [7, 7] := by
  refine (abbreviations_survive_iff [constantDecl (.single 5)] [7, 7]
    (by decide)).2 fun d hd => ?_
  obtain rfl := List.mem_singleton.1 hd
  refine ⟨⟨by decide, by decide⟩, ⟨by decide, by decide⟩, fun a ha => ?_⟩
  obtain rfl := List.mem_singleton.1 ha
  exact ⟨⟨by decide, by decide⟩, ⟨by decide, by decide⟩,
    fun _ => .inl ⟨by decide, by decide⟩⟩

end T89Emu.Dwarf
