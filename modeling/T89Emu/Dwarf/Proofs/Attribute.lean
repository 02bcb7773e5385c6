/-
What decoding an attribute delivers.

`Encodes` says which bytes encode which value in a form, form by form as
the DWARF standard lists them. `decodeInfo` reads exactly these bytes
(`reads_decodeInfo`), and the loop over an abbreviation's attributes
reads the concatenation (`reads_decodeAttributes`).

A string of one of the string tables has to end before position `2 ^ 31`
of its table: the loop that copies it counts in an `int`.
-/
import T89Emu.Dwarf.CompileUnit
import T89Emu.Dwarf.Proofs.DataStream

namespace T89Emu.Dwarf

open Cpp Decode Bytes CompileUnit

-- ====================================================== what is encoded

/-- The string at an offset of a table, its terminator behind it. -/
def Designates (t : StringTable) (offset : U32) (text : List U8) : Prop :=
  (∀ c ∈ text, c ≠ 0#8)
    ∧ ∃ rest, t.bytes.drop (t.tableStart + offset.toNat)
        = text ++ 0#8 :: rest

/-- The size of the forms that have one. -/
def fixedSize (u : CompileUnit) : FormEncoding → Option Nat
  | .addr => some u.addressSize.toNat
  | .flag_present => some 0
  | .data1 | .flag | .ref1 | .strx1 | .addrx1 => some 1
  | .data2 | .ref2 | .strx2 | .addrx2 => some 2
  | .strx3 | .addrx3 => some 3
  | .data4 | .ref_addr | .ref4 | .sec_offset | .strx4 | .addrx4 => some 4
  | .data8 | .ref8 | .ref_sig8 => some 8
  | .data16 => some 16
  | _ => none

/-- The forms of an unsigned LEB128 number. -/
def isUleb : FormEncoding → Bool
  | .udata | .ref_udata | .strx | .addrx | .loclistx | .rnglistx => true
  | _ => false

def word16 (v : U16) : List U8 := [byteOf v 0, byteOf v 1]

def word32 (v : U32) : List U8 :=
  [byteOf v 0, byteOf v 1, byteOf v 2, byteOf v 3]

variable (u : CompileUnit)

/-- `Encodes u special form word value`: in this form the bytes `word`
stand for `value`. `limit` is where the strings of a table have to
end. -/
inductive Encodes (limit : Nat) (special : U64) :
    FormEncoding → List U8 → List U8 → Prop
  | fixed {form : FormEncoding} {bytes : List U8}
      (size : fixedSize u form = some bytes.length) :
      Encodes limit special form bytes bytes
  | block {form : FormEncoding} {len : Leb128} {bytes : List U8}
      (isBlock : form = .block ∨ form = .exprloc) (short : len.size ≤ 4)
      (length : len.unsigned = bytes.length) :
      Encodes limit special form (len.bytes ++ bytes) bytes
  | block1 {len : U8} {bytes : List U8}
      (length : len.toNat = bytes.length) :
      Encodes limit special .block1 ([len] ++ bytes) bytes
  | block2 {len : U16} {bytes : List U8}
      (length : len.toNat = bytes.length) :
      Encodes limit special .block2 (word16 len ++ bytes) bytes
  | block4 {len : U32} {bytes : List U8}
      (length : len.toNat = bytes.length) :
      Encodes limit special .block4 (word32 len ++ bytes) bytes
  | sdata {e : Leb128} (short : e.size ≤ 4) :
      Encodes limit special .sdata e.bytes
        (bytesOf (BitVec.ofInt 64 e.signed))
  | udata {form : FormEncoding} {e : Leb128} (uleb : isUleb form = true)
      (short : e.size ≤ 4) :
      Encodes limit special form e.bytes
        (bytesOf (BitVec.ofNat 64 e.unsigned))
  | strp {offset : U32} {text : List U8}
      (low : offset.toNat < 2 ^ 31)
      (inside : offset.toNat + text.length < limit)
      (designates : Designates u.debugStr offset text) :
      Encodes limit special .strp (word32 offset) text
  | line_strp {offset : U32} {text : List U8}
      (low : offset.toNat < 2 ^ 31)
      (inside : offset.toNat + text.length < limit)
      (designates : Designates u.debugLineStr offset text) :
      Encodes limit special .line_strp (word32 offset) text
  | string {text : List U8} (nonzero : ∀ c ∈ text, c ≠ 0#8) :
      Encodes limit special .string (text ++ [0#8]) text
  | implicit_const :
      Encodes limit special .implicit_const [] (bytesOf special)

-- ============================================================== pieces

/-- Copying takes the bytes as they are. -/
theorem reads_copyBytes (bytes : List U8) (d : DebugData) :
    Reads (copyBytes bytes.length d) bytes (d.write bytes) := by
  induction bytes generalizing d with
  | nil =>
      have hd : d.write [] = d := by simp [DebugData.write]
      rw [hd]
      exact Reads.pure d
  | cons b bytes ih =>
      have hd : (d.write [b]).write bytes = d.write (b :: bytes) := by
        simp [DebugData.write]
      have htail := ih (d.write [b])
      rw [hd] at htail
      exact (reads_uint8 b).bind htail

/-- A string is copied up to its terminator. -/
theorem copyString_text {text : List U8} (h0 : ∀ c ∈ text, c ≠ 0#8)
    (t : List U8) (d : DebugData) :
    copyString (text ++ [0#8] ++ t) d
      = .ok (d.write text, text.length + 1) := by
  induction text generalizing d with
  | nil => simp [copyString, DebugData.write, pure, Except.pure]
  | cons c text ih =>
      have hc : c ≠ 0#8 := h0 c List.mem_cons_self
      have htail := ih (fun c hc => h0 c (List.mem_cons_of_mem _ hc))
        (d.write [c])
      rw [List.cons_append, List.cons_append, copyString, if_neg hc,
        htail]
      simp [DebugData.write, pure, Except.pure]

/-- A string that ends before an `int` does is found. -/
theorem stringFrom_text {text : List U8} (h0 : ∀ c ∈ text, c ≠ 0#8)
    (t : List U8) {i : Int} (hi : i + text.length < 2 ^ 31) :
    stringFrom i (text ++ 0#8 :: t) = .ok text := by
  induction text generalizing i with
  | nil => simp [stringFrom, pure, Except.pure]
  | cons c text ih =>
      have hc : c ≠ 0#8 := h0 c List.mem_cons_self
      rw [List.length_cons] at hi
      have htail := ih (fun c hc => h0 c (List.mem_cons_of_mem _ hc))
        (i := i + 1) (by omega)
      rw [List.cons_append, stringFrom, if_neg hc, if_neg (by omega),
        htail]
      rfl

/-- One that goes on behind it overflows the index. -/
theorem stringFrom_overflow {text : List U8} (h0 : ∀ c ∈ text, c ≠ 0#8)
    (t : List U8) {i : Int} (hlow : i < 2 ^ 31)
    (hi : 2 ^ 31 ≤ i + text.length) :
    stringFrom i (text ++ t) = .error .signedOverflow := by
  induction text generalizing i with
  | nil =>
      rw [List.length_nil] at hi
      omega
  | cons c text ih =>
      have hc : c ≠ 0#8 := h0 c List.mem_cons_self
      rw [List.length_cons] at hi
      rw [List.cons_append, stringFrom, if_neg hc]
      by_cases h31 : 2 ^ 31 ≤ i + 1
      · rw [if_pos h31]
        rfl
      · rw [if_neg h31, ih (fun c hc => h0 c (List.mem_cons_of_mem _ hc))
          (by omega) (by omega)]
        rfl

/-- Where `stringAt` starts to copy. -/
theorem stringAt_eq (st : StringTable) {offset : U32}
    (hlow : offset.toNat < 2 ^ 31) :
    stringAt st offset = stringFrom offset.toNat
      (st.bytes.drop (st.tableStart + offset.toNat)) := by
  have hint : ((offset.signExtend 64).setWidth 32).toInt
      = offset.toNat := by
    rw [setWidth_signExtend offset (by decide),
      BitVec.toInt_eq_toNat_of_lt (by omega)]
  rw [stringAt, StringTable.getString, hint, if_neg (by omega)]
  rfl

theorem stringAt_text {st : StringTable} {offset : U32} {text : List U8}
    (hlow : offset.toNat < 2 ^ 31)
    (hin : offset.toNat + text.length < 2 ^ 31)
    (hd : Designates st offset text) :
    stringAt st offset = .ok text := by
  obtain ⟨h0, rest, hrest⟩ := hd
  rw [stringAt_eq st hlow, hrest]
  exact stringFrom_text h0 rest (by omega)

theorem reads_word16 (v : U16) : Reads decodeUInt16 (word16 v) v :=
  reads_uint16 v

theorem reads_word32 (v : U32) : Reads decodeUInt32 (word32 v) v :=
  reads_uint32 v

-- ========================================================== one attribute

variable {u}

/-- The forms of a fixed size copy so many bytes. -/
theorem decodeInfo_fixed {entry : AttributeEntry} {n : Nat}
    (h : fixedSize u entry.form = some n) :
    u.decodeInfo entry = copyBytes n (DebugData.new entry.form) := by
  obtain ⟨_, form, special⟩ := entry
  cases form <;> simp only [fixedSize, Option.some.injEq, reduceCtorEq] at h
    <;> subst h <;> rfl

theorem decodeInfo_uleb {entry : AttributeEntry}
    (h : isUleb entry.form = true) :
    u.decodeInfo entry = (do
      let value ← decodeULeb128
      pure ((DebugData.new entry.form).write (bytesOf value))) := by
  obtain ⟨_, form, special⟩ := entry
  cases form <;> simp only [isUleb, Bool.false_eq_true] at h <;> rfl

/-- A block is copied behind its length. -/
theorem reads_block {α : Type} {len : Decoder α} {size : α → Nat}
    {word bytes : List U8} {a : α} (form : FormEncoding)
    (hlen : Reads len word a) (hsize : size a = bytes.length) :
    Reads (do
      let streamLen ← len
      copyBytes (size streamLen) (DebugData.new form))
      (word ++ bytes) ⟨form, bytes⟩ := by
  refine hlen.bind ?_
  rw [hsize]
  exact reads_copyBytes bytes (DebugData.new form)

/-- A string of a table is copied from it. -/
theorem reads_strp {st : StringTable} {offset : U32} {text : List U8}
    (form : FormEncoding) (h : stringAt st offset = .ok text) :
    Reads (do
      let offset ← decodeUInt32
      let str ← (stringAt st offset : Proc (List U8))
      pure ((DebugData.new form).write str) : Decoder DebugData)
      (word32 offset) ⟨form, text⟩ :=
  (reads_word32 offset).then ((Reads.lift h).then (Reads.pure _))

/-- A string of the stream is copied from it. -/
theorem reads_string {text : List U8} (h0 : ∀ c ∈ text, c ≠ 0#8)
    (form : FormEncoding) :
    Reads (fun s => do
      let (dieData, n) ← copyString s.rest (DebugData.new form)
      pure (dieData, s.skip n) : Decoder DebugData)
      (text ++ [0#8]) ⟨form, text⟩ := by
  intro s t hs
  show (do
    let (dieData, n) ← copyString s.rest (DebugData.new form)
    pure (dieData, s.skip n) : Proc (DebugData × DataStream)) = _
  rw [rest_eq hs, copyString_text h0, List.length_append]
  rfl

/-- The bytes of an encoding are decoded to its value, and no byte
behind them is touched. -/
theorem reads_decodeInfo {entry : AttributeEntry} {word value : List U8}
    (h : Encodes u (2 ^ 31) entry.special entry.form word value) :
    Reads (u.decodeInfo entry) word ⟨entry.form, value⟩ := by
  obtain ⟨_, form, special⟩ := entry
  cases h with
  | fixed size =>
      rw [decodeInfo_fixed size]
      exact reads_copyBytes word _
  | @block _ len bytes isBlock short length =>
      have hsize : (BitVec.ofNat 64 len.unsigned).toNat = value.length := by
        have hlt := len.unsigned_lt
        have hpow : 2 ^ (7 * len.size) ≤ 2 ^ 28 :=
          Nat.pow_le_pow_right (by omega) (by omega)
        rw [BitVec.toNat_ofNat, ← length]
        omega
      rcases isBlock with hform | hform <;> cases hform
        <;> exact reads_block _ (reads_uleb short) hsize
  | block1 length => exact reads_block .block1 (reads_uint8 _) length
  | block2 length => exact reads_block .block2 (reads_word16 _) length
  | block4 length => exact reads_block .block4 (reads_word32 _) length
  | sdata short => exact (reads_leb short).then (Reads.pure _)
  | udata uleb short =>
      rw [decodeInfo_uleb uleb]
      exact (reads_uleb short).then (Reads.pure _)
  | strp low inside designates =>
      exact reads_strp .strp (stringAt_text low inside designates)
  | line_strp low inside designates =>
      exact reads_strp .line_strp (stringAt_text low inside designates)
  | string nonzero => exact reads_string nonzero .string
  | implicit_const => exact Reads.pure _

-- ======================================================== all attributes

/-- The attributes of an entry, from the values of its abbreviation. -/
def attributesOf (entries : List AttributeEntry)
    (values : List (List U8 × List U8)) :
    List (AttributeEncoding × DebugData) :=
  List.zipWith (fun a v => (a.name, ⟨a.form, v.2⟩)) entries values

/-- A name that is not there yet is added behind the others. -/
theorem addAttribute_new {attributes : List (AttributeEncoding × DebugData)}
    {key : AttributeEncoding} (h : ∀ p ∈ attributes, p.1 ≠ key)
    (data : DebugData) :
    addAttribute attributes key data = attributes ++ [(key, data)] := by
  have hnone : attributes.lookup key = none := by
    rw [List.lookup_eq_none_iff]
    intro p hp
    simpa using fun he => h p hp he.symm
  rw [addAttribute, hnone]

/-- The attributes of an entry are read one behind the other. -/
theorem reads_decodeAttributes {entries : List AttributeEntry}
    {values : List (List U8 × List U8)}
    (hvalues : List.Forall₂ (fun (a : AttributeEntry) v =>
      Encodes u (2 ^ 31) a.special a.form v.1 v.2) entries values)
    (hdistinct : (entries.map AttributeEntry.name).Nodup)
    (attributes : List (AttributeEncoding × DebugData))
    (hnew : ∀ a ∈ entries, ∀ p ∈ attributes, p.1 ≠ a.name) :
    Reads (decodeAttributes u entries attributes)
      (values.flatMap Prod.fst)
      (attributes ++ attributesOf entries values) := by
  induction hvalues generalizing attributes with
  | nil =>
      have hnil : attributes ++ attributesOf [] [] = attributes := by
        simp [attributesOf]
      rw [hnil]
      exact Reads.pure attributes
  | @cons a v entries values hv _ ih =>
      rw [List.map_cons, List.nodup_cons] at hdistinct
      have hadd := addAttribute_new (hnew a List.mem_cons_self)
        ⟨a.form, v.2⟩
      have htail := ih hdistinct.2 (attributes
        ++ [(a.name, ⟨a.form, v.2⟩)]) (by
          intro b hb p hp
          rcases List.mem_append.1 hp with hp | hp
          · exact hnew b (List.mem_cons_of_mem _ hb) p hp
          · rw [List.mem_singleton] at hp
            subst hp
            exact fun he => hdistinct.1
              (List.mem_map.2 ⟨b, hb, he.symm⟩))
      have hall := (reads_decodeInfo hv).bind
        (f := fun data => decodeAttributes u entries
          (addAttribute attributes a.name data)) (by
          rw [hadd]
          exact htail)
      simpa [attributesOf, decodeAttributes] using hall

/-- A string that cannot be copied ends the attribute. -/
theorem decodeInfo_strp_error (entry : AttributeEntry) {offset : U32}
    {s s' : DataStream} {e : Halt} (hform : entry.form = .strp)
    (hoffset : decodeUInt32.run s = .ok (offset, s'))
    (h : stringAt u.debugStr offset = .error e) :
    u.decodeInfo entry s = .error e := by
  obtain ⟨_, form, _⟩ := entry
  cases hform
  show (decodeUInt32.run s >>= _) = _
  rw [hoffset, ok_bind]
  show ((stringAt u.debugStr offset >>= fun str => .ok (str, s')) >>= _) = _
  rw [h]
  rfl

/-- An attribute that fails ends the loop. -/
theorem decodeAttributes_error {entry : AttributeEntry}
    (entries : List AttributeEntry)
    (attributes : List (AttributeEncoding × DebugData)) {s : DataStream}
    {e : Halt} (h : u.decodeInfo entry s = .error e) :
    decodeAttributes u (entry :: entries) attributes s = .error e := by
  rw [decodeAttributes]
  show (u.decodeInfo entry s >>= _) = _
  rw [h]
  rfl

end T89Emu.Dwarf
