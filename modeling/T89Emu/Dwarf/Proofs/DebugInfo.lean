/-
The tree of a unit survives parsing.

A `Die` is a tree of entries together with the way its numbers are
written; `Die.bytes` is its encoding and `Die.entry` the tree that the
parser is expected to build of it. The parser is shown to build it by
induction over the tree: `reads_die` for a tree and `reads_forest` for
the trees of a child list, each stated for an arbitrary amount of fuel
that covers the bytes.

What ends the recursion at the end of the unit is not a null entry but
`isStreamable`. It cannot be met by an entry that has a parent: a null
entry still follows it.
-/
import T89Emu.Dwarf.Proofs.Attribute

namespace T89Emu.Dwarf

open Cpp Decode Bytes CompileUnit

-- ================================================================= trees

/-- A tree of entries as it is encoded: the abbreviation code, what the
code stands for, the words and values of the attributes, the children,
and the null entry behind them. -/
inductive Die
  | mk (code : Leb128) (kind : AbbrevEntry)
      (values : List (List U8 × List U8)) (children : List Die)
      (null : Leb128)

mutual

/-- The encoding of a tree. -/
def Die.bytes : Die → List U8
  | .mk code kind values children null =>
      code.bytes ++ values.flatMap Prod.fst
        ++ if kind.hasChild then Die.forest children ++ null.bytes
          else []

/-- The encoding of the trees of a child list. -/
def Die.forest : List Die → List U8
  | [] => []
  | d :: ds => d.bytes ++ Die.forest ds

end

mutual

/-- The tree of the parser, its root at `offset`. -/
def Die.entry (parent : Option Nat) (offset : Nat) : Die → DebugInfoEntry
  | .mk code kind values children _ =>
      .mk parent (BitVec.ofNat 64 code.unsigned) offset kind
        (attributesOf kind.attEntries values)
        (Die.entries (some offset)
          (offset + (code.size + (values.flatMap Prod.fst).length))
          children)

/-- The trees of a child list, the first one at `offset`. -/
def Die.entries (parent : Option Nat) (offset : Nat) :
    List Die → List DebugInfoEntry
  | [] => []
  | d :: ds => d.entry parent offset
      :: Die.entries parent (offset + d.bytes.length) ds

end

variable (u : CompileUnit)

/-- The tree is one over the unit's abbreviations. -/
inductive Die.Fits (limit : Nat) : Die → Prop
  | mk {code : Leb128} {kind : AbbrevEntry}
      {values : List (List U8 × List U8)} {children : List Die}
      {null : Leb128}
      (short : code.size ≤ 4) (nonzero : code.unsigned ≠ 0)
      (found : u.abbrevTable.getAbbrevEntry
        (BitVec.ofNat 64 code.unsigned) = some kind)
      (encoded : List.Forall₂ (fun (a : AttributeEntry) v =>
        Encodes u limit a.special a.form v.1 v.2) kind.attEntries values)
      (distinct : (kind.attEntries.map AttributeEntry.name).Nodup)
      (leaf : kind.hasChild = false → children = [])
      (closed : null.size ≤ 4) (zero : null.unsigned = 0)
      (fits : ∀ d ∈ children, Die.Fits limit d) :
      Die.Fits limit (.mk code kind values children null)

-- =============================================================== lengths

theorem Die.bytes_pos (d : Die) : 0 < d.bytes.length := by
  obtain ⟨code, kind, values, children, null⟩ := d
  have hcode := code.size_pos
  simp only [Die.bytes, List.length_append, Leb128.length_bytes]
  omega

/-- There is a stream when there are bytes in front of the cursor. -/
theorem isSome_of_rest {s : DataStream} {w t : List U8}
    (hw : 0 < w.length) (h : Cursor.rest s = w ++ t) :
    s.data.isSome = true := by
  have hs : (s.data.getD []).drop s.index = w ++ t := h
  cases hd : s.data with
  | some bytes => rfl
  | none =>
      rw [hd] at hs
      simp only [Option.getD_none, List.drop_nil] at hs
      have hlen := congrArg List.length hs
      rw [List.length_append, List.length_nil] at hlen
      omega

-- ============================================================= one entry

/-- The codes that name an entry are the nonzero ones. -/
theorem code_ne_zero {code : Leb128} (h4 : code.size ≤ 4)
    (h0 : code.unsigned ≠ 0) : BitVec.ofNat 64 code.unsigned ≠ 0#64 := by
  intro he
  have hlt := code.unsigned_lt
  have hpow : 2 ^ (7 * code.size) ≤ 2 ^ 28 :=
    Nat.pow_le_pow_right (by omega) (by omega)
  have hnat := congrArg BitVec.toNat he
  rw [BitVec.toNat_ofNat] at hnat
  simp only [BitVec.toNat_ofNat] at hnat
  omega

variable {u}

/-- The first thing read is the code of the entry. -/
theorem generate_code (fuel : Nat) (parent : Option Nat) (s : DataStream)
    {code : U64} {s' : DataStream}
    (hcode : decodeULeb128 s = .ok (code, s')) (h0 : code ≠ 0#64)
    {kind : AbbrevEntry}
    (hkind : u.abbrevTable.getAbbrevEntry code = some kind) :
    generateDebugInfoFrom u (fuel + 1) parent s = (do
      let (attributes, s'') ← decodeAttributes u kind.attEntries [] s'
      let node := DebugInfoEntry.mk parent code (u.streamOffset + s.index)
        kind attributes
      if s''.isStreamable = false then pure (.endOfUnit (node []), s'')
      else if kind.hasChild = false then pure (.returned (node []), s'')
      else
        let (children, s3) ← childLoop (generateDebugInfoFrom u fuel
          (some (u.streamOffset + s.index))) fuel [] s''
        pure (.returned (node children), s3)) := by
  have hbody : ∀ (attributes : List (AttributeEncoding × DebugData))
      (s'' : DataStream), (do
        let node := DebugInfoEntry.mk parent code (u.streamOffset + s.index)
          kind attributes
        if !(← get).isStreamable then pure (.endOfUnit (node []))
        else if !kind.hasChild then pure (.returned (node []))
        else
          let children ← childLoop (generateDebugInfoFrom u fuel
            (some (u.streamOffset + s.index))) fuel []
          pure (.returned (node children)) : Decoder Generated) s'' = (do
        let node := DebugInfoEntry.mk parent code (u.streamOffset + s.index)
          kind attributes
        if s''.isStreamable = false then pure (.endOfUnit (node []), s'')
        else if kind.hasChild = false then pure (.returned (node []), s'')
        else
          let (children, s3) ← childLoop (generateDebugInfoFrom u fuel
            (some (u.streamOffset + s.index))) fuel [] s''
          pure (.returned (node children), s3)) := by
    intro attributes s''
    show ((if !s''.isStreamable then _ else _ : Decoder Generated)) s'' = _
    cases s''.isStreamable with
    | false => rfl
    | true =>
        cases kind.hasChild with
        | false => rfl
        | true => rfl
  show (decodeULeb128 s >>= fun (code, s') => _) = _
  rw [hcode, ok_bind]
  show ((if code = 0#64 then _ else _ : Decoder Generated)) s' = _
  rw [if_neg h0, hkind]
  show (decodeAttributes u kind.attEntries [] s' >>= _) = _
  congr 1
  funext ⟨attributes, s''⟩
  exact hbody attributes s''

/-- A null entry deletes the node it was read for. -/
theorem generate_null (fuel : Nat) (parent : Option Nat) {s : DataStream}
    {s' : DataStream} (hcode : decodeULeb128 s = .ok (0#64, s')) :
    generateDebugInfoFrom u (fuel + 1) parent s
      = .ok (.deleted, s') := by
  rw [generateDebugInfoFrom]
  show (decodeULeb128 s >>= fun (code, s') => _) = _
  rw [hcode, ok_bind]
  rfl

/-- A child that is returned is added, and the loop goes on. -/
theorem childLoop_returned {generate : Decoder Generated} (fuel : Nat)
    (children : List DebugInfoEntry) {child : DebugInfoEntry}
    {s s' : DataStream} (h : generate s = .ok (.returned child, s')) :
    childLoop generate (fuel + 1) children s
      = childLoop generate fuel (children ++ [child]) s' := by
  rw [childLoop]
  show (generate s >>= _) = _
  rw [h]
  rfl

/-- At a deleted node the loop ends. -/
theorem childLoop_deleted {generate : Decoder Generated} (fuel : Nat)
    (children : List DebugInfoEntry) {s s' : DataStream}
    (h : generate s = .ok (.deleted, s')) :
    childLoop generate (fuel + 1) children s = .ok (children, s') := by
  rw [childLoop]
  show (generate s >>= _) = _
  rw [h]
  rfl

-- ============================================================= the trees

/-- The root of a tree is returned, or kept at the end of the unit. -/
structure Rebuilt (r : Generated) (entry : DebugInfoEntry)
    (inside : Prop) : Prop where
  kept : r.kept = some entry
  returned : inside → r = .returned entry

/-- What the code and the attributes of an entry leave behind. -/
theorem reads_head {code : Leb128} {kind : AbbrevEntry}
    {values : List (List U8 × List U8)} (short : code.size ≤ 4)
    (nonzero : code.unsigned ≠ 0)
    (found : u.abbrevTable.getAbbrevEntry
      (BitVec.ofNat 64 code.unsigned) = some kind)
    (encoded : List.Forall₂ (fun (a : AttributeEntry) v =>
      Encodes u (2 ^ 31) a.special a.form v.1 v.2) kind.attEntries values)
    (distinct : (kind.attEntries.map AttributeEntry.name).Nodup)
    (fuel : Nat) (parent : Option Nat) {s s2 : DataStream} {t : List U8}
    (hs : s.rest = code.bytes ++ (values.flatMap Prod.fst ++ t))
    (hs2 : s2 = s.skip (code.size + (values.flatMap Prod.fst).length)) :
    s2.rest = t ∧
    generateDebugInfoFrom u (fuel + 1) parent s =
      let node := DebugInfoEntry.mk parent (BitVec.ofNat 64 code.unsigned)
        (u.streamOffset + s.index) kind
        (attributesOf kind.attEntries values)
      if s2.isStreamable = false then .ok (.endOfUnit (node []), s2)
      else if kind.hasChild = false then .ok (.returned (node []), s2)
      else (do
        let (children, s3) ← childLoop (generateDebugInfoFrom u fuel
          (some (u.streamOffset + s.index))) fuel [] s2
        pure (.returned (node children), s3)) := by
  have hcode := reads_uleb short s _ hs
  have hrest := rest_skip_append (σ := DataStream) hs
  have hattrs := reads_decodeAttributes encoded distinct
    [] (by simp) _ _ hrest
  have hback := rest_skip_append (σ := DataStream) hrest
  have hskip : Cursor.skip (values.flatMap Prod.fst).length
      (Cursor.skip code.bytes.length s) = s2 := by
    rw [Cursor.skip_skip, Leb128.length_bytes, hs2]
    rfl
  rw [hskip] at hattrs hback
  refine ⟨hback, ?_⟩
  rw [generate_code fuel parent s hcode (code_ne_zero short nonzero) found]
  show ((decodeAttributes u kind.attEntries []).run _ >>= _) = _
  rw [hattrs, ok_bind, List.nil_append]
  rfl

mutual

/-- A tree is rebuilt from its encoding. -/
theorem reads_die : ∀ (d : Die), d.Fits u (2 ^ 31) → ∀ {fuel : Nat},
    d.bytes.length < fuel → ∀ (parent : Option Nat) {s : DataStream}
    {t : List U8}, s.rest = d.bytes ++ t →
    s.index + d.bytes.length ≤ s.streamLen →
    ∃ r, generateDebugInfoFrom u fuel parent s
        = .ok (r, s.skip d.bytes.length)
      ∧ Rebuilt r (d.entry parent (u.streamOffset + s.index))
          (s.index + d.bytes.length < s.streamLen)
  | .mk code kind values children null, hd, fuel + 1, hfuel, parent, s, t,
      hs, hin => by
    have hdata : s.data.isSome = true :=
      isSome_of_rest (Die.bytes_pos _) hs
    cases hd with
    | mk short nonzero found encoded distinct leaf closed zero fits =>
        have hhead := @reads_head u code kind values short nonzero found
          encoded distinct fuel parent s
        cases hchild : kind.hasChild with
        | false =>
            simp only [Die.bytes, hchild, List.append_nil,
              List.append_assoc, Bool.false_eq_true, if_false,
              List.length_append, Leb128.length_bytes] at hs hin ⊢
            obtain ⟨-, hrun⟩ := hhead hs rfl
            rw [hrun, Die.entry, leaf hchild, Die.entries]
            have hskip := isStreamable_iff (s := s.skip
              (code.size + (values.flatMap Prod.fst).length)) hdata
            by_cases hstr : (s.skip (code.size
                + (values.flatMap Prod.fst).length)).isStreamable = false
            · refine ⟨_, if_pos hstr, rfl, fun hlt => ?_⟩
              rw [hskip.2 hlt] at hstr
              exact absurd hstr (by simp)
            · exact ⟨_, (if_neg hstr).trans (if_pos hchild), rfl,
                fun _ => rfl⟩
        | true =>
            have hnull := null.size_pos
            have hcode := code.size_pos
            simp only [Die.bytes, hchild, if_true, List.append_assoc,
              List.length_append, Leb128.length_bytes]
              at hs hin hfuel ⊢
            obtain ⟨hrest, hrun⟩ := hhead hs rfl
            have hgo : (s.skip (code.size
                + (values.flatMap Prod.fst).length)).isStreamable = true :=
              (isStreamable_iff (s := s.skip _) hdata).2 (by
                simp only [DataStream.skip]
                omega)
            have hforest := reads_forest children fits closed zero
              (show (Die.forest children).length < fuel by omega)
              (show (Die.forest children).length < fuel by omega)
              (some (u.streamOffset + s.index)) [] hrest (by
                simp only [DataStream.skip]
                omega)
            rw [hrun, hforest, if_neg (by rw [hgo]; simp),
              if_neg (by rw [hchild]; simp)]
            have hindex : u.streamOffset + (s.skip (code.size
                + (values.flatMap Prod.fst).length)).index
                = u.streamOffset + s.index + (code.size
                  + (values.flatMap Prod.fst).length) :=
              (Nat.add_assoc ..).symm
            rw [hindex]
            refine ⟨_, ?_, rfl, fun _ => rfl⟩
            show Except.ok (_, _) = Except.ok (_, _)
            rw [Die.entry]
            simp [DataStream.skip, Nat.add_assoc]

/-- The trees of a child list are rebuilt in order, up to the null entry
behind them. -/
theorem reads_forest : ∀ (ds : List Die), (∀ d ∈ ds, d.Fits u (2 ^ 31)) →
    ∀ {null : Leb128}, null.size ≤ 4 → null.unsigned = 0 →
    ∀ {fuel loop : Nat}, (Die.forest ds).length < fuel →
    (Die.forest ds).length < loop → ∀ (parent : Option Nat)
    (acc : List DebugInfoEntry) {s : DataStream} {t : List U8},
    s.rest = Die.forest ds ++ (null.bytes ++ t) →
    s.index + ((Die.forest ds).length + null.size) ≤ s.streamLen →
    childLoop (generateDebugInfoFrom u fuel parent) loop acc s
      = .ok (acc ++ Die.entries parent (u.streamOffset + s.index) ds,
          s.skip ((Die.forest ds).length + null.size))
  | [], _, null, hshort, hzero, fuel + 1, loop + 1, _, _, parent, acc,
      s, t, hs, hin => by
    have hcode := reads_uleb hshort s t hs
    rw [hzero] at hcode
    rw [childLoop_deleted loop acc (generate_null fuel parent hcode)]
    simp [Die.entries, Die.forest]
    rfl
  | d :: ds, hds, null, hshort, hzero, fuel, loop + 1, hfuel, hloop,
      parent, acc, s, t, hs, hin => by
    have hpos := d.bytes_pos
    have hnull := null.size_pos
    simp only [Die.forest, List.length_append, List.append_assoc]
      at hfuel hloop hs hin ⊢
    obtain ⟨r, hrun, hr⟩ := reads_die d (hds d List.mem_cons_self)
      (show d.bytes.length < fuel by omega) parent hs (by omega)
    rw [hr.returned (by omega)] at hrun
    have hrest : (s.skip d.bytes.length).rest
        = Die.forest ds ++ (null.bytes ++ t) :=
      rest_skip_append (σ := DataStream) hs
    have htail := reads_forest ds
      (fun d' hd' => hds d' (List.mem_cons_of_mem d hd')) hshort hzero
      (show (Die.forest ds).length < fuel by omega)
      (show (Die.forest ds).length < loop by omega) parent
      (acc ++ [d.entry parent (u.streamOffset + s.index)]) hrest
      (by simp only [DataStream.skip]; omega)
    rw [childLoop_returned loop acc hrun, htail]
    simp [Die.entries, DataStream.skip, Nat.add_assoc]

end

-- ============================================================== the unit

/-- The stream of a unit that is the encoding of a tree, other bytes of
the file behind it. -/
def unitStream (root : Die) (behind : List U8) : DataStream :=
  ⟨some (root.bytes ++ behind), 0, root.bytes.length⟩

/-- The call for the root of the unit rebuilds the tree and ends at the
end of the unit. -/
def Rebuilds (u : CompileUnit) (root : Die) (behind : List U8) : Prop :=
  ∃ r, u.generateDebugInfo none (unitStream root behind)
      = .ok (r, (unitStream root behind).setOffset root.bytes.length)
    ∧ r.kept = some (root.entry none u.streamOffset)

/-- A tree over the unit's abbreviations survives parsing, when its
strings end where an `int` still counts. -/
theorem generateDebugInfo_rebuilds (u : CompileUnit) (root : Die)
    (behind : List U8) (h : root.Fits u (2 ^ 31)) :
    Rebuilds u root behind := by
  have hrest : (unitStream root behind).rest = root.bytes ++ behind := rfl
  obtain ⟨r, hrun, hr⟩ := reads_die root h
    (show root.bytes.length < (unitStream root behind).rest.length + 1 by
      rw [hrest, List.length_append]
      omega) none hrest
    (by simp [unitStream])
  refine ⟨r, ?_, ?_⟩
  · rw [generateDebugInfo, hrun]
    simp [unitStream, DataStream.skip, DataStream.setOffset]
  · exact hr.kept

/-- Abbreviations of a unit with a function and a variable in it. -/
def smallKinds : List AbbrevEntry :=
  [⟨1, .compile_unit, true, [⟨.name, .string, 0⟩]⟩,
    ⟨2, .variable, false,
      [⟨.decl_line, .data1, 0⟩, ⟨.location, .exprloc, 0⟩,
        ⟨.byte_size, .implicit_const, 4⟩]⟩,
    ⟨3, .subprogram, true, [⟨.low_pc, .addr, 0⟩, ⟨.high_pc, .udata, 0⟩]⟩]

def smallUnit : CompileUnit where
  addressSize := 4
  abbrevTable := ⟨smallKinds.map fun kind => (kind.dieCode, kind)⟩
  debugStr := ⟨[], 0⟩
  debugLineStr := ⟨[], 0⟩
  streamOffset := 12

def smallVariable : Die :=
  .mk (.single 2) smallKinds[1]
    [([7], [7]), ([1, 0x9c], [0x9c]), ([], bytesOf 4)] [] (.single 0)

def smallFunction : Die :=
  .mk (.single 3) smallKinds[2]
    [([0, 0, 1, 0], [0, 0, 1, 0]),
      ((⟨[0x10], 0x01⟩ : Leb128).bytes, bytesOf 0x90)] [] (.single 0)

def smallRoot : Die :=
  .mk (.single 1) smallKinds[0] [([0x61, 0], [0x61])]
    [smallFunction, smallVariable] (.single 0)

theorem smallVariable_fits : smallVariable.Fits smallUnit (2 ^ 31) := by
  refine .mk (by decide) (by decide) (by decide) ?_ (by decide)
    (fun _ => rfl) (by decide) (by decide) (by simp)
  refine .cons (.fixed rfl) (.cons ?_ (.cons .implicit_const .nil))
  exact @Encodes.block _ _ _ _ (.single 1) [0x9c] (.inr rfl) (by decide)
    (by decide)

theorem smallFunction_fits : smallFunction.Fits smallUnit (2 ^ 31) := by
  refine .mk (by decide) (by decide) (by decide) ?_ (by decide)
    (fun _ => rfl) (by decide) (by decide) (by simp)
  refine .cons (.fixed rfl) (.cons ?_ .nil)
  exact .udata (e := ⟨[0x10], 0x01⟩) rfl (by decide)

theorem smallRoot_fits : smallRoot.Fits smallUnit (2 ^ 31) := by
  refine .mk (by decide) (by decide) (by decide) ?_ (by decide)
    (by decide) (by decide) (by decide) ?_
  · exact .cons (@Encodes.string _ _ _ [0x61] (by decide)) .nil
  · intro d hd
    rcases List.mem_cons.1 hd with rfl | hd
    · exact smallFunction_fits
    · rw [List.mem_singleton.1 hd]
      exact smallVariable_fits

/-- The small unit is rebuilt. -/
theorem smallUnit_rebuilt : Rebuilds smallUnit smallRoot [0xff] :=
  generateDebugInfo_rebuilds smallUnit smallRoot [0xff] smallRoot_fits

-- ================================================ a string of two GiB

section LongString

variable (text : List U8)

def longKind : AbbrevEntry :=
  ⟨1, .compile_unit, false, [⟨.name, .strp, 0⟩]⟩

/-- A unit whose string table holds one string, terminated. -/
def longUnit : CompileUnit where
  addressSize := 4
  abbrevTable := ⟨[(1, longKind)]⟩
  debugStr := ⟨text ++ [0#8], 0⟩
  debugLineStr := ⟨[], 0⟩
  streamOffset := 12

/-- An entry with the string as its name. -/
def longRoot : Die :=
  .mk (.single 1) longKind [(word32 0, text)] [] (.single 0)

variable {text}

theorem longRoot_rest (text : List U8) :
    (unitStream (longRoot text) []).rest
      = (Leb128.single 1).bytes ++ word32 0 := rfl

theorem longRoot_fits (h0 : ∀ c ∈ text, c ≠ 0#8)
    (hlen : text.length = 2 ^ 31) :
    (longRoot text).Fits (longUnit text) (2 ^ 31 + 1) := by
  refine .mk (by decide) (by decide) rfl ?_ (by decide) (fun _ => rfl)
    (by decide) (by decide) (by simp)
  refine .cons (.strp (by decide) ?_ ⟨h0, [], rfl⟩) .nil
  rw [hlen]
  decide

/-- Copying the string overflows the `int` that counts its characters,
and so the unit is not parsed. -/
theorem longRoot_overflows (h0 : ∀ c ∈ text, c ≠ 0#8)
    (hlen : text.length = 2 ^ 31) :
    (longUnit text).generateDebugInfo none (unitStream (longRoot text) [])
      = .error .signedOverflow := by
  have hstring : stringAt (longUnit text).debugStr 0
      = .error .signedOverflow := by
    rw [stringAt_eq (longUnit text).debugStr (by decide)]
    exact stringFrom_overflow h0 [0#8] (by decide) (by rw [hlen]; decide)
  have hcode := reads_uleb (e := .single 1) (by decide)
    (unitStream (longRoot text) []) (word32 0) (longRoot_rest text)
  have hrest := rest_skip_append (σ := DataStream) (longRoot_rest text)
  have hoffset := reads_word32 0 _ [] (by rw [hrest, List.append_nil])
  have hattributes := decodeAttributes_error (u := longUnit text) [] []
    (decodeInfo_strp_error ⟨.name, .strp, 0⟩ rfl hoffset hstring)
  have hfuel : (longUnit text).generateDebugInfo none
        (unitStream (longRoot text) [])
      = generateDebugInfoFrom (longUnit text) (5 + 1) none
          (unitStream (longRoot text) []) := rfl
  have hkind : (longUnit text).abbrevTable.getAbbrevEntry
      (BitVec.ofNat 64 (Leb128.single 1).unsigned) = some longKind := rfl
  rw [hfuel, generate_code 5 none _ hcode (by decide) hkind]
  show (decodeAttributes (longUnit text) longKind.attEntries [] _ >>= _)
    = _
  rw [show longKind.attEntries = [⟨.name, .strp, 0⟩] from rfl, hattributes]
  rfl

end LongString

/-- A string that ends at position `2 ^ 31` of its table. -/
def longText : List U8 := List.replicate (2 ^ 31) 0x61#8

/-- The offset of the string is 0 and it lies inside its terminated
table, and yet the tree is not rebuilt. -/
theorem long_string_lost :
    (longRoot longText).Fits (longUnit longText) (2 ^ 31 + 1)
      ∧ ¬ Rebuilds (longUnit longText) (longRoot longText) [] := by
  have hlen : longText.length = 2 ^ 31 := List.length_replicate
  have h0 : ∀ c ∈ longText, c ≠ 0#8 := by
    intro c hc
    rw [List.eq_of_mem_replicate hc]
    decide
  refine ⟨longRoot_fits h0 hlen, ?_⟩
  rintro ⟨r, hrun, -⟩
  rw [longRoot_overflows h0 hlen] at hrun
  exact absurd hrun (by simp)

end T89Emu.Dwarf
