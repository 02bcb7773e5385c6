/-
The offsets of the entries of a unit.

An entry's offset is where its code is read, and the cursor only moves
on: in the order of the section, the offsets of a tree rise. So no two
entries of a unit have the same one.
-/
import T89Emu.Dwarf.Proofs.DebugInfo
import T89Emu.Dwarf.Proofs.ScopeTree

namespace T89Emu.Dwarf

open Cpp Decode

namespace CompileUnit

variable {u : CompileUnit}

-- ========================================================== the attributes

/-- Bytes are copied by moving the cursor over them. -/
theorem advances_copyBytes (n : Nat) (d : DebugData) :
    Advances (copyBytes n d) := by
  induction n generalizing d with
  | zero => exact Advances.pure d
  | succ n ih => exact advances_uint8.bind fun _ => ih _

/-- Whatever the form, an attribute is read forward. -/
theorem advances_decodeInfo (entry : AttributeEntry) :
    Advances (u.decodeInfo entry) := by
  have hstring (st : StringTable) (d : DebugData) :
      Advances (do
        let offset ← decodeUInt32
        let str ← (stringAt st offset : Proc (List U8))
        pure (d.write str) : Decoder DebugData) :=
    advances_uint32.bind fun _ => (Advances.lift _).bind fun _ =>
      Advances.pure _
  have hcopy (d : DebugData) :
      Advances (fun s => do
        let copied ← copyString s.rest d
        pure (copied.1, s.skip copied.2) : Decoder DebugData) := by
    intro s d s' h
    obtain ⟨⟨_, n⟩, -, h⟩ := bind_eq_ok.1 h
    exact ⟨n, (Prod.mk.inj (Except.ok.inj h)).2.symm⟩
  have hblock {α : Type} {len : Decoder α} (size : α → Nat) (d : DebugData)
      (hlen : Advances len) : Advances (do
        let streamLen ← len
        copyBytes (size streamLen) d) :=
    hlen.bind fun _ => advances_copyBytes _ _
  unfold decodeInfo
  split
  all_goals first
    | exact advances_copyBytes _ _
    | exact hstring _ _
    | exact hcopy _
    | exact hblock _ _ advances_uleb
    | exact hblock _ _ advances_uint8
    | exact hblock _ _ advances_uint16
    | exact hblock _ _ advances_uint32
    | exact advances_uleb.bind fun _ => Advances.pure _
    | exact advances_leb.bind fun _ => Advances.pure _
    | exact Advances.pure _
    | exact fun _ _ _ h => by cases h

/-- So are the attributes of an entry, one after the other. -/
theorem advances_decodeAttributes (entries : List AttributeEntry)
    (attributes : List (AttributeEncoding × DebugData)) :
    Advances (u.decodeAttributes entries attributes) := by
  induction entries generalizing attributes with
  | nil => exact Advances.pure attributes
  | cons entry entries ih =>
      exact (advances_decodeInfo entry).bind fun _ => ih _

-- ============================================================= the entries

/-- The entries lie in the order of the list between the two offsets. -/
structure Rising (lo hi : Nat) (es : List DebugInfoEntry) : Prop where
  rising : (es.map (·.getOffset)).Pairwise (· < ·)
  within : ∀ e ∈ es, lo ≤ e.getOffset ∧ e.getOffset < hi

/-- No entries rise between any bounds. -/
theorem Rising.nil (lo hi : Nat) : Rising lo hi [] :=
  ⟨List.Pairwise.nil, fun _ h => absurd h List.not_mem_nil⟩

/-- The upper bound may be raised. -/
theorem Rising.weaken {lo hi hi' : Nat} {es : List DebugInfoEntry}
    (h : Rising lo hi es) (hhi : hi ≤ hi') : Rising lo hi' es :=
  ⟨h.rising, fun e he =>
    ⟨(h.within e he).1, Nat.lt_of_lt_of_le (h.within e he).2 hhi⟩⟩

/-- Entries behind entries: all offsets of the first are smaller. -/
theorem Rising.append {lo mid hi : Nat} {as bs : List DebugInfoEntry}
    (ha : Rising lo mid as) (hb : Rising mid hi bs) (hlo : lo ≤ mid)
    (hhi : mid ≤ hi) : Rising lo hi (as ++ bs) := by
  refine ⟨?_, fun e he => ?_⟩
  · rw [List.map_append, List.pairwise_append]
    refine ⟨ha.rising, hb.rising, ?_⟩
    simp only [List.mem_map]
    rintro _ ⟨a, hmem, rfl⟩ _ ⟨b, hmem', rfl⟩
    have := (ha.within a hmem).2
    have := (hb.within b hmem').1
    omega
  · rcases List.mem_append.1 he with he | he
    · have := ha.within e he
      omega
    · have := hb.within e he
      omega

/-- An entry in front of those below it. -/
theorem Rising.cons {lo mid hi : Nat} {e : DebugInfoEntry}
    {es : List DebugInfoEntry} (hes : Rising mid hi es)
    (he : e.getOffset = lo) (hlo : lo < mid) (hhi : mid ≤ hi) :
    Rising lo hi (e :: es) := by
  have hfirst : Rising lo mid [e] :=
    ⟨List.pairwise_singleton .., by simp; omega⟩
  exact hfirst.append hes (Nat.le_of_lt hlo) hhi

/-- What a call of `generateDebugInfo` does: it moves the cursor on, and
the tree that its caller may keep lies in the bytes it has read. -/
def Places (streamOffset : Nat) (generate : Decoder Generated) : Prop :=
  ∀ s r s', generate s = .ok (r, s') → s.index < s'.index
    ∧ ∀ e, r.kept = some e →
      Rising (streamOffset + s.index) (streamOffset + s'.index) e.entries

/-- The loop over the children puts them behind each other. -/
theorem childLoop_rising {streamOffset : Nat} {generate : Decoder Generated}
    (hgen : Places streamOffset generate) {fuel lo : Nat}
    {children es : List DebugInfoEntry} {s s' : DataStream}
    (h : childLoop generate fuel children s = .ok (es, s'))
    (hlo : lo ≤ streamOffset + s.index)
    (hchildren : Rising lo (streamOffset + s.index)
      (children.flatMap DebugInfoEntry.entries)) :
    s.index ≤ s'.index ∧ Rising lo (streamOffset + s'.index)
      (es.flatMap DebugInfoEntry.entries) := by
  induction fuel generalizing children s with
  | zero => cases h
  | succ fuel ih =>
      obtain ⟨⟨r, s₁⟩, hr, h⟩ := bind_eq_ok.1 h
      obtain ⟨hmove, hkept⟩ := hgen s r s₁ hr
      cases r with
      | returned child =>
          have hrest : childLoop generate fuel (children ++ [child]) s₁
              = .ok (es, s') := h
          obtain ⟨hle, hes⟩ := ih hrest (by omega) (by
            rw [List.flatMap_append, List.flatMap_singleton]
            exact hchildren.append (hkept child rfl) hlo (by omega))
          exact ⟨by omega, hes⟩
      | deleted =>
          obtain ⟨rfl, rfl⟩ := Prod.mk.inj (Except.ok.inj h)
          exact ⟨Nat.le_of_lt hmove, hchildren.weaken (by omega)⟩
      | endOfUnit child =>
          obtain ⟨rfl, rfl⟩ := Prod.mk.inj (Except.ok.inj h)
          exact ⟨Nat.le_of_lt hmove, hchildren.weaken (by omega)⟩

/-- The code of an entry is a byte or more. -/
theorem uleb_moves {s s' : DataStream} {code : U64}
    (h : decodeULeb128 s = .ok (code, s')) : s.index < s'.index := by
  obtain ⟨e, rest, hs, -⟩ := encoding_of_uleb h
  obtain ⟨-, rfl⟩ := Prod.mk.inj (uleb_of_ok hs h).2
  have hpos := e.size_pos
  show s.index < s.index + e.size
  omega

/-- A decoder that only skips does not move the cursor back. -/
theorem index_le {α : Type} {p : Decoder α} (hp : Advances p)
    {s s' : DataStream} {a : α} (h : p s = .ok (a, s')) :
    s.index ≤ s'.index := by
  obtain ⟨n, rfl⟩ := hp s a s' h
  exact Nat.le_add_right ..

/-- A code without an abbreviation ends the program. -/
theorem generate_unknown (fuel : Nat) (parent : Option Nat) (s : DataStream)
    {code : U64} {s' : DataStream}
    (hcode : decodeULeb128 s = .ok (code, s')) (h0 : code ≠ 0#64)
    (hkind : u.abbrevTable.getAbbrevEntry code = none) :
    generateDebugInfoFrom u (fuel + 1) parent s = .error .exit := by
  show (decodeULeb128 s >>= fun (code, s') => _) = _
  rw [hcode, ok_bind]
  show ((if code = 0#64 then _ else _ : Decoder Generated)) s' = _
  rw [if_neg h0, hkind]
  rfl

/-- The entries of a tree have offsets that rise in the order of reading,
by induction on the fuel. -/
theorem generateDebugInfoFrom_places (fuel : Nat) (parent : Option Nat) :
    Places u.streamOffset (generateDebugInfoFrom u fuel parent) := by
  induction fuel generalizing parent with
  | zero => exact fun _ _ _ h => by cases h
  | succ fuel ih =>
      intro s r s' h
      obtain ⟨⟨code, s₁⟩, hcode⟩ : ∃ c, decodeULeb128 s = .ok c := by
        obtain ⟨c, hc, -⟩ := bind_eq_ok.1 h
        exact ⟨c, hc⟩
      have hmove := uleb_moves hcode
      by_cases h0 : code = 0#64
      · subst h0
        rw [generate_null fuel parent hcode] at h
        obtain ⟨rfl, rfl⟩ := Prod.mk.inj (Except.ok.inj h)
        exact ⟨hmove, fun e he => by cases he⟩
      · cases hkind : u.abbrevTable.getAbbrevEntry code with
        | none =>
            rw [generate_unknown fuel parent s hcode h0 hkind] at h
            cases h
        | some kind =>
            rw [generate_code fuel parent s hcode h0 hkind] at h
            obtain ⟨⟨attributes, s₂⟩, hattr, h⟩ := bind_eq_ok.1 h
            have hle := index_le (advances_decodeAttributes _ _) hattr
            have hleaf : ∀ e, some (DebugInfoEntry.mk parent code
                (u.streamOffset + s.index) kind attributes []) = some e →
                Rising (u.streamOffset + s.index) (u.streamOffset + s₂.index)
                  e.entries := by
              rintro e ⟨⟩
              exact (Rising.nil (u.streamOffset + s₂.index) _).cons rfl
                (by omega) (Nat.le_refl _)
            dsimp only at h
            split at h
            · obtain ⟨rfl, rfl⟩ := Prod.mk.inj (Except.ok.inj h)
              exact ⟨by omega, hleaf⟩
            · split at h
              · obtain ⟨rfl, rfl⟩ := Prod.mk.inj (Except.ok.inj h)
                exact ⟨by omega, hleaf⟩
              · obtain ⟨⟨children, s₃⟩, hloop, h⟩ := bind_eq_ok.1 h
                obtain ⟨rfl, rfl⟩ := Prod.mk.inj (Except.ok.inj h)
                obtain ⟨hle₃, hes⟩ := childLoop_rising (ih _) hloop
                  (Nat.le_refl _) (Rising.nil _ _)
                refine ⟨show s.index < s₃.index by omega, ?_⟩
                rintro e ⟨⟩
                rw [DebugInfoEntry.entries_eq]
                show Rising _ (u.streamOffset + s₃.index) _
                exact hes.cons rfl (by omega) (by omega)

/-- No two entries of a tree that is read from a unit have the same
offset. -/
theorem generateDebugInfo_distinct {parent : Option Nat}
    {s s' : DataStream} {r : Generated} {root : DebugInfoEntry}
    (h : u.generateDebugInfo parent s = .ok (r, s'))
    (hroot : r.kept = some root) :
    (root.entries.map (·.getOffset)).Nodup := by
  have hrising :=
    ((generateDebugInfoFrom_places _ parent s r s' h).2 root hroot).rising
  exact hrising.imp Nat.ne_of_lt

end CompileUnit

/-- The tree of a unit. -/
def DieTree.ofUnit {u : CompileUnit} {parent : Option Nat}
    {s s' : DataStream} {r : CompileUnit.Generated} {root : DebugInfoEntry}
    (h : u.generateDebugInfo parent s = .ok (r, s'))
    (hroot : r.kept = some root) : DieTree :=
  ⟨root, CompileUnit.generateDebugInfo_distinct h hroot⟩

end T89Emu.Dwarf
