/-
Sections looked up by name.

A section's name is the string up to the next zero in the table of names,
and `getSectionHeader` compares as many characters of it as the name that
is looked up has. So it accepts all names that begin with that one
(`nameStarts_eq`), and whether it returns the section that is meant is a
matter of their order in the file.
-/
import T89Emu.Dwarf.DwarfParser
import T89Emu.Lib.FirstMatch
import T89Emu.Lib.Lockstep
import T89Emu.Lib.Process

namespace T89Emu.ElfParser

open Cpp Elf FirstMatch

-- ================================================ statement vocabulary

/-- A string of C: no character of it is zero. -/
structure CString where
  chars : List U8
  noZero : 0#8 ∉ chars

theorem CString.ext {a b : CString} (h : a.chars = b.chars) : a = b := by
  cases a
  cases b
  cases h
  rfl

/-- A section: its header and its name. -/
structure NamedSection where
  header : Nat
  name : CString

/-- The string lies at `p`, with a zero behind it. -/
def StringAt (elfData : List U8) (p : Nat) (str : CString) : Prop :=
  str.chars ++ [0#8] <+: elfData.drop p

/-- Where the name of the section with the header is. -/
def nameAddress (s : ElfParser) (sHdr : Nat) : Proc Nat := do
  let shstrndx ← halfAt s.elfData SHSTRNDX
  let shstrndxHdr ← s.sectionHeader shstrndx.toNat
  let offset ← wordAt s.elfData (shstrndxHdr + 16)
  let nameOffset ← wordAt s.elfData sHdr
  pure (offset.toNat + nameOffset.toNat)

/-- The section is entry `idx` of the table. -/
structure IsSection (s : ElfParser) (idx : Nat) (sec : NamedSection) :
    Prop where
  header : s.sectionHeader idx = .ok sec.header
  name : ∃ p, s.nameAddress sec.header = .ok p
    ∧ StringAt s.elfData p sec.name

/-- The sections are those of the table of section headers. -/
def HasSections (s : ElfParser) (sections : List NamedSection) : Prop :=
  ∃ shnum, halfAt s.elfData SHNUM = .ok shnum
    ∧ List.Forall₂ s.IsSection (List.range shnum.toNat) sections

/-- The section has the name. -/
def Named (name : CString) (sec : NamedSection) : Prop :=
  sec.name.chars = name.chars

/-- The section has a name that begins with the name. -/
def Begins (name : CString) (sec : NamedSection) : Prop :=
  name.chars <+: sec.name.chars

instance (elfData : List U8) (p : Nat) (str : CString) :
    Decidable (StringAt elfData p str) :=
  inferInstanceAs (Decidable (_ <+: _))

instance (name : CString) : DecidablePred (Named name) := fun _ =>
  inferInstanceAs (Decidable (_ = _))

instance (name : CString) : DecidablePred (Begins name) := fun _ =>
  inferInstanceAs (Decidable (_ <+: _))

/-- The answer of the lookup is the first section with the name, or null
when there is none. -/
def LookupExact (s : ElfParser) (sections : List NamedSection)
    (name : CString) : Prop :=
  s.getSectionHeader name.chars
    = .ok ((search (Named name) sections).map (·.header))

-- ============================================================ one section

variable {s : ElfParser}

/-- What the string begins with is in front of a list. -/
theorem byteAt_of_drop {elfData : List U8} {p : Nat} {b : U8}
    {bs : List U8} (h : b :: bs <+: elfData.drop p) :
    byteAt elfData p = .ok b ∧ bs <+: elfData.drop (p + 1) := by
  obtain ⟨rest, hrest⟩ := h
  have hget : elfData[p]? = some b := by
    rw [← Nat.add_zero p, ← List.getElem?_drop, ← hrest]
    rfl
  refine ⟨by rw [byteAt, hget]; rfl, rest, ?_⟩
  rw [← List.drop_drop, ← hrest]
  rfl

/-- The comparison stops at the zero behind the string, and accepts what
begins with the name. -/
theorem nameStarts_eq {elfData : List U8} {p : Nat} {str name : List U8}
    (hstr : str ++ [0#8] <+: elfData.drop p) (hname : 0#8 ∉ name) :
    nameStarts elfData p name = .ok (decide (name <+: str)) := by
  induction name generalizing p str with
  | nil => simp [nameStarts]
  | cons c name ih =>
      obtain ⟨hc, hname⟩ := not_or.1 (mt List.mem_cons.2 hname)
      cases str with
      | nil =>
          obtain ⟨hb, -⟩ := byteAt_of_drop hstr
          rw [nameStarts, hb, ok_bind, if_neg hc]
          simp
      | cons b str =>
          obtain ⟨hb, hrest⟩ := byteAt_of_drop hstr
          rw [nameStarts, hb, ok_bind]
          by_cases hbc : b = c
          · rw [if_pos hbc, ih hrest hname, hbc]
            simp [List.cons_prefix_cons]
          · rw [if_neg hbc]
            simp [List.cons_prefix_cons, Ne.symm hbc]

/-- At an address there is one string. -/
theorem stringAt_unique {elfData : List U8} {p : Nat} {a b : CString}
    (ha : StringAt elfData p a) (hb : StringAt elfData p b) : a = b := by
  have hsub : ∀ {a b : CString}, StringAt elfData p a →
      StringAt elfData p b → a.chars <+: b.chars := by
    intro a b ha hb
    have haa := nameStarts_eq ha a.noZero
    rw [nameStarts_eq hb a.noZero] at haa
    simpa using Except.ok.inj haa
  have hab := hsub ha hb
  have hlen := Nat.le_antisymm hab.length_le (hsub hb ha).length_le
  exact CString.ext (hab.eq_of_length hlen)

/-- The header tells the section. -/
theorem IsSection.unique {i j : Nat} {a b : NamedSection}
    (ha : s.IsSection i a) (hb : s.IsSection j b)
    (h : a.header = b.header) : a = b := by
  obtain ⟨-, p, hp, hpa⟩ := ha
  obtain ⟨-, p', hp', hpb⟩ := hb
  rw [h, hp'] at hp
  obtain rfl := Except.ok.inj hp
  have hname := stringAt_unique hpa hpb
  cases a
  cases b
  cases h
  cases hname
  rfl

-- ============================================================= the search

/-- The loop looks for a section whose name begins with the name. -/
theorem findSection_run {name : CString} {idxs : List Nat}
    {sections : List NamedSection}
    (h : List.Forall₂ s.IsSection idxs sections) :
    s.findSection name.chars idxs
      = .ok ((search (Begins name) sections).map (·.header)) := by
  induction h with
  | nil => rfl
  | @cons idx sec idxs sections hsec _ ih =>
      obtain ⟨hheader, p, hp, hstr⟩ := hsec
      have hround : s.findSection name.chars (idx :: idxs)
          = s.sectionHeader idx >>= fun sHdr =>
            s.nameAddress sHdr >>= fun p =>
            (nameStarts s.elfData p name.chars : Proc Bool) >>= fun found =>
            if found then pure (some sHdr)
            else s.findSection name.chars idxs := by
        simp only [findSection, nameAddress, bind_assoc, pure_bind]
      have hstarts : (nameStarts s.elfData p name.chars : Proc Bool)
          = .ok (decide (Begins name sec)) := by
        rw [nameStarts_eq hstr name.noZero]
        rfl
      rw [hround, hheader, ok_bind, hp, ok_bind, hstarts, ok_bind]
      by_cases hbegins : Begins name sec
      · rw [search_cons_of_pos hbegins, decide_eq_true hbegins]
        rfl
      · rw [search_cons_of_neg hbegins, ← ih, decide_eq_false hbegins]
        rfl

theorem getSectionHeader_run {sections : List NamedSection}
    (h : s.HasSections sections) (name : CString) :
    s.getSectionHeader name.chars
      = .ok ((search (Begins name) sections).map (·.header)) := by
  obtain ⟨shnum, hshnum, hsections⟩ := h
  rw [getSectionHeader, hshnum]
  exact findSection_run hsections

/-- Two sections of the table with one header are the same. -/
theorem HasSections.unique {sections : List NamedSection}
    (h : s.HasSections sections) {a b : NamedSection} (ha : a ∈ sections)
    (hb : b ∈ sections) (hheader : a.header = b.header) : a = b := by
  obtain ⟨shnum, -, hsections⟩ := h
  obtain ⟨i, -, hi⟩ := Lockstep.exists_partner_right hsections ha
  obtain ⟨j, -, hj⟩ := Lockstep.exists_partner_right hsections hb
  exact hi.unique hj hheader

-- ============================================================= the result

/-- The lookup is exact for exactly those tables in which each section
whose name only begins with the name comes after one that has it. -/
theorem lookup_exact_iff (s : ElfParser) (sections : List NamedSection)
    (name : CString) (h : s.HasSections sections) :
    LookupExact s sections name
      ↔ ∀ l₁ sec l₂, sections = l₁ ++ sec :: l₂ → Begins name sec →
        ¬ Named name sec → ∃ b ∈ l₁, Named name b := by
  have hexact : ∀ sec ∈ sections, Named name sec → Begins name sec := by
    intro sec _ hnamed
    have hsame : name.chars = sec.name.chars := hnamed.symm
    exact ⟨[], (List.append_nil _).trans hsame⟩
  rw [← search_eq_search_iff hexact, LookupExact, getSectionHeader_run h]
  constructor
  · intro hsame
    have hsame := Except.ok.inj hsame
    cases hp : search (Begins name) sections with
    | none =>
        rw [hp] at hsame
        exact (Option.map_eq_none_iff.1 hsame.symm).symm
    | some a =>
        rw [hp] at hsame
        obtain ⟨b, hb, hheader⟩ := Option.map_eq_some_iff.1 hsame.symm
        rw [hb, h.unique (search_eq_some hb).1 (search_eq_some hp).1 hheader]
  · intro hsame
    rw [hsame]

-- ============================================================ two orders

def emptyName : CString := ⟨[], by decide⟩

def debugLine : CString := ⟨Dwarf.sectionName ".debug_line", by decide⟩

def debugLineStr : CString :=
  ⟨Dwarf.sectionName ".debug_line_str", by decide⟩

def shstrtab : CString := ⟨Dwarf.sectionName ".shstrtab", by decide⟩

/-- A section header with the name at the offset in the table of names, and
with the offset of that table. -/
def headerBytes (nameOffset : U8) : List U8 :=
  [nameOffset, 0, 0, 0] ++ List.replicate 12 0 ++ [212, 0, 0, 0]
    ++ List.replicate 20 0

/-- A file of two debug sections, whose names are at the two offsets. -/
def twoSections (first second : U8) : ElfParser where
  elfData := List.replicate 32 0 ++ [52, 0, 0, 0] ++ List.replicate 10 0
    ++ [40, 0, 4, 0, 3, 0] ++ headerBytes 0 ++ headerBytes first
    ++ headerBytes second ++ headerBytes 29
    ++ [0] ++ debugLineStr.chars ++ [0] ++ debugLine.chars ++ [0]
    ++ shstrtab.chars ++ [0]
  ramHeader := none
  romHeader := none

theorem line_section_found :
    LookupExact (twoSections 17 1) [⟨52, emptyName⟩, ⟨92, debugLine⟩,
      ⟨132, debugLineStr⟩, ⟨172, shstrtab⟩] debugLine := by
  refine (lookup_exact_iff _ _ debugLine ⟨4, by decide +kernel, ?_⟩).2 ?_
  · exact .cons ⟨by decide +kernel, 212, by decide +kernel, by decide +kernel⟩
      (.cons ⟨by decide +kernel, 229, by decide +kernel, by decide +kernel⟩
        (.cons ⟨by decide +kernel, 213, by decide +kernel, by decide +kernel⟩
          (.cons ⟨by decide +kernel, 241, by decide +kernel,
            by decide +kernel⟩ .nil)))
  · rintro l₁ sec l₂ hsplit hbegins hnamed
    -- `.debug_line_str` stands behind the section that is meant
    match l₁ with
    | [] =>
        obtain ⟨rfl, -⟩ := List.cons.inj hsplit
        exact absurd hbegins (by decide +kernel)
    | [_] =>
        obtain ⟨-, hsplit⟩ := List.cons.inj hsplit
        obtain ⟨rfl, -⟩ := List.cons.inj hsplit
        exact absurd rfl hnamed
    | _ :: b :: _ =>
        obtain ⟨-, hsplit⟩ := List.cons.inj hsplit
        obtain ⟨rfl, -⟩ := List.cons.inj hsplit
        exact ⟨⟨92, debugLine⟩, by simp, rfl⟩

/-- The linker put `.debug_line_str` in front. -/
theorem longer_name_found :
    ∃ sections, (twoSections 1 17).HasSections sections
      ∧ (twoSections 1 17).getSectionHeader debugLine.chars = .ok (some 92)
      ∧ sections[1]? = some ⟨92, debugLineStr⟩
      ∧ ¬ LookupExact (twoSections 1 17) sections debugLine := by
  refine ⟨[⟨52, emptyName⟩, ⟨92, debugLineStr⟩, ⟨132, debugLine⟩,
    ⟨172, shstrtab⟩], ⟨4, by decide +kernel, ?_⟩, by decide +kernel, rfl, ?_⟩
  · exact .cons ⟨by decide +kernel, 212, by decide +kernel, by decide +kernel⟩
      (.cons ⟨by decide +kernel, 213, by decide +kernel, by decide +kernel⟩
        (.cons ⟨by decide +kernel, 229, by decide +kernel, by decide +kernel⟩
          (.cons ⟨by decide +kernel, 241, by decide +kernel,
            by decide +kernel⟩ .nil)))
  · unfold LookupExact
    decide +kernel

end T89Emu.ElfParser
