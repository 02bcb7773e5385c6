/-
The DWARF enumerations (DwarfEncodings.h), as far as the debugger's code
names their members. A number read from a file is converted to the
enumeration with `ofCode`; the values that no `case` label or lookup
names are kept as `other`.

A conversion of a 64-bit number keeps the low 32 bits: the enumerations
have the underlying type `unsigned int`.
-/
import T89Emu.Architecture

namespace T89Emu.Dwarf

/-- How the value of an attribute is encoded. -/
inductive FormEncoding
  | addr | block2 | block4 | data2 | data4 | data8 | string | block
  | block1 | data1 | flag | sdata | strp | udata | ref_addr | ref1 | ref2
  | ref4 | ref8 | ref_udata | indirect | sec_offset | exprloc
  | flag_present | strx | addrx | ref_sup4 | strp_sup | data16 | line_strp
  | ref_sig8 | implicit_const | loclistx | rnglistx | ref_sup8 | strx1
  | strx2 | strx3 | strx4 | addrx1 | addrx2 | addrx3 | addrx4
  | other (code : U32)
  deriving DecidableEq, Repr

def FormEncoding.ofCode (code : U64) : FormEncoding :=
  match (code.setWidth 32).toNat with
  | 0x01 => .addr | 0x03 => .block2 | 0x04 => .block4 | 0x05 => .data2
  | 0x06 => .data4 | 0x07 => .data8 | 0x08 => .string | 0x09 => .block
  | 0x0a => .block1 | 0x0b => .data1 | 0x0c => .flag | 0x0d => .sdata
  | 0x0e => .strp | 0x0f => .udata | 0x10 => .ref_addr | 0x11 => .ref1
  | 0x12 => .ref2 | 0x13 => .ref4 | 0x14 => .ref8 | 0x15 => .ref_udata
  | 0x16 => .indirect | 0x17 => .sec_offset | 0x18 => .exprloc
  | 0x19 => .flag_present | 0x1a => .strx | 0x1b => .addrx
  | 0x1c => .ref_sup4 | 0x1d => .strp_sup | 0x1e => .data16
  | 0x1f => .line_strp | 0x20 => .ref_sig8 | 0x21 => .implicit_const
  | 0x22 => .loclistx | 0x23 => .rnglistx | 0x24 => .ref_sup8
  | 0x25 => .strx1 | 0x26 => .strx2 | 0x27 => .strx3 | 0x28 => .strx4
  | 0x29 => .addrx1 | 0x2a => .addrx2 | 0x2b => .addrx3 | 0x2c => .addrx4
  | _ => .other (code.setWidth 32)

/-- The value of an enumerator. -/
def FormEncoding.code : FormEncoding → U32
  | .addr => 0x01 | .block2 => 0x03 | .block4 => 0x04 | .data2 => 0x05
  | .data4 => 0x06 | .data8 => 0x07 | .string => 0x08 | .block => 0x09
  | .block1 => 0x0a | .data1 => 0x0b | .flag => 0x0c | .sdata => 0x0d
  | .strp => 0x0e | .udata => 0x0f | .ref_addr => 0x10 | .ref1 => 0x11
  | .ref2 => 0x12 | .ref4 => 0x13 | .ref8 => 0x14 | .ref_udata => 0x15
  | .indirect => 0x16 | .sec_offset => 0x17 | .exprloc => 0x18
  | .flag_present => 0x19 | .strx => 0x1a | .addrx => 0x1b
  | .ref_sup4 => 0x1c | .strp_sup => 0x1d | .data16 => 0x1e
  | .line_strp => 0x1f | .ref_sig8 => 0x20 | .implicit_const => 0x21
  | .loclistx => 0x22 | .rnglistx => 0x23 | .ref_sup8 => 0x24
  | .strx1 => 0x25 | .strx2 => 0x26 | .strx3 => 0x27 | .strx4 => 0x28
  | .addrx1 => 0x29 | .addrx2 => 0x2a | .addrx3 => 0x2b | .addrx4 => 0x2c
  | .other code => code

theorem FormEncoding.code_ofCode (code : U64) :
    (FormEncoding.ofCode code).code = code.setWidth 32 := by
  unfold FormEncoding.ofCode
  split
  all_goals first
    | rfl
    | exact BitVec.eq_of_toNat_eq (Eq.symm ‹_›)

/-- What an attribute says. -/
inductive AttributeEncoding
  | location | name | AtReserved0 | byte_size | stmt_list | low_pc
  | high_pc | comp_dir | decl_line | encoding | frame_base | type
  | endianity
  | other (code : U32)
  deriving DecidableEq, Repr

def AttributeEncoding.ofCode (code : U64) : AttributeEncoding :=
  match (code.setWidth 32).toNat with
  | 0x02 => .location | 0x03 => .name | 0x04 => .AtReserved0
  | 0x0b => .byte_size | 0x10 => .stmt_list | 0x11 => .low_pc
  | 0x12 => .high_pc | 0x1b => .comp_dir | 0x3b => .decl_line
  | 0x3e => .encoding | 0x40 => .frame_base | 0x49 => .type
  | 0x65 => .endianity
  | _ => .other (code.setWidth 32)

/-- The value of an enumerator. -/
def AttributeEncoding.code : AttributeEncoding → U32
  | .location => 0x02 | .name => 0x03 | .AtReserved0 => 0x04
  | .byte_size => 0x0b | .stmt_list => 0x10 | .low_pc => 0x11
  | .high_pc => 0x12 | .comp_dir => 0x1b | .decl_line => 0x3b
  | .encoding => 0x3e | .frame_base => 0x40 | .type => 0x49
  | .endianity => 0x65 | .other code => code

theorem AttributeEncoding.code_ofCode (code : U64) :
    (AttributeEncoding.ofCode code).code = code.setWidth 32 := by
  unfold AttributeEncoding.ofCode
  split
  all_goals first
    | rfl
    | exact BitVec.eq_of_toNat_eq (Eq.symm ‹_›)

/-- What an entry describes. -/
inductive TagEncoding
  | array_type | class_type | entry_point | enumeration_type
  | formal_parameter | lexical_block | pointer_type | reference_type
  | compile_unit | string_type | structure_type | typedef | union_type
  | inlined_subroutine | ptr_to_member_type | base_type | const_type
  | subprogram | variable | volatile_type | restrict_type
  | unspecified_type | rvalue_reference_type | atomic_type
  | other (code : U32)
  deriving DecidableEq, Repr

def TagEncoding.ofCode (code : U64) : TagEncoding :=
  match (code.setWidth 32).toNat with
  | 0x01 => .array_type | 0x02 => .class_type | 0x03 => .entry_point
  | 0x04 => .enumeration_type | 0x05 => .formal_parameter
  | 0x0b => .lexical_block | 0x0f => .pointer_type
  | 0x10 => .reference_type | 0x11 => .compile_unit
  | 0x12 => .string_type | 0x13 => .structure_type | 0x16 => .typedef
  | 0x17 => .union_type | 0x1d => .inlined_subroutine
  | 0x1f => .ptr_to_member_type | 0x24 => .base_type
  | 0x26 => .const_type | 0x2e => .subprogram | 0x34 => .variable
  | 0x35 => .volatile_type | 0x37 => .restrict_type
  | 0x3b => .unspecified_type | 0x42 => .rvalue_reference_type
  | 0x47 => .atomic_type
  | _ => .other (code.setWidth 32)

/-- The value of an enumerator. -/
def TagEncoding.code : TagEncoding → U32
  | .array_type => 0x01 | .class_type => 0x02 | .entry_point => 0x03
  | .enumeration_type => 0x04 | .formal_parameter => 0x05
  | .lexical_block => 0x0b | .pointer_type => 0x0f
  | .reference_type => 0x10 | .compile_unit => 0x11 | .string_type => 0x12
  | .structure_type => 0x13 | .typedef => 0x16 | .union_type => 0x17
  | .inlined_subroutine => 0x1d | .ptr_to_member_type => 0x1f
  | .base_type => 0x24 | .const_type => 0x26 | .subprogram => 0x2e
  | .variable => 0x34 | .volatile_type => 0x35 | .restrict_type => 0x37
  | .unspecified_type => 0x3b | .rvalue_reference_type => 0x42
  | .atomic_type => 0x47 | .other code => code

theorem TagEncoding.code_ofCode (code : U64) :
    (TagEncoding.ofCode code).code = code.setWidth 32 := by
  unfold TagEncoding.ofCode
  split
  all_goals first
    | rfl
    | exact BitVec.eq_of_toNat_eq (Eq.symm ‹_›)

/-- What a column of the file tables in a line program's header holds. -/
inductive ContentEncoding
  | path | directory_index
  | other (code : U32)
  deriving DecidableEq, Repr

def ContentEncoding.ofCode (code : U64) : ContentEncoding :=
  match (code.setWidth 32).toNat with
  | 0x01 => .path | 0x02 => .directory_index
  | _ => .other (code.setWidth 32)

end T89Emu.Dwarf
