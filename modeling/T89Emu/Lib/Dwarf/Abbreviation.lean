/-
Abbreviation tables as the DWARF standard defines them.

A declaration gives a code, a tag and the specifications of attributes;
its numbers are LEB128 encodings of any length. A specification of the
form `implicitConst` carries its constant, a signed number. A pair of
zeros ends the specifications, and code 0 the table, so neither may
occur in front of the end.
-/
import T89Emu.Lib.Leb128

namespace Abbreviation

/-- The form whose constant is in the table. -/
def implicitConst : Nat := 0x21

/-- A specification of an attribute. The constant stands for nothing in
the other forms. -/
structure Spec where
  name : Leb128
  form : Leb128
  const : Leb128
  notEnd : ¬ (name.unsigned = 0 ∧ form.unsigned = 0)

namespace Spec

variable (a : Spec)

/-- The bytes of the constant, where there is one. -/
def constBytes : List (BitVec 8) :=
  if a.form.unsigned = implicitConst then a.const.bytes else []

def bytes : List (BitVec 8) :=
  a.name.bytes ++ (a.form.bytes ++ a.constBytes)

/-- The constant; 0 where there is none. -/
def constant : Int :=
  if a.form.unsigned = implicitConst then a.const.signed else 0

end Spec

/-- A declaration. -/
structure Decl where
  code : Leb128
  tag : Leb128
  children : Bool
  specs : List Spec
  nonzero : code.unsigned ≠ 0

/-- The bytes of the specifications, with the zeros behind them. -/
def specBytes (specs : List Spec) : List (BitVec 8) :=
  specs.flatMap Spec.bytes ++ [0, 0]

def Decl.bytes (d : Decl) : List (BitVec 8) :=
  d.code.bytes ++ (d.tag.bytes
    ++ ((if d.children then 1 else 0) :: specBytes d.specs))

/-- The bytes of a table. -/
def bytes (decls : List Decl) : List (BitVec 8) :=
  decls.flatMap Decl.bytes ++ [0]

theorem specBytes_cons (a : Spec) (specs : List Spec) :
    specBytes (a :: specs) = a.bytes ++ specBytes specs := by
  simp [specBytes]

theorem bytes_cons (d : Decl) (decls : List Decl) :
    bytes (d :: decls) = d.bytes ++ bytes decls := by
  simp [bytes]

theorem Spec.bytes_pos (a : Spec) : 0 < a.bytes.length := by
  have hname := a.name.size_pos
  simp only [Spec.bytes, List.length_append, Leb128.length_bytes]
  omega

theorem Decl.bytes_pos (d : Decl) : 0 < d.bytes.length := by
  have hcode := d.code.size_pos
  simp only [Decl.bytes, List.length_append, Leb128.length_bytes]
  omega

/-- A table has at least a byte for each declaration and one more. -/
theorem length_specs_lt (specs : List Spec) :
    specs.length < (specBytes specs).length := by
  induction specs with
  | nil => decide
  | cons a specs ih =>
      have hpos := a.bytes_pos
      rw [specBytes_cons, List.length_append, List.length_cons]
      omega

theorem length_lt (decls : List Decl) :
    decls.length < (bytes decls).length := by
  induction decls with
  | nil => decide
  | cons d decls ih =>
      have hpos := d.bytes_pos
      rw [bytes_cons, List.length_append, List.length_cons]
      omega

end Abbreviation
