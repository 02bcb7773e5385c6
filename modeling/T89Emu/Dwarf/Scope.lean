/-
Scopes and their variables (Scope.cpp, Variable.cpp and
CompileUnit::generateScopes), and the types of a unit (DataType.cpp and
CompileUnit::generateTypes).
-/
import T89Emu.Dwarf.DebugInfoEntry

namespace T89Emu.Dwarf

open Cpp

-- ============================================================== questions

namespace DebugInfoEntry

def getTag : DebugInfoEntry → TagEncoding
  | mk _ _ _ abbrevEntry _ _ => abbrevEntry.dieTag

def isScope (e : DebugInfoEntry) : Bool :=
  match e.getTag with
  | .subprogram | .inlined_subroutine | .entry_point => true
  | _ => false

def isType (e : DebugInfoEntry) : Bool :=
  match e.getTag with
  | .array_type | .atomic_type | .base_type | .class_type | .const_type
  | .enumeration_type | .pointer_type | .ptr_to_member_type
  | .reference_type | .restrict_type | .rvalue_reference_type
  | .string_type | .structure_type | .typedef | .union_type
  | .unspecified_type | .volatile_type => true
  | _ => false

def isVariable (e : DebugInfoEntry) : Bool :=
  match e.getTag with
  | .variable | .formal_parameter => true
  | _ => false

end DebugInfoEntry

-- =============================================================== variables

/-- A variable: its entry, and the one its pointer to the parent refers
to. -/
structure Variable where
  debugEntry : DebugInfoEntry
  parentEntry : DebugInfoEntry

/-- `Variable(debugEntry)`: a location that is no expression ends the
program. -/
def Variable.new (parentEntry debugEntry : DebugInfoEntry) :
    Proc Variable :=
  match debugEntry.getAttribute .location with
  | some locExpr =>
      if locExpr.form = .exprloc then pure ⟨debugEntry, parentEntry⟩
      else throw .exit
  | none => pure ⟨debugEntry, parentEntry⟩

-- ================================================================= scopes

inductive Scope
  | mk (debugEntry : DebugInfoEntry) (lowPc highPc : U32)
      (scopes : List Scope) (vars : List Variable)

namespace Scope

def debugEntry : Scope → DebugInfoEntry
  | mk debugEntry _ _ _ _ => debugEntry

def scopes : Scope → List Scope
  | mk _ _ _ scopes _ => scopes

def vars : Scope → List Variable
  | mk _ _ _ _ vars => vars

def isPcInRange : Scope → U32 → Bool
  | mk _ lowPc highPc _ _, pc => decide (lowPc ≤ pc) && decide (pc < highPc)

/-- What an attribute that may be missing adds. -/
def optionalUInt (data : Option DebugData) (missing : U32)
    (present : U64 → U32) : Proc U32 :=
  match data with
  | none => pure missing
  | some data => do pure (present (← data.getUInt))

/-- The bounds that `Scope(debugEntry, parent)` computes. -/
def bounds (attributes : List (AttributeEncoding × DebugData)) :
    Proc (U32 × U32) := do
  let lowPc ← optionalUInt (attributes.lookup .low_pc) 0
    fun value => value.setWidth 32
  let highPc ← optionalUInt (attributes.lookup .high_pc) 0
    fun value => lowPc + value.setWidth 32
  pure (lowPc, highPc)

-- ================================================================ lookup

/-- `getVariablesAboveLine` of the variables of a scope; `ret` is what was
found so far. -/
def getVariablesAboveLine (line : U32) :
    List Variable → List Variable → Proc (List Variable)
  | [], ret => pure ret
  | var :: vars, ret => do
      match var.debugEntry.getAttribute .decl_line with
      | some varEntry =>
          if (← varEntry.getUInt) ≤ line.setWidth 64 then
            getVariablesAboveLine line vars (ret ++ [var])
          else getVariablesAboveLine line vars ret
      | none => getVariablesAboveLine line vars ret

def isLocalScope (scope : Scope) (pc : U32) : Bool :=
  scope.scopes.all fun childScope => !childScope.isPcInRange pc

mutual

/-- `getLocalVariables` -/
def getLocalVariables (pc line : U32) :
    Scope → List Variable → Proc (List Variable)
  | mk _ _ _ scopes vars, ret => do
      match ← getLocalVariablesOf pc line scopes ret with
      | some ret => pure ret
      | none => getVariablesAboveLine line vars ret

/-- Its loop over the children; `none` when it ran to its end. -/
def getLocalVariablesOf (pc line : U32) :
    List Scope → List Variable → Proc (Option (List Variable))
  | [], _ => pure none
  | childScope :: scopes, ret =>
      if childScope.isPcInRange pc then do
        let ret ← getLocalVariables pc line childScope ret
        pure (some ret)
      else getLocalVariablesOf pc line scopes ret

end

mutual

/-- `getGlobalVariables` -/
def getGlobalVariables (pc line : U32) :
    Scope → List Variable → Proc (List Variable)
  | mk debugEntry lowPc highPc scopes vars, ret => do
      if (mk debugEntry lowPc highPc scopes vars).isLocalScope pc then
        pure ret
      else
        let ret ← getVariablesAboveLine line vars ret
        getGlobalVariablesOf pc line scopes ret

/-- Its loop over the children. -/
def getGlobalVariablesOf (pc line : U32) :
    List Scope → List Variable → Proc (List Variable)
  | [], ret => pure ret
  | childScope :: scopes, ret =>
      if childScope.isPcInRange pc then
        getGlobalVariables pc line childScope ret
      else getGlobalVariablesOf pc line scopes ret

end

end Scope

mutual

/-- `generateScopes(node, parent)` -/
def generateScopes : DebugInfoEntry → Proc Scope
  | .mk parent code offset abbrevEntry attributes children => do
      let node : DebugInfoEntry :=
        .mk parent code offset abbrevEntry attributes children
      let (lowPc, highPc) ← Scope.bounds attributes
      let (scopes, vars) ← generateMembers node children
      pure (.mk node lowPc highPc scopes vars)

/-- The loop over the children of `node`. -/
def generateMembers (node : DebugInfoEntry) :
    List DebugInfoEntry → Proc (List Scope × List Variable)
  | [] => pure ([], [])
  | child :: children => do
      if child.isVariable then
        let var ← Variable.new node child
        let (scopes, vars) ← generateMembers node children
        pure (scopes, var :: vars)
      else if child.isScope then
        let scope ← generateScopes child
        let (scopes, vars) ← generateMembers node children
        pure (scope :: scopes, vars)
      else generateMembers node children

end

-- ================================================================== types

structure DataType where
  name : List U8
  baseEncoding : U32
  byteSize : U64
  deriving DecidableEq, Repr

def DW_END_big : U64 := 1

/-- `DataType(entry)`; a big-endian type ends the program. -/
def DataType.new (entry : DebugInfoEntry) : Proc DataType := do
  let name := match entry.getAttribute .name with
    | some data => data.getString
    | none => []
  let baseEncoding ← match entry.getAttribute .encoding with
    | some data => do pure ((← data.getUInt).setWidth 32)
    | none => pure 0
  match entry.getAttribute .endianity with
  | some data => if (← data.getUInt) = DW_END_big then throw .exit
  | none => pure ()
  let byteSize ← match entry.getAttribute .byte_size with
    | some data => data.getUInt
    | none => pure 4
  pure ⟨name, baseEncoding, byteSize⟩

/-- The types found so far, by the offset of their entry. -/
abbrev TypeEntries := List (Nat × DataType)

/-- A new data type, if the entry is one that was not added yet. -/
def addType (entry : DebugInfoEntry) (typeEntries : TypeEntries) :
    Proc TypeEntries := do
  if entry.isType && (typeEntries.lookup entry.getOffset).isNone then
    let dataType ← DataType.new entry
    pure (typeEntries ++ [(entry.getOffset, dataType)])
  else pure typeEntries

mutual

/-- `generateTypes(dwarfParser, entry)` -/
def generateTypes : DebugInfoEntry → TypeEntries → Proc TypeEntries
  | .mk parent code offset abbrevEntry attributes children,
      typeEntries => do
      let typeEntries ← addType
        (.mk parent code offset abbrevEntry attributes children) typeEntries
      generateTypesOf children typeEntries

/-- The loop over the children. -/
def generateTypesOf : List DebugInfoEntry → TypeEntries → Proc TypeEntries
  | [], typeEntries => pure typeEntries
  | child :: children, typeEntries => do
      let typeEntries ← generateTypes child typeEntries
      generateTypesOf children typeEntries

end

end T89Emu.Dwarf
