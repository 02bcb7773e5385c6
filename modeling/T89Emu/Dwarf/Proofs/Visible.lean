/-
The variables that are shown at a pc: globals and locals.

Two recursions walk down the tree of scopes, and each of them stops in
its own way. Both take the first child whose range contains the pc, and
the scope where neither finds one is the last of `path`. There the
recursion for the globals adds nothing, and the one for the locals does
not add before, so that together they add the variables of each scope of
the path once.

The line of a declaration is asked for with `getUInt`, which ends the
program on a form that it does not read as a number. Nothing is shown
then, and `Readable` is that it does not come to this.
-/
import Mathlib.Data.List.Basic
import T89Emu.Dwarf.Scope
import T89Emu.Lib.Process

namespace T89Emu.Dwarf

open Cpp

-- ============================================================= variables

namespace Variable

/-- The line of a variable's declaration, if it has one. -/
def declLine (v : Variable) : Option U64 :=
  match v.debugEntry.getAttribute .decl_line with
  | none => none
  | some varEntry =>
      match varEntry.getUInt with
      | .ok line => some line
      | .error _ => none

/-- The variable is declared at the line or above it. -/
def Above (line : U32) (v : Variable) : Prop :=
  ∃ declared, v.declLine = some declared ∧ declared ≤ line.setWidth 64

instance (line : U32) (v : Variable) : Decidable (v.Above line) :=
  match h : v.declLine with
  | none => isFalse fun ⟨_, hsome, _⟩ => by rw [h] at hsome; cases hsome
  | some declared =>
      if hle : declared ≤ line.setWidth 64 then isTrue ⟨declared, h, hle⟩
      else isFalse fun ⟨_, hsome, hle'⟩ => by
        rw [h] at hsome
        exact hle (Option.some.inj hsome ▸ hle')

/-- A declaration line, where there is one, is stored as a number. -/
def Readable (v : Variable) : Prop :=
  ∀ varEntry, v.debugEntry.getAttribute .decl_line = some varEntry →
    ∃ line, varEntry.getUInt = .ok line

end Variable

namespace Scope

variable {pc line : U32} {scope : Scope} {ret r : List Variable}

/-- The variables of a scope that are declared above the line. -/
def visible (line : U32) (scope : Scope) : List Variable :=
  scope.vars.filter (·.Above line)

/-- All variables of a scope are readable. -/
def Readable (scope : Scope) : Prop := ∀ v ∈ scope.vars, v.Readable

/-- What `getVariablesAboveLine` adds: by induction on the variables, with
whatever was found before in front. -/
theorem getVariablesAboveLine_eq_ok {vars : List Variable} :
    getVariablesAboveLine line vars ret = .ok r
      ↔ (∀ v ∈ vars, v.Readable) ∧ r = ret ++ vars.filter (·.Above line) := by
  induction vars generalizing ret with
  | nil => simp [getVariablesAboveLine, eq_comm]
  | cons v vars ih =>
      rw [getVariablesAboveLine, List.forall_mem_cons, List.filter_cons]
      cases hattr : v.debugEntry.getAttribute .decl_line with
      | none =>
          have hread : v.Readable := fun _ h => by rw [hattr] at h; cases h
          have habove : ¬ v.Above line := by
            rintro ⟨_, h, -⟩
            rw [Variable.declLine, hattr] at h
            cases h
          simp only [hread, habove, true_and, decide_false]
          exact ih
      | some varEntry =>
          cases hline : varEntry.getUInt with
          | error e =>
              have hread : ¬ v.Readable := fun h => by
                obtain ⟨_, hok⟩ := h varEntry hattr
                rw [hline] at hok
                cases hok
              simp [hline, hread]
          | ok declared =>
              have hread : v.Readable := fun _ h => by
                rw [hattr] at h
                obtain rfl := Option.some.inj h
                exact ⟨declared, hline⟩
              have hdecl : v.declLine = some declared := by
                rw [Variable.declLine, hattr]
                dsimp only
                rw [hline]
              have habove : v.Above line ↔ declared ≤ line.setWidth 64 := by
                simp [Variable.Above, hdecl]
              simp only [hread, true_and, hline, ok_bind]
              by_cases hle : declared ≤ line.setWidth 64
              · rw [if_pos hle, if_pos (decide_eq_true (habove.2 hle)), ih]
                simp
              · have hnot : ¬ decide (v.Above line) = true := fun h =>
                  hle (habove.1 (of_decide_eq_true h))
                rw [if_neg hle, if_neg hnot, ih]

-- ================================================================ the path

/-- What holds of a scope once it holds of its children holds of every
scope. -/
theorem induction_children {P : Scope → Prop}
    (h : ∀ scope, (∀ child ∈ scope.scopes, P child) → P scope)
    (scope : Scope) : P scope := by
  refine @Scope.rec P (fun scopes => ∀ child ∈ scopes, P child) ?_ ?_ ?_
    scope
  · exact fun debugEntry lowPc highPc scopes vars ih => h _ ih
  · exact fun child hchild => absurd hchild List.not_mem_nil
  · exact fun child scopes hchild hscopes =>
      List.forall_mem_cons.2 ⟨hchild, hscopes⟩

/-- The first child whose range contains the pc. -/
def childAt (pc : U32) (scope : Scope) : Option Scope :=
  scope.scopes.find? (·.isPcInRange pc)

mutual

/-- A scope, and behind it the scopes that the first child containing the
pc leads to. -/
def path (pc : U32) : Scope → List Scope
  | mk debugEntry lowPc highPc scopes vars =>
      mk debugEntry lowPc highPc scopes vars :: pathOf pc scopes

def pathOf (pc : U32) : List Scope → List Scope
  | [] => []
  | child :: scopes =>
      if child.isPcInRange pc then path pc child else pathOf pc scopes

end

/-- The path goes on in the first child that contains the pc. -/
theorem path_eq (pc : U32) (scope : Scope) :
    scope.path pc = scope :: match scope.childAt pc with
      | none => []
      | some child => child.path pc := by
  have hof : ∀ scopes : List Scope,
      pathOf pc scopes = match scopes.find? (·.isPcInRange pc) with
        | none => []
        | some child => child.path pc := by
    intro scopes
    induction scopes with
    | nil => rfl
    | cons child scopes ih =>
        rw [pathOf, List.find?_cons]
        split
        case isTrue hin => rw [hin]
        case isFalse hin => simpa [hin] using ih
  cases scope with
  | mk debugEntry lowPc highPc scopes vars =>
      rw [path, hof]
      rfl

/-- The last scope of the path. -/
def innermost (pc : U32) (scope : Scope) : Scope :=
  (scope.path pc).getLastD scope

/-- The scopes of the path in front of the last one. -/
def outer (pc : U32) (scope : Scope) : List Scope :=
  (scope.path pc).dropLast

/-- The path ends with its last scope. -/
theorem path_split (pc : U32) (scope : Scope) :
    scope.path pc = scope.outer pc ++ [scope.innermost pc] := by
  have hlast : ∀ (a : Scope) (l : List Scope),
      a :: l = (a :: l).dropLast ++ [(a :: l).getLastD scope] := fun a l =>
    (List.dropLast_append_getLast (List.cons_ne_nil a l)).symm
  rw [innermost, outer, path_eq]
  exact hlast ..

/-- A scope in which no child contains the pc is the only one of its
path. -/
theorem innermost_of_none (h : scope.childAt pc = none) :
    scope.innermost pc = scope := by
  rw [innermost, path_eq, h]
  rfl

/-- And there is none in front of it. -/
theorem outer_of_none (h : scope.childAt pc = none) :
    scope.outer pc = [] := by
  rw [outer, path_eq, h]
  rfl

/-- Otherwise the last scope is that of the child. -/
theorem innermost_of_some {child : Scope}
    (h : scope.childAt pc = some child) :
    scope.innermost pc = child.innermost pc := by
  rw [innermost, path_eq, h]
  dsimp only
  rw [path_split, List.getLastD_cons, List.getLastD_concat]

/-- And the scope is one more in front of it. -/
theorem outer_of_some {child : Scope} (h : scope.childAt pc = some child) :
    scope.outer pc = scope :: child.outer pc := by
  rw [outer, path_eq, h]
  dsimp only
  rw [path_split, ← List.cons_append, List.dropLast_concat]

-- ============================================================ two descents

/-- The recursion for the locals goes on in the child, and stops where
there is none. -/
theorem getLocalVariables_eq :
    scope.getLocalVariables pc line ret
      = match scope.childAt pc with
        | none => getVariablesAboveLine line scope.vars ret
        | some child => child.getLocalVariables pc line ret := by
  have hof : ∀ scopes : List Scope, getLocalVariablesOf pc line scopes ret
      = match scopes.find? (·.isPcInRange pc) with
        | none => .ok none
        | some child => (child.getLocalVariables pc line ret).map some := by
    intro scopes
    induction scopes with
    | nil => rfl
    | cons child scopes ih =>
        rw [getLocalVariablesOf, List.find?_cons]
        split
        case isTrue hin =>
          rw [hin]
          dsimp only
          cases child.getLocalVariables pc line ret with
          | error e => rfl
          | ok r => rfl
        case isFalse hin => simpa [hin] using ih
  cases scope with
  | mk debugEntry lowPc highPc scopes vars =>
      rw [getLocalVariables, hof]
      show _ = match scopes.find? (·.isPcInRange pc) with
        | none => getVariablesAboveLine line vars ret
        | some child => child.getLocalVariables pc line ret
      cases scopes.find? (·.isPcInRange pc) with
      | none => rfl
      | some child =>
          dsimp only
          cases child.getLocalVariables pc line ret with
          | error e => rfl
          | ok r => rfl

/-- The globals end where the locals begin: both look at the same
children. -/
theorem isLocalScope_iff :
    scope.isLocalScope pc = true ↔ scope.childAt pc = none := by
  simp [isLocalScope, childAt]

/-- The recursion for the globals adds the variables of a scope with a
child to go on in, and those of no other. -/
theorem getGlobalVariables_eq :
    scope.getGlobalVariables pc line ret
      = match scope.childAt pc with
        | none => .ok ret
        | some child => getVariablesAboveLine line scope.vars ret >>=
            child.getGlobalVariables pc line := by
  have hof : ∀ (scopes : List Scope) (child : Scope) (ret : List Variable),
      scopes.find? (·.isPcInRange pc) = some child →
        getGlobalVariablesOf pc line scopes ret
          = child.getGlobalVariables pc line ret := by
    intro scopes child ret h
    induction scopes with
    | nil => cases h
    | cons first scopes ih =>
        rw [List.find?_cons] at h
        rw [getGlobalVariablesOf]
        split
        case isTrue hin =>
          rw [hin] at h
          rw [Option.some.inj h]
        case isFalse hin => exact ih (by simpa [hin] using h)
  cases hchild : scope.childAt pc with
  | none =>
      have hlocal := isLocalScope_iff.2 hchild
      cases scope with
      | mk debugEntry lowPc highPc scopes vars =>
          rw [getGlobalVariables, if_pos hlocal]
          rfl
  | some child =>
      have hnot : ¬ scope.isLocalScope pc = true := fun h => by
        rw [isLocalScope_iff.1 h] at hchild
        cases hchild
      cases scope with
      | mk debugEntry lowPc highPc scopes vars =>
          rw [getGlobalVariables, if_neg hnot]
          exact bind_congr fun ret => hof scopes child ret hchild

/-- The locals are the variables of the last scope. -/
theorem getLocalVariables_eq_ok :
    scope.getLocalVariables pc line ret = .ok r
      ↔ (scope.innermost pc).Readable
        ∧ r = ret ++ (scope.innermost pc).visible line := by
  induction scope using induction_children with
  | h scope ih =>
      rw [getLocalVariables_eq]
      cases hchild : scope.childAt pc with
      | none =>
          rw [innermost_of_none hchild]
          exact getVariablesAboveLine_eq_ok
      | some child =>
          rw [innermost_of_some hchild]
          exact ih child (List.mem_of_find?_eq_some hchild)

/-- The globals are those of the scopes in front of it, each in its
turn. -/
theorem getGlobalVariables_eq_ok :
    scope.getGlobalVariables pc line ret = .ok r
      ↔ (∀ outer ∈ scope.outer pc, outer.Readable)
        ∧ r = ret ++ (scope.outer pc).flatMap (·.visible line) := by
  induction scope using induction_children generalizing ret with
  | h scope ih =>
      rw [getGlobalVariables_eq]
      cases hchild : scope.childAt pc with
      | none =>
          rw [outer_of_none hchild]
          simp [eq_comm]
      | some child =>
          have hmem := List.mem_of_find?_eq_some hchild
          rw [outer_of_some hchild, List.forall_mem_cons, List.flatMap_cons,
            ← List.append_assoc]
          constructor
          · intro h
            obtain ⟨ret', habove, hrest⟩ := bind_eq_ok.1 h
            obtain ⟨hread, rfl⟩ := getVariablesAboveLine_eq_ok.1 habove
            obtain ⟨hreads, hr⟩ := (ih child hmem).1 hrest
            exact ⟨⟨hread, hreads⟩, hr⟩
          · rintro ⟨⟨hread, hreads⟩, hr⟩
            exact bind_eq_ok.2 ⟨_, getVariablesAboveLine_eq_ok.2 ⟨hread, rfl⟩,
              (ih child hmem).2 ⟨hreads, hr⟩⟩

/-- The globals and then the locals of a scope: the program goes on where
each variable on the path can be read, the globals are those of the
scopes in front of the last one, the locals those of the last one, and
together they are the variables on the path that are declared above the
line, in their order. -/
theorem visible_partitioned (root : Scope) (pc line : U32)
    (globals shown : List Variable) :
    (root.getGlobalVariables pc line [] = .ok globals
        ∧ root.getLocalVariables pc line globals = .ok shown)
      ↔ (∀ scope ∈ root.path pc, scope.Readable)
        ∧ globals = (root.path pc).dropLast.flatMap (·.visible line)
        ∧ shown = globals ++ (root.innermost pc).visible line
        ∧ shown = (root.path pc).flatMap (·.visible line) := by
  have hsplit := root.path_split pc
  rw [getGlobalVariables_eq_ok, getLocalVariables_eq_ok, List.nil_append]
  constructor
  · rintro ⟨⟨hreads, rfl⟩, hread, rfl⟩
    refine ⟨fun scope hscope => ?_, rfl, rfl, ?_⟩
    · rw [hsplit, List.mem_append, List.mem_singleton] at hscope
      rcases hscope with hscope | rfl
      · exact hreads scope hscope
      · exact hread
    · rw [hsplit, List.flatMap_append]
      simp
  · rintro ⟨hreads, hglobals, hshown, -⟩
    rw [hsplit] at hreads
    exact ⟨⟨fun scope hscope => hreads scope (List.mem_append_left _ hscope),
      hglobals⟩, hreads _ (List.mem_append_right _ List.mem_cons_self),
      hshown⟩

/-- The entry of a variable that is declared in line 1, the line being
written in sixteen bytes. -/
def wideLine : DebugInfoEntry :=
  .mk none 2 17 ⟨2, .variable, false, [⟨.decl_line, .data16, 0⟩]⟩
    [(.decl_line, ⟨.data16, 1 :: List.replicate 15 0⟩)] []

/-- A scope with one such variable. -/
def wideScope : Scope := mk wideLine 0 8 [] [⟨wideLine, wideLine⟩]

/-- The variable is in the last scope of the path, and its declaration is
above line 10; but there are no lists, since asking for the locals ends
the program. -/
theorem wide_line_not_shown :
    wideScope.path 4 = [wideScope]
      ∧ wideLine.getAttribute .decl_line
        = some ⟨.data16, 1 :: List.replicate 15 0⟩
      ∧ wideScope.getGlobalVariables 4 10 [] = .ok []
      ∧ wideScope.getLocalVariables 4 10 [] = .error .exit
      ∧ ¬ ∃ globals shown, wideScope.getGlobalVariables 4 10 [] = .ok globals
        ∧ wideScope.getLocalVariables 4 10 globals = .ok shown := by
  refine ⟨rfl, rfl, rfl, rfl, ?_⟩
  rintro ⟨globals, shown, hglobals, hshown⟩
  obtain rfl : [] = globals := Except.ok.inj hglobals
  cases hshown

end Scope

end T89Emu.Dwarf
