/-
The variables of a unit and the scopes they come to belong to.

`generateScopes` goes down into the children that `isScope` accepts, and
a variable is found there or not at all (`owned_iff`). C puts variables
into lexical blocks as well, and those are no scopes.

An entry of the model is a value. What stands for its address, by which
the source tells entries apart, is its offset; `DieTree` is a tree in
which no two entries have the same, as all trees are that are read from a
unit (`generateDebugInfo_distinct`).
-/
import Mathlib.Data.List.Nodup
import Mathlib.Data.List.Pairwise
import Mathlib.Data.List.Perm.Basic
import T89Emu.Dwarf.Scope
import T89Emu.Lib.Lockstep
import T89Emu.Lib.Process

namespace T89Emu.Dwarf

open Cpp

-- ============================================================ the entries

namespace DebugInfoEntry

/-- What holds of an entry once it holds of its children holds of every
entry. -/
theorem induction_children {P : DebugInfoEntry → Prop}
    (h : ∀ e, (∀ child ∈ e.children, P child) → P e)
    (e : DebugInfoEntry) : P e := by
  refine @DebugInfoEntry.rec P (fun es => ∀ child ∈ es, P child) ?_ ?_ ?_ e
  · exact fun parent code offset abbrevEntry attributes children ih =>
      h _ ih
  · exact fun child hchild => absurd hchild List.not_mem_nil
  · exact fun child children hchild hchildren =>
      List.forall_mem_cons.2 ⟨hchild, hchildren⟩

mutual

/-- An entry and all entries below it, in the order of the section. -/
def entries : DebugInfoEntry → List DebugInfoEntry
  | mk parent code offset abbrevEntry attributes children =>
      mk parent code offset abbrevEntry attributes children
        :: entriesOf children

def entriesOf : List DebugInfoEntry → List DebugInfoEntry
  | [] => []
  | child :: children => entries child ++ entriesOf children

end

/-- The entries of a list are those of its trees. -/
theorem entriesOf_eq (es : List DebugInfoEntry) :
    entriesOf es = es.flatMap entries := by
  induction es with
  | nil => rfl
  | cons e es ih => rw [entriesOf, ih, List.flatMap_cons]

/-- The entries of a tree are its root and those below it. -/
theorem entries_eq (e : DebugInfoEntry) :
    e.entries = e :: e.children.flatMap entries := by
  cases e with
  | mk parent code offset abbrevEntry attributes children =>
      rw [entries, entriesOf_eq]
      rfl

/-- The root is one of them. -/
theorem self_mem_entries (e : DebugInfoEntry) : e ∈ e.entries := by
  rw [entries_eq]
  exact List.mem_cons_self

/-- A subtree has no others. -/
theorem entries_subset {e child : DebugInfoEntry}
    (h : child ∈ e.children) : child.entries ⊆ e.entries := by
  intro x hx
  rw [entries_eq]
  exact List.mem_cons_of_mem _ (List.mem_flatMap.2 ⟨child, h, hx⟩)

/-- Every entry but the first is the child of one. -/
theorem children_perm_tail (e : DebugInfoEntry) :
    (e.entries.flatMap children).Perm e.entries.tail := by
  induction e using induction_children with
  | h e ih =>
      have hhead : ∀ c : DebugInfoEntry, [c] ++ c.entries.tail = c.entries :=
        fun c => by rw [entries_eq]; rfl
      have hbelow :
          (e.children.flatMap fun c => c.entries.flatMap children).Perm
            (e.children.flatMap fun c => c.entries.tail) :=
        List.Perm.flatMap_left _ ih
      have hjoin := List.flatMap_append_perm e.children (fun c => [c])
        (fun c => c.entries.tail)
      simp only [hhead, List.flatMap_singleton'] at hjoin
      rw [entries_eq, List.flatMap_cons, List.tail_cons, List.flatMap_assoc]
      exact (hbelow.append_left _).trans hjoin

/-- Where no entry stands twice, an entry has one parent. -/
theorem parent_unique {root a b v : DebugInfoEntry}
    (hnodup : root.entries.Nodup) (ha : a ∈ root.entries)
    (hb : b ∈ root.entries) (hva : v ∈ a.children) (hvb : v ∈ b.children) :
    a = b := by
  have htail : (root.entries.flatMap children).Nodup :=
    root.children_perm_tail.nodup_iff.2 hnodup.tail
  have hsymm : Std.Symm (Function.onFun List.Disjoint children) :=
    ⟨fun _ _ h => List.disjoint_symm h⟩
  by_contra hne
  exact (List.nodup_flatMap.1 htail).2.forall ha hb hne hva hvb

end DebugInfoEntry

-- ============================================================== the scopes

/-- The scope is that of the entry: it was generated from it. -/
abbrev ScopeOf (node : DebugInfoEntry) (scope : Scope) : Prop :=
  generateScopes node = .ok scope

/-- A scope keeps its entry, and its members are what is made of the
entry's children. -/
theorem ScopeOf.parts {node : DebugInfoEntry} {scope : Scope}
    (h : ScopeOf node scope) :
    scope.debugEntry = node
      ∧ generateMembers node node.children
        = .ok (scope.scopes, scope.vars) := by
  cases node with
  | mk parent code offset abbrevEntry attributes children =>
      unfold ScopeOf generateScopes at h
      obtain ⟨⟨lowPc, highPc⟩, -, h⟩ := bind_eq_ok.1 h
      obtain ⟨⟨scopes, vars⟩, hmembers, h⟩ := bind_eq_ok.1 h
      obtain rfl := Except.ok.inj h
      exact ⟨rfl, hmembers⟩

/-- A variable is no scope. -/
theorem isScope_eq_false {e : DebugInfoEntry} (h : e.isVariable = true) :
    e.isScope = false := by
  unfold DebugInfoEntry.isVariable at h
  unfold DebugInfoEntry.isScope
  split at h
  all_goals simp_all

/-- A variable keeps its entry. -/
theorem Variable.debugEntry_new {parent e : DebugInfoEntry} {v : Variable}
    (h : Variable.new parent e = .ok v) : v.debugEntry = e := by
  unfold Variable.new at h
  split at h
  · split at h
    · exact (congrArg Variable.debugEntry (Except.ok.inj h)).symm
    · cases h
  · exact (congrArg Variable.debugEntry (Except.ok.inj h)).symm

/-- The members of a scope: its variables are the children that are
variables, and its scopes are those of the children that are scopes. -/
theorem generateMembers_eq_ok {node : DebugInfoEntry}
    {children : List DebugInfoEntry} {scopes : List Scope}
    {vars : List Variable}
    (h : generateMembers node children = .ok (scopes, vars)) :
    vars.map (·.debugEntry) = children.filter (·.isVariable)
      ∧ List.Forall₂ ScopeOf (children.filter (·.isScope)) scopes := by
  induction children generalizing scopes vars with
  | nil =>
      obtain ⟨rfl, rfl⟩ := Prod.mk.inj (Except.ok.inj h)
      exact ⟨rfl, .nil⟩
  | cons child children ih =>
      rw [generateMembers] at h
      by_cases hvar : child.isVariable = true
      · rw [if_pos hvar] at h
        obtain ⟨v, hv, h⟩ := bind_eq_ok.1 h
        obtain ⟨⟨scopes', vars'⟩, hrest, h⟩ := bind_eq_ok.1 h
        obtain ⟨rfl, rfl⟩ := Prod.mk.inj (Except.ok.inj h)
        obtain ⟨hvars, hscopes⟩ := ih hrest
        rw [List.filter_cons_of_pos hvar,
          List.filter_cons_of_neg (by simp [isScope_eq_false hvar])]
        exact ⟨by rw [List.map_cons, Variable.debugEntry_new hv, hvars],
          hscopes⟩
      · rw [if_neg hvar] at h
        rw [List.filter_cons_of_neg hvar]
        by_cases hscope : child.isScope = true
        · rw [if_pos hscope] at h
          obtain ⟨scope, hs, h⟩ := bind_eq_ok.1 h
          obtain ⟨⟨scopes', vars'⟩, hrest, h⟩ := bind_eq_ok.1 h
          obtain ⟨rfl, rfl⟩ := Prod.mk.inj (Except.ok.inj h)
          obtain ⟨hvars, hscopes⟩ := ih hrest
          rw [List.filter_cons_of_pos hscope]
          exact ⟨hvars, .cons hs hscopes⟩
        · rw [if_neg hscope] at h
          rw [List.filter_cons_of_neg hscope]
          exact ih h

/-- The scope of a child that is a scope is among those of the parent. -/
theorem ScopeOf.child {node c : DebugInfoEntry} {scope : Scope}
    (h : ScopeOf node scope) (hc : c ∈ node.children)
    (hscope : c.isScope = true) : ∃ s ∈ scope.scopes, ScopeOf c s :=
  Lockstep.exists_partner (generateMembers_eq_ok h.parts.2).2
    (List.mem_filter.2 ⟨hc, hscope⟩)

/-- And every child of the scope is one of these. -/
theorem ScopeOf.of_child {node : DebugInfoEntry} {scope s : Scope}
    (h : ScopeOf node scope) (hs : s ∈ scope.scopes) :
    ∃ c ∈ node.children, c.isScope = true ∧ ScopeOf c s := by
  obtain ⟨c, hc, hof⟩ :=
    Lockstep.exists_partner_right (generateMembers_eq_ok h.parts.2).2 hs
  obtain ⟨hmem, hscope⟩ := List.mem_filter.1 hc
  exact ⟨c, hmem, hscope, hof⟩

-- ======================================================== whose variables

/-- The entries of the variables that belong to a scope. -/
def Scope.declared (scope : Scope) : List DebugInfoEntry :=
  scope.vars.map (·.debugEntry)

/-- The scope is one of the tree. -/
inductive InTree : Scope → Scope → Prop
  | root (scope : Scope) : InTree scope scope
  | child {scope child t : Scope} (hchild : child ∈ scope.scopes)
      (h : InTree child t) : InTree scope t

/-- From the first entry to the second one lead scopes only. -/
inductive Reached : DebugInfoEntry → DebugInfoEntry → Prop
  | child {e v : DebugInfoEntry} (h : v ∈ e.children) : Reached e v
  | scope {e c v : DebugInfoEntry} (hc : c ∈ e.children)
      (hscope : c.isScope = true) (h : Reached c v) : Reached e v

/-- Each scope of the tree is that of its entry. -/
theorem scopeOf_inTree {node : DebugInfoEntry} {scope t : Scope}
    (h : ScopeOf node scope) (ht : InTree scope t) :
    ScopeOf t.debugEntry t ∧ t.debugEntry ∈ node.entries := by
  induction ht generalizing node with
  | root scope =>
      obtain ⟨hentry, -⟩ := h.parts
      rw [hentry]
      exact ⟨h, node.self_mem_entries⟩
  | @child scope child t hchild _ ih =>
      obtain ⟨c, hc, -, hscope⟩ := h.of_child hchild
      obtain ⟨hof, hmem⟩ := ih hscope
      exact ⟨hof, DebugInfoEntry.entries_subset hc hmem⟩

/-- The variables of a scope are those among the children of its entry. -/
theorem mem_declared {node v : DebugInfoEntry} {scope : Scope}
    (h : ScopeOf node scope) :
    v ∈ scope.declared ↔ v ∈ node.children ∧ v.isVariable = true := by
  rw [Scope.declared, (generateMembers_eq_ok h.parts.2).1, List.mem_filter]

/-- A variable belongs to a scope of the tree exactly when scopes only
lead to it. -/
theorem owned_iff {node v : DebugInfoEntry} {scope : Scope}
    (h : ScopeOf node scope) :
    (∃ t, InTree scope t ∧ v ∈ t.declared)
      ↔ v.isVariable = true ∧ Reached node v := by
  constructor
  · rintro ⟨t, ht, hv⟩
    induction ht generalizing node with
    | root scope =>
        obtain ⟨hchild, hvar⟩ := (mem_declared h).1 hv
        exact ⟨hvar, .child hchild⟩
    | @child scope child t hchild _ ih =>
        obtain ⟨c, hc, hscope, hof⟩ := h.of_child hchild
        obtain ⟨hvar, hreach⟩ := ih hof hv
        exact ⟨hvar, .scope hc hscope hreach⟩
  · rintro ⟨hvar, hreach⟩
    induction hreach generalizing scope with
    | @child e v hchild =>
        exact ⟨scope, .root scope, (mem_declared h).2 ⟨hchild, hvar⟩⟩
    | @scope e c v hc hscope _ ih =>
        obtain ⟨s, hs, hof⟩ := h.child hc hscope
        obtain ⟨t, ht, hv⟩ := ih hof hvar
        exact ⟨t, .child hs ht, hv⟩

-- ============================================================= the result

/-- A tree of entries in which no two have the same offset. -/
structure DieTree where
  root : DebugInfoEntry
  distinct : (root.entries.map (·.getOffset)).Nodup

/-- The entries that may lie between a subprogram and its variables. -/
def DebugInfoEntry.isContainer (e : DebugInfoEntry) : Bool :=
  match e.getTag with
  | .lexical_block | .inlined_subroutine | .subprogram => true
  | _ => false

/-- From the first entry to the second one lead containers only. -/
inductive Nested : DebugInfoEntry → DebugInfoEntry → Prop
  | child {e v : DebugInfoEntry} (h : v ∈ e.children) : Nested e v
  | container {e c v : DebugInfoEntry} (hc : c ∈ e.children)
      (hcontainer : c.isContainer = true) (h : Nested c v) : Nested e v

/-- A variable or parameter of a subprogram of the unit. -/
def IsLocal (root v : DebugInfoEntry) : Prop :=
  v.isVariable = true
    ∧ ∃ e ∈ root.entries, e.getTag = .subprogram ∧ Nested e v

/-- The first entry is an ancestor of the second one. -/
def IsAncestor (a v : DebugInfoEntry) : Prop :=
  ∃ c ∈ a.children, v ∈ c.entries

/-- Every variable of a subprogram belongs to exactly one scope of the
tree, and the entry of that scope is an ancestor of it. -/
def NoneLost (root : DebugInfoEntry) (scope : Scope) : Prop :=
  ∀ v, IsLocal root v → ∃ t, InTree scope t ∧ v ∈ t.declared
    ∧ IsAncestor t.debugEntry v
    ∧ ∀ t', InTree scope t' → v ∈ t'.declared → t' = t

/-- No variable of a subprogram is lost exactly when between each of them
and the root there are only entries that `isScope` accepts. -/
theorem none_lost_iff (tree : DieTree) (scope : Scope)
    (h : generateScopes tree.root = .ok scope) :
    NoneLost tree.root scope
      ↔ ∀ v, IsLocal tree.root v → Reached tree.root v := by
  have hof : ScopeOf tree.root scope := h
  constructor
  · intro hnone v hv
    obtain ⟨t, ht, hdecl, -⟩ := hnone v hv
    exact ((owned_iff hof).1 ⟨t, ht, hdecl⟩).2
  · intro hreach v hv
    obtain ⟨t, ht, hdecl⟩ := (owned_iff hof).2 ⟨hv.1, hreach v hv⟩
    obtain ⟨htof, htmem⟩ := scopeOf_inTree hof ht
    obtain ⟨hchild, -⟩ := (mem_declared htof).1 hdecl
    refine ⟨t, ht, hdecl, ⟨v, hchild, v.self_mem_entries⟩, ?_⟩
    intro t' ht' hdecl'
    obtain ⟨htof', htmem'⟩ := scopeOf_inTree hof ht'
    obtain ⟨hchild', -⟩ := (mem_declared htof').1 hdecl'
    -- the entries of both are the parent of the variable
    have hsame : t'.debugEntry = t.debugEntry :=
      DebugInfoEntry.parent_unique (List.Nodup.of_map _ tree.distinct) htmem'
        htmem hchild' hchild
    rw [ScopeOf, hsame] at htof'
    exact Except.ok.inj (htof'.symm.trans htof)

-- ======================================================= a unit and a loop

/-- An entry with the tag that has no attributes. -/
def plainEntry (tag : TagEncoding) (offset : Nat)
    (children : List DebugInfoEntry) : DebugInfoEntry :=
  .mk none 1 offset ⟨1, tag, !children.isEmpty, []⟩ [] children

/-- `void f(int n) { int i; }` -/
def functionUnit : DieTree where
  root := plainEntry .compile_unit 11 [plainEntry .subprogram 20
    [plainEntry .formal_parameter 30 [], plainEntry .variable 40 []]]
  distinct := by simp [plainEntry, DebugInfoEntry.entries,
    DebugInfoEntry.entriesOf, DebugInfoEntry.getOffset]

/-- The scopes of the example keep all variables. -/
theorem function_keeps_variables :
    ∃ scope, generateScopes functionUnit.root = .ok scope
      ∧ NoneLost functionUnit.root scope := by
  refine ⟨_, rfl, (none_lost_iff functionUnit _ rfl).2 ?_⟩
  rintro v ⟨-, e, he, htag, hnested⟩
  let f := plainEntry .subprogram 20
    [plainEntry .formal_parameter 30 [], plainEntry .variable 40 []]
  have he : e ∈ [functionUnit.root, f, plainEntry .formal_parameter 30 [],
    plainEntry .variable 40 []] := he
  simp only [List.mem_cons, List.not_mem_nil, or_false] at he
  rcases he with rfl | rfl | rfl | rfl
  · cases htag
  · cases hnested with
    | child h => exact .scope List.mem_cons_self rfl (.child h)
    | @container _ c _ hc hcontainer _ =>
        have hc : c ∈ [plainEntry .formal_parameter 30 [],
          plainEntry .variable 40 []] := hc
        simp only [List.mem_cons, List.not_mem_nil, or_false] at hc
        rcases hc with rfl | rfl <;> cases hcontainer
  · cases htag
  · cases htag

/-- The variable of a loop's body. -/
def loopVariable : DebugInfoEntry := plainEntry .variable 40 []

/-- `void f() { for (;;) { int i; } }` -/
def loopUnit : DieTree where
  root := plainEntry .compile_unit 11 [plainEntry .subprogram 20
    [plainEntry .lexical_block 30 [loopVariable]]]
  distinct := by simp [loopVariable, plainEntry, DebugInfoEntry.entries,
    DebugInfoEntry.entriesOf, DebugInfoEntry.getOffset]

/-- It belongs to no scope. -/
theorem loop_variable_lost :
    ∃ scope, generateScopes loopUnit.root = .ok scope
      ∧ ¬ NoneLost loopUnit.root scope
      ∧ ∀ t, InTree scope t → t.declared = [] := by
  have hnone : ∀ v, ¬ (v.isVariable = true ∧ Reached loopUnit.root v) := by
    rintro v ⟨hvar, hreach⟩
    cases hreach with
    | child h =>
        obtain rfl := List.mem_singleton.1 h
        cases hvar
    | scope hc _ hreach =>
        obtain rfl := List.mem_singleton.1 hc
        cases hreach with
        | child h =>
            obtain rfl := List.mem_singleton.1 h
            cases hvar
        | scope hc hscope _ =>
            obtain rfl := List.mem_singleton.1 hc
            cases hscope
  have hof : ∃ scope, ScopeOf loopUnit.root scope := ⟨_, rfl⟩
  obtain ⟨scope, hof⟩ := hof
  refine ⟨scope, hof, fun hall => ?_, fun t ht => ?_⟩
  · obtain ⟨t, ht, hv, -⟩ := hall loopVariable ⟨rfl, _,
      List.mem_cons_of_mem _ List.mem_cons_self, rfl,
      .container List.mem_cons_self rfl (.child List.mem_cons_self)⟩
    exact hnone _ ((owned_iff hof).1 ⟨t, ht, hv⟩)
  · exact List.eq_nil_iff_forall_not_mem.2 fun v hv =>
      hnone v ((owned_iff hof).1 ⟨t, ht, hv⟩)

end T89Emu.Dwarf
