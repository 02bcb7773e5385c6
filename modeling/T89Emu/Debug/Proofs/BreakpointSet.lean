/-
Breakpoints as a set.

`removeBreakpoint` erases one entry of the vector, which removes the
address only where the vector holds it once. `addBreakpoint` looks before
it adds, and `nodup_perform` is that every call keeps it so. What one call
makes of an address is `mem_perform`; over a whole history, the
last call that names the address decides (`breakpoints_are_set`).
-/
import Mathlib.Data.List.Induction
import T89Emu.Debug.McuDebug

namespace T89Emu.McuDebug

variable {L : Layout}

-- =============================================================== histories

/-- A call that changes the breakpoints. -/
inductive BreakpointCall
  | addBreakpoint (address : U32)
  | removeBreakpoint (address : U32)
  deriving DecidableEq, Repr

namespace BreakpointCall

/-- The address that a call names. -/
def address : BreakpointCall → U32
  | addBreakpoint a => a
  | removeBreakpoint a => a

/-- What is true of the address behind the call. -/
def adds : BreakpointCall → Prop
  | addBreakpoint _ => True
  | removeBreakpoint _ => False

end BreakpointCall

/-- One call. -/
def perform (d : McuDebug L) : BreakpointCall → McuDebug L
  | .addBreakpoint a => d.addBreakpoint a
  | .removeBreakpoint a => d.removeBreakpoint a

/-- The calls of a history, from an empty list of breakpoints on. -/
def history (d : McuDebug L) (calls : List BreakpointCall) : McuDebug L :=
  calls.foldl perform { d with breakpoints := [] }

/-- A call behind a history. -/
theorem history_append (d : McuDebug L) (calls : List BreakpointCall)
    (call : BreakpointCall) :
    d.history (calls ++ [call]) = (d.history calls).perform call :=
  List.foldl_append ..

-- ================================================================ one call

variable {d : McuDebug L}

/-- The search finds an address exactly if it is in the list. -/
@[simp] theorem isBreakpoint_eq_true {a : U32} :
    d.isBreakpoint a = true ↔ a ∈ d.breakpoints := by
  simp [isBreakpoint]

/-- The loop erases the first breakpoint with the address. -/
theorem removeLoop_eq (a : U32) (breakpoints : List U32) (i : Nat) :
    removeLoop a breakpoints i
      = breakpoints.take i ++ (breakpoints.drop i).erase a := by
  fun_induction removeLoop a breakpoints i with
  | case1 i hlt hfound =>
      rw [List.eraseIdx_eq_take_drop_succ, List.drop_eq_getElem_cons hlt,
        ← hfound, List.erase_cons_head]
  | case2 i hlt hother ih =>
      have hne : ¬ (breakpoints[i] == a) = true :=
        fun h => hother (eq_of_beq h).symm
      rw [ih, List.drop_eq_getElem_cons hlt, List.erase_cons_tail hne,
        List.take_succ_eq_append_getElem hlt, List.append_assoc]
      rfl
  | case3 i hend =>
      rw [List.drop_of_length_le (Nat.le_of_not_lt hend),
        List.take_of_length_le (Nat.le_of_not_lt hend)]
      exact (List.append_nil _).symm

/-- So `erase` is the loop of the source, from the first breakpoint on. -/
theorem removeBreakpoint_eq_loop (a : U32) :
    (d.removeBreakpoint a).breakpoints = removeLoop a d.breakpoints 0 :=
  (removeLoop_eq a d.breakpoints 0).symm

/-- An address is added only if it is not there yet. -/
theorem nodup_addBreakpoint (a : U32) (h : d.breakpoints.Nodup) :
    (d.addBreakpoint a).breakpoints.Nodup := by
  unfold addBreakpoint
  split
  case isTrue => exact h
  case isFalse hnew =>
    refine List.nodup_append.2 ⟨h, by simp, ?_⟩
    intro b hb c hc heq
    rw [List.mem_singleton] at hc
    exact hnew (hc ▸ heq ▸ hb)

/-- It is there afterwards, with all others. -/
theorem mem_addBreakpoint {a b : U32} :
    b ∈ (d.addBreakpoint a).breakpoints ↔ b = a ∨ b ∈ d.breakpoints := by
  unfold addBreakpoint
  split
  case isTrue hold =>
    constructor
    · exact .inr
    · rintro (rfl | hb)
      · exact hold
      · exact hb
  case isFalse => simp [or_comm]

/-- A call keeps every breakpoint single. -/
theorem nodup_perform (call : BreakpointCall) (h : d.breakpoints.Nodup) :
    (d.perform call).breakpoints.Nodup := by
  cases call with
  | addBreakpoint a => exact nodup_addBreakpoint a h
  | removeBreakpoint a => exact h.erase a

/-- A call decides about the address it names and leaves all others. -/
theorem mem_perform (call : BreakpointCall) (h : d.breakpoints.Nodup)
    (b : U32) :
    b ∈ (d.perform call).breakpoints
      ↔ if b = call.address then call.adds else b ∈ d.breakpoints := by
  cases call with
  | addBreakpoint a =>
      refine mem_addBreakpoint.trans ?_
      split
      case isTrue heq => exact iff_of_true (.inl heq) trivial
      case isFalse hne => exact or_iff_right hne
  | removeBreakpoint a =>
      refine (List.Nodup.mem_erase_iff h).trans ?_
      split
      case isTrue heq => exact iff_of_false (fun hb => hb.1 heq) id
      case isFalse hne => exact and_iff_right hne

-- =============================================================== a history

/-- So no history leaves an address twice, by induction on the calls. -/
theorem nodup_history (d : McuDebug L) (calls : List BreakpointCall) :
    (d.history calls).breakpoints.Nodup := by
  induction calls using List.reverseRecOn with
  | nil => exact List.nodup_nil
  | append_singleton calls call ih =>
      rw [history_append]
      exact nodup_perform call ih

/-- The last call that names the address adds it. -/
def LastAdds (a : U32) (calls : List BreakpointCall) : Prop :=
  ∃ before after, calls = before ++ .addBreakpoint a :: after
    ∧ ∀ call ∈ after, call.address ≠ a

/-- The last call about an address decides. -/
theorem lastAdds_append {a : U32} {calls : List BreakpointCall}
    (call : BreakpointCall) :
    LastAdds a (calls ++ [call])
      ↔ if a = call.address then call.adds else LastAdds a calls := by
  constructor
  · rintro ⟨before, after, hsplit, hafter⟩
    rcases List.eq_nil_or_concat after with rfl | ⟨init, last, rfl⟩
    · -- the last call is the one that adds the address
      obtain ⟨-, hlast⟩ := List.append_inj' hsplit rfl
      obtain rfl := List.singleton_inj.1 hlast
      show if a = a then True else _
      rw [if_pos rfl]
      exact trivial
    · rw [List.concat_eq_append] at hafter hsplit
      rw [← List.cons_append, ← List.append_assoc] at hsplit
      obtain ⟨rfl, hlast⟩ := List.append_inj' hsplit rfl
      obtain rfl := List.singleton_inj.1 hlast
      rw [if_neg fun h => hafter call (by simp) h.symm]
      exact ⟨before, init, rfl, fun c hc => hafter c (by simp [hc])⟩
  · split
    case isTrue heq =>
      intro hadds
      cases call with
      | addBreakpoint b =>
          obtain rfl : a = b := heq
          exact ⟨calls, [], rfl, by simp⟩
      | removeBreakpoint b => exact hadds.elim
    case isFalse hne =>
      rintro ⟨before, after, rfl, hafter⟩
      refine ⟨before, after ++ [call], by simp, fun c hc => ?_⟩
      rcases List.mem_append.1 hc with hc | hc
      · exact hafter c hc
      · rw [List.mem_singleton.1 hc]
        exact fun h => hne h.symm

/-- After any calls, no address is in the vector twice, and an address is
a breakpoint exactly when the last call that names it added it. -/
theorem breakpoints_are_set (d : McuDebug L) (calls : List BreakpointCall) :
    (d.history calls).breakpoints.Nodup
      ∧ ∀ a, (d.history calls).isBreakpoint a = true ↔ LastAdds a calls := by
  refine ⟨nodup_history d calls, fun a => ?_⟩
  rw [isBreakpoint_eq_true]
  induction calls using List.reverseRecOn with
  | nil =>
      refine iff_of_false (List.not_mem_nil) ?_
      rintro ⟨before, after, h, -⟩
      simp at h
  | append_singleton calls call ih =>
      rw [history_append, mem_perform call (nodup_history d calls),
        lastAdds_append]
      split
      case isTrue => rfl
      case isFalse => exact ih

end T89Emu.McuDebug
