/-
Unknown opcodes in a line program.

A round takes of an unknown instruction what announces it and leaves the
machine alone. What a reader that skips the instruction has to pass over
stays in front of the cursor, and the next round reads it as an opcode;
`standardOpcodeLengths` and the length of an extended opcode are not
looked at.

So an unknown instruction is skipped when nothing stands behind its opcode
(`skipped_iff`), and a program with such instructions has the rows of the
program without them (`foldlM_known`). In the other direction every
operand byte is replaced by a 1, which appends a row whatever the header
says (`rowByte`), so that the rows outnumber those of the program without
(`filled_skippable`).
-/
import T89Emu.Dwarf.Proofs.LineProgram

namespace T89Emu.Dwarf

open Cpp Decode Bytes LineProgram

variable {h : ProgramHeader} {m : LineMachine}

/-- The rows of the line table of a program. -/
def lineRows (h : ProgramHeader) (header program behind : List U8) :
    Proc (List LineEntry) :=
  (generateLineNumberMatrix h (lineStream header program behind)).map
    fun r => r.1.lineMatrix

/-- The rows are those of what is seen of the items, their operands left
out. -/
theorem lineRows_heads {items : List Item}
    (hitems : ∀ i ∈ items, i.Announced (headerOf h))
    (header behind : List U8) :
    lineRows h header (items.flatMap Item.head) behind
      = (items.foldlM (LineMachine.perform h) (startOf h)).map
          LineMachine.lineMatrix := by
  rw [lineRows, matrix_heads hitems]
  cases items.foldlM (LineMachine.perform h) (startOf h) with
  | error e => rfl
  | ok m => rfl

-- ======================================================= what is skipped

/-- Nothing stands behind the opcode, and the length of an extended one
is delivered. -/
def Skippable : Item → Prop
  | .known _ => True
  | .standard _ operands => operands = []
  | .extended length _ payload => length.size ≤ 5 ∧ payload = []

instance : (i : Item) → Decidable (Skippable i)
  | .known _ => isTrue trivial
  | .standard _ _ => decidable_of_iff _ List.isEmpty_iff
  | .extended _ _ _ => inferInstanceAs (Decidable (_ ∧ _))

/-- The instructions that the standard of this reader does not define. -/
def Unknown : Item → Prop
  | .known _ => False
  | .standard _ _ | .extended _ _ _ => True

/-- No operands have no bytes. -/
theorem flatMap_bytes_eq_nil {operands : List Leb128} :
    operands.flatMap Leb128.bytes = [] ↔ operands = [] := by
  cases operands with
  | nil => exact iff_of_true rfl rfl
  | cons e operands =>
      refine iff_of_false (fun hnil => ?_) nofun
      have hlength := congrArg List.length hnil
      rw [List.flatMap_cons, List.length_append,
        Leb128.length_bytes] at hlength
      exact absurd hlength (by simp [Leb128.size])

/-- Being skippable, in terms of the bytes and of the round. -/
theorem skippable_iff (i : Item) :
    Skippable i ↔ i.operands = [] ∧ (Unknown i → Performable h i) := by
  cases i with
  | known i => exact iff_of_true trivial ⟨rfl, nofun⟩
  | standard opcode operands =>
      exact flatMap_bytes_eq_nil.symm.trans
        (and_iff_left fun _ => trivial).symm
  | extended length opcode payload =>
      exact ⟨fun ⟨hlength, hpayload⟩ => ⟨hpayload, fun _ => hlength⟩,
        fun ⟨hpayload, hlength⟩ => ⟨hlength trivial, hpayload⟩⟩

/-- A round that succeeds on an unknown instruction changes nothing. -/
theorem perform_unknown {i : Item} (hi : Unknown i) {m' : LineMachine}
    (hm' : m.perform h i = .ok m') : m' = m := by
  cases i with
  | known i => exact absurd hi id
  | standard opcode operands => exact (Except.ok.inj hm').symm
  | extended length opcode payload =>
      obtain ⟨-, -, hm'⟩ := bind_eq_ok.1 hm'
      exact (Except.ok.inj hm').symm

/-- A round skips an unknown instruction, reading its bytes and nothing
else, exactly when the instruction is skippable. -/
theorem skipped_iff (m : LineMachine) {i : Item}
    (hi : i.Announced (headerOf h)) (hunknown : Unknown i) :
    Reads (m.step h) i.bytes m ↔ Skippable i := by
  have hstep := step_takes m hi
  have hsucceeds := (perform_yields (h := h) m i).succeeds
  rw [skippable_iff (h := h)]
  constructor
  · intro hreads
    have hrun := hreads (.unbounded (some i.bytes)) [] (by
      simp [Cursor.rest, DataStream.rest, DataStream.unbounded])
    rw [hstep (.unbounded (some i.bytes)) i.operands rfl] at hrun
    obtain ⟨m', hm', hskip⟩ := map_eq_ok.1 hrun
    have hindex := congrArg (fun r => r.2.index) hskip
    refine ⟨?_, fun _ => hsucceeds.2 ⟨m', hm'⟩⟩
    have hlength : i.head.length = i.bytes.length :=
      Nat.add_left_cancel hindex
    rw [Item.bytes, List.length_append] at hlength
    exact List.length_eq_zero_iff.1 (by omega)
  · rintro ⟨hbare, hdefined⟩
    obtain ⟨m', hm'⟩ := hsucceeds.1 (hdefined hunknown)
    obtain rfl := perform_unknown hunknown hm'
    rw [Item.bytes, hbare, List.append_nil]
    exact hstep.reads hm'

/-- Performing skippable instructions is performing the known ones. -/
theorem foldlM_known {items : List Item}
    (hskip : ∀ i ∈ items, Skippable i) :
    items.foldlM (LineMachine.perform h) m
      = ((knownOf items).map Item.known).foldlM
          (LineMachine.perform h) m := by
  induction items generalizing m with
  | nil => rfl
  | cons i items ih =>
      obtain ⟨hi, hitems⟩ := List.forall_mem_cons.1 hskip
      cases i with
      | known i =>
          rw [knownOf, List.map_cons, List.foldlM_cons, List.foldlM_cons]
          exact bind_congr fun m' => ih hitems
      | standard opcode operands => exact ih hitems
      | extended length opcode payload =>
          have hperform : m.perform h (.extended length opcode payload)
              = .ok m := by
            show ulebOutcome length >>= _ = _
            rw [ulebOutcome, if_pos hi.1]
            rfl
          rw [List.foldlM_cons, hperform]
          exact ih hitems

-- ==================================================== what is misread

/-- A known instruction of one byte, a 1, that appends a row. -/
def rowByte (h : ProgramHeader) : Instr :=
  if 1 < h.opcodeBase.toNat then .copy else .special 1

/-- The opcode that a byte 1 is taken for is this byte. -/
theorem rowByte_bytes : (rowByte h).bytes = [1] := by
  unfold rowByte
  split <;> rfl

/-- It appends a row. -/
theorem rowByte_appends : (rowByte h).appends = 1 := by
  unfold rowByte
  split <;> rfl

/-- It is one that the header announces, or a special one. -/
theorem rowByte_announced : (rowByte h).Announced (headerOf h) := by
  unfold rowByte
  split
  · exact ‹1 < h.opcodeBase.toNat›
  · exact Nat.not_lt.1 ‹_›

/-- The instruction with every operand a 1. -/
def fillOperands : Item → Item
  | .known i => .known i
  | .standard opcode operands =>
      .standard opcode (List.replicate operands.length (.single 1))
  | .extended length opcode payload =>
      .extended length opcode (List.replicate payload.length 1)

/-- The number of its operands. -/
def operandCount : Item → Nat
  | .known _ => 0
  | .standard _ operands => operands.length
  | .extended _ _ payload => payload.length

/-- What the loop takes it for. -/
def spread (h : ProgramHeader) (i : Item) : List Item :=
  i :: List.replicate (operandCount i) (.known (rowByte h))

/-- The filled item is the same but for the values of its operands. -/
theorem fillOperands_alike (i : Item) : i.Alike (fillOperands i) := by
  cases i with
  | known i => exact .known i
  | standard opcode operands =>
      exact .standard opcode (List.length_replicate ..).symm
  | extended length opcode payload =>
      exact .extended length opcode (List.length_replicate ..).symm

/-- Bytes of ones are seen as that opcode again and again. -/
theorem heads_replicate_one (n : Nat) :
    (List.replicate n (Item.known (rowByte h))).flatMap Item.head
      = List.replicate n 1 := by
  rw [List.flatMap_replicate, Item.head, rowByte_bytes,
    List.flatten_replicate_singleton]

/-- So the bytes of the filled instruction are the heads of what the loop
takes it for. -/
theorem fillOperands_bytes (i : Item) :
    (fillOperands i).bytes = (spread h i).flatMap Item.head := by
  rw [spread, List.flatMap_cons, heads_replicate_one]
  cases i with
  | known i => rfl
  | standard opcode operands =>
      refine congrArg (opcode :: ·) ?_
      show (List.replicate operands.length (Leb128.single 1)).flatMap
        Leb128.bytes = List.replicate operands.length 1
      rw [List.flatMap_replicate]
      exact List.flatten_replicate_singleton
  | extended length opcode payload => rfl

/-- All of that is announced. -/
theorem spread_announced {i : Item} (hi : i.Announced (headerOf h)) :
    ∀ j ∈ spread h i, j.Announced (headerOf h) := by
  intro j hj
  rcases List.mem_cons.1 hj with rfl | hj
  · exact hi
  · obtain rfl := List.eq_of_mem_replicate hj
    exact rowByte_announced

/-- And each operand of it appends a row. -/
theorem spread_appends (items : List Item) :
    ((items.flatMap (spread h)).map Item.appends).sum
      = (((knownOf items).map Item.known).map Item.appends).sum
        + (items.map operandCount).sum := by
  have hone : ∀ n, ((List.replicate n (Item.known (rowByte h))).map
      Item.appends).sum = n := by
    intro n
    rw [List.map_replicate, Item.appends, rowByte_appends,
      List.sum_replicate_nat, Nat.mul_one]
  induction items with
  | nil => rfl
  | cons i items ih =>
      rw [List.flatMap_cons, List.map_append, List.sum_append, ih, spread,
        List.map_cons, List.sum_cons, hone, List.map_cons, List.sum_cons]
      cases i with
      | known i =>
          rw [knownOf, List.map_cons, List.map_cons, List.sum_cons]
          omega
      | standard opcode operands =>
          simp only [Item.appends, knownOf]
          omega
      | extended length opcode payload =>
          simp only [Item.appends, knownOf]
          omega

/-- Filled with ones, the program has the rows of the program without the
unknown instructions only if these are skippable. -/
theorem filled_skippable {items : List Item}
    (hitems : ∀ i ∈ items, i.Announced (headerOf h))
    {header behind : List U8} {rows : List LineEntry}
    (hknown : lineRows h header (bytes (knownOf items)) behind = .ok rows)
    (hfilled : lineRows h header (itemBytes (items.map fillOperands)) behind
      = .ok rows) :
    ∀ i ∈ items, Skippable i := by
  have hspread : itemBytes (items.map fillOperands)
      = (items.flatMap (spread h)).flatMap Item.head := by
    rw [itemBytes, List.flatMap_map, List.flatMap_assoc]
    exact List.flatMap_congr fun i _ => fillOperands_bytes i
  have hannounced : ∀ j ∈ items.flatMap (spread h),
      j.Announced (headerOf h) := by
    intro j hj
    obtain ⟨i, hi, hj⟩ := List.mem_flatMap.1 hj
    exact spread_announced (hitems i hi) j hj
  rw [hspread, lineRows_heads hannounced] at hfilled
  rw [bytes_eq_heads, lineRows_heads (knownOf_announced hitems)] at hknown
  obtain ⟨m₁, hm₁, hrows₁⟩ := map_eq_ok.1 hfilled
  obtain ⟨m₂, hm₂, hrows₂⟩ := map_eq_ok.1 hknown
  obtain ⟨hdefined, hlength₁⟩ := performed hm₁
  obtain ⟨-, hlength₂⟩ := performed hm₂
  -- the tables have the same length, so there is no operand to fillOperands
  have hnone : (items.map operandCount).sum = 0 := by
    have hsum := spread_appends (h := h) items
    rw [hrows₁] at hlength₁
    rw [hrows₂] at hlength₂
    omega
  intro i hi
  have hcount : operandCount i = 0 :=
    List.sum_eq_zero_iff_forall_eq_nat.1 hnone _ (List.mem_map_of_mem hi)
  have hhead : Performable h i :=
    hdefined i (List.mem_flatMap.2 ⟨i, hi, List.mem_cons_self⟩)
  cases i with
  | known i => trivial
  | standard opcode operands => exact List.length_eq_zero_iff.1 hcount
  | extended length opcode payload =>
      exact ⟨hhead, List.length_eq_zero_iff.1 hcount⟩

-- =========================================================== the result

/-- Unknown instructions are skipped when nothing stands behind their
opcode. A round skips an unknown instruction exactly then; a program with
such instructions has the rows of the program without them, or fails as
that does; and where something stands behind an opcode, other values of it
make the rows differ. -/
theorem unknown_opcodes_skipped (h : ProgramHeader) {width : Nat}
    {items : List Item}
    (hitems : ∀ i ∈ items,
      i.At (headerOf h) h.standardOpcodeLengths width)
    (header behind : List U8) :
    (∀ i ∈ items, Unknown i → ∀ m : LineMachine,
        (Reads (m.step h) i.bytes m ↔ Skippable i))
      ∧ ((∀ i ∈ items, Skippable i) →
        lineRows h header (itemBytes items) behind
          = lineRows h header (bytes (knownOf items)) behind)
      ∧ ∀ rows,
        lineRows h header (bytes (knownOf items)) behind = .ok rows →
        (∀ others, List.Forall₂ Item.Alike items others →
          (∀ i ∈ others,
            i.At (headerOf h) h.standardOpcodeLengths width) →
          lineRows h header (itemBytes others) behind = .ok rows) →
        ∀ i ∈ items, Skippable i := by
  have hannounced : ∀ i ∈ items, i.Announced (headerOf h) :=
    fun i hi => (hitems i hi).announced
  refine ⟨fun i hi hunknown m => skipped_iff m (hannounced i hi) hunknown,
    fun hskip => ?_, fun rows hknown hothers => ?_⟩
  · rw [itemBytes_eq_heads fun i hi =>
        ((skippable_iff (h := h) i).1 (hskip i hi)).1,
      lineRows_heads hannounced, foldlM_known hskip, bytes_eq_heads,
      lineRows_heads (knownOf_announced hannounced)]
  · refine filled_skippable hannounced hknown
      (hothers (items.map fillOperands) ?_ ?_)
    · rw [List.forall₂_map_right_iff, List.forall₂_same]
      exact fun i _ => fillOperands_alike i
    · intro j hj
      obtain ⟨i, hi, rfl⟩ := List.mem_map.1 hj
      exact (fillOperands_alike i).at (hitems i hi)

/-- An opcode of a vendor with one byte behind it: the byte is taken for
DW_LNS_copy, and the table has a row that the program does not have. -/
theorem vendor_byte_misread :
    let items := [Item.extended (.single 2) 0x80 [1]]
    (∀ i ∈ items, i.At (headerOf smallHeader)
        smallHeader.standardOpcodeLengths 4)
      ∧ itemBytes items = [0x00, 0x02, 0x80, 0x01]
      ∧ lineRows smallHeader [] (itemBytes items) []
        = .ok [⟨0, 1, 0, 1, true, false, false⟩]
      ∧ lineRows smallHeader [] (bytes (knownOf items)) [] = .ok [] := by
  decide

/-- One without such bytes is skipped. -/
theorem vendor_opcode_skipped :
    let items := [Item.known .copy, .extended (.single 1) 0x80 [],
      .known (.endSequence (.single 1))]
    lineRows smallHeader [] (itemBytes items) [0]
      = lineRows smallHeader [] (bytes (knownOf items)) [0] := by
  intro items
  have hitems : ∀ i ∈ items, i.At (headerOf smallHeader)
      smallHeader.standardOpcodeLengths 4 := by
    decide
  exact (unknown_opcodes_skipped smallHeader hitems [] [0]).2.1 (by decide)

end T89Emu.Dwarf
