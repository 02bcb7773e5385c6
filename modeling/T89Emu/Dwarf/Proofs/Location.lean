/-
What location a variable shows.

A stack machine that is fresh evaluates the expression (`evaluate`, of
which `LocationExpr.location` is the meaning). Behind an update its
cursor is at the end of the expression and stays there: `parseExpr` sets
the data and the length of the stream and not its cursor. So every later
update finds nothing to evaluate, and answers what is on top of the stack
since the first one.

The expression depends on registers and pc through the CFA alone, which
says when that answer is still right.
-/
import T89Emu.Dwarf.DwarfExpr
import T89Emu.Dwarf.Proofs.DataStream
import T89Emu.Lib.Dwarf.Expression

namespace T89Emu.Dwarf

open Cpp Bytes LocationExpr

-- ========================================================= one operation

/-- What an operation of the code pushes, given what the frame base and
the CFA are evaluated to. -/
def pushed (frameBase : Option (Proc U64)) (cfa : Proc (Option U32)) :
    Op → Proc U32
  | .lit n => pure (n.setWidth 32)
  | .addr address => pure address
  | .fbreg offset =>
      match frameBase with
      | none => throw .exit
      | some location =>
          if LebDefined offset then do
            let location ← location
            pure (BitVec.ofInt 32 offset.signed + location.setWidth 32)
          else throw (.undefined .shiftCount)
  | .callFrameCfa => do
      match ← cfa with
      | some cfa => pure cfa
      | none => throw .exit

variable {frameBase : Option (Proc U64)} {regs : RegisterFile}
  {cfi : CallFrameInfo} {pc : U32}

/-- A sum of 64 bits, cut off. -/
theorem setWidth_add_signExtend (offset : U32) (location : U64) :
    (offset.signExtend 64 + location).setWidth 32
      = offset + location.setWidth 32 := by
  rw [BitVec.setWidth_add _ _ (by decide),
    setWidth_signExtend offset (by decide)]

/-- Behind the opcode of a literal nothing is read. -/
theorem operation_lit (n : BitVec 5) (s : DataStream) :
    StackMachine.operation frameBase regs cfi pc (0x30#8 + n.setWidth 8) s
      = .ok (n.setWidth 32, s) := by
  have hopcode : 0x30 ≤ (0x30#8 + n.setWidth 8).toNat
      ∧ (0x30#8 + n.setWidth 8).toNat ≤ 0x4f := by
    revert n
    decide
  have hvalue : (0x30#8 + n.setWidth 8 - (0x30 : U8)).setWidth 32
      = n.setWidth 32 := by
    revert n
    decide
  simp only [StackMachine.operation, if_pos hopcode, hvalue]
  rfl

/-- The operand of DW_OP_fbreg, and the frame base. -/
theorem operation_fbreg (offset : Leb128) {s : DataStream} {t : List U8}
    (hs : s.rest = offset.bytes ++ t) :
    StackMachine.operation frameBase regs cfi pc 0x91 s
      = (pushed frameBase (cfi.getCfaAtLocation pc regs)
          (.fbreg offset)).map (·, s.skip offset.size) := by
  have hlow := leb_low offset hs
  cases frameBase with
  | none => rfl
  | some location =>
      show (decodeLeb128 s >>= fun r => _) = _
      cases hleb : decodeLeb128 s with
      | error e =>
          rw [hleb] at hlow
          by_cases hdef : LebDefined offset
          · rw [if_pos hdef] at hlow
            cases hlow
          · rw [if_neg hdef] at hlow
            rw [error_bind, Except.error.inj hlow]
            simp only [pushed, if_neg hdef]
            rfl
      | ok r =>
          rw [hleb] at hlow
          by_cases hdef : LebDefined offset
          · rw [if_pos hdef] at hlow
            obtain ⟨hvalue, hskip⟩ := Prod.mk.inj (Except.ok.inj hlow)
            simp only [pushed, if_pos hdef, ← hvalue, ok_bind]
            cases location with
            | error e => rfl
            | ok v =>
                show Except.ok (_, r.2) = Except.ok (_, _)
                rw [setWidth_add_signExtend, hskip]
          · rw [if_neg hdef] at hlow
            cases hlow

/-- A round of the loop on an operation. -/
theorem operation_run (op : Op) {s : DataStream} {t : List U8}
    (hs : s.rest = op.bytes ++ t) :
    (decodeUInt8 >>=
        StackMachine.operation frameBase regs cfi pc).run s
      = (pushed frameBase (cfi.getCfaAtLocation pc regs) op).map
          (·, s.skip op.bytes.length) := by
  rw [StateT.run_bind]
  cases op with
  | lit n =>
      rw [reads_uint8 _ s t hs, ok_bind]
      exact operation_lit n _
  | addr address =>
      rw [reads_uint8 0x03 s _ hs, ok_bind]
      have hrest := Decode.rest_skip_append (σ := DataStream) (w := [0x03])
        hs
      exact reads_uint32 address _ t hrest
  | fbreg offset =>
      rw [reads_uint8 0x91 s _ hs, ok_bind]
      have hrest := Decode.rest_skip_append (σ := DataStream) (w := [0x91])
        hs
      rw [StateT.run, operation_fbreg offset hrest]
      simp [Op.bytes, DataStream.skip, Decode.Cursor.skip, Nat.add_assoc,
        Nat.add_comm 1]
  | callFrameCfa =>
      rw [reads_uint8 0x9c s t hs, ok_bind]
      simp only [pushed]
      unfold StackMachine.operation
      cases cfi.getCfaAtLocation pc regs with
      | error e => rfl
      | ok cfa =>
          cases cfa with
          | none => rfl
          | some cfa => rfl

-- ======================================================= one expression

/-- The stack behind an expression. -/
def evaluate (frameBase : Option (Proc U64)) (cfa : Proc (Option U32)) :
    List Op → List U32 → Proc (List U32)
  | [], stack => pure stack
  | op :: ops, stack => do
      let value ← pushed frameBase cfa op
      evaluate frameBase cfa ops (value :: stack)

/-- An operation has an opcode. -/
theorem length_bytes_pos (op : Op) : 0 < op.bytes.length := by
  cases op <;> simp [Op.bytes]

/-- The loop at the end of its stream. -/
theorem operations_end (op : U8 → Decoder U32) (fuel : Nat) (stack : List U32)
    {s : DataStream} (hs : s.streamLen ≤ s.index) :
    StackMachine.loop op (fuel + 1) stack s = .ok (stack, s) := by
  have hstop : s.isStreamable = false := by
    simp [DataStream.isStreamable, hs]
  show ((if s.isStreamable then _ else _ : Decoder (List U32))) s = _
  rw [if_neg (by rw [hstop]; simp)]
  rfl

/-- The loop inside of its stream. -/
theorem operations_step (op : U8 → Decoder U32) (fuel : Nat)
    (stack : List U32) {s : DataStream} (hs : s.isStreamable = true) :
    StackMachine.loop op (fuel + 1) stack s
      = (decodeUInt8 >>= op).run s >>= fun r =>
          StackMachine.loop op fuel (r.1 :: stack) r.2 := by
  show ((if s.isStreamable then _ else _ : Decoder (List U32))) s = _
  rw [if_pos hs]
  show (decodeUInt8 s >>= fun r => op r.1 r.2 >>= _) = _
  rw [StateT.run_bind, bind_assoc]
  rfl

/-- The loop evaluates the expression that is left of the stream. -/
theorem loop_run (ops : List Op) (stack : List U32) {fuel : Nat}
    {s : DataStream} (hdata : s.data.isSome = true)
    (hs : s.rest = bytes ops)
    (hlen : s.streamLen = s.index + (bytes ops).length)
    (hfuel : (bytes ops).length < fuel) :
    StackMachine.loop (StackMachine.operation frameBase regs cfi pc) fuel
        stack s
      = (evaluate frameBase (cfi.getCfaAtLocation pc regs) ops stack).map
          (·, s.skip (bytes ops).length) := by
  induction ops generalizing stack fuel s with
  | nil =>
      obtain ⟨fuel, rfl⟩ : ∃ k, fuel = k + 1 := ⟨fuel - 1, by omega⟩
      exact operations_end _ fuel stack (Nat.le_of_eq hlen)
  | cons op ops ih =>
      have hpos := length_bytes_pos op
      obtain ⟨fuel, rfl⟩ : ∃ k, fuel = k + 1 := ⟨fuel - 1, by omega⟩
      rw [bytes_cons, List.length_append] at hlen hfuel
      rw [bytes_cons] at hs
      have hgo : s.isStreamable = true :=
        (isStreamable_iff hdata).2 (by omega)
      rw [operations_step _ fuel stack hgo, operation_run op hs, evaluate]
      cases pushed frameBase (cfi.getCfaAtLocation pc regs) op with
      | error e => rfl
      | ok value =>
          have hrest := Decode.rest_skip_append (σ := DataStream) hs
          have htail := ih (value :: stack) (s := s.skip op.bytes.length)
            hdata hrest (by simp only [DataStream.skip]; omega)
            (show (bytes ops).length < fuel by omega)
          show StackMachine.loop _ fuel (value :: stack)
            (s.skip op.bytes.length) = _
          rw [htail, bytes_cons, List.length_append]
          simp [DataStream.skip, Nat.add_assoc]

/-- The opcode of a literal is the first of them plus the literal. -/
theorem opcode_lit (opcode : U8)
    (h : 0x30 ≤ opcode.toNat ∧ opcode.toNat ≤ 0x4f) :
    0x30#8 + ((opcode - 0x30#8).setWidth 5).setWidth 8 = opcode := by
  revert opcode
  decide

/-- The opcodes that are not evaluated without a frame base. -/
theorem operation_exit {opcode : U8}
    (hlit : ¬ (0x30 ≤ opcode.toNat ∧ opcode.toNat ≤ 0x4f))
    (haddr : opcode ≠ 0x03) (hcfa : opcode ≠ 0x9c) :
    StackMachine.operation none regs cfi pc opcode = throw .exit := by
  unfold StackMachine.operation
  rw [if_neg hlit]
  split
  next hn => exact absurd (eq_of_toNat hn) haddr
  next => rfl
  next hn => exact absurd (eq_of_toNat hn) hcfa
  next => rfl

/-- What is evaluated is an operation. -/
theorem op_of_operation {s : DataStream} {r : U32 × DataStream}
    (h : (decodeUInt8 >>= StackMachine.operation none regs cfi pc).run s
      = .ok r) :
    ∃ (op : Op) (t : List U8), s.rest = op.bytes ++ t := by
  obtain ⟨⟨opcode, _⟩, hopcode, h⟩ := bind_eq_ok.1 h
  obtain ⟨hs, rfl⟩ := front_of_uint8 hopcode
  rw [hs]
  by_cases hlit : 0x30 ≤ opcode.toNat ∧ opcode.toNat ≤ 0x4f
  · refine ⟨.lit ((opcode - 0x30#8).setWidth 5), (s.skip 1).rest, ?_⟩
    rw [Op.bytes, opcode_lit opcode hlit]
    rfl
  by_cases haddr : opcode = 0x03
  · subst haddr
    obtain ⟨address, t, ht⟩ := front_of_uint32 h
    exact ⟨.addr address, t, by rw [ht]; rfl⟩
  by_cases hcfa : opcode = 0x9c
  · subst hcfa
    exact ⟨.callFrameCfa, (s.skip 1).rest, rfl⟩
  have hrun : StackMachine.operation none regs cfi pc opcode (s.skip 1)
      = .ok r := h
  rw [operation_exit hlit haddr hcfa] at hrun
  cases hrun

/-- A stream that is evaluated without a frame base is an expression. -/
theorem ops_of_loop {fuel : Nat} {stack : List U32} {s : DataStream}
    (hdata : s.data.isSome = true)
    (hlen : s.streamLen = s.index + s.rest.length)
    {r : List U32 × DataStream}
    (h : StackMachine.loop (StackMachine.operation none regs cfi pc) fuel
      stack s = .ok r) :
    ∃ ops, s.rest = bytes ops := by
  induction fuel generalizing stack s with
  | zero => cases h
  | succ fuel ih =>
      cases hgo : s.isStreamable with
      | false =>
          have hend := (isStreamable_eq_false_iff hdata).1 hgo
          exact ⟨[], List.length_eq_zero_iff.1 (by omega)⟩
      | true =>
          rw [operations_step _ fuel stack hgo] at h
          obtain ⟨⟨value, s₁⟩, hstep, hloop⟩ := bind_eq_ok.1 h
          obtain ⟨op, t, hs⟩ := op_of_operation hstep
          rw [operation_run op hs] at hstep
          obtain ⟨_, -, hnext⟩ := map_eq_ok.1 hstep
          obtain ⟨-, rfl⟩ := Prod.mk.inj hnext
          have hrest : (s.skip op.bytes.length).rest = t :=
            Decode.rest_skip_append (σ := DataStream) hs
          have hlength := congrArg List.length hs
          rw [List.length_append] at hlength
          obtain ⟨ops, hops⟩ := ih (s := s.skip op.bytes.length) hdata (by
            rw [hrest]
            simp only [DataStream.skip]
            omega) hloop
          exact ⟨op :: ops, by rw [hs, bytes_cons, ← hops, hrest]⟩

/-- The number that the result stands for. -/
theorem getUInt_result (v : U32) :
    (DebugData.default.write (StackMachine.genericBytes v)).getUInt
      = .ok (v.setWidth 64) := by
  have hword : (byteOf v 0).setWidth 64 <<< 0
      ||| ((byteOf v 1).setWidth 64 <<< 8
        ||| ((byteOf v 2).setWidth 64 <<< 16
          ||| ((byteOf v 3).setWidth 64 <<< 24 ||| 0#64)))
      = v.setWidth 64 := by
    apply BitVec.eq_of_getLsbD_eq
    intro i hi
    simp only [byteOf, BitVec.getLsbD_or, BitVec.getLsbD_shiftLeft,
      BitVec.getLsbD_setWidth, BitVec.getLsbD_extractLsb']
    grind
  rw [← hword]
  rfl

-- ================================================= what a result takes

/-- The result of an expression, as the CFA is evaluated. -/
def result (frameBase : Proc (Option U32) → Option (Proc U64))
    (ops : List Op) (cfa : Proc (Option U32)) : Proc U32 := do
  let stack ← evaluate (frameBase cfa) cfa ops []
  StackMachine.top stack

/-- Only what the operations push counts. -/
theorem evaluate_congr {fb fb' : Option (Proc U64)}
    {cfa cfa' : Proc (Option U32)} {ops : List Op}
    (h : ∀ op ∈ ops, pushed fb cfa op = pushed fb' cfa' op)
    (stack : List U32) :
    evaluate fb cfa ops stack = evaluate fb' cfa' ops stack := by
  induction ops generalizing stack with
  | nil => rfl
  | cons op ops ih =>
      rw [evaluate, evaluate, h op List.mem_cons_self]
      simp only [ih fun o ho => h o (List.mem_cons_of_mem op ho)]

/-- An expression that is evaluated has each of its operations
evaluated. -/
theorem pushed_of_evaluate {fb : Option (Proc U64)}
    {cfa : Proc (Option U32)} {ops : List Op} {stack stack' : List U32}
    (h : evaluate fb cfa ops stack = .ok stack') :
    ∀ op ∈ ops, ∃ v, pushed fb cfa op = .ok v := by
  induction ops generalizing stack with
  | nil => simp
  | cons op ops ih =>
      obtain ⟨v, hv, hrest⟩ := bind_eq_ok.1 h
      rintro o (_ | ⟨_, ho⟩)
      · exact ⟨v, hv⟩
      · exact ih hrest o ho

/-- Operations that push a value each leave all of them, the last one on
top. -/
theorem evaluate_of_pushed {fb : Option (Proc U64)}
    {cfa : Proc (Option U32)} {ops : List Op} {f : Op → U32}
    (h : ∀ op ∈ ops, pushed fb cfa op = .ok (f op)) (stack : List U32) :
    evaluate fb cfa ops stack
      = .ok ((ops.map f).reverse ++ stack) := by
  induction ops generalizing stack with
  | nil => rfl
  | cons op ops ih =>
      rw [evaluate, h op List.mem_cons_self, ok_bind,
        ih fun o ho => h o (List.mem_cons_of_mem op ho)]
      simp

/-- The frame base of the code has a meaning: if it is evaluated for one
CFA, it is for every one, to what it means. -/
def Means (frameBase : Proc (Option U32) → Option (Proc U64))
    (meaning : U32 → Option U32) : Prop :=
  ∀ x v, frameBase (.ok (some x)) = some (.ok v) → ∀ cfa, ∃ w,
    meaning cfa = some w
      ∧ frameBase (.ok (some cfa)) = some (.ok (w.setWidth 64))

variable {fb : Proc (Option U32) → Option (Proc U64)}
  {meaning : U32 → Option U32}

/-- An operation that is evaluated for one CFA is for every one. -/
theorem pushed_means (hfb : Means fb meaning) {op : Op} {x v : U32}
    (h : pushed (fb (.ok (some x))) (.ok (some x)) op = .ok v)
    (cfa : U32) :
    ∃ w, op.value (meaning cfa) cfa = some w
      ∧ pushed (fb (.ok (some cfa))) (.ok (some cfa)) op = .ok w := by
  cases op with
  | lit n => exact ⟨_, rfl, rfl⟩
  | addr address => exact ⟨_, rfl, rfl⟩
  | callFrameCfa => exact ⟨_, rfl, rfl⟩
  | fbreg offset =>
      cases hbase : fb (.ok (some x)) with
      | none => simp [pushed, hbase] at h
      | some location =>
          simp only [pushed, hbase] at h
          by_cases hdef : LebDefined offset
          · rw [if_pos hdef] at h
            obtain ⟨base, rfl, -⟩ := bind_eq_ok.1 h
            obtain ⟨w, hw, hcfa⟩ := hfb x base hbase cfa
            refine ⟨BitVec.ofInt 32 offset.signed + w, ?_, ?_⟩
            · simp [Op.value, hw]
            · simp only [pushed, hcfa, if_pos hdef, ok_bind, pure_eq_ok]
              rw [BitVec.setWidth_setWidth_of_le w (by decide)]
              simp
          · rw [if_neg hdef] at h
            cases h

/-- So is an expression, and its result is its meaning. -/
theorem result_means (hfb : Means fb meaning) {ops : List Op} {x v : U32}
    (h : result fb ops (.ok (some x)) = .ok v) (cfa : U32) :
    ∃ w, LocationExpr.top ops (meaning cfa) cfa = some w
      ∧ result fb ops (.ok (some cfa)) = .ok w := by
  obtain ⟨stack, hstack, htop⟩ := bind_eq_ok.1 h
  have hpushed := pushed_of_evaluate hstack
  let f : Op → U32 := fun op => (op.value (meaning cfa) cfa).getD 0
  have hvalue : ∀ op ∈ ops, op.value (meaning cfa) cfa = some (f op)
      ∧ pushed (fb (.ok (some cfa))) (.ok (some cfa)) op
        = .ok (f op) := by
    intro op hop
    obtain ⟨v, hv⟩ := hpushed op hop
    obtain ⟨w, hw, hcfa⟩ := pushed_means hfb hv cfa
    have hf : f op = w := by simp [f, hw]
    rw [hf]
    exact ⟨hw, hcfa⟩
  cases hlast : ops.getLast? with
  | none =>
      rw [List.getLast?_eq_none_iff] at hlast
      subst hlast
      obtain rfl := Except.ok.inj hstack
      cases htop
  | some op =>
      obtain ⟨hop, hrun⟩ := hvalue op (List.mem_of_getLast? hlast)
      refine ⟨f op, by simp [LocationExpr.top, hlast, hop], ?_⟩
      have hhead : ((ops.map f).reverse ++ []).head? = some (f op) := by
        simp [hlast]
      rw [result, evaluate_of_pushed fun o ho => (hvalue o ho).2, ok_bind,
        StackMachine.top, hhead]
      rfl

-- ======================================================== a variable's CFA

/-- The expression of the variable's DW_AT_location. -/
def HasLocation (v : Variable) (ops : List Op) : Prop :=
  ∃ data, v.debugEntry.getAttribute .location = some data
    ∧ data.data = bytes ops

/-- The expression of the parent's DW_AT_frame_base, if there is one and
the location refers to it. -/
def HasFrameBase (v : Variable) (ops fbOps : List Op) : Prop :=
  (∃ offset, Op.fbreg offset ∈ ops) →
    ∀ data, v.parentEntry.getAttribute .frame_base = some data →
      data.data = bytes fbOps

/-- What the frame base is evaluated to. -/
def frameBaseOf (v : Variable) (fbOps : List Op)
    (cfa : Proc (Option U32)) : Option (Proc U64) :=
  match v.parentEntry.getAttribute .frame_base with
  | none => some (throw .nullDereference)
  | some _ =>
      some ((result (fun _ => none) fbOps cfa).map (·.setWidth 64))

/-- A frame base that is evaluated is the result of its expression,
whatever the CFA. -/
theorem result_of_frameBaseOf {v : Variable} {fbOps : List Op}
    {cfa : Proc (Option U32)} {w : U64}
    (h : frameBaseOf v fbOps cfa = some (.ok w)) :
    (∃ base, result (fun _ => none) fbOps cfa = .ok base)
      ∧ ∀ cfa', frameBaseOf v fbOps cfa'
        = some ((result (fun _ => none) fbOps cfa').map
            (·.setWidth 64)) := by
  unfold frameBaseOf at h ⊢
  cases hattr : v.parentEntry.getAttribute .frame_base with
  | none =>
      rw [hattr] at h
      cases h
  | some data =>
      rw [hattr] at h
      obtain ⟨base, hbase, -⟩ := map_eq_ok.1 (Option.some.inj h)
      exact ⟨⟨base, hbase⟩, fun _ => rfl⟩

/-- So a frame base has the meaning of its own expression. -/
theorem means_frameBaseOf (v : Variable) (fbOps : List Op) :
    Means (frameBaseOf v fbOps) (LocationExpr.top fbOps none) := by
  intro x w h cfa
  obtain ⟨⟨base, hbase⟩, heval⟩ := result_of_frameBaseOf h
  have hfb : Means (fun _ => none) fun _ => none :=
    fun _ _ h => by cases h
  obtain ⟨w, hw, hcfa⟩ := result_means hfb hbase cfa
  exact ⟨w, hw, by rw [heval, hcfa]; rfl⟩

/-- A frame base that is evaluated and takes the CFA has one. -/
theorem cfa_of_frameBaseOf {v : Variable} {fbOps : List Op}
    {cfa : Proc (Option U32)} {w : U64}
    (h : frameBaseOf v fbOps cfa = some (.ok w))
    (huses : Op.callFrameCfa ∈ fbOps) : ∃ x, cfa = .ok (some x) := by
  obtain ⟨⟨base, hbase⟩, -⟩ := result_of_frameBaseOf h
  obtain ⟨stack, hstack, -⟩ := bind_eq_ok.1 hbase
  obtain ⟨x, hx⟩ := pushed_of_evaluate hstack _ huses
  obtain ⟨o, rfl, ho⟩ := bind_eq_ok.1 hx
  cases o with
  | none => cases ho
  | some x => exact ⟨x, rfl⟩

/-- A location that is evaluated and takes the CFA has one. -/
theorem cfa_of_result {v : Variable} {ops fbOps : List Op}
    {cfa : Proc (Option U32)} {w : U32}
    (h : result (frameBaseOf v fbOps) ops cfa = .ok w)
    (huses : UsesCfa ops fbOps) : ∃ x, cfa = .ok (some x) := by
  obtain ⟨stack, hstack, -⟩ := bind_eq_ok.1 h
  obtain ⟨op, hop, hcfa⟩ := huses
  obtain ⟨value, hvalue⟩ := pushed_of_evaluate hstack op hop
  cases op with
  | lit n => exact absurd hcfa id
  | addr address => exact absurd hcfa id
  | callFrameCfa =>
      obtain ⟨o, rfl, ho⟩ := bind_eq_ok.1 hvalue
      cases o with
      | none => cases ho
      | some x => exact ⟨x, rfl⟩
  | fbreg offset =>
      cases hbase : frameBaseOf v fbOps cfa with
      | none => simp [pushed, hbase] at hvalue
      | some location =>
          simp only [pushed, hbase] at hvalue
          by_cases hdef : LebDefined offset
          · rw [if_pos hdef] at hvalue
            obtain ⟨base, rfl, -⟩ := bind_eq_ok.1 hvalue
            exact cfa_of_frameBaseOf hbase hcfa
          · rw [if_neg hdef] at hvalue
            cases hvalue

/-- A frame base that does not take the CFA is the same for each. -/
theorem frameBaseOf_congr (v : Variable) {fbOps : List Op}
    (h : Op.callFrameCfa ∉ fbOps) (cfa cfa' : Proc (Option U32)) :
    frameBaseOf v fbOps cfa = frameBaseOf v fbOps cfa' := by
  have hsame : result (fun _ => none) fbOps cfa
      = result (fun _ => none) fbOps cfa' := by
    unfold result
    rw [evaluate_congr (fun op hop => ?_) []]
    cases op with
    | lit n => rfl
    | addr address => rfl
    | fbreg offset => rfl
    | callFrameCfa => exact absurd hop h
  unfold frameBaseOf
  rw [hsame]

/-- A location that does not take the CFA is the same for each. -/
theorem result_congr (v : Variable) {ops fbOps : List Op}
    (h : ¬ UsesCfa ops fbOps) (cfa cfa' : Proc (Option U32)) :
    result (frameBaseOf v fbOps) ops cfa
      = result (frameBaseOf v fbOps) ops cfa' := by
  unfold result
  rw [evaluate_congr (fun op hop => ?_) []]
  have hop : ¬ op.UsesCfa fbOps := fun hu => h ⟨op, hop, hu⟩
  cases op with
  | lit n => rfl
  | addr address => rfl
  | fbreg offset =>
      simp only [pushed, frameBaseOf_congr v hop cfa cfa']
  | callFrameCfa => exact absurd trivial hop

/-- What a location that was evaluated says of another evaluation. -/
theorem result_eq_iff {v : Variable} {ops fbOps : List Op}
    {cfa cfa' : Proc (Option U32)} {w : U32}
    (h : result (frameBaseOf v fbOps) ops cfa = .ok w) :
    result (frameBaseOf v fbOps) ops cfa' = .ok w
      ↔ ¬ UsesCfa ops fbOps ∨ cfa' = cfa
        ∨ ¬ EndsInCfa ops fbOps ∧ ∃ x, cfa' = .ok (some x) := by
  by_cases huses : UsesCfa ops fbOps
  · obtain ⟨x, rfl⟩ := cfa_of_result h huses
    have hmeans := result_means (means_frameBaseOf v fbOps) h
    obtain ⟨w', hw, hsame⟩ := hmeans x
    obtain rfl := Except.ok.inj (h.symm.trans hsame)
    constructor
    · intro h'
      obtain ⟨x', rfl⟩ := cfa_of_result h' huses
      obtain ⟨w', hw', hresult⟩ := hmeans x'
      obtain rfl := Except.ok.inj (h'.symm.trans hresult)
      rcases (location_eq_iff x' x).1 (hw'.trans hw.symm) with rfl | hend
      · exact .inr (.inl rfl)
      · exact .inr (.inr ⟨hend, x', rfl⟩)
    · rintro (hnot | rfl | ⟨hend, x', rfl⟩)
      · exact absurd huses hnot
      · exact h
      · obtain ⟨w', hw', hresult⟩ := hmeans x'
        have hlocation := (location_eq_iff x' x).2 (.inr hend)
        obtain rfl := Option.some.inj
          (hw'.symm.trans (hlocation.trans hw))
        exact hresult
  · rw [result_congr v huses cfa' cfa]
    exact iff_of_true h (.inl huses)

-- ================================================================= updates

/-- The machine that has evaluated an expression. -/
def evaluated (ops : List Op) (stack : List U32) : StackMachine :=
  ⟨stack, some (bytes ops), (bytes ops).length, (bytes ops).length⟩

/-- What it delivers: the top of its stack. -/
def delivered (ops : List Op) (stack : List U32) :
    Proc (DebugData × StackMachine) := do
  let value ← StackMachine.top stack
  pure (DebugData.default.write (StackMachine.genericBytes value),
    evaluated ops stack)

/-- A fresh machine evaluates the expression. -/
theorem parseExpr_new {ops : List Op} {expr : DebugData}
    (hexpr : expr.data = bytes ops) :
    StackMachine.new.parseExpr frameBase expr regs cfi pc
      = evaluate frameBase (cfi.getCfaAtLocation pc regs) ops []
          >>= delivered ops := by
  have hloop : StackMachine.loop
        (StackMachine.operation frameBase regs cfi pc)
        ((bytes ops).length + 1) []
        ⟨some (bytes ops), 0, (bytes ops).length⟩ = _ :=
    loop_run ops [] rfl rfl (Nat.zero_add _).symm (by omega)
  unfold StackMachine.parseExpr
  simp only [hexpr]
  show (StackMachine.loop _ ((bytes ops).length + 1) []
    ⟨some (bytes ops), 0, (bytes ops).length⟩ >>= _) = _
  rw [hloop]
  cases evaluate frameBase (cfi.getCfaAtLocation pc regs) ops [] with
  | error e => rfl
  | ok stack =>
      simp only [Except.map, ok_bind, DataStream.skip, Nat.zero_add]
      rfl

/-- A machine that has evaluated the expression finds nothing more of it,
whatever registers and pc are now. -/
theorem parseExpr_evaluated {ops : List Op} {stack : List U32}
    {expr : DebugData} (hexpr : expr.data = bytes ops) :
    (evaluated ops stack).parseExpr frameBase expr regs cfi pc
      = delivered ops stack := by
  have hloop := operations_end (StackMachine.operation frameBase regs cfi pc) 0
    stack (s := ⟨some (bytes ops), (bytes ops).length,
      (bytes ops).length⟩) (Nat.le_refl _)
  have hrest : DataStream.rest ⟨some (bytes ops), (bytes ops).length,
      (bytes ops).length⟩ = [] := by
    simp [DataStream.rest]
  unfold StackMachine.parseExpr
  simp only [hexpr]
  show (StackMachine.loop _ ((DataStream.rest ⟨some (bytes ops),
    (bytes ops).length, (bytes ops).length⟩).length + 1) stack
    ⟨some (bytes ops), (bytes ops).length, (bytes ops).length⟩ >>= _) = _
  rw [hrest, List.length_nil, hloop]
  rfl

/-- The frame base of the code. -/
theorem frameBase_eq {v : Variable} {fbOps : List Op}
    (hframe : ∀ data, v.parentEntry.getAttribute .frame_base = some data →
      data.data = bytes fbOps) :
    some (v.frameBase regs cfi pc)
      = frameBaseOf v fbOps (cfi.getCfaAtLocation pc regs) := by
  unfold Variable.frameBase frameBaseOf
  cases hattr : v.parentEntry.getAttribute .frame_base with
  | none => rfl
  | some fbLoc =>
      show some (StackMachine.new.parseExpr none fbLoc regs cfi pc >>= _)
        = _
      rw [parseExpr_new (hframe fbLoc hattr)]
      show _ = some (Except.map _ (evaluate none _ fbOps [] >>= _))
      cases evaluate none (cfi.getCfaAtLocation pc regs) fbOps [] with
      | error e => rfl
      | ok stack =>
          cases htop : StackMachine.top stack with
          | error e => simp [delivered, htop, Except.map]
          | ok value => simp [delivered, htop, getUInt_result, Except.map]

/-- A location is evaluated with the frame base it refers to. -/
theorem evaluate_frameBase {v : Variable} {ops fbOps : List Op}
    (hframe : HasFrameBase v ops fbOps) (stack : List U32) :
    evaluate (some (v.frameBase regs cfi pc))
        (cfi.getCfaAtLocation pc regs) ops stack
      = evaluate (frameBaseOf v fbOps (cfi.getCfaAtLocation pc regs))
          (cfi.getCfaAtLocation pc regs) ops stack := by
  by_cases hrefers : ∃ offset, Op.fbreg offset ∈ ops
  · rw [frameBase_eq (hframe hrefers)]
  · refine evaluate_congr (fun op hop => ?_) stack
    cases op with
    | lit n => rfl
    | addr address => rfl
    | callFrameCfa => rfl
    | fbreg offset => exact absurd ⟨offset, hop⟩ hrefers

/-- A frame base that is evaluated is an expression. -/
theorem ops_of_frameBase {v : Variable} {w : U64}
    (h : v.frameBase regs cfi pc = .ok w) :
    ∃ fbOps, ∀ data, v.parentEntry.getAttribute .frame_base = some data →
      data.data = bytes fbOps := by
  unfold Variable.frameBase at h
  cases hattr : v.parentEntry.getAttribute .frame_base with
  | none => exact ⟨[], nofun⟩
  | some fbLoc =>
      rw [hattr] at h
      obtain ⟨_, hparse, -⟩ := bind_eq_ok.1 h
      obtain ⟨_, hloop, -⟩ := bind_eq_ok.1 hparse
      obtain ⟨fbOps, hops⟩ := ops_of_loop rfl (by
        simp [DataStream.setData, DataStream.setLen, DataStream.rest,
          StackMachine.new, DataStream.unbounded]) hloop
      refine ⟨fbOps, fun data hdata => ?_⟩
      obtain rfl := Option.some.inj hdata
      exact hops

/-- What is shown with a location. -/
def shown (info : VarInfo) (location : U32) : VarInfo :=
  { info with location := some location, value := unknown }

/-- The variable was updated before and keeps the location. -/
def Settled (ops : List Op) (location : U32) (s : VariableState) : Prop :=
  ∃ stack, s.stack = evaluated ops stack ∧ stack.head? = some location

variable {v : Variable} {ops fbOps : List Op}

/-- What an update makes of the result of the machine. -/
def updated (info : VarInfo) (r : DebugData × StackMachine) :
    Proc (VarInfo × VariableState) := do
  let location := (← r.1.getUInt).setWidth 32
  pure (shown info location, ⟨r.2, shown info location⟩)

/-- An update is an evaluation by the variable's machine. -/
theorem getVarInfo_eq {s : VariableState} {locExpr : DebugData}
    (hattr : v.debugEntry.getAttribute .location = some locExpr) :
    v.getVarInfo s true regs cfi pc
      = s.stack.parseExpr (some (v.frameBase regs cfi pc)) locExpr regs cfi
          pc >>= updated s.varInfo := by
  unfold Variable.getVarInfo Variable.updateLocation
  rw [hattr]
  show ((s.stack.parseExpr _ locExpr regs cfi pc >>= _) >>= _) = _
  rw [bind_assoc]
  refine bind_congr fun r => ?_
  show ((r.1.getUInt >>= _) >>= _) = r.1.getUInt >>= _
  cases r.1.getUInt with
  | error e => rfl
  | ok location => rfl

/-- What is delivered is kept with the stack that it came from. -/
theorem delivered_updated (info : VarInfo) (ops : List Op)
    (stack : List U32) :
    delivered ops stack >>= updated info
      = (StackMachine.top stack).map fun location =>
          (shown info location, ⟨evaluated ops stack,
            shown info location⟩) := by
  unfold delivered
  cases StackMachine.top stack with
  | error e => rfl
  | ok location =>
      simp only [ok_bind, pure_eq_ok, updated, getUInt_result]
      rw [BitVec.setWidth_setWidth_of_le location (by decide),
        BitVec.setWidth_eq]
      rfl

/-- The top is the first value of the stack, if there is one. -/
theorem top_eq_ok {stack : List U32} {location : U32} :
    StackMachine.top stack = .ok location
      ↔ stack.head? = some location := by
  unfold StackMachine.top
  cases stack.head? with
  | none => exact iff_of_false nofun nofun
  | some w => exact ⟨fun h => congrArg some (Except.ok.inj h),
      fun h => congrArg Except.ok (Option.some.inj h)⟩

/-- The first update. -/
theorem getVarInfo_new (hlocation : HasLocation v ops)
    (hframe : HasFrameBase v ops fbOps) :
    v.getVarInfo (.new v) true regs cfi pc
      = evaluate (frameBaseOf v fbOps (cfi.getCfaAtLocation pc regs))
          (cfi.getCfaAtLocation pc regs) ops [] >>= fun stack =>
        (StackMachine.top stack).map fun location =>
          (shown (VariableState.new v).varInfo location,
            ⟨evaluated ops stack,
              shown (VariableState.new v).varInfo location⟩) := by
  obtain ⟨locExpr, hattr, hbytes⟩ := hlocation
  rw [getVarInfo_eq hattr, ← evaluate_frameBase hframe]
  show StackMachine.new.parseExpr _ locExpr regs cfi pc >>= _ = _
  rw [parseExpr_new hbytes, bind_assoc]
  exact bind_congr fun stack => delivered_updated _ ops stack

/-- It shows the result of the expression. -/
theorem location_new (hlocation : HasLocation v ops)
    (hframe : HasFrameBase v ops fbOps) :
    (v.getVarInfo (.new v) true regs cfi pc).map (·.1.location)
      = (result (frameBaseOf v fbOps) ops
          (cfi.getCfaAtLocation pc regs)).map some := by
  rw [getVarInfo_new hlocation hframe, result]
  cases evaluate (frameBaseOf v fbOps (cfi.getCfaAtLocation pc regs))
      (cfi.getCfaAtLocation pc regs) ops [] with
  | error e => rfl
  | ok stack =>
      rw [ok_bind, ok_bind]
      cases StackMachine.top stack with
      | error e => rfl
      | ok location => rfl

/-- It leaves the location settled. -/
theorem settled_new (hlocation : HasLocation v ops)
    (hframe : HasFrameBase v ops fbOps) {info : VarInfo} {s : VariableState}
    (h : v.getVarInfo (.new v) true regs cfi pc = .ok (info, s)) :
    ∃ location, Settled ops location s
      ∧ result (frameBaseOf v fbOps) ops (cfi.getCfaAtLocation pc regs)
        = .ok location := by
  rw [getVarInfo_new hlocation hframe] at h
  obtain ⟨stack, hstack, h⟩ := bind_eq_ok.1 h
  obtain ⟨location, htop, h⟩ := map_eq_ok.1 h
  obtain ⟨-, rfl⟩ := Prod.mk.inj h
  refine ⟨location, ⟨stack, rfl, top_eq_ok.1 htop⟩, ?_⟩
  rw [result, hstack, ok_bind, htop]

/-- A first update refers to a frame base that is an expression. -/
theorem hasFrameBase_of_update (hlocation : HasLocation v ops)
    {r : VarInfo × VariableState}
    (h : v.getVarInfo (.new v) true regs cfi pc = .ok r) :
    ∃ fbOps, HasFrameBase v ops fbOps := by
  by_cases hrefers : ∃ offset, Op.fbreg offset ∈ ops
  · obtain ⟨locExpr, hattr, hbytes⟩ := hlocation
    rw [getVarInfo_eq hattr] at h
    obtain ⟨_, hparse, -⟩ := bind_eq_ok.1 h
    rw [show (VariableState.new v).stack = StackMachine.new from rfl,
      parseExpr_new hbytes] at hparse
    obtain ⟨stack, hstack, -⟩ := bind_eq_ok.1 hparse
    obtain ⟨offset, hoffset⟩ := hrefers
    obtain ⟨value, hvalue⟩ := pushed_of_evaluate hstack _ hoffset
    simp only [pushed] at hvalue
    by_cases hdef : LebDefined offset
    · rw [if_pos hdef] at hvalue
      obtain ⟨w, hw, -⟩ := bind_eq_ok.1 hvalue
      obtain ⟨fbOps, hops⟩ := ops_of_frameBase hw
      exact ⟨fbOps, fun _ => hops⟩
    · rw [if_neg hdef] at hvalue
      cases hvalue
  · exact ⟨[], fun h => absurd h hrefers⟩

/-- A settled location is shown by every update, and stays. -/
theorem getVarInfo_settled (cfi : CallFrameInfo) (regs : RegisterFile)
    (pc : U32) (hlocation : HasLocation v ops)
    {s : VariableState} {location : U32} (hs : Settled ops location s) :
    ∃ s', v.getVarInfo s true regs cfi pc
        = .ok (shown s.varInfo location, s')
      ∧ Settled ops location s' := by
  obtain ⟨locExpr, hattr, hbytes⟩ := hlocation
  obtain ⟨stack, hmachine, hhead⟩ := hs
  rw [getVarInfo_eq hattr, hmachine, parseExpr_evaluated hbytes,
    delivered_updated, top_eq_ok.2 hhead]
  exact ⟨_, rfl, stack, rfl, hhead⟩

/-- Updates one after the other, with the registers and the pc of
each. -/
def updates (v : Variable) (cfi : CallFrameInfo) :
    List (RegisterFile × U32) → VariableState → Proc VariableState
  | [], s => pure s
  | (regs, pc) :: history, s => do
      let (_, s) ← v.getVarInfo s true regs cfi pc
      updates v cfi history s

/-- And so through any history of updates, by induction on it. -/
theorem updates_settled (hlocation : HasLocation v ops) {location : U32}
    {history : List (RegisterFile × U32)} {s s' : VariableState}
    (hs : Settled ops location s)
    (h : updates v cfi history s = .ok s') : Settled ops location s' := by
  induction history generalizing s with
  | nil =>
      obtain rfl := Except.ok.inj h
      exact hs
  | cons now history ih =>
      obtain ⟨⟨info, t⟩, hnow, hrest⟩ := bind_eq_ok.1 h
      obtain ⟨t', ht', hsettled⟩ := getVarInfo_settled cfi now.1 now.2
        hlocation hs
      obtain ⟨-, rfl⟩ := Prod.mk.inj (Except.ok.inj (ht'.symm.trans hnow))
      exact ih hsettled hrest

/-- A location evaluated with one CFA is right with another one: it does
not take the CFA, or the two are the same, or its last operation does not
follow it and there is one. -/
def StillRight (ops fbOps : List Op) (before now : Proc (Option U32)) :
    Prop :=
  ¬ UsesCfa ops fbOps ∨ now = before
    ∨ ¬ EndsInCfa ops fbOps ∧ ∃ cfa, now = .ok (some cfa)

/-- Behind a first update and any others, the next one shows what a fresh
variable would show exactly when the location of the first is still
right. -/
theorem location_settled_iff (hlocation : HasLocation v ops)
    (hframe : HasFrameBase v ops fbOps) {first : RegisterFile × U32}
    {info : VarInfo} {history : List (RegisterFile × U32)}
    {t s : VariableState}
    (hfirst : v.getVarInfo (.new v) true first.1 cfi first.2
      = .ok (info, t))
    (hrest : updates v cfi history t = .ok s) (regs : RegisterFile)
    (pc : U32) :
    (v.getVarInfo s true regs cfi pc).map (·.1.location)
        = (v.getVarInfo (.new v) true regs cfi pc).map (·.1.location)
      ↔ StillRight ops fbOps (cfi.getCfaAtLocation first.2 first.1)
          (cfi.getCfaAtLocation pc regs) := by
  obtain ⟨location, hsettled, hbefore⟩ :=
    settled_new hlocation hframe hfirst
  obtain ⟨s', hs', -⟩ := getVarInfo_settled cfi regs pc hlocation
    (updates_settled hlocation hsettled hrest)
  rw [hs', location_new hlocation hframe]
  show Except.ok (some location) = _ ↔ _
  rw [StillRight, ← result_eq_iff hbefore]
  constructor
  · intro h
    obtain ⟨w, hw, hsome⟩ := map_eq_ok.1 h.symm
    obtain rfl := Option.some.inj hsome
    exact hw
  · intro h
    rw [h]
    rfl

/-- Behind any updates, the next one shows what a fresh variable would
show exactly when the location of the first update is still right, with
the frame base it refers to. -/
theorem location_is_current_iff (hlocation : HasLocation v ops)
    {history : List (RegisterFile × U32)} {s : VariableState}
    (hhistory : updates v cfi history (.new v) = .ok s)
    (regs : RegisterFile) (pc : U32) :
    (v.getVarInfo s true regs cfi pc).map (·.1.location)
        = (v.getVarInfo (.new v) true regs cfi pc).map (·.1.location)
      ↔ ∀ fbOps, HasFrameBase v ops fbOps → ∀ first ∈ history.head?,
        StillRight ops fbOps (cfi.getCfaAtLocation first.2 first.1)
          (cfi.getCfaAtLocation pc regs) := by
  cases history with
  | nil =>
      obtain rfl := Except.ok.inj hhistory
      simp
  | cons first history =>
      obtain ⟨⟨info, t⟩, hfirst, hrest⟩ := bind_eq_ok.1 hhistory
      simp only [List.head?_cons, Option.mem_some_iff, forall_eq']
      constructor
      · intro h fbOps hframe
        exact (location_settled_iff hlocation hframe hfirst hrest regs
          pc).1 h
      · intro h
        obtain ⟨fbOps, hframe⟩ := hasFrameBase_of_update hlocation hfirst
        exact (location_settled_iff hlocation hframe hfirst hrest regs
          pc).2 (h fbOps hframe)

-- ======================================================= a local variable

/-- A local variable 20 bytes below the frame base, which is the CFA. -/
def localVariable : Variable where
  debugEntry := .mk (some 1) 2 9 ⟨2, .variable, false, []⟩
    [(.location, ⟨.exprloc, [0x91, 0x6c]⟩)] []
  parentEntry := .mk none 1 1 ⟨1, .subprogram, true, []⟩
    [(.frame_base, ⟨.exprloc, [0x9c]⟩)] []

/-- One function, whose CFA is 16 bytes above the stack pointer. -/
def oneFunction : CallFrameInfo where
  cies := [(0, ⟨12, 0xffffffff, 1, [], 1, 1, 1, some [0x0c, 2, 16], 3⟩)]
  fdes := [⟨12, 0, 0x80000000, 0x40, some [], 0⟩]

/-- The registers with this stack pointer. -/
def withStackPointer (sp : U32) : RegisterFile :=
  RegisterFile.reset.write sp 2

/-- The variable of the example has one operation. -/
theorem localVariable_has :
    HasLocation localVariable [.fbreg ⟨[], 0x6c⟩] :=
  ⟨⟨.exprloc, [0x91, 0x6c]⟩, rfl, rfl⟩

/-- Behind one update the next one is right exactly when the condition
holds. -/
theorem localVariable_updated :
    ∃ s, updates localVariable oneFunction
        [(withStackPointer 0x1000, 0x80000000)] (.new localVariable) = .ok s
      ∧ ((localVariable.getVarInfo s true (withStackPointer 0x2000)
            oneFunction 0x80000000).map (·.1.location)
          = (localVariable.getVarInfo (.new localVariable) true
            (withStackPointer 0x2000) oneFunction 0x80000000).map
              (·.1.location)
        ↔ ∀ fbOps, HasFrameBase localVariable [.fbreg ⟨[], 0x6c⟩] fbOps →
          ∀ first ∈ [(withStackPointer 0x1000, (0x80000000 : U32))].head?,
            StillRight [.fbreg ⟨[], 0x6c⟩] fbOps
              (oneFunction.getCfaAtLocation first.2 first.1)
              (oneFunction.getCfaAtLocation 0x80000000
                (withStackPointer 0x2000))) := by
  have hrun : (updates localVariable oneFunction
      [(withStackPointer 0x1000, 0x80000000)] (.new localVariable)).map
        (·.varInfo.location) = .ok (some 0xffc) := by
    decide +kernel
  obtain ⟨s, hs, -⟩ := map_eq_ok.1 hrun
  exact ⟨s, hs, location_is_current_iff localVariable_has hs
    (withStackPointer 0x2000) 0x80000000⟩

/-- The stack pointer has moved, and the location of the first update is
shown again. -/
theorem old_location_shown :
    (do
      let s ← updates localVariable oneFunction
        [(withStackPointer 0x1000, 0x80000000)] (.new localVariable)
      let next ← localVariable.getVarInfo s true (withStackPointer 0x2000)
        oneFunction 0x80000000
      let fresh ← localVariable.getVarInfo (.new localVariable) true
        (withStackPointer 0x2000) oneFunction 0x80000000
      pure (next.1.location, fresh.1.location))
        = (.ok (some 0xffc, some 0x1ffc)
          : Proc (Option U32 × Option U32)) := by
  decide +kernel

end T89Emu.Dwarf
