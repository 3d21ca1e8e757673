import TabularQuery.Proofs.Execution
import TabularQuery.Proofs.StackEffect
import TabularQuery.Proofs.StandardMethods

/-!
Code of expressions on the machine. Every instruction of an expression works on the stacks as an action
says; from this `runs_act` follows by induction on the expression: its code does to the stacks what `act`
says, and changes nothing else. So the code of a well-typed expression does what `eval` says, and leaves
its value on the stacks.
-/

namespace TabularQuery

namespace Machine

/-- What the machine shows to expressions whose aggregates belong to a grouping. -/
def scene (m : Machine) (group : Nat) : Scene where
  row? c := m.rows[c]?.join
  accumulators :=
    ((m.groups[group]?.bind fun g => g.current.bind fun i => g.groups[i]?).map
      Group.accumulators).getD []

/-! ### Instructions of expressions -/

theorem exec_push (ctx : RunContext) (m : Machine) (v : Value) :
    exec ctx (.push v) m = .ok .next { m with frame := m.frame.push v } := by
  cases v with
  | boolean b => cases b <;> rfl
  | _ => rfl

theorem exec_goto (ctx : RunContext) (m : Machine) (target : Nat) : exec ctx (.jump .goto target) m = .ok .jump m := rfl

theorem exec_column (ctx : RunContext) (m : Machine) {cursor ordinal : Nat} {name : String} {ty : ColumnType} {row : List Value}
    {v : Value} (hrow : m.rows[cursor]? = some (some row)) (hv : row[ordinal]? = some v) :
    exec ctx { opcode := .column, p1 := cursor, p2 := ordinal, operand := .type ty,
               comment := some name } m = .ok .next { m with frame := m.frame.push v } := by
  simp [exec, currentRow, item?, hrow, hv, push]

theorem exec_aggregateValue (ctx : RunContext) (m : Machine) {group slot : Nat} {ty : ColumnType} {a : Accumulator}
    (h : (m.scene group).accumulators[slot]? = some a) :
    exec ctx { opcode := .aggregateValue, p1 := group, p2 := slot, operand := .type ty } m =
      match a.result.coerce ty with
      | .ok v => .ok .next { m with frame := m.frame.push v }
      | .error e => .error e m := by
  simp only [scene] at h
  cases hg : m.groups[group]? with
  | none => simp [hg] at h
  | some g =>
    cases hc : g.current with
    | none => simp [hg, hc] at h
    | some i =>
      cases hi : g.groups[i]? with
      | none => simp [hg, hc, hi] at h
      | some entry =>
        simp only [hg, hc, hi, Option.bind_some, Option.map_some, Option.getD_some] at h
        simp only [exec, typeOperand, currentGroup, groupsOf, item?, place?_natCast, Option.bind_some,
          hg, hc, hi, h, accumulator, push, bind_apply, pure_apply, get_apply, ofExcept_apply,
          Option.map_some]
        cases a.result.coerce ty <;> rfl

theorem holds_opcode {op : BinaryOp} (h : op.isComparison = true) (ty : ColumnType) :
    (op.opcode ty).holds = op.holds := by
  funext o
  cases op <;> first | (cases o <;> rfl) | cases h

theorem onFrame_bind (x : FrameAction α) (k : α → FrameAction β) :
    onFrame (x >>= k) = (onFrame x >>= fun a => onFrame (k a)) := by
  funext m
  simp only [onFrame, bind_apply]
  cases x m.frame <;> rfl

theorem onFrame_ofExcept (r : Except Error α) :
    onFrame (MonadExcept.ofExcept r) = MonadExcept.ofExcept r := by
  cases r <;> rfl

theorem arithmetic_eq (F : Number → Number → Except Error Number) :
    arithmetic F = onFrame (Frame.arithmetic F) := by
  simp only [Frame.arithmetic, onFrame_bind, onFrame_ofExcept]
  rfl

theorem popOrdering_eq (kind : ValueKind) : popOrdering kind = onFrame (Frame.popOrdering kind) := by
  cases kind <;> simp only [Frame.popOrdering, onFrame_bind] <;> rfl

/-- The instruction does to the frame what the action says; then the next one follows. -/
def Acts (ctx : RunContext) (op : Instruction) (x : FrameAction Unit) : Prop :=
  exec ctx op = (onFrame x >>= fun _ => pure .next)

theorem acts_operation (ctx : RunContext) {op : BinaryOp} (hop : op.decidedBy? = none)
    (left ty : ColumnType) : Acts ctx (.operation op left ty) (op.act left ty) := by
  have hcompare : op.isComparison = true → exec ctx (.operation op left ty) =
      (onFrame (do
        let ordering ← Frame.popOrdering left.kind
        Frame.pushed (.boolean (ordering.any op.holds))) >>= fun _ => pure .next) := by
    intro hc
    have hexec : exec ctx (.operation op left ty) = (do
        comparison (.operation op left ty)
        return .next) := by
      cases op <;> first | rfl | cases hc
    have hkind : (Instruction.operation op left ty).p1 = left.kind.toOperand := by
      simp [Instruction.operation, hc]
    have hholds : (Instruction.operation op left ty).opcode.holds = op.holds := holds_opcode hc ty
    simp only [hexec, comparison, hkind, ValueKind.ofOperand?_toOperand, popOrdering_eq, hholds, onFrame_bind]
    rfl
  have htexts : ∀ F, onFrame (Frame.onTexts F) = (do
      let right ← onFrame Frame.popText
      let left ← onFrame Frame.popText
      push (F left right)) := by
    intro F
    simp only [Frame.onTexts, onFrame_bind]
    rfl
  unfold Acts
  cases op with
  | and | or => cases hop
  | add =>
    by_cases hty : ty = .text
    · simp only [BinaryOp.act, if_pos hty, htexts, Instruction.operation, BinaryOp.opcode, exec, bind_assoc]
    · simp only [BinaryOp.act, if_neg hty, ← arithmetic_eq, Instruction.operation, BinaryOp.opcode, exec]
  | like => simp only [BinaryOp.act, htexts, Instruction.operation, BinaryOp.opcode, exec, bind_assoc]
  | sub | mul | div | mod =>
    simp only [BinaryOp.act, ← arithmetic_eq, Instruction.operation, BinaryOp.opcode, exec]
  | eq | ne | lt | le | gt | ge => exact hcompare rfl

theorem acts_unary (ctx : RunContext) (op : UnaryOp) : Acts ctx { opcode := op.opcode } op.act := by
  unfold Acts
  cases op <;> simp only [UnaryOp.act, onFrame_bind, onFrame_ofExcept, bind_assoc] <;> rfl

theorem acts_function (ctx : RunContext) (b : BoundFunction) (p1 : Int) :
    Acts ctx { opcode := .function, p1, operand := .function b } (do
      let values ← Frame.popValues b.params
      Frame.pushed (← MonadExcept.ofExcept (b.function values))) := by
  unfold Acts
  simp only [onFrame_bind, onFrame_ofExcept, bind_assoc]
  rfl

theorem acts_push (ctx : RunContext) (v : Value) : Acts ctx (.push v) (Frame.pushed v) := by
  funext m
  exact exec_push ctx m v

theorem exec_decided (ctx : RunContext) {op : BinaryOp} {b : Bool} (hop : op.decidedBy? = some b)
    (ty : ColumnType) (target : Nat) : exec ctx (.jump (op.opcode ty) target) =
      (onFrame Frame.popBool >>= fun c => pure (.jumpIf (c == b))) := by
  obtain ⟨rfl, rfl⟩ | ⟨rfl, rfl⟩ := BinaryOp.decidedBy?_eq_some hop
  · have hnot : (fun c : Bool => !c) = fun c => c == false := by
      funext c
      cases c <;> rfl
    exact congrArg (fun F : Bool → Bool => (onFrame Frame.popBool >>= fun c => pure (Flow.jumpIf (F c)))) hnot
  · simp only [beq_true]
    rfl

/-! ### Stretches of code -/

variable {ctx : RunContext} {p : Procedure} {m m₁ m₂ : Machine} {start size skip more a : Nat} {op : Instruction}
variable {f f' : Frame}

/-- A state on the way through code that only moves forward and works on the stacks. -/
def Within (m : Machine) (start size : Nat) (m₁ : Machine) : Prop :=
  ∃ f a n, m₁ = { m with frame := f, address := some a, count := n } ∧
    f.registers = m.frame.registers ∧ start ≤ a ∧ a < start + size ∧ n + start ≤ m.count + a

/-- The state after code that leaves other stacks and changes nothing else. -/
def Acted (m : Machine) (start size : Nat) (f : Frame) (m₁ : Machine) : Prop :=
  f.registers = m.frame.registers ∧
    ∃ n, n ≤ m.count + size ∧ m₁ = { m with frame := f, address := some (start + size), count := n }

/-- The state after code that leaves values on the stacks and changes nothing else. -/
def Pushed (m : Machine) (start size : Nat) (values : List Value) (m₁ : Machine) : Prop :=
  ∃ n, n ≤ m.count + size ∧
    m₁ = { m with frame := m.frame.pushAll values, address := some (start + size), count := n }

namespace Acted

theorem refl (haddr : m.address = some start) : Acted m start 0 m.frame m :=
  ⟨rfl, m.count, Nat.le_refl _, by rw [Nat.add_zero, ← haddr]⟩

theorem frame (h : Acted m start size f m₁) : m₁.frame = f := by
  obtain ⟨_, _, _, rfl⟩ := h
  rfl

theorem address (h : Acted m start size f m₁) : m₁.address = some (start + size) := by
  obtain ⟨_, _, _, rfl⟩ := h
  rfl

theorem scene (h : Acted m start size f m₁) (group : Nat) : m₁.scene group = m.scene group := by
  obtain ⟨_, _, _, rfl⟩ := h
  rfl

theorem trans (h : Acted m start skip f m₁) (h' : Acted m₁ (start + skip) more f' m₂) :
    Acted m start (skip + more) f' m₂ := by
  obtain ⟨hf, n, hn, rfl⟩ := h
  obtain ⟨hf', n', hn', rfl⟩ := h'
  refine ⟨hf'.trans hf, n', ?_, by rw [Nat.add_assoc]⟩
  simp only at hn'
  omega

theorem step (h : Acted m start skip f m₁) (hf : f'.registers = f.registers) (hskip : skip < size) :
    Acted m start size f' { m₁ with frame := f', address := some (start + size), count := m₁.count + 1 } := by
  obtain ⟨hregisters, n, hn, rfl⟩ := h
  exact ⟨hf.trans hregisters, n + 1, by omega, rfl⟩

theorem within (h : Acted m start skip f m₁) (hskip : skip < size) : Within m start size m₁ := by
  obtain ⟨hf, n, hn, rfl⟩ := h
  exact ⟨f, _, n, rfl, hf, by omega, by omega, by omega⟩

theorem ofPart (h : Acted m start skip f m₁) (hpart : skip + more ≤ size) (h' : Within m₁ (start + skip) more m₂) :
    Within m start size m₂ := by
  obtain ⟨hf, n, hn, rfl⟩ := h
  obtain ⟨f', a, n', rfl, hf', ha, ha', hn'⟩ := h'
  refine ⟨f', a, n', rfl, hf'.trans hf, by omega, by omega, ?_⟩
  simp only at hn'
  omega

end Acted

theorem Runs.first {α : Type} {r : Except Error α} {Q : α → Machine → Prop}
    (h : Runs ctx p (Within m start more) m r Q) (hpart : more ≤ size) : Runs ctx p (Within m start size) m r Q :=
  h.mono (fun _ ⟨f, a, n, hm, hf, ha, ha', hn⟩ => ⟨f, a, n, hm, hf, ha, by omega, hn⟩) fun _ _ _ => id

theorem Runs.part {r : Except Error (Unit × Frame)} (h : Acted m start skip f m₁) (hpart : skip + more ≤ size)
    (hr : Runs ctx p (Within m₁ (start + skip) more) m₁ r fun x => Acted m₁ (start + skip) more x.2) :
    Runs ctx p (Within m start size) m₁ r fun x => Acted m start (skip + more) x.2 :=
  hr.mono (fun _ => h.ofPart hpart) fun _ _ _ => h.trans

theorem Acted.runs {x : FrameAction Unit} {k : Int} (h : Acted m start skip f m₁) (hlimit : ctx.limit = 0)
    (hop : p.code[start + skip]? = some op) (hx : Frame.Moves k x)
    (hexec : exec ctx op { m₁ with count := m₁.count + 1 } =
      (onFrame x >>= fun _ => pure .next) { m₁ with count := m₁.count + 1 }) :
    Runs ctx p (Within m start (skip + 1)) m₁ (f.outcome x) fun r => Acted m start (skip + 1) r.2 := by
  have here := h.within (Nat.lt_succ_self skip)
  obtain rfl := h.frame
  have hregisters {f' : Frame} (hf : x m₁.frame = .ok ⟨⟩ f') : f'.registers = m₁.frame.registers :=
    hx.registers (by rw [Frame.outcome, hf])
  simp only [bind_apply, onFrame] at hexec
  unfold Frame.outcome
  cases hf : x m₁.frame with
  | ok u f' =>
    rw [hf] at hexec
    exact Runs.next hlimit h.address hop here hexec h.address (.ok (h.step (hregisters hf) (Nat.lt_succ_self skip)))
  | error e f' =>
    rw [hf] at hexec
    exact Runs.fail hlimit h.address hop here hexec

theorem runs_decision {P : Machine → Prop} {target : Nat} (hlimit : ctx.limit = 0)
    (haddr : m.address = some a) (hop : p.code[a]? = some op) (here : P m) (htarget : op.p2 = target)
    (taken : Bool → Bool) (hexec : exec ctx op = (onFrame Frame.popBool >>= fun c => pure (.jumpIf (taken c)))) :
    Runs ctx p P m (m.frame.outcome Frame.popBool) fun r m₁ => m₁ = { m with
      frame := r.2, address := some (if taken r.1 then target else a + 1), count := m.count + 1 } := by
  have hexec := congrFun hexec { m with count := m.count + 1 }
  simp only [bind_apply, onFrame] at hexec
  unfold Frame.outcome
  cases hc : Frame.popBool m.frame with
  | error e f =>
    rw [hc] at hexec
    exact Runs.fail hlimit haddr hop here hexec
  | ok c f =>
    rw [hc] at hexec
    cases htaken : taken c with
    | true =>
      simp only [pure_apply, htaken] at hexec
      exact Runs.jump hlimit haddr hop here hexec htarget (.ok (by simp only [htaken, if_true]))
    | false =>
      simp only [pure_apply, htaken] at hexec
      exact Runs.next hlimit haddr hop here hexec haddr (.ok (by simp only [htaken, Bool.false_eq_true, if_false]))

/-! ### The code of an expression -/

section Code

variable {g : Sight} {group : Nat}

mutual

/-- The code of a well-typed expression does to the stacks what `act` says. -/
theorem runs_act (hlimit : ctx.limit = 0) :
    ∀ (e : TypedExpr) (start : Nat) (m : Machine), e.WellTyped g → (m.scene group).Fits g.bare →
      p.HasCode start (e.code group start) → m.address = some start →
      Runs ctx p (Within m start e.codeSize) m (m.frame.outcome (e.act (m.scene group))) fun r =>
        Acted m start e.codeSize r.2
  | .literal v, start, m, _, _, hcode, haddr =>
    (Acted.refl haddr).runs hlimit hcode.head (Frame.moves_pushed v) (congrFun (acts_push ctx v) _)
  | .column cursor ordinal name ty, start, m, hw, hfits, hcode, haddr => by
    have hmoves := TypedExpr.moves_act (m.scene group) _ hw
    obtain ⟨columns, hmem, hcol⟩ := hw
    obtain ⟨row, v, hrow, hv, -⟩ := hfits.column hmem hcol
    have hat : m.rows[cursor]? = some (some row) := by
      simpa [scene, Option.join_eq_some_iff] using hrow
    refine (Acted.refl haddr).runs hlimit hcode.head hmoves ?_
    rw [exec_column ctx { m with count := m.count + 1 } hat hv]
    simp only [TypedExpr.act, Scene.column, hrow, hv]
    rfl
  | .aggregate slot ty, start, m, hw, hfits, hcode, haddr => by
    have hmoves := TypedExpr.moves_act (m.scene group) _ hw
    obtain ⟨x, hx⟩ : ∃ x, (m.scene group).accumulators[slot]? = some x :=
      ⟨_, List.getElem?_eq_getElem (hfits.slots slot hw)⟩
    refine (Acted.refl haddr).runs hlimit hcode.head hmoves ?_
    have hcounted : (({ m with count := m.count + 1 } : Machine).scene group).accumulators[slot]? = some x := hx
    rw [exec_aggregateValue ctx { m with count := m.count + 1 } hcounted]
    simp only [TypedExpr.act, Scene.aggregate, hx]
    cases x.result.coerce ty <;> rfl
  | .call f args, start, m, hw, hfits, hcode, haddr => by
    have hargs := runs_actAll hlimit args start m hw.2.2 hfits hcode.left haddr
    rw [TypedExpr.act, Frame.outcome_bind]
    refine Runs.bind (hargs.first (by simp [TypedExpr.codeSize])) ?_
    rintro ⟨_, f₁⟩ m₁ - hacted
    have hop := hcode.right.head
    rw [TypedExpr.length_codes] at hop
    exact hacted.runs hlimit hop (Frame.moves_apply f) (congrFun (acts_function ctx f _) _)
  | .unary op operand ty, start, m, hw, hfits, hcode, haddr => by
    have hoperand := runs_act hlimit operand start m hw.2 hfits hcode.left haddr
    rw [TypedExpr.act, Frame.outcome_bind]
    refine Runs.bind (hoperand.first (by simp [TypedExpr.codeSize])) ?_
    rintro ⟨_, f₁⟩ m₁ - hacted
    have hop := hcode.right.head
    rw [TypedExpr.length_code] at hop
    exact hacted.runs hlimit hop op.moves_act (congrFun (acts_unary ctx op) _)
  | .binary op left right ty, start, m, hw, hfits, hcode, haddr => by
    obtain ⟨_, hl, hr⟩ := hw
    rw [TypedExpr.act, Frame.outcome_bind]
    cases hdecided : op.decidedBy? with
    | none =>
      simp only [TypedExpr.code, hdecided] at hcode
      have hsize : (TypedExpr.binary op left right ty).codeSize = left.codeSize + right.codeSize + 1 := by
        simp [TypedExpr.codeSize, hdecided]
      rw [hsize]
      have hleft := runs_act hlimit left start m hl hfits hcode.left.left haddr
      refine Runs.bind (hleft.first (by omega)) ?_
      rintro ⟨_, f₁⟩ m₁ - hacted₁
      have hcoder := hcode.left.right
      rw [TypedExpr.length_code] at hcoder
      have hright := runs_act hlimit right _ m₁ hr (by rwa [hacted₁.scene]) hcoder hacted₁.address
      rw [hacted₁.scene, hacted₁.frame] at hright
      rw [Frame.outcome_bind]
      refine Runs.bind (Runs.part hacted₁ (by omega) hright) ?_
      rintro ⟨_, f₂⟩ m₂ - hacted₂
      have hop := hcode.right.head
      rw [List.length_append, TypedExpr.length_code, TypedExpr.length_code] at hop
      exact hacted₂.runs hlimit hop (op.moves_act _ _) (congrFun (acts_operation ctx hdecided left.type ty) _)
    | some b =>
      simp only [TypedExpr.code, hdecided] at hcode
      have hsize : (TypedExpr.binary op left right ty).codeSize = left.codeSize + right.codeSize + 2 + 1 := by
        simp [TypedExpr.codeSize, hdecided]
      rw [hsize]
      have hleft := runs_act hlimit left start m hl hfits hcode.left.left.left.left haddr
      refine Runs.bind (hleft.first (by omega)) ?_
      rintro ⟨_, f₁⟩ m₁ - hacted₁
      have htest := hcode.left.left.left.right.head
      rw [TypedExpr.length_code] at htest
      have hwithin : Within m start (left.codeSize + right.codeSize + 2 + 1) m₁ := hacted₁.within (by omega)
      have hdecision := runs_decision hlimit hacted₁.address htest hwithin rfl _ (exec_decided ctx hdecided ty _)
      rw [hacted₁.frame] at hdecision
      rw [Frame.outcome_bind]
      refine Runs.bind hdecision ?_
      rintro ⟨c, f₂⟩ _ hpop rfl
      have hregisters := Frame.moves_popBool.registers hpop
      by_cases hc : c = b
      · -- The jump went to the instruction that pushes the deciding value.
        subst hc
        have htarget : start + left.codeSize + 1 + right.codeSize + 1 =
          start + (left.codeSize + right.codeSize + 2) := by omega
        simp only [beq_self_eq_true, if_true, htarget]
        have hpush := hcode.right.head
        simp only [List.length_append, TypedExpr.length_code, List.length_singleton] at hpush
        rw [show left.codeSize + 1 + right.codeSize + 1 = left.codeSize + right.codeSize + 2 by omega] at hpush
        exact (hacted₁.step hregisters (by omega)).runs hlimit hpush (Frame.moves_pushed _)
          (congrFun (acts_push ctx (.boolean c)) _)
      · simp only [beq_eq_false_iff_ne.mpr hc, Bool.false_eq_true, if_false, if_neg hc]
        have hcoder := hcode.left.left.right
        simp only [List.length_append, TypedExpr.length_code, List.length_singleton] at hcoder
        have hacted₂ := hacted₁.step hregisters (Nat.lt_succ_self left.codeSize)
        have hright := runs_act hlimit right _ _ hr (by rwa [hacted₂.scene]) hcoder hacted₂.address
        rw [hacted₂.scene] at hright
        -- What is left of the code jumps over the deciding value.
        refine (Runs.part hacted₂ (by omega) hright).followed ?_
        rintro ⟨_, f₃⟩ m₃ - hacted₃
        have hgoto := hcode.left.right.head
        simp only [List.length_append, TypedExpr.length_code, List.length_singleton] at hgoto
        refine Runs.jump hlimit hacted₃.address hgoto (hacted₃.within (by omega)) (exec_goto ctx _ _) rfl (.ok ?_)
        obtain ⟨hf₃, n, hn, rfl⟩ := hacted₃
        refine ⟨hf₃, n + 1, by omega, ?_⟩
        congr 2
        omega

theorem runs_actAll (hlimit : ctx.limit = 0) :
    ∀ (es : List TypedExpr) (start : Nat) (m : Machine), TypedExpr.AllWellTyped g es →
      (m.scene group).Fits g.bare → p.HasCode start (TypedExpr.codes group es start) →
      m.address = some start →
      Runs ctx p (Within m start (TypedExpr.codesSize es)) m (m.frame.outcome (TypedExpr.actAll (m.scene group) es))
        fun r => Acted m start (TypedExpr.codesSize es) r.2
  | [], start, m, _, _, _, haddr => .ok (.refl haddr)
  | e :: es, start, m, hw, hfits, hcode, haddr => by
    have hfirst := runs_act hlimit e start m hw.1 hfits hcode.left haddr
    rw [TypedExpr.actAll, Frame.outcome_bind]
    refine Runs.bind (hfirst.first (by simp [TypedExpr.codesSize])) ?_
    rintro ⟨_, f₁⟩ m₁ - hacted
    have hcodes := hcode.right
    rw [TypedExpr.length_code] at hcodes
    have hrest := runs_actAll hlimit es _ m₁ hw.2 (by rwa [hacted.scene]) hcodes hacted.address
    rw [hacted.scene, hacted.frame] at hrest
    exact Runs.part hacted (by simp [TypedExpr.codesSize]) hrest

end

/-- The code of a well-typed expression does what evaluation says. -/
theorem runs_code (hlimit : ctx.limit = 0) (e : TypedExpr) (start : Nat) (m : Machine) (hw : e.WellTyped g)
    (hfits : (m.scene group).Fits g) (hcode : p.HasCode start (e.code group start)) (haddr : m.address = some start) :
    Runs ctx p (Within m start e.codeSize) m (e.eval (m.scene group)) fun v => Pushed m start e.codeSize [v] := by
  have hbare : (m.scene group).Fits g.bare := ⟨hfits.rows, hfits.slots, nofun⟩
  have hrun := runs_act hlimit e start m hw hbare hcode haddr
  rw [TypedExpr.outcome_act hfits e m.frame hw] at hrun
  exact hrun.ofMap.mono (fun _ => id) fun _ _ _ h => h.2

end Code

end Machine

end TabularQuery
