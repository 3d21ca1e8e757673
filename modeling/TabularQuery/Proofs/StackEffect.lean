import TabularQuery.Program.ExprCode
import TabularQuery.Proofs.Operands

/-!
Expressions on the stacks, whatever the called functions return. `TypedExpr.act` says what an expression
does to the three stacks. If functions return what they promise, it pushes the value of the expression. A
function that does not keep to its declared type puts its value on the wrong stack, and what is popped
later need not be what was pushed for it; but the number of operands on all stacks together is always the
expected one. So operands that are popped as soon as they are complete leave empty stacks empty, and what
comes of them depends on the scene alone.
-/

namespace TabularQuery

namespace Frame

/-- The number of operands on all stacks. -/
def depth (f : Frame) : Nat := f.numbers.length + f.texts.length + f.booleans.length

theorem isClear_iff {f : Frame} : f.isClear = true ↔ f.depth = 0 := by
  simp [isClear, depth, and_assoc]

/-- Puts a value on the stack of its kind. -/
def pushed (v : Value) : FrameAction Unit := modify (·.push v)

/-- Pops two numbers and pushes what the operation gives. -/
def arithmetic (F : Number → Number → Except Error Number) : FrameAction Unit := do
  let right ← popNumber
  let left ← popNumber
  pushed (← MonadExcept.ofExcept (F left right)).toValue

/-- Pops two values of a kind and compares them. -/
def popOrdering : ValueKind → FrameAction (Option Ordering)
  | .numeric => do
    let right ← popNumber
    let left ← popNumber
    return left.compare right
  | .text => do
    let right ← popText
    let left ← popText
    return some (compare left right)
  | .boolean => do
    let right ← popBool
    let left ← popBool
    return some (compare left right)

/-- Pops two texts and pushes what comes of them. -/
def onTexts (F : String → String → Value) : FrameAction Unit := do
  let right ← popText
  let left ← popText
  pushed (F left right)

/-- What an action comes to, and the stacks that it leaves. -/
def outcome (f : Frame) (x : FrameAction α) : Except Error (α × Frame) :=
  match x f with
  | .ok a f' => .ok (a, f')
  | .error e _ => .error e

theorem outcome_bind (f : Frame) (x : FrameAction α) (k : α → FrameAction β) :
    f.outcome (x >>= k) = (f.outcome x >>= fun r => r.2.outcome (k r.1)) := by
  unfold outcome
  rw [bind_apply]
  cases x f <;> rfl

/-- What an action comes to on empty stacks. -/
def value (x : FrameAction α) : Except Error α := Prod.fst <$> (init 0).outcome x

/-! ### Actions that keep count -/

/-- If the action succeeds, it changes the number of operands by `n`; it does not look at registers. -/
structure Moves (n : Int) (x : FrameAction α) : Prop where
  depth : ∀ {f a f'}, x f = .ok a f' → (f'.depth : Int) = f.depth + n
  blind : ∀ f registers, x { f with registers } = match x f with
    | .ok a f' => .ok a { f' with registers }
    | .error e f' => .error e { f' with registers }

namespace Moves

variable {α β : Type} {n k : Int} {x : FrameAction α} {y : α → FrameAction β}

theorem pure (a : α) : Moves 0 (Pure.pure a : FrameAction α) where
  depth h := by
    cases h
    simp
  blind _ _ := rfl

theorem ofExcept (r : Except Error α) : Moves 0 (MonadExcept.ofExcept r : FrameAction α) where
  depth h := by
    obtain ⟨-, rfl⟩ := ofExcept_eq_ok.mp h
    simp
  blind f registers := by
    simp only [ofExcept_apply]
    cases r <;> rfl

theorem bind (hx : Moves n x) (hy : ∀ a, Moves k (y a)) : Moves (n + k) (x >>= y) where
  depth h := by
    obtain ⟨a, f₁, ha, h⟩ := bind_eq_ok.mp h
    have h₁ := hx.depth ha
    have h₂ := (hy a).depth h
    omega
  blind f registers := by
    simp only [bind_apply, hx.blind f registers]
    cases x f with
    | ok a f₁ => exact (hy a).blind f₁ registers
    | error e f₁ => rfl

theorem map (hx : Moves n x) (F : α → β) : Moves n (F <$> x) := by
  rw [map_eq_pure_bind]
  exact Int.add_zero n ▸ hx.bind fun a => pure (F a)

theorem registers (h : Moves n x) {f f' : Frame} {a : α} (hx : f.outcome x = .ok (a, f')) :
    f'.registers = f.registers := by
  have hblind := h.blind f f.registers
  unfold outcome at hx
  cases hf : x f with
  | error e f₁ =>
    rw [hf] at hx
    cases hx
  | ok b f₁ =>
    rw [hf] at hx hblind
    cases hx
    exact (congrArg Frame.registers (EStateM.Result.ok.inj hblind).2 :)

/-- On empty stacks, an action that pops what it pushes leaves them empty. -/
theorem outcome_clear (h : Moves 0 x) {f : Frame} (hf : f.isClear = true) :
    f.outcome x = (fun a => (a, f)) <$> value x := by
  have hempty : f = { init 0 with registers := f.registers } := by
    simp only [isClear, Bool.and_eq_true, List.isEmpty_iff] at hf
    obtain ⟨⟨hn, ht⟩, hb⟩ := hf
    cases f
    simp_all [init]
  have hblind := h.blind (init 0) f.registers
  rw [← hempty] at hblind
  simp only [value, outcome, hblind]
  cases hx : x (init 0) with
  | error e f' => rfl
  | ok a f' =>
    have hdepth : f'.depth = 0 := by
      have := h.depth hx
      have hinit : (init 0).depth = 0 := rfl
      omega
    have hclear := isClear_iff.mpr hdepth
    simp only [isClear, Bool.and_eq_true, List.isEmpty_iff] at hclear
    obtain ⟨⟨hn, ht⟩, hb⟩ := hclear
    have hsame : { f' with registers := f.registers } = f := by
      rw [hempty]
      simp [init, hn, ht, hb]
    simp only [hsame]
    rfl

end Moves

theorem moves_pushed (v : Value) : Moves 1 (pushed v) where
  depth h := by
    cases h
    cases v <;> simp [push, Frame.depth] <;> omega
  blind f registers := by cases v <;> rfl

theorem moves_popNumber : Moves (-1) popNumber where
  depth {f a f'} h := by
    unfold popNumber at h
    split at h <;> cases h
    simp_all [Frame.depth]
    omega
  blind f registers := by
    obtain ⟨numbers, texts, booleans, _⟩ := f
    cases numbers <;> rfl

theorem moves_popText : Moves (-1) popText where
  depth {f a f'} h := by
    unfold popText at h
    split at h <;> cases h
    simp_all [Frame.depth]
    omega
  blind f registers := by
    obtain ⟨numbers, texts, booleans, _⟩ := f
    cases texts <;> rfl

theorem moves_popBool : Moves (-1) popBool where
  depth {f a f'} h := by
    unfold popBool at h
    split at h <;> cases h
    simp_all [Frame.depth]
    omega
  blind f registers := by
    obtain ⟨numbers, texts, booleans, _⟩ := f
    cases booleans <;> rfl

theorem moves_popValue (ty : ColumnType) : Moves (-1) (popValue ty) := by
  unfold popValue
  cases ty.kind with
  | numeric =>
    refine moves_popNumber.bind (k := 0) fun n => ?_
    cases n.toType ty with
    | ok v => exact .pure v
    | error e => exact .ofExcept (.error e)
  | text => exact moves_popText.map _
  | boolean => exact moves_popBool.map _

theorem moves_mapM_popValue (types : List ColumnType) : Moves (-types.length) (types.mapM popValue) := by
  induction types with
  | nil => exact .pure []
  | cons ty types ih =>
    rw [List.mapM_cons]
    have h := (moves_popValue ty).bind fun v => ih.bind fun vs => .pure (v :: vs)
    have hcount : -1 + (-(types.length : Int) + 0) = -((ty :: types).length : Int) := by
      rw [List.length_cons]
      omega
    exact hcount ▸ h

theorem moves_popValues (types : List ColumnType) : Moves (-types.length) (popValues types) := by
  have h := (moves_mapM_popValue types.reverse).bind fun values => Moves.pure values.reverse
  rwa [List.length_reverse, Int.add_zero] at h

theorem moves_apply (b : BoundFunction) : Moves (-b.params.length + 1) (do
    let values ← popValues b.params
    pushed (← MonadExcept.ofExcept (b.function values))) :=
  (moves_popValues b.params).bind fun values => (Moves.ofExcept (b.function values)).bind (k := 1) moves_pushed

theorem moves_arithmetic (F : Number → Number → Except Error Number) : Moves (-1) (arithmetic F) :=
  moves_popNumber.bind (k := 0) fun right => moves_popNumber.bind (k := 1) fun left =>
    (Moves.ofExcept (F left right)).bind fun z => moves_pushed z.toValue

theorem moves_onTexts (F : String → String → Value) : Moves (-1) (onTexts F) :=
  moves_popText.bind (k := 0) fun right => moves_popText.bind (k := 1) fun left => moves_pushed (F left right)

theorem moves_popOrdering (kind : ValueKind) : Moves (-2) (popOrdering kind) := by
  have htwo : ∀ {α : Type} {pop : FrameAction α}, Moves (-1) pop → ∀ F : α → α → Option Ordering,
      Moves (-2) (do let right ← pop; let left ← pop; return F left right) := by
    intro α pop h F
    refine h.bind (k := -1) fun right => ?_
    exact h.bind (k := 0) fun left => .pure _
  cases kind with
  | numeric => exact htwo moves_popNumber _
  | text => exact htwo moves_popText _
  | boolean => exact htwo moves_popBool _

end Frame

/-! ### What expressions do to the stacks -/

/-- What the instruction of an operation does. AND and OR have none of their own. -/
def BinaryOp.act (op : BinaryOp) (left result : ColumnType) : FrameAction Unit :=
  match op with
  | .add => if result = .text then Frame.onTexts fun a b => .text (a ++ b) else Frame.arithmetic Number.add
  | .sub => Frame.arithmetic Number.sub
  | .mul => Frame.arithmetic Number.mul
  | .div => Frame.arithmetic Number.div
  | .mod => Frame.arithmetic Number.rem
  | .like => Frame.onTexts fun a b => .boolean (Text.like a b)
  | op => do
    let ordering ← Frame.popOrdering left.kind
    Frame.pushed (.boolean (ordering.any op.holds))

def UnaryOp.act : UnaryOp → FrameAction Unit
  | .neg => do
    let n ← Frame.popNumber
    Frame.pushed (← MonadExcept.ofExcept n.neg).toValue
  | .not => do Frame.pushed (.boolean !(← Frame.popBool))

namespace TypedExpr

mutual

/-- What the code of an expression does to the stacks. -/
def act (s : Scene) : TypedExpr → FrameAction Unit
  | .literal v => Frame.pushed v
  | .column cursor ordinal _ _ => do Frame.pushed (← MonadExcept.ofExcept (s.column cursor ordinal))
  | .call f args => do
    actAll s args
    let values ← Frame.popValues f.params
    Frame.pushed (← MonadExcept.ofExcept (f.function values))
  | .aggregate slot ty => do Frame.pushed (← MonadExcept.ofExcept (s.aggregate slot ty))
  | .binary op left right ty => do
    left.act s
    match op.decidedBy? with
    | none =>
      right.act s
      op.act left.type ty
    | some b => if (← Frame.popBool) = b then Frame.pushed (.boolean b) else right.act s
  | .unary op operand _ => do
    operand.act s
    op.act

def actAll (s : Scene) : List TypedExpr → FrameAction Unit
  | [] => pure ()
  | e :: es => do
    e.act s
    actAll s es

end

end TypedExpr

theorem BinaryOp.moves_act (op : BinaryOp) (left result : ColumnType) :
    Frame.Moves (-1) (op.act left result) := by
  have hcompare : ∀ F : Option Ordering → Bool, Frame.Moves (-1) (do
      let ordering ← Frame.popOrdering left.kind
      Frame.pushed (.boolean (F ordering))) :=
    fun F => (Frame.moves_popOrdering left.kind).bind (k := 1) fun _ => Frame.moves_pushed _
  cases op <;> try exact Frame.moves_arithmetic _
  case add =>
    by_cases hresult : result = .text
    · simp only [act, if_pos hresult, Frame.moves_onTexts]
    · simp only [act, if_neg hresult, Frame.moves_arithmetic]
  case like => exact Frame.moves_onTexts _
  all_goals exact hcompare _

theorem UnaryOp.moves_act (op : UnaryOp) : Frame.Moves 0 op.act := by
  cases op with
  | neg =>
    exact Frame.moves_popNumber.bind (k := 1) fun n => (Frame.Moves.ofExcept n.neg).bind (k := 1) fun z =>
      Frame.moves_pushed z.toValue
  | not => exact Frame.moves_popBool.bind (k := 1) fun _ => Frame.moves_pushed _

namespace TypedExpr

variable {g : Sight}

mutual

/-- An expression leaves one operand more, whatever its functions return. -/
theorem moves_act (s : Scene) : ∀ e : TypedExpr, e.WellTyped g → Frame.Moves 1 (e.act s)
  | .literal v, _ => Frame.moves_pushed v
  | .column cursor ordinal _ _, _ =>
    (Frame.Moves.ofExcept (s.column cursor ordinal)).bind (k := 1) Frame.moves_pushed
  | .aggregate slot ty, _ => (Frame.Moves.ofExcept (s.aggregate slot ty)).bind (k := 1) Frame.moves_pushed
  | .call f args, hw => by
    have hlength : f.params.length = args.length := by simpa using hw.2.1.length_eq
    have h := (moves_actAll s args hw.2.2).bind fun _ => hlength ▸ Frame.moves_apply f
    rwa [← Int.add_assoc, Int.add_right_neg, Int.zero_add] at h
  | .unary op operand _, hw => (moves_act s operand hw.2).bind (k := 0) fun _ => op.moves_act
  | .binary op left right ty, hw => by
    have hleft := moves_act s left hw.2.1
    have hright := moves_act s right hw.2.2
    refine hleft.bind (k := 0) fun _ => ?_
    cases op.decidedBy? with
    | none => exact hright.bind (k := -1) fun _ => op.moves_act left.type ty
    | some b =>
      refine Frame.moves_popBool.bind (k := 1) fun c => ?_
      split
      · exact Frame.moves_pushed _
      · exact hright

theorem moves_actAll (s : Scene) : ∀ es : List TypedExpr, AllWellTyped g es → Frame.Moves es.length (actAll s es)
  | [], _ => .pure ()
  | e :: es, hw => by
    have h := (moves_act s e hw.1).bind fun _ => moves_actAll s es hw.2
    rwa [Int.add_comm] at h

end

end TypedExpr

/-! ### Functions that keep their promises -/

namespace Frame

variable {β : Type}

theorem outcome_pushed_bind {f : Frame} {x : FrameAction Unit} {r : Except Error β} {push : β → Frame}
    (hx : f.outcome x = (fun b => ((), push b)) <$> r) (y : FrameAction α) :
    f.outcome (x >>= fun _ => y) = (r >>= fun b => (push b).outcome y) := by
  rw [outcome_bind, hx]
  cases r <;> rfl

theorem outcome_bind_of_ok {f f' : Frame} {x : FrameAction α} {a : α} (hx : x f = .ok a f') (y : α → FrameAction β) :
    f.outcome (x >>= y) = f'.outcome (y a) := by
  rw [outcome, bind_apply, hx]
  rfl

theorem outcome_ofExcept (f : Frame) (r : Except Error Value) :
    f.outcome (do pushed (← MonadExcept.ofExcept r)) = (fun v => ((), f.push v)) <$> r := by
  cases r <;> rfl

theorem outcome_arithmetic (f : Frame) (F : Number → Number → Except Error Number) (x y : Number) :
    ((f.push x.toValue).push y.toValue).outcome (arithmetic F) = (fun z => ((), f.push z.toValue)) <$> F x y := by
  simp only [outcome, arithmetic, bind_apply, popNumber_push, ofExcept_apply]
  cases F x y <;> rfl

theorem popOrdering_push (f : Frame) {l r : Value} (h : l.type.kind = r.type.kind) :
    popOrdering l.type.kind ((f.push l).push r) = .ok (l.compare r) f := by
  cases l <;> cases r <;> first | rfl | cases h

end Frame

theorem BinaryOp.decidedBy?_eq_some {op : BinaryOp} {b : Bool} (h : op.decidedBy? = some b) :
    op = .and ∧ b = false ∨ op = .or ∧ b = true := by
  cases op <;> simp_all [decidedBy?]

theorem BinaryOp.decidedBy?_eq_none {op : BinaryOp} (h : op.decidedBy? = none) :
    op ≠ .and ∧ op ≠ .or := by
  cases op <;> simp_all [decidedBy?]

theorem BinaryOp.act_onNumbers {op : BinaryOp} {F : Number → Number → Except Error Number}
    (hF : op.onNumbers? = some F) {ty : ColumnType} (hty : ty ≠ .text) (left : ColumnType) :
    op.act left ty = Frame.arithmetic F := by
  cases op <;> cases hF <;> first | rfl | exact if_neg hty

theorem BinaryOp.outcome_act {op : BinaryOp} (hop : op ≠ .and ∧ op ≠ .or) {l r : Value} {ty : ColumnType}
    (hty : op.resultType? l.type r.type = some ty) (f : Frame) :
    ((f.push l).push r).outcome (op.act l.type ty) = (fun v => ((), f.push v)) <$> op.apply l r := by
  obtain ⟨ha, hl, hr, rfl⟩ | ⟨rfl, hl, hr, rfl⟩ | ⟨hc, hkind, rfl⟩ | ⟨rfl, hl, hr, rfl⟩ | ⟨hlog, _⟩ :=
    BinaryOp.resultType?_cases hty
  · obtain ⟨x, rfl⟩ := Value.exists_number hl
    obtain ⟨y, rfl⟩ := Value.exists_number hr
    obtain ⟨F, hF⟩ := BinaryOp.exists_onNumbers ha
    rw [act_onNumbers hF (by split <;> decide), apply_numbers hF, Frame.outcome_arithmetic]
    cases F x y <;> rfl
  · obtain ⟨a, rfl⟩ := Value.exists_text hl
    obtain ⟨b, rfl⟩ := Value.exists_text hr
    rfl
  · have hact : op.act l.type .boolean = (do
        let ordering ← Frame.popOrdering l.type.kind
        Frame.pushed (.boolean (ordering.any op.holds))) := by
      cases op <;> first | rfl | cases hc
    rw [apply_comparison hc, hact, Frame.outcome_bind_of_ok (Frame.popOrdering_push f hkind)]
    rfl
  · obtain ⟨a, rfl⟩ := Value.exists_text hl
    obtain ⟨b, rfl⟩ := Value.exists_text hr
    rfl
  · rcases hlog with rfl | rfl <;> simp at hop

theorem UnaryOp.outcome_act {op : UnaryOp} {v : Value} {ty : ColumnType} (hty : op.resultType? v.type = some ty)
    (f : Frame) : (f.push v).outcome op.act = (fun w => ((), f.push w)) <$> op.apply v := by
  unfold UnaryOp.resultType? at hty
  cases op with
  | neg =>
    obtain ⟨x, rfl⟩ := Value.exists_number (Option.ite_none_right_eq_some.mp hty).1
    simp only [Frame.outcome, act, apply, Value.number?_toValue, bind_apply, Frame.popNumber_push, ofExcept_apply]
    cases x.neg <;> rfl
  | not =>
    obtain ⟨b, rfl⟩ := Value.exists_boolean (Option.ite_none_right_eq_some.mp hty).1
    rfl

namespace TypedExpr

variable {g : Sight} {s : Scene}

mutual

/-- An expression pushes its value, or fails as evaluation does. -/
theorem outcome_act (hfits : s.Fits g) : ∀ (e : TypedExpr) (f : Frame), e.WellTyped g →
    f.outcome (e.act s) = (fun v => ((), f.push v)) <$> e.eval s
  | .literal _, _, _ => rfl
  | .column cursor ordinal _ _, f, _ => f.outcome_ofExcept (s.column cursor ordinal)
  | .aggregate slot ty, f, _ => f.outcome_ofExcept (s.aggregate slot ty)
  | .call b args, f, ⟨_, haccepts, hargs⟩ => by
    rw [act, Frame.outcome_pushed_bind (outcome_actAll hfits args f hargs), eval]
    cases hvalues : evalAll s args with
    | error e => rfl
    | ok values =>
      have htypes := types_evalAll hfits args values hargs hvalues
      exact (Frame.outcome_bind_of_ok (Frame.popValues_pushAll (htypes ▸ haccepts)) _).trans (f.outcome_ofExcept _)
  | .unary op operand ty, f, ⟨hty, hoperand⟩ => by
    rw [act, Frame.outcome_pushed_bind (outcome_act hfits operand f hoperand), eval]
    cases hv : operand.eval s with
    | error e => rfl
    | ok v =>
      rw [← type_eval hfits operand v hoperand hv] at hty
      exact op.outcome_act hty f
  | .binary op left right ty, f, ⟨hty, hleft, hright⟩ => by
    rw [act, Frame.outcome_pushed_bind (outcome_act hfits left f hleft)]
    cases hdecided : op.decidedBy? with
    | none =>
      have hop := BinaryOp.decidedBy?_eq_none hdecided
      rw [eval_binary hop]
      cases hl : left.eval s with
      | error e => rfl
      | ok l =>
        simp only [bind, Except.bind]
        refine (Frame.outcome_pushed_bind (outcome_act hfits right (f.push l) hright) _).trans ?_
        cases hr : right.eval s with
        | error e => rfl
        | ok r =>
          rw [← type_eval hfits left l hleft hl, ← type_eval hfits right r hright hr] at hty
          rw [← type_eval hfits left l hleft hl]
          exact BinaryOp.outcome_act hop hty f
    | some b =>
      have hop := BinaryOp.decidedBy?_eq_some hdecided
      obtain ⟨hboolean, -, -⟩ := BinaryOp.resultType?_logical hop hty
      rw [eval_logical hop]
      cases hl : left.eval s with
      | error e => rfl
      | ok l =>
        obtain ⟨c, rfl⟩ := Value.exists_boolean ((type_eval hfits left l hleft hl).trans hboolean)
        refine (Frame.outcome_bind_of_ok (f.popBool_push c) _).trans ?_
        by_cases hc : c = b
        · rw [hc, if_pos rfl]
          simp only [bind, Except.bind, if_true]
          rfl
        · rw [if_neg hc, outcome_act hfits right f hright]
          simp only [bind, Except.bind, Value.boolean.injEq, if_neg hc]

theorem outcome_actAll (hfits : s.Fits g) : ∀ (es : List TypedExpr) (f : Frame), AllWellTyped g es →
    f.outcome (actAll s es) = (fun values => ((), f.pushAll values)) <$> evalAll s es
  | [], _, _ => rfl
  | e :: es, f, ⟨he, hes⟩ => by
    rw [actAll, Frame.outcome_pushed_bind (outcome_act hfits e f he), evalAll]
    cases e.eval s with
    | error e => rfl
    | ok v =>
      refine (outcome_actAll hfits es (f.push v) hes).trans ?_
      cases evalAll s es <;> rfl

end

end TypedExpr

/-- The sight without what may be called. -/
def Sight.bare (g : Sight) : Sight := { g with methods := fun _ => False }

/-! ### Other cursors -/

namespace TypedExpr

mutual

/-- The expression with its columns read from other cursors. -/
def mapCursors (ρ : Nat → Nat) : TypedExpr → TypedExpr
  | .literal v => .literal v
  | .column cursor ordinal name ty => .column (ρ cursor) ordinal name ty
  | .call f args => .call f (mapCursorsAll ρ args)
  | .aggregate slot ty => .aggregate slot ty
  | .binary op left right ty => .binary op (left.mapCursors ρ) (right.mapCursors ρ) ty
  | .unary op operand ty => .unary op (operand.mapCursors ρ) ty

def mapCursorsAll (ρ : Nat → Nat) : List TypedExpr → List TypedExpr
  | [] => []
  | e :: es => e.mapCursors ρ :: mapCursorsAll ρ es

end

theorem mapCursorsAll_eq (ρ : Nat → Nat) (es : List TypedExpr) : mapCursorsAll ρ es = es.map (mapCursors ρ) := by
  induction es with
  | nil => rfl
  | cons e es ih => rw [mapCursorsAll, ih, List.map_cons]

@[simp] theorem type_mapCursors (ρ : Nat → Nat) (e : TypedExpr) : (e.mapCursors ρ).type = e.type := by
  cases e <;> rfl

mutual

theorem mapCursors_id : ∀ e : TypedExpr, e.mapCursors id = e
  | .literal _ | .column .. | .aggregate .. => rfl
  | .call f args => by rw [mapCursors, mapCursorsAll_id args]
  | .binary op left right ty => by rw [mapCursors, mapCursors_id left, mapCursors_id right]
  | .unary op operand ty => by rw [mapCursors, mapCursors_id operand]

theorem mapCursorsAll_id : ∀ es : List TypedExpr, mapCursorsAll id es = es
  | [] => rfl
  | e :: es => by rw [mapCursorsAll, mapCursors_id e, mapCursorsAll_id es]

end

end TypedExpr

/-- In `t` the cursors have other numbers; otherwise it is as `s` in all that may be looked at. -/
structure Scene.Renamed (ρ : Nat → Nat) (g : Sight) (s t : Scene) : Prop where
  rows : ∀ c columns, (c, columns) ∈ g.cursors → t.row? (ρ c) = s.row? c
  slots : ∀ k ∈ g.slots, t.accumulators[k]? = s.accumulators[k]?

theorem Scene.Agree.renamed {g : Sight} {s t : Scene} (h : Scene.Agree g s t) : Scene.Renamed id g s t :=
  ⟨fun c columns hmem => (h.rows c columns hmem).symm, fun k hk => (h.slots k hk).symm⟩

namespace TypedExpr

variable {g : Sight} {s t : Scene} {ρ : Nat → Nat}

mutual

/-- What an expression does does not depend on the numbers of cursors. -/
theorem act_mapCursors (h : Scene.Renamed ρ g s t) (hfits : s.Fits g.bare) :
    ∀ e : TypedExpr, e.WellTyped g → (e.mapCursors ρ).act t = e.act s
  | .literal _, _ => rfl
  | .column cursor ordinal _ _, hw => by
    obtain ⟨columns, hmem, hcol⟩ := hw
    obtain ⟨row, v, hrow, hv, -⟩ := hfits.column hmem hcol
    simp only [mapCursors, act, Scene.column, h.rows cursor columns hmem, hrow, hv]
  | .call f args, hw => by simp only [mapCursors, act, actAll_mapCursors h hfits args hw.2.2]
  | .aggregate slot ty, hw => by simp only [mapCursors, act, Scene.aggregate, h.slots slot hw]
  | .binary op left right ty, hw => by
    simp only [mapCursors, act, act_mapCursors h hfits left hw.2.1, act_mapCursors h hfits right hw.2.2,
      type_mapCursors]
  | .unary op operand ty, hw => by simp only [mapCursors, act, act_mapCursors h hfits operand hw.2]

theorem actAll_mapCursors (h : Scene.Renamed ρ g s t) (hfits : s.Fits g.bare) :
    ∀ es : List TypedExpr, AllWellTyped g es → actAll t (mapCursorsAll ρ es) = actAll s es
  | [], _ => rfl
  | e :: es, hw => by
    simp only [mapCursorsAll, actAll, act_mapCursors h hfits e hw.1, actAll_mapCursors h hfits es hw.2]

end

theorem act_congr (h : Scene.Agree g s t) (hfits : s.Fits g.bare) {e : TypedExpr} (hw : e.WellTyped g) :
    e.act s = e.act t := by
  rw [← act_mapCursors h.renamed hfits e hw, mapCursors_id]

theorem actAll_congr (h : Scene.Agree g s t) (hfits : s.Fits g.bare) {es : List TypedExpr}
    (hw : AllWellTyped g es) : actAll s es = actAll t es := by
  rw [← actAll_mapCursors h.renamed hfits es hw, mapCursorsAll_id]

end TypedExpr

end TabularQuery
