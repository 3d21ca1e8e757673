import TabularQuery.Proofs.ExprRun
import TabularQuery.Proofs.Resolution

/-!
Lists after IN. The test that binding makes of a list is a chain of `=` joined by `or`, in which the operand is
repeated for every item. What the chain comes to is a search from left to right with an operand that is evaluated
once, and so is what the machine pushes where the code of the chain stands.
-/

namespace TabularQuery

/-! ### Searching -/

namespace Value

/-- Are the values equal under `=`? A number may equal one of the other type. -/
def equals (v w : Value) : Bool := v.compare w = some .eq

/-- Looks for the value among those of the items, the first one first. The search is over at the first item that is
equal or fails. -/
def search (v : Value) : List (Except Error Value) → Except Error Bool
  | [] => .ok false
  | item :: items => do
    if v.equals (← item) then .ok true else v.search items

end Value

/-- Looks for the value of the operand among those of the items. -/
def TypedExpr.searchIn (scene : Scene) (operand : TypedExpr) (items : List TypedExpr) : Except Error Bool := do
  let v ← operand.eval scene
  v.search (items.map fun item => item.eval scene)

theorem BinaryOp.apply_eq (v w : Value) : BinaryOp.eq.apply v w = .ok (.boolean (v.equals w)) := by
  rw [apply_comparison rfl, Value.equals]
  rcases v.compare w with _ | (_ | _ | _) <;> rfl

/-! ### The chain of tests -/

namespace TypedExpr

variable {scene : Scene} {operand earlier e : TypedExpr} {items : List TypedExpr}

theorem eval_eq {v : Value} (hv : operand.eval scene = .ok v) (item : TypedExpr) :
    (binary .eq operand item .boolean).eval scene = Value.boolean <$> v.equals <$> item.eval scene := by
  rw [eval_binary (by decide), hv]
  cases item.eval scene with
  | error error => rfl
  | ok w => exact BinaryOp.apply_eq v w

theorem eval_isAmong_error {error : Error} (hearlier : earlier.eval scene = .error error)
    (h : operand.isAmong (some earlier) items = some e) : e.eval scene = .error error := by
  induction items generalizing earlier with
  | nil =>
    cases h
    exact hearlier
  | cons item items ih =>
    refine ih ?_ h
    rw [eval_logical (.inr ⟨rfl, rfl⟩), hearlier]
    rfl

theorem eval_isAmong_some {v : Value} {before : Except Error Bool} (hv : operand.eval scene = .ok v)
    (hearlier : earlier.eval scene = Value.boolean <$> before) (h : operand.isAmong (some earlier) items = some e) :
    e.eval scene = Value.boolean <$> (do
      if ← before then .ok true else v.search (items.map fun item => item.eval scene)) := by
  induction items generalizing earlier before with
  | nil =>
    cases h
    rw [hearlier]
    rcases before with error | (_ | _) <;> rfl
  | cons item items ih =>
    have hlonger : (binary .or earlier (binary .eq operand item .boolean) .boolean).eval scene =
        Value.boolean <$> (do if ← before then .ok true else v.equals <$> item.eval scene) := by
      rw [eval_logical (.inr ⟨rfl, rfl⟩), eval_eq hv, hearlier]
      rcases before with error | (_ | _) <;> rfl
    rw [ih hlonger h, List.map_cons, Value.search]
    rcases before with error | (_ | _)
    · rfl
    · cases item.eval scene <;> rfl
    · rfl

/-- The chain evaluates the operand again before every item, which makes no difference. -/
theorem eval_isAmong (scene : Scene) (h : operand.isAmong none items = some e) :
    e.eval scene = Value.boolean <$> operand.searchIn scene items := by
  cases items with
  | nil => cases h
  | cons item items =>
    rw [searchIn]
    cases hv : operand.eval scene with
    | error error =>
      have hfirst : (binary .eq operand item .boolean).eval scene = .error error := by
        rw [eval_binary (by decide), hv]
        rfl
      exact eval_isAmong_error hfirst h
    | ok v =>
      rw [eval_isAmong_some hv (eval_eq hv item) h]
      change _ = Value.boolean <$> v.search _
      rw [List.map_cons, Value.search]
      cases item.eval scene <;> rfl

theorem eval_not {r : Except Error Bool} (h : e.eval scene = Value.boolean <$> r) :
    (unary .not e .boolean).eval scene = Value.boolean <$> not <$> r := by
  rw [eval, h]
  cases r <;> rfl

theorem isAmong_eq_some (operand : TypedExpr) (before : Option TypedExpr) (hsome : before ≠ none ∨ items ≠ []) :
    ∃ e, operand.isAmong before items = some e := by
  induction items generalizing before with
  | nil => exact Option.ne_none_iff_exists'.mp (hsome.resolve_right fun h => h rfl)
  | cons item items ih => exact ih _ (.inl (by cases before <;> nofun))

theorem type_isAmong (h : operand.isAmong none items = some e) : e.type = .boolean := by
  suffices hchain : ∀ before, (∀ t, before = some t → t.type = .boolean) → operand.isAmong before items = some e →
      e.type = .boolean from hchain none (by simp) h
  clear h
  induction items with
  | nil => exact fun before hbefore h => hbefore e h
  | cons item items ih =>
    intro before _ h
    refine ih _ (fun t ht => ?_) h
    cases before <;> cases ht <;> rfl

end TypedExpr

/-! ### Binding -/

namespace Bind

variable {clause : Clause} {operand e : TypedExpr} {x : Expr} {items : List Expr} {s s' : BindState}

theorem exprs_nonempty {es : List TypedExpr} (h : exprs clause items s = .ok es s') (hsome : items ≠ []) : es ≠ [] := by
  cases items with
  | nil => exact absurd rfl hsome
  | cons item items =>
    obtain ⟨e, s₁, -, h⟩ := bind_eq_ok.mp h
    obtain ⟨es', -, rfl⟩ := bind_pure_eq_ok.mp h
    exact List.cons_ne_nil e es'

theorem not_eq_ok (h : expr clause x s = .ok e s') (htype : e.type = .boolean) :
    expr clause (.unary .not x) s = .ok (.unary .not e .boolean) s' := by
  refine bind_eq_ok.mpr ⟨e, s', h, ?_⟩
  rw [htype]
  rfl

end Bind

/-! ### Running -/

/-- Wherever the code of the expression stands, running it pushes the truth value that `r` gives and changes nothing
else, or fails as `r` does. -/
def TypedExpr.RunsAs (e : TypedExpr) (g : Sight) (r : Scene → Except Error Bool) : Prop :=
  ∀ (ctx : RunContext) (p : Procedure) (m : Machine) (start group : Nat), ctx.limit = 0 →
    p.HasCode start (e.code group start) → m.address = some start → (m.scene group).Fits g →
    Machine.Runs ctx p (Machine.Within m start e.codeSize) m (r (m.scene group)) fun b =>
      Machine.Pushed m start e.codeSize [.boolean b]

theorem Bind.Makes.runsAs {s : BindState} {e : TypedExpr} {r : Scene → Except Error Bool} (h : Makes s e)
    (heval : ∀ scene, e.eval scene = Value.boolean <$> r scene) : e.RunsAs s.sight r := by
  intro ctx p m start group hlimit hcode haddr hfits
  have hrun := Machine.runs_code hlimit e start m h.wellTyped hfits hcode haddr
  rw [heval] at hrun
  exact hrun.ofMap

/-- A list after IN is searched from left to right, and after NOT IN the answer is the opposite one. The test is bound
where the operand and the items are, one by one and all of one kind. Where it is evaluated, or its code is run, the
operand comes first, then item after item up to the first that is equal or fails. -/
theorem in_list_searched {clause : Clause} {x : Expr} {items : List Expr} {s s' : BindState} :
    (∀ o s₁ es, Bind.expr clause x s = .ok o s₁ → Bind.exprs clause items s₁ = .ok es s' → items ≠ [] →
      (∀ item ∈ es, item.type.kind = o.type.kind) → ∃ e, Bind.expr clause (.inList x items) s = .ok e s') ∧
    ∀ e, Bind.expr clause (.inList x items) s = .ok e s' →
      Bind.expr clause (.unary .not (.inList x items)) s = .ok (.unary .not e .boolean) s' ∧
      ∃ o s₁ es, Bind.expr clause x s = .ok o s₁ ∧ Bind.exprs clause items s₁ = .ok es s' ∧ es ≠ [] ∧
        (∀ item ∈ es, item.type.kind = o.type.kind) ∧
        (∀ scene, e.eval scene = Value.boolean <$> o.searchIn scene es) ∧
        (∀ scene, (TypedExpr.unary .not e .boolean).eval scene = Value.boolean <$> not <$> o.searchIn scene es) ∧
        e.RunsAs s'.sight (fun scene => o.searchIn scene es) ∧
        (TypedExpr.unary .not e .boolean).RunsAs s'.sight fun scene => not <$> o.searchIn scene es := by
  constructor
  · intro o s₁ es ho hes hsome hkinds
    obtain ⟨e, hamong⟩ := TypedExpr.isAmong_eq_some o none (.inr (Bind.exprs_nonempty hes hsome))
    exact ⟨e, Bind.inList_eq_ok_iff.mpr ⟨o, s₁, es, ho, hes, hkinds, hamong⟩⟩
  · intro e h
    obtain ⟨o, s₁, es, ho, hes, hkinds, hamong⟩ := Bind.inList_eq_ok_iff.mp h
    have hnot := Bind.not_eq_ok h (TypedExpr.type_isAmong hamong)
    have hsome : es ≠ [] := by
      rintro rfl
      cases hamong
    have heval (scene : Scene) := TypedExpr.eval_isAmong scene hamong
    have hevalNot (scene : Scene) := TypedExpr.eval_not (heval scene)
    exact ⟨hnot, o, s₁, es, ho, hes, hsome, hkinds, heval, hevalNot, (Bind.Makes.expr h).runsAs heval,
      (Bind.Makes.expr hnot).runsAs hevalNot⟩

/-- `x in (1, 2, 10 / y)` where `y` is zero: 2 is found before the division is tried, and 3 is not. -/
theorem in_list_searched_guarded :
    let entry : SourceEntry := ⟨"t", 0, [⟨"x", .integer⟩, ⟨"y", .integer⟩], none⟩
    let s : BindState :=
      { BindState.init with scopes := [⟨.query, [("Query1", .sources [entry])], []⟩] }
    let x : Expr := .inList (.column none "x") [.literal (.integer 1), .literal (.integer 2),
      .binary .div (.literal (.integer 10)) (.column none "y")]
    let ctx : RunContext := ⟨⟨[], [], [], [], 1, 0, 0, []⟩, ⟨.empty, 1⟩, 0⟩
    let m (n : Int64) : Machine := ⟨.init 0, [.closed], [some [.integer n, .integer 0]], [], [], some 0, 0, false⟩
    ∃ e, Bind.expr .filter x s = .ok e s ∧ e.eval ((m 2).scene 0) = .ok (.boolean true) ∧
      (TypedExpr.unary .not e .boolean).eval ((m 2).scene 0) = .ok (.boolean false) ∧
      e.eval ((m 3).scene 0) = .error .divisionByZero ∧
      Machine.Runs ctx ⟨"Query1", (e.code 0 0).toArray⟩ (Machine.Within (m 2) 0 e.codeSize) (m 2) (.ok true)
        fun b => Machine.Pushed (m 2) 0 e.codeSize [.boolean b] := by
  intro entry s x ctx m
  let column (n : Nat) (name : String) : TypedExpr := .column 0 n name .integer
  let es : List TypedExpr := [.literal (.integer 1), .literal (.integer 2),
    .binary .div (.literal (.integer 10)) (column 1 "y") .integer]
  obtain ⟨e, he⟩ : ∃ e, Bind.expr .filter x s = .ok e s :=
    in_list_searched.1 (column 0 "x") s es rfl rfl (List.cons_ne_nil _ _) (by decide)
  obtain ⟨-, o, s₁, es', ho, hes, -, -, heval, hevalNot, hruns, -⟩ := in_list_searched.2 e he
  obtain ⟨rfl, rfl⟩ : o = column 0 "x" ∧ s₁ = s := by
    cases ho.symm.trans (rfl : _ = EStateM.Result.ok (column 0 "x") s)
    exact ⟨rfl, rfl⟩
  obtain rfl : es' = es := by
    cases hes.symm.trans (rfl : _ = EStateM.Result.ok es s)
    rfl
  have hfound : (column 0 "x").searchIn ((m 2).scene 0) es = .ok true := rfl
  have hfits : ((m 2).scene 0).Fits s.sight := by
    refine ⟨fun c columns hc => ?_, nofun, fun f hf => ?_⟩
    · cases List.mem_singleton.mp hc
      exact ⟨[.integer 2, .integer 0], rfl, rfl⟩
    · obtain ⟨c, hc, hf⟩ := hf
      cases List.mem_singleton.mp hc
      exact (Catalog.standard_regular hf).sound
  refine ⟨e, he, ?_, ?_, ?_, ?_⟩
  · rw [heval, hfound]
    rfl
  · rw [hevalNot, hfound]
    rfl
  · rw [heval]
    rfl
  · have hrun := hruns ctx _ (m 2) 0 0 rfl (.ofCode "Query1" (e.code 0 0)) rfl hfits
    dsimp only at hrun
    rwa [hfound] at hrun

end TabularQuery
