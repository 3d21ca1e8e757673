import TabularQuery.Program.SelectCode
import TabularQuery.Proofs.Enumeration
import TabularQuery.Proofs.ExprRun

/-!
Reading the operands of a query: conditions that are tested, and lists of expressions whose values an
instruction takes from the stacks. `Reader.Runs` says that the code does what a reader says. There are two
readers. `exact` evaluates expressions, and is right if functions return what they promise; `popped`
follows the operands on the stacks, and is always right.
-/

namespace TabularQuery

/-! ### States in which nothing goes wrong unnoticed -/

/-- What an instruction relies on without checking: rows are read and procedures end with empty
stacks, and counters stay in range. -/
def Instruction.Careful (op : Instruction) (f : Frame) : Prop :=
  match op.opcode with
  | .next | .halt => f.isClear = true
  | .ifPos => ∀ n f', Frame.register op.p1 f = .ok n f' → 0 < n →
      (n - Int64.ofInt op.p3).toInt = n.toInt - op.p3
  | .addImm => ∀ n f', Frame.register op.p1 f = .ok n f' →
      (n + Int64.ofInt op.p3).toInt = n.toInt + op.p3
  | _ => True

/-- Instructions that rely on nothing. -/
def Instruction.isPlain (op : Instruction) : Bool :=
  match op.opcode with
  | .next | .halt | .ifPos | .addImm => false
  | _ => true

theorem Instruction.careful_of_isPlain {op : Instruction} (h : op.isPlain = true) (f : Frame) :
    op.Careful f := by
  unfold isPlain at h
  unfold Careful
  split at h <;> simp_all

namespace Machine

variable {ctx : RunContext} {p : Procedure} {m m₁ m₂ : Machine} {start size : Nat}
variable {a : Nat} {op : Instruction}

/-- The next instruction finds what it relies on. -/
def Safe (p : Procedure) (m : Machine) : Prop := ∀ op, fetch? p m = some op → op.Careful m.frame

theorem safe_of_careful (haddr : m.address = some a) (hop : p.code[a]? = some op)
    (h : op.Careful m.frame) : Safe p m := by
  intro op' hop'
  rw [fetch?, haddr, Option.bind_some, hop] at hop'
  cases hop'
  exact h

theorem safe_of_isPlain (haddr : m.address = some a) (hop : p.code[a]? = some op)
    (h : op.isPlain = true) : Safe p m :=
  safe_of_careful haddr hop (op.careful_of_isPlain h _)

theorem Within.safe {code : List Instruction} (hcode : p.HasCode start code)
    (hsize : code.length = size) (hplain : ∀ op ∈ code, op.isPlain = true)
    (h : Within m start size m₁) : Safe p m₁ := by
  obtain ⟨_, a, _, rfl, -, hle, hlt, -⟩ := h
  have hget : code[a - start]? = some code[a - start] := List.getElem?_eq_getElem (by omega)
  have hop := hcode (a - start) _ hget
  rw [Nat.add_sub_cancel' hle] at hop
  exact safe_of_isPlain rfl hop (hplain _ (List.getElem_mem _))

end Machine

namespace TypedExpr

theorem isPlain_push (v : Value) : (Instruction.push v).isPlain = true := by cases v <;> rfl

theorem isPlain_operation (op : BinaryOp) (left result : ColumnType) :
    (Instruction.operation op left result).isPlain = true := by
  cases op <;> cases result <;> rfl

theorem isPlain_jump (op : BinaryOp) (ty : ColumnType) (target : Nat) :
    (Instruction.jump (op.opcode ty) target).isPlain = true := by
  cases op <;> cases ty <;> rfl

mutual

/-- The code of an expression relies on nothing that it does not check. -/
theorem isPlain_code (group : Nat) : ∀ (e : TypedExpr) (start : Nat),
    ∀ op ∈ e.code group start, op.isPlain = true
  | .literal v, _, op, h => by
    obtain rfl := List.mem_singleton.mp h
    exact isPlain_push v
  | .column .., _, op, h => by
    obtain rfl := List.mem_singleton.mp h
    rfl
  | .aggregate .., _, op, h => by
    obtain rfl := List.mem_singleton.mp h
    rfl
  | .call _ args, start, op, h => by
    rcases List.mem_append.mp h with h | h
    · exact isPlain_codes group args start op h
    · obtain rfl := List.mem_singleton.mp h
      rfl
  | .unary u operand _, start, op, h => by
    rcases List.mem_append.mp h with h | h
    · exact isPlain_code group operand start op h
    · obtain rfl := List.mem_singleton.mp h
      cases u <;> rfl
  | .binary b left right ty, start, op, h => by
    have hl := isPlain_code group left
    have hr := isPlain_code group right
    simp only [code] at h
    split at h
    · simp only [List.mem_append, List.mem_singleton] at h
      rcases h with (h | h) | rfl
      · exact hl _ op h
      · exact hr _ op h
      · exact isPlain_operation b _ _
    · simp only [List.mem_append, List.mem_singleton] at h
      rcases h with (((h | rfl) | h) | rfl) | rfl
      · exact hl _ op h
      · exact isPlain_jump b ty _
      · exact hr _ op h
      · rfl
      · rfl

theorem isPlain_codes (group : Nat) : ∀ (es : List TypedExpr) (start : Nat),
    ∀ op ∈ codes group es start, op.isPlain = true
  | [], _, op, h => by cases h
  | e :: es, start, op, h => by
    rcases List.mem_append.mp h with h | h
    · exact isPlain_code group e start op h
    · exact isPlain_codes group es _ op h

end

end TypedExpr

open QueryCode

/-! ### Readers -/

namespace Machine

/-- The instruction at an address comes next, and goes on with the operands that it takes as `next` does on
the machine as it was before they were computed. -/
def Fetched (ctx : RunContext) (op : Instruction) (next : List Value → MachineAction Flow) (m : Machine) (a : Nat)
    (values : List Value) (m₁ : Machine) : Prop :=
  m₁.address = some a ∧ ∃ n, exec ctx op { m₁ with count := m₁.count + 1 } =
    next values { m with address := some a, count := n }

end Machine

namespace Reader

open Machine in
/-- Code of conditions and of operands does what the reader says, if functions are among `methods`. -/
structure Runs (r : Reader) (ctx : RunContext) (p : Procedure) (methods : BoundFunction → Prop) : Prop where
  test : ∀ {g : Sight} {m : Machine} {group start otherwise : Nat} {comment : Option String} {e : TypedExpr},
    g.methods = methods → e.WellTyped g → e.type = .boolean → (m.scene group).Fits g.bare →
    m.frame.isClear = true → p.HasCode start (testCode group (some e) otherwise comment start) →
    m.address = some start →
    Machine.Runs ctx p (Safe p) m (r.test (m.scene group) e) fun holds m₁ => ∃ n, m₁ = { m with
      address := some (if holds then start + testSize (some e) else otherwise), count := n }
  arguments : ∀ {g : Sight} {m : Machine} {group start : Nat} {types : List ColumnType} {es : List TypedExpr}
      {op : Instruction} {next : List Value → MachineAction Flow},
    g.methods = methods → TypedExpr.AllWellTyped g es → ColumnType.AcceptsAll types (es.map TypedExpr.type) →
    (m.scene group).Fits g.bare → m.frame.isClear = true → p.HasCode start (TypedExpr.codes group es start) →
    p.code[start + TypedExpr.codesSize es]? = some op → op.isPlain = true →
    exec ctx op = (onFrame (Frame.popValues types) >>= next) → m.address = some start →
    Machine.Runs ctx p (Safe p) m (r.arguments (m.scene group) types es)
      (Fetched ctx op next m (start + TypedExpr.codesSize es))
  values_eq : ∀ {g : Sight} {s : Scene} {es : List TypedExpr}, g.methods = methods →
    TypedExpr.AllWellTyped g es → s.Fits g.bare → r.values s es = r.arguments s (es.map TypedExpr.type) es
  types : ∀ {g : Sight} {s : Scene} {types : List ColumnType} {es : List TypedExpr} {values : List Value},
    g.methods = methods → TypedExpr.AllWellTyped g es → ColumnType.AcceptsAll types (es.map TypedExpr.type) →
    s.Fits g.bare → r.arguments s types es = .ok values → values.map Value.type = types
  test_congr : ∀ {g : Sight} {s t : Scene} {e : TypedExpr}, e.WellTyped g → s.Fits g.bare → Scene.Agree g s t →
    r.test s e = r.test t e
  arguments_congr : ∀ {g : Sight} {s t : Scene} {es : List TypedExpr}, TypedExpr.AllWellTyped g es → s.Fits g.bare →
    Scene.Agree g s t → ∀ types, r.arguments s types es = r.arguments t types es

/-- What is found on the stacks. -/
def popped : Reader where
  test s e := Frame.value (e.act s >>= fun _ => Frame.popBool)
  values s es := Frame.value (TypedExpr.actAll s es >>= fun _ => Frame.popValues (es.map TypedExpr.type))
  arguments s types es := Frame.value (TypedExpr.actAll s es >>= fun _ => Frame.popValues types)

end Reader

namespace Frame

theorem type_popValue {ty : ColumnType} {f f' : Frame} {v : Value} (h : popValue ty f = .ok v f') : v.type = ty := by
  have hnumber : ∀ {n : Number} {w : Value}, n.toType ty = .ok w → w.type = ty := by
    intro n w hw
    cases n <;> cases ty <;> cases hw <;> rfl
  unfold popValue at h
  cases hkind : ty.kind with
  | numeric =>
    simp only [hkind] at h
    obtain ⟨n, f₁, -, h⟩ := bind_eq_ok.mp h
    cases hn : n.toType ty with
    | ok w =>
      simp only [hn] at h
      cases h
      exact hnumber hn
    | error e =>
      simp only [hn] at h
      cases h
  | text =>
    simp only [hkind] at h
    obtain ⟨t, -, rfl⟩ := map_eq_ok.mp h
    cases ty <;> first | rfl | cases hkind
  | boolean =>
    simp only [hkind] at h
    obtain ⟨b, -, rfl⟩ := map_eq_ok.mp h
    cases ty <;> first | rfl | cases hkind

theorem types_mapM_popValue {types : List ColumnType} {f f' : Frame} {values : List Value}
    (h : types.mapM popValue f = .ok values f') : values.map Value.type = types := by
  induction types generalizing f values with
  | nil =>
    cases h
    rfl
  | cons ty types ih =>
    rw [List.mapM_cons] at h
    obtain ⟨v, f₁, hv, h⟩ := bind_eq_ok.mp h
    obtain ⟨vs, f₂, hvs, h⟩ := bind_eq_ok.mp h
    cases h
    rw [List.map_cons, type_popValue hv, ih hvs]

theorem types_popValues {types : List ColumnType} {f f' : Frame} {values : List Value}
    (h : popValues types f = .ok values f') : values.map Value.type = types := by
  obtain ⟨popped, f₁, hpopped, h⟩ := bind_eq_ok.mp h
  cases h
  rw [List.map_reverse, types_mapM_popValue hpopped, List.reverse_reverse]

end Frame

theorem Reader.types_popped {s : Scene} {types : List ColumnType} {es : List TypedExpr} {values : List Value}
    (h : popped.arguments s types es = .ok values) : values.map Value.type = types := by
  obtain ⟨⟨_, f⟩, houtcome, rfl⟩ := except_map_eq_ok.mp h
  rw [Frame.outcome_bind] at houtcome
  obtain ⟨⟨_, f₁⟩, -, houtcome⟩ := except_bind_eq_ok.mp houtcome
  unfold Frame.outcome at houtcome
  split at houtcome
  · cases houtcome
    exact Frame.types_popValues ‹_›
  · cases houtcome

theorem Reader.runs_popped {ctx : RunContext} (hlimit : ctx.limit = 0) (p : Procedure)
    (methods : BoundFunction → Prop) : popped.Runs ctx p methods where
  test := by
    rintro g m group start otherwise comment e - hw - hfits hclear hcode haddr
    have hmoves : Frame.Moves 0 (e.act (m.scene group) >>= fun _ => Frame.popBool) :=
      (e.moves_act (m.scene group) hw).bind (k := -1) fun _ => Frame.moves_popBool
    have hact := (Machine.runs_act hlimit e start m hw hfits hcode.left haddr).mono
      (fun _ => Machine.Within.safe hcode.left (e.length_code group start) (e.isPlain_code group start))
      fun _ _ _ => id
    have hop := hcode.right.head
    rw [TypedExpr.length_code] at hop
    have hrun : Machine.Runs ctx p (Machine.Safe p) m
        (m.frame.outcome (e.act (m.scene group) >>= fun _ => Frame.popBool)) fun r m₁ => ∃ n, m₁ = { m with
          frame := r.2, address := some (if !r.1 then otherwise else start + e.codeSize + 1), count := n } := by
      rw [Frame.outcome_bind]
      refine Machine.Runs.bind hact ?_
      rintro ⟨_, f₁⟩ m₁ - hacted
      have hdecision := Machine.runs_decision hlimit hacted.address hop
        (Machine.safe_of_isPlain hacted.address hop rfl) rfl (fun c => !c) rfl
      rw [hacted.frame] at hdecision
      refine hdecision.mono (fun _ => id) fun _ _ _ hm => ?_
      obtain ⟨_, n, _, rfl⟩ := hacted
      exact ⟨n + 1, hm⟩
    rw [hmoves.outcome_clear hclear] at hrun
    refine hrun.ofMap.mono (fun _ => id) ?_
    rintro holds _ - ⟨n, rfl⟩
    exact ⟨n, by cases holds <;> rfl⟩
  arguments := by
    rintro g m group start types es op next - hw haccepts hfits hclear hcode hop hplain hexec haddr
    have hlength : types.length = es.length := by simpa using haccepts.length_eq
    have hmoves : Frame.Moves 0 (TypedExpr.actAll (m.scene group) es >>= fun _ => Frame.popValues types) := by
      have h := (TypedExpr.moves_actAll (m.scene group) es hw).bind fun _ => Frame.moves_popValues types
      rwa [hlength, Int.add_right_neg] at h
    have hact := (Machine.runs_actAll hlimit es start m hw hfits hcode haddr).mono
      (fun _ => Machine.Within.safe hcode (TypedExpr.length_codes group es start)
        (TypedExpr.isPlain_codes group es start)) fun _ _ _ => id
    have hrun : Machine.Runs ctx p (Machine.Safe p) m
        (m.frame.outcome (TypedExpr.actAll (m.scene group) es >>= fun _ => Frame.popValues types)) fun r m₁ =>
          Machine.Fetched ctx op next { m with frame := r.2 } (start + TypedExpr.codesSize es) r.1 m₁ := by
      rw [Frame.outcome_bind]
      refine Machine.Runs.bind hact ?_
      rintro ⟨_, f₁⟩ m₁ - hacted
      have hsafe := Machine.safe_of_isPlain hacted.address hop hplain
      obtain ⟨_, n, _, rfl⟩ := hacted
      have hnext := congrFun hexec { m with
        frame := f₁, address := some (start + TypedExpr.codesSize es), count := n + 1 }
      simp only [bind_apply, Machine.onFrame] at hnext
      simp only [Frame.outcome]
      cases hpop : Frame.popValues types f₁ with
      | ok values f₂ =>
        rw [hpop] at hnext
        exact Machine.Runs.ok ⟨rfl, n + 1, hnext⟩
      | error e f₂ =>
        rw [hpop] at hnext
        exact Machine.Runs.fail hlimit rfl hop hsafe hnext
    rw [hmoves.outcome_clear hclear] at hrun
    exact hrun.ofMap
  values_eq _ _ _ := rfl
  types _ _ _ _ h := types_popped h
  test_congr hw hfits h := by simp only [popped, TypedExpr.act_congr h hfits hw]
  arguments_congr hw hfits h types := by simp only [popped, TypedExpr.actAll_congr h hfits hw]

theorem Scene.Fits.ofBare {s : Scene} {g : Sight} (h : s.Fits g.bare) (hmethods : ∀ f, g.methods f → f.Sound) :
    s.Fits g :=
  ⟨h.rows, h.slots, hmethods⟩

namespace Reader

section Exact

variable {g : Sight} {s : Scene} (hfits : s.Fits g)
include hfits

/-- Functions that return what they promise leave on the stacks what evaluation gives. -/
theorem test_popped {e : TypedExpr} (hw : e.WellTyped g) (hboolean : e.type = .boolean) :
    popped.test s e = exact.test s e := by
  simp only [popped, exact, Frame.value, Scene.test, Frame.outcome_pushed_bind (e.outcome_act hfits _ hw)]
  cases hv : e.eval s with
  | error e => rfl
  | ok v =>
    obtain ⟨b, rfl⟩ := Value.exists_boolean ((TypedExpr.type_eval hfits e v hw hv).trans hboolean)
    cases b <;> rfl

theorem arguments_popped {types : List ColumnType} {es : List TypedExpr} (hw : TypedExpr.AllWellTyped g es)
    (haccepts : ColumnType.AcceptsAll types (es.map TypedExpr.type)) :
    popped.arguments s types es = exact.arguments s types es := by
  simp only [popped, exact, Frame.value, Frame.outcome_pushed_bind (TypedExpr.outcome_actAll hfits es _ hw)]
  cases hvalues : TypedExpr.evalAll s es with
  | error e => rfl
  | ok values =>
    have htypes := TypedExpr.types_evalAll hfits es values hw hvalues
    have hpopped : ((Frame.init 0).pushAll values).outcome (Frame.popValues types) =
        .ok (List.zipWith Value.widen types values, .init 0) := by
      rw [Frame.outcome, Frame.popValues_pushAll (htypes ▸ haccepts)]
    exact congrArg (Prod.fst <$> ·) hpopped

end Exact

/-- Evaluation is what the code does if functions return what they promise. -/
theorem runs_exact {ctx : RunContext} (hlimit : ctx.limit = 0) (p : Procedure)
    {methods : BoundFunction → Prop} (hmethods : ∀ f, methods f → f.Sound) : exact.Runs ctx p methods where
  test := by
    rintro g m group start otherwise comment e rfl hw hboolean hfits hclear hcode haddr
    rw [← test_popped (hfits.ofBare hmethods) hw hboolean]
    exact (runs_popped hlimit p g.methods).test rfl hw hboolean hfits hclear hcode haddr
  arguments := by
    rintro g m group start types es op next rfl hw haccepts hfits hclear hcode hop hplain hexec haddr
    rw [← arguments_popped (hfits.ofBare hmethods) hw haccepts]
    exact (runs_popped hlimit p g.methods).arguments rfl hw haccepts hfits hclear hcode hop hplain hexec haddr
  values_eq := by
    rintro g s es rfl hw hfits
    simp only [exact]
    cases hvalues : TypedExpr.evalAll s es with
    | error e => rfl
    | ok values =>
      rw [← TypedExpr.types_evalAll (hfits.ofBare hmethods) es values hw hvalues]
      exact congrArg Except.ok (Value.zipWith_widen_types values).symm
  types := by
    rintro g s types es values rfl hw haccepts hfits h
    rw [← arguments_popped (hfits.ofBare hmethods) hw haccepts] at h
    exact (runs_popped hlimit p g.methods).types rfl hw haccepts hfits h
  test_congr hw _ h := by simp only [exact, Scene.test, TypedExpr.eval_congr h _ hw]
  arguments_congr hw _ h types := by simp only [exact, TypedExpr.evalAll_congr h _ hw]

variable {r : Reader} {ctx : RunContext} {p : Procedure} {g : Sight}

open Machine in
theorem Runs.passes (hr : r.Runs ctx p g.methods) {test : Option TypedExpr} (htest : g.Tests test) {m : Machine}
    {group start otherwise : Nat} {comment : Option String} (hfits : (m.scene group).Fits g.bare)
    (hclear : m.frame.isClear = true) (hcode : p.HasCode start (testCode group test otherwise comment start))
    (haddr : m.address = some start) :
    Machine.Runs ctx p (Safe p) m (r.passes (m.scene group) test) fun holds m₁ => ∃ n, m₁ = { m with
      address := some (if holds then start + testSize test else otherwise), count := n } := by
  cases test with
  | none => exact .ok ⟨m.count, by rw [if_pos rfl, testSize, Nat.add_zero, ← haddr]⟩
  | some e => exact hr.test rfl (htest e rfl).1 (htest e rfl).2 hfits hclear hcode haddr

theorem Runs.passes_congr {methods : BoundFunction → Prop} (hr : r.Runs ctx p methods) {test : Option TypedExpr}
    (htest : g.Tests test) {s t : Scene} (hfits : s.Fits g.bare) (h : Scene.Agree g s t) :
    r.passes s test = r.passes t test := by
  cases test with
  | none => rfl
  | some e => exact hr.test_congr (htest e rfl).1 hfits h

theorem Runs.values_congr (hr : r.Runs ctx p g.methods) {es : List TypedExpr} (hes : TypedExpr.AllWellTyped g es)
    {s t : Scene} (hfits : s.Fits g.bare) (h : Scene.Agree g s t) : r.values s es = r.values t es := by
  rw [hr.values_eq rfl hes hfits, hr.values_eq rfl hes (hfits.of_agree ⟨h.rows, h.slots⟩),
    hr.arguments_congr hes hfits h]

end Reader

end TabularQuery
