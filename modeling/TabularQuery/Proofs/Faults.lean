import TabularQuery.Proofs.Enumeration
import TabularQuery.Source.Row

/-!
How evaluation can fail. Data can make it fail in any query: a sum overflows, a divisor is zero, a row has a value of
the wrong type. Other failures are those of the functions that are called and of aggregates that are read under another
type than their own. What a well-typed expression cannot do in a scene that fits is to ask for what is not there, or to
meet a value of the wrong kind; and so it is with everything that is put together from such expressions.
-/

namespace TabularQuery

/-- Failures of the machine itself, which no generated program should have: a wrong kind of operand,
an empty stack, a row that does not fit its table, and everything internal. -/
def Error.isFault (e : Error) : Bool :=
  match e.code with
  | .internal | .kindMismatch | .stackUnderflow | .rowShape => true
  | _ => false

/-- Failures that any program can have: its numbers, its sources, its limit and its stop flag can bring them about. -/
def Error.isOrdinary (e : Error) : Bool :=
  match e.code with
  | .arithmetic | .source | .instructionLimit | .cancelled => true
  | _ => false

/-- The failures that are taken into account: the ordinary ones at least. -/
structure Failures where
  Has : Error → Prop
  ordinary : ∀ e, e.isOrdinary = true → Has e

/-- All failures but faults. -/
def Failures.faultless : Failures where
  Has e := e.isFault = false
  ordinary e h := by
    unfold Error.isOrdinary at h
    unfold Error.isFault
    split at h <;> simp_all

/-- A result with a property, or one of the failures. -/
structure Keeps (F : Failures) (I : α → Prop) (r : Except Error α) : Prop where
  value : ∀ a, r = .ok a → I a
  failure : ∀ e, r = .error e → F.Has e

namespace Keeps

variable {α β : Type} {F : Failures} {I I' : α → Prop} {J : β → Prop} {r : Except Error α}

theorem ok {a : α} (h : I a) : Keeps F I (.ok a) where
  value b hb := by
    cases hb
    exact h
  failure := nofun

theorem error {e : Error} (h : F.Has e) : Keeps F I (.error e) where
  value := nofun
  failure e' he := by
    cases he
    exact h

theorem mono (h : Keeps F I r) (hI : ∀ a, I a → I' a) : Keeps F I' r :=
  ⟨fun a ha => hI a (h.value a ha), h.failure⟩

theorem bind {f : α → Except Error β} (h : Keeps F I r) (hf : ∀ a, I a → Keeps F J (f a)) :
    Keeps F J (r >>= f) := by
  cases r with
  | error e => exact .error (h.failure e rfl)
  | ok a => exact hf a (h.value a rfl)

theorem map {f : α → β} (h : Keeps F I r) (hf : ∀ a, I a → J (f a)) : Keeps F J (f <$> r) := by
  cases r with
  | error e => exact .error (h.failure e rfl)
  | ok a => exact .ok (hf a (h.value a rfl))

end Keeps

variable {F : Failures}

/-! ### Values -/

namespace BoundFunction

/-- The function keeps to its signature, and has no other failures. -/
def RegularIn (F : Failures) (f : BoundFunction) : Prop :=
  ∀ args, args.map Value.type = f.params → Keeps F (fun v => v.type = f.result) (f.function args)

theorem RegularIn.sound {f : BoundFunction} (h : f.RegularIn F) : f.Sound :=
  fun args v hargs hv => (h args hargs).value v hv

/-- The function keeps to its signature, and its failures are no faults. -/
def Regular (f : BoundFunction) : Prop := f.RegularIn .faultless

theorem Regular.sound {f : BoundFunction} (h : f.Regular) : f.Sound := RegularIn.sound h

end BoundFunction

theorem Value.keeps_coerce (v : Value) {ty : ColumnType}
    (h : ty.accepts v.type = false → F.Has (.valueMismatch ty v.type)) : Keeps F (fun w => w.type = ty) (v.coerce ty) where
  value _ hw := type_coerce hw
  failure e he := by
    cases v with
    | integer n => cases ty <;> cases he <;> exact h rfl
    | _ =>
      simp only [coerce] at he
      split at he
      · cases he
      · rename_i hne
        cases he
        refine h ?_
        cases ty <;> first | rfl | exact absurd rfl hne

namespace Number

theorem keeps_ofInt (n : Int) : Keeps F (fun _ => True) (ofInt n) := by
  unfold ofInt
  split
  · exact .ok trivial
  · exact .error (F.ordinary _ rfl)

theorem keeps_onNumbers {op : BinaryOp} {f : Number → Number → Except Error Number}
    (hf : op.onNumbers? = some f) (x y : Number) : Keeps F (fun _ => True) (f x y) := by
  have hdiv : ∀ a b : Int64, Keeps F (fun _ => True) (div (.integer a) (.integer b)) := by
    intro a b
    simp only [div]
    split
    · exact .error (F.ordinary _ rfl)
    · exact keeps_ofInt _
  have hrem : ∀ a b : Int64, Keeps F (fun _ => True) (rem (.integer a) (.integer b)) := by
    intro a b
    simp only [rem]
    split
    · exact .error (F.ordinary _ rfl)
    · exact (keeps_ofInt _).bind fun _ _ => keeps_ofInt _
  cases op <;> cases hf <;> cases x <;> cases y <;>
    first
      | exact hdiv _ _
      | exact hrem _ _
      | exact keeps_ofInt _
      | exact .ok trivial

theorem keeps_neg (x : Number) : Keeps F (fun _ => True) x.neg := by
  cases x with
  | integer n => exact keeps_ofInt _
  | real x => exact .ok trivial

end Number

theorem BinaryOp.keeps_apply {op : BinaryOp} (hop : op ≠ .and ∧ op ≠ .or) {l r : Value} {ty : ColumnType}
    (hty : op.resultType? l.type r.type = some ty) : Keeps F (fun v => v.type = ty) (op.apply l r) where
  value _ h := type_apply hop hty h
  failure e h := by
    obtain ⟨ha, hl, hr, -⟩ | ⟨rfl, hl, hr, -⟩ | ⟨hc, -⟩ | ⟨rfl, hl, hr, -⟩ | ⟨hlog, -⟩ :=
      resultType?_cases hty
    · obtain ⟨x, rfl⟩ := Value.exists_number hl
      obtain ⟨y, rfl⟩ := Value.exists_number hr
      obtain ⟨f, hf⟩ := exists_onNumbers ha
      rw [apply_numbers hf] at h
      exact ((Number.keeps_onNumbers hf x y).map (J := fun _ => True) fun _ _ => trivial).failure e h
    · obtain ⟨a, rfl⟩ := Value.exists_text hl
      obtain ⟨b, rfl⟩ := Value.exists_text hr
      cases h
    · rw [apply_comparison hc] at h
      cases h
    · obtain ⟨a, rfl⟩ := Value.exists_text hl
      obtain ⟨b, rfl⟩ := Value.exists_text hr
      cases h
    · rcases hlog with rfl | rfl <;> simp at hop

theorem UnaryOp.keeps_apply {op : UnaryOp} {v : Value} {ty : ColumnType}
    (hty : op.resultType? v.type = some ty) : Keeps F (fun w => w.type = ty) (op.apply v) where
  value _ h := type_apply hty h
  failure e h := by
    cases op with
    | neg =>
      simp only [resultType?] at hty
      split at hty
      · obtain ⟨x, rfl⟩ := Value.exists_number (by assumption)
        have happly : apply .neg x.toValue = Number.toValue <$> x.neg := by cases x <;> rfl
        rw [happly] at h
        exact ((Number.keeps_neg x).map (J := fun _ => True) fun _ _ => trivial).failure e h
      · cases hty
    | not =>
      simp only [resultType?] at hty
      split at hty
      · obtain ⟨b, rfl⟩ := Value.exists_boolean (by assumption)
        cases h
      · cases hty

/-! ### Accumulators -/

/-- The aggregate whose state this is. -/
def Accumulator.aggregate : Accumulator → Aggregate
  | .count _ => .count
  | .sum _ => .sum
  | .average .. => .average
  | .minimum _ => .minimum
  | .maximum _ => .maximum
  | .values _ => .values

@[simp] theorem Aggregate.aggregate_fresh (a : Aggregate) : a.fresh.aggregate = a := by
  cases a <;> rfl

theorem Accumulator.aggregate_accumulate {args : List Value} {state after : Accumulator}
    (h : state.accumulate args = .ok after) : after.aggregate = state.aggregate := by
  cases state with
  | count n =>
    cases h
    rfl
  | _ =>
    obtain ⟨_, _, h⟩ := except_bind_eq_ok.mp h
    cases h
    rfl

/-- The type of an aggregate's results. -/
def Aggregate.resultType : Aggregate → ColumnType
  | .count => .integer
  | .sum | .average | .minimum | .maximum => .real
  | .values => .text

theorem Accumulator.type_result (state : Accumulator) : state.result.type = state.aggregate.resultType := by
  cases state <;> rfl

/-- Handed values of its parameter types, the accumulator goes on with a state of its own. -/
def AccumulatorMethod.Regular (a : AccumulatorMethod) : Prop :=
  ∀ (args : List Value) (state : Accumulator), args.map Value.type = a.params →
    state.aggregate = a.aggregate → ∃ after, state.accumulate args = .ok after

/-! ### Expressions -/

namespace TypedExpr

mutual

/-- The functions that are called have no other failures; and where an aggregate is read under a type that does not accept
its own, this mismatch is one of the failures. -/
def FailsIn (F : Failures) (slots : List AggregateSlot) : TypedExpr → Prop
  | .literal _ | .column .. => True
  | .call f args => f.RegularIn F ∧ AllFailIn F slots args
  | .aggregate slot ty => ∀ a, slots[slot]? = some a → ty.accepts a.accumulator.aggregate.resultType = false →
      F.Has (.valueMismatch ty a.accumulator.aggregate.resultType)
  | .binary _ left right _ => left.FailsIn F slots ∧ right.FailsIn F slots
  | .unary _ operand _ => operand.FailsIn F slots

def AllFailIn (F : Failures) (slots : List AggregateSlot) : List TypedExpr → Prop
  | [] => True
  | e :: es => e.FailsIn F slots ∧ AllFailIn F slots es

end

variable {slots : List AggregateSlot}

theorem allFailIn_iff {es : List TypedExpr} : AllFailIn F slots es ↔ ∀ e ∈ es, e.FailsIn F slots := by
  induction es with
  | nil => simp [AllFailIn]
  | cons e es ih => rw [AllFailIn, ih, List.forall_mem_cons]

mutual

/-- Functions that can be called at all may be regular, and mismatches be among the failures. -/
theorem failsIn_of_wellTyped {g : Sight} (hmethods : ∀ f, g.methods f → f.RegularIn F)
    (hmismatch : ∀ wanted got, F.Has (.valueMismatch wanted got)) :
    ∀ e : TypedExpr, e.WellTyped g → e.FailsIn F slots
  | .literal _, _ => trivial
  | .column .., _ => trivial
  | .call f args, hw => ⟨hmethods f hw.1, allFailIn_of_wellTyped hmethods hmismatch args hw.2.2⟩
  | .aggregate .., _ => fun _ _ _ => hmismatch _ _
  | .binary _ left right _, hw =>
    ⟨failsIn_of_wellTyped hmethods hmismatch left hw.2.1, failsIn_of_wellTyped hmethods hmismatch right hw.2.2⟩
  | .unary _ operand _, hw => failsIn_of_wellTyped hmethods hmismatch operand hw.2

theorem allFailIn_of_wellTyped {g : Sight} (hmethods : ∀ f, g.methods f → f.RegularIn F)
    (hmismatch : ∀ wanted got, F.Has (.valueMismatch wanted got)) :
    ∀ es : List TypedExpr, AllWellTyped g es → AllFailIn F slots es
  | [], _ => trivial
  | e :: es, hw =>
    ⟨failsIn_of_wellTyped hmethods hmismatch e hw.1, allFailIn_of_wellTyped hmethods hmismatch es hw.2⟩

end

end TypedExpr

/-- The accumulators in sight are states of the aggregates of their slots. -/
def Scene.Tallies (s : Scene) (g : Sight) (slots : List AggregateSlot) : Prop :=
  ∀ k ∈ g.slots, ∃ a state, slots[k]? = some a ∧ s.accumulators[k]? = some state ∧
    state.aggregate = a.accumulator.aggregate

theorem Scene.tallies_of_nil {s : Scene} {g : Sight} {slots : List AggregateSlot} (h : g.slots = []) :
    s.Tallies g slots := by
  intro k hk
  rw [h] at hk
  cases hk

namespace TypedExpr

mutual

/-- A well-typed expression gives a value of its type, or has one of the failures. -/
theorem keeps_eval {g : Sight} {s : Scene} {slots : List AggregateSlot} (hs : s.Fits g) (hslots : s.Tallies g slots) :
    ∀ e : TypedExpr, e.WellTyped g → e.FailsIn F slots → Keeps F (fun v => v.type = e.type) (e.eval s)
  | .literal _, _, _ => .ok rfl
  | .column cursor ordinal name ty, hw, _ => by
    obtain ⟨columns, hmem, hcol⟩ := hw
    obtain ⟨row, v, hrow, hv, hty⟩ := hs.column hmem hcol
    simp only [eval, Scene.column, hrow, hv]
    exact .ok hty
  | .call f args, hw, hf => by
    obtain ⟨-, hfit, hargs⟩ := hw
    refine (keeps_evalAll hs hslots args hargs hf.2).bind fun values htypes => ?_
    exact hf.1 _ (Value.types_widen (by rwa [htypes]))
  | .aggregate slot ty, hw, hf => by
    obtain ⟨a, state, ha, hget, hsame⟩ := hslots slot hw
    simp only [eval, Scene.aggregate, hget]
    refine Value.keeps_coerce _ ?_
    rw [state.type_result, hsame]
    exact hf a ha
  | .binary op left right ty, hw, hf => by
    obtain ⟨hty, hl, hr⟩ := hw
    have hleft := keeps_eval hs hslots left hl hf.1
    have hright := keeps_eval hs hslots right hr hf.2
    by_cases hop : op ≠ .and ∧ op ≠ .or
    · rw [eval_binary hop]
      refine hleft.bind fun a ha => hright.bind fun b hb => BinaryOp.keeps_apply hop ?_
      rwa [ha, hb]
    · obtain ⟨b, hb⟩ := BinaryOp.exists_logical hop
      obtain ⟨_, hrt, rfl⟩ := BinaryOp.resultType?_logical hb hty
      rw [eval_logical hb]
      refine hleft.bind fun a _ => ?_
      split
      · exact .ok rfl
      · exact hright.mono fun v hv => hv.trans hrt
  | .unary op operand ty, hw, hf => by
    refine (keeps_eval hs hslots operand hw.2 hf).bind fun a ha => UnaryOp.keeps_apply ?_
    rw [ha]
    exact hw.1

theorem keeps_evalAll {g : Sight} {s : Scene} {slots : List AggregateSlot} (hs : s.Fits g) (hslots : s.Tallies g slots) :
    ∀ es : List TypedExpr, AllWellTyped g es → AllFailIn F slots es →
      Keeps F (fun values => values.map Value.type = es.map type) (evalAll s es)
  | [], _, _ => .ok rfl
  | e :: es, hw, hf => by
    refine (keeps_eval hs hslots e hw.1 hf.1).bind fun v hv => ?_
    refine (keeps_evalAll hs hslots es hw.2 hf.2).bind fun vs hvs => .ok ?_
    rw [List.map_cons, List.map_cons, hv, hvs]

end

end TypedExpr

/-! ### Queries -/

section Queries

variable {α σ : Type} {g : Sight} {s : Scene} {slots : List AggregateSlot} {I : α → Prop}

theorem keeps_passes (hs : s.Fits g) (hslots : s.Tallies g slots) {test : Option TypedExpr} (htest : g.Tests test)
    (hfails : ∀ e ∈ test, e.FailsIn F slots) : Keeps F (fun _ => True) (Reader.exact.passes s test) := by
  cases test with
  | none => exact .ok trivial
  | some e => exact (e.keeps_eval hs hslots (htest e rfl).1 (hfails e rfl)).map fun _ _ => trivial

theorem keeps_guarded {test : Except Error Bool} {rest : List (Except Error α)}
    (htest : Keeps F (fun _ => True) test) (hrest : ∀ x ∈ rest, Keeps F I x) :
    ∀ x ∈ guarded test rest, Keeps F I x := by
  intro x hx
  cases test with
  | error e =>
    obtain rfl := List.mem_singleton.mp hx
    exact .error (htest.failure e rfl)
  | ok holds =>
    cases holds with
    | true => exact hrest x hx
    | false => cases hx

theorem keeps_eachRow {rows : Delivery} {J : List Value → Prop}
    {inside : List Value → List (Except Error α)} (hrows : ∀ x ∈ rows, Keeps F J x)
    (hinside : ∀ row, J row → ∀ x ∈ inside row, Keeps F I x) : ∀ x ∈ eachRow rows inside, Keeps F I x := by
  intro x hx
  obtain ⟨item, hitem, hx⟩ := List.mem_flatMap.mp hx
  cases item with
  | error e =>
    obtain rfl := List.mem_singleton.mp hx
    exact .error ((hrows _ hitem).failure e rfl)
  | ok row => exact hinside row ((hrows _ hitem).value row rfl) x hx

theorem SourceRow.keeps_materialize (columns : List Column) (row : SourceRow) :
    Keeps F (RowFits columns) (row.materialize columns) := by
  unfold materialize
  induction columns with
  | nil => exact .ok rfl
  | cons c columns ih =>
    rw [List.mapM_cons]
    refine Keeps.bind (I := fun v => v.type = c.type) ?_ fun v hv => ih.bind fun rest hrest => .ok ?_
    · split
      · exact .error (F.ordinary _ rfl)
      · split
        · exact .ok (Value.type_coerce (by assumption))
        · exact .error (F.ordinary _ rfl)
    · have htypes : rest.map Value.type = columns.map Column.type := hrest
      rw [RowFits, List.map_cons, List.map_cons, hv, htypes]

/-- Opening the source and reading its rows has one of the failures, or the rows fit its columns. -/
def BoundSource.Supplies (F : Failures) (b : BoundSource) (opened : Except Error Delivery) : Prop :=
  Keeps F (fun rows => ∀ x ∈ rows, Keeps F (RowFits b.columns) x) opened

/-- The loops, where no aggregates are in sight, visit scenes that fit all sources. -/
theorem keeps_visits (hslots : g.slots = []) {filter : Option TypedExpr} (hfilter : ∀ e ∈ filter, e.FailsIn F slots)
    (loops : List (BoundSource × Except Error Delivery))
    (hnested : g.Nested filter (loops.map Prod.fst)) (hloops : ∀ l ∈ loops, l.1.Supplies F l.2)
    (hons : ∀ l ∈ loops, ∀ e ∈ l.1.on, e.FailsIn F slots) (hs : s.Fits g) :
    ∀ x ∈ Reader.exact.visits filter loops s, Keeps F (fun s' => s'.Fits ((loops.map Prod.fst).foldl Sight.add g)) x := by
  induction loops generalizing g s with
  | nil =>
    refine keeps_guarded (keeps_passes hs (Scene.tallies_of_nil hslots) hnested hfilter) fun x hx => ?_
    obtain rfl := List.mem_singleton.mp hx
    exact .ok hs
  | cons l loops ih =>
    obtain ⟨source, opened⟩ := l
    obtain ⟨hnew, hon, hnested⟩ := hnested
    have hsupplies : source.Supplies F opened := hloops _ List.mem_cons_self
    cases opened with
    | error e =>
      intro x hx
      obtain rfl := List.mem_singleton.mp hx
      exact .error (hsupplies.failure e rfl)
    | ok rows =>
      refine keeps_eachRow (hsupplies.value rows rfl) fun row hrow => ?_
      have hput := hs.put hnew hrow
      exact keeps_guarded
        (keeps_passes hput (Scene.tallies_of_nil hslots) hon (hons _ List.mem_cons_self))
        (ih hslots hnested (fun l hl => hloops l (List.mem_cons_of_mem _ hl))
          (fun l hl => hons l (List.mem_cons_of_mem _ hl)) hput)

theorem keeps_consume {J : σ → Prop} {body : α → σ → Except Error (Progress σ)}
    (hbody : ∀ a st, I a → J st → Keeps F (fun r => J r.state) (body a st)) {events : List (Except Error α)}
    (hevents : ∀ x ∈ events, Keeps F I x) {st : σ} (hst : J st) :
    Keeps F (fun r => J r.state) (consume body events st) := by
  induction events generalizing st with
  | nil => exact .ok hst
  | cons x events ih =>
    have hx := hevents x List.mem_cons_self
    cases x with
    | error e => exact .error (hx.failure e rfl)
    | ok a =>
      refine (hbody a st (hx.value a rfl) hst).bind fun r hr => ?_
      cases r with
      | more st' => exact ih (fun y hy => hevents y (List.mem_cons_of_mem _ hy)) hr
      | done st' => exact .ok hr

/-- So it is with all expressions of the query. -/
structure BoundQuery.FailsIn (F : Failures) (q : BoundQuery) : Prop where
  filter : ∀ e ∈ q.filter, e.FailsIn F q.slots
  conditions : ∀ b ∈ q.sources, ∀ e ∈ b.on, e.FailsIn F q.slots
  keys : ∀ g ∈ q.grouping, TypedExpr.AllFailIn F q.slots g.keys
  having : ∀ g ∈ q.grouping, ∀ e ∈ g.having, e.FailsIn F q.slots
  fields : TypedExpr.AllFailIn F q.slots (q.fields.map BoundField.expr)
  args : ∀ a ∈ q.slots, TypedExpr.AllFailIn F q.slots a.args

theorem keeps_emit {fields : List TypedExpr} (hs : s.Fits g) (hslots : s.Tallies g slots)
    (hfields : TypedExpr.AllWellTyped g fields) (hfails : TypedExpr.AllFailIn F slots fields) (t : Tally) :
    Keeps F (fun _ => True) (Reader.exact.emit fields s t) := by
  unfold Reader.emit
  split
  · exact .ok trivial
  · split
    · exact .ok trivial
    · exact (TypedExpr.keeps_evalAll hs hslots fields hfields hfails).bind fun _ _ => .ok trivial

theorem keeps_written {q : BoundQuery} (hfields : TypedExpr.AllWellTyped g (q.fields.map BoundField.expr))
    (hfails : q.FailsIn F) {events : List (Except Error Scene)}
    (hevents : ∀ x ∈ events, Keeps F (fun s => s.Fits g ∧ s.Tallies g q.slots) x) (t : Table) :
    Keeps F (fun _ => True) (Reader.exact.written q events t) :=
  (keeps_consume (J := fun _ => True) (fun _ t hs _ => keeps_emit hs.1 hs.2 hfields hfails.fields t) hevents trivial).map
    fun _ _ => trivial

end Queries

end TabularQuery
