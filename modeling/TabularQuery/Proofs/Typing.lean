import Mathlib.Data.List.Forall2
import TabularQuery.Column
import TabularQuery.Proofs.Action
import TabularQuery.Proofs.Evaluation

/-!
Types of bound expressions. `WellTyped` says what binding establishes for every expression that it
makes: columns are there, calls get arguments that their parameters accept, operations have operands
of the right types. In a scene that fits, the value of a well-typed expression has the expression's
type, and depends only on what the expression may look at.
-/

namespace TabularQuery

theorem exists_of_forall₂ {α β : Type} {R : α → β → Prop} {xs : List α} {ys : List β}
    (h : List.Forall₂ R xs ys) {x : α} (hx : x ∈ xs) : ∃ y ∈ ys, R x y := by
  induction h with
  | nil => cases hx
  | cons hy _ ih =>
    rcases List.mem_cons.mp hx with rfl | hx
    · exact ⟨_, List.mem_cons_self, hy⟩
    · obtain ⟨y, hmem, hy⟩ := ih hx
      exact ⟨y, List.mem_cons_of_mem _ hmem, hy⟩

theorem getElem?_of_isPrefix {α : Type} {xs ys : List α} (h : xs <+: ys) {k : Nat} {x : α}
    (hk : xs[k]? = some x) : ys[k]? = some x := by
  obtain ⟨more, rfl⟩ := h
  rw [List.getElem?_append_left (List.getElem?_eq_some_iff.mp hk).1, hk]

/-- Values of exactly the types of some columns. -/
def RowFits (columns : List Column) (row : List Value) : Prop :=
  row.map Value.type = columns.map Column.type

/-- What an expression may look at: cursors with their columns, and accumulator slots; and what it
may call. -/
structure Sight where
  cursors : List (Nat × List Column)
  slots : List Nat
  methods : BoundFunction → Prop

/-- Handed arguments of its parameter types, the function gives a value of its result type. -/
def BoundFunction.Sound (f : BoundFunction) : Prop :=
  ∀ args v, args.map Value.type = f.params → f.function args = .ok v → v.type = f.result

/-- The scene has what may be looked at, and what may be called gives what it promises. -/
structure Scene.Fits (s : Scene) (g : Sight) : Prop where
  rows : ∀ c columns, (c, columns) ∈ g.cursors → ∃ row, s.row? c = some row ∧ RowFits columns row
  slots : ∀ k ∈ g.slots, k < s.accumulators.length
  methods : ∀ f, g.methods f → f.Sound

theorem Scene.Fits.column {s : Scene} {g : Sight} (h : s.Fits g) {cursor ordinal : Nat} {columns : List Column}
    {c : Column} (hmem : (cursor, columns) ∈ g.cursors) (hcol : columns[ordinal]? = some c) :
    ∃ row v, s.row? cursor = some row ∧ row[ordinal]? = some v ∧ v.type = c.type := by
  obtain ⟨row, hrow, hfits⟩ := h.rows cursor columns hmem
  have htype : (row.map Value.type)[ordinal]? = some c.type := by rw [hfits, List.getElem?_map, hcol]; rfl
  rw [List.getElem?_map] at htype
  obtain ⟨v, hv, hty⟩ := Option.map_eq_some_iff.mp htype
  exact ⟨row, v, hrow, hv, hty⟩

/-- All that is in sight of `g` is in sight of `g'`. -/
structure Sight.Within (g g' : Sight) : Prop where
  cursors : g.cursors ⊆ g'.cursors
  slots : g.slots ⊆ g'.slots
  methods : ∀ f, g.methods f → g'.methods f

/-- Two scenes do not differ in what may be looked at. -/
structure Scene.Agree (g : Sight) (s t : Scene) : Prop where
  rows : ∀ c columns, (c, columns) ∈ g.cursors → s.row? c = t.row? c
  slots : ∀ k ∈ g.slots, s.accumulators[k]? = t.accumulators[k]?

theorem Scene.Fits.of_agree {g : Sight} {s t : Scene} (hs : s.Fits g) (h : Scene.Agree g s t) : t.Fits g where
  rows c columns hmem := h.rows c columns hmem ▸ hs.rows c columns hmem
  slots k hk := by
    have hget := List.getElem?_eq_getElem (hs.slots k hk)
    rw [h.slots k hk] at hget
    exact (List.getElem?_eq_some_iff.mp hget).1
  methods := hs.methods

/-- Every argument type stands where its parameter accepts it. -/
def ColumnType.AcceptsAll (wanted given : List ColumnType) : Prop :=
  List.Forall₂ (fun w t => w.accepts t = true) wanted given

theorem ColumnType.acceptsAll_self (types : List ColumnType) : AcceptsAll types types := by
  induction types with
  | nil => exact .nil
  | cons ty types ih => exact .cons (accepts_self ty) ih

namespace TypedExpr

mutual

/-- The typing rules of bound expressions. -/
def WellTyped (g : Sight) : TypedExpr → Prop
  | .literal _ => True
  | .column cursor ordinal name ty =>
    ∃ columns, (cursor, columns) ∈ g.cursors ∧ columns[ordinal]? = some ⟨name, ty⟩
  | .call f args =>
    g.methods f ∧ ColumnType.AcceptsAll f.params (args.map type) ∧ AllWellTyped g args
  | .aggregate slot _ => slot ∈ g.slots
  | .binary op left right ty =>
    op.resultType? left.type right.type = some ty ∧ left.WellTyped g ∧ right.WellTyped g
  | .unary op operand ty => op.resultType? operand.type = some ty ∧ operand.WellTyped g

def AllWellTyped (g : Sight) : List TypedExpr → Prop
  | [] => True
  | e :: es => e.WellTyped g ∧ AllWellTyped g es

end

theorem allWellTyped_iff {g : Sight} {es : List TypedExpr} :
    AllWellTyped g es ↔ ∀ e ∈ es, e.WellTyped g := by
  induction es with
  | nil => simp [AllWellTyped]
  | cons e es ih => simp [AllWellTyped, ih]

end TypedExpr

/-! ### Types of results -/

namespace Value

@[simp] theorem number?_toValue (n : Number) : n.toValue.number? = some n := by cases n <;> rfl

theorem exists_number {v : Value} (h : v.type.isNumeric = true) : ∃ n : Number, v = n.toValue := by
  cases v with
  | integer n => exact ⟨.integer n, rfl⟩
  | real x => exact ⟨.real x, rfl⟩
  | text s => cases h
  | boolean b => cases h

theorem exists_text {v : Value} (h : v.type = .text) : ∃ s, v = .text s := by
  cases v <;> simp_all [type]

theorem exists_boolean {v : Value} (h : v.type = .boolean) : ∃ b, v = .boolean b := by
  cases v <;> simp_all [type]

theorem type_coerce {ty : ColumnType} {v w : Value} (h : v.coerce ty = .ok w) : w.type = ty := by
  cases v with
  | integer n => cases ty <;> simp_all [coerce] <;> subst h <;> rfl
  | _ =>
    simp only [coerce] at h
    split at h
    · cases h; assumption
    · cases h

theorem type_widen {wanted : ColumnType} {v : Value} (h : wanted.accepts v.type = true) :
    (v.widen wanted).type = wanted := by
  cases v <;> cases wanted <;> simp_all [widen, type, ColumnType.accepts]

theorem types_widen {wanted : List ColumnType} {values : List Value}
    (h : ColumnType.AcceptsAll wanted (values.map type)) :
    (List.zipWith widen wanted values).map type = wanted := by
  induction values generalizing wanted with
  | nil => cases h; rfl
  | cons v values ih =>
    cases h with
    | cons hv hvs => simp [type_widen hv, ih hvs]

end Value

namespace Number

/-- Arithmetic on integers gives integers, and on anything else reals. -/
def resultType (x y : Number) : ColumnType :=
  if x.toValue.type = .integer ∧ y.toValue.type = .integer then .integer else .real

theorem type_ofInt {n : Int} {z : Number} (h : ofInt n = .ok z) : z.toValue.type = .integer := by
  unfold ofInt at h
  split at h
  · cases h; rfl
  · cases h

theorem type_onNumbers {op : BinaryOp} {f : Number → Number → Except Error Number}
    (hf : op.onNumbers? = some f) {x y z : Number} (h : f x y = .ok z) :
    z.toValue.type = resultType x y := by
  have hrem : ∀ a b : Int64, rem (.integer a) (.integer b) = .ok z → z.toValue.type = .integer := by
    intro a b h
    simp only [rem] at h
    split at h
    · cases h
    · obtain ⟨_, _, h⟩ := except_bind_eq_ok.mp h
      exact type_ofInt h
  have hdiv : ∀ a b : Int64, div (.integer a) (.integer b) = .ok z → z.toValue.type = .integer := by
    intro a b h
    simp only [div] at h
    split at h
    · cases h
    · exact type_ofInt h
  cases op <;> cases hf <;> cases x <;> cases y <;>
    first
      | exact hrem _ _ h
      | exact hdiv _ _ h
      | exact type_ofInt h
      | (cases h; rfl)

theorem type_neg {x z : Number} (h : x.neg = .ok z) : z.toValue.type = x.toValue.type := by
  cases x with
  | integer n => exact type_ofInt h
  | real x => cases h; rfl

end Number

namespace BinaryOp

theorem resultType?_cases {op : BinaryOp} {l r ty : ColumnType} (h : op.resultType? l r = some ty) :
    (op.isArithmetic = true ∧ l.isNumeric = true ∧ r.isNumeric = true ∧
      ty = if l = .integer ∧ r = .integer then .integer else .real) ∨
    (op = .add ∧ l = .text ∧ r = .text ∧ ty = .text) ∨
    (op.isComparison = true ∧ l.kind = r.kind ∧ ty = .boolean) ∨
    (op = .like ∧ l = .text ∧ r = .text ∧ ty = .boolean) ∨
    ((op = .and ∨ op = .or) ∧ l = .boolean ∧ r = .boolean ∧ ty = .boolean) := by
  unfold resultType? at h
  split at h
  · simp_all
  · split at h
    · simp_all
    · split at h
      · simp_all
      · split at h
        · simp_all
        · split at h
          · simp_all
          · cases h

theorem resultType?_logical {op : BinaryOp} {b : Bool} {l r ty : ColumnType}
    (hop : op = .and ∧ b = false ∨ op = .or ∧ b = true) (h : op.resultType? l r = some ty) :
    l = .boolean ∧ r = .boolean ∧ ty = .boolean := by
  rcases hop with ⟨rfl, _⟩ | ⟨rfl, _⟩ <;>
    simpa [resultType?, isArithmetic, isComparison, and_assoc, eq_comm] using h

theorem exists_logical {op : BinaryOp} (h : ¬ (op ≠ .and ∧ op ≠ .or)) :
    ∃ b, op = .and ∧ b = false ∨ op = .or ∧ b = true := by
  cases op <;> simp at h <;> simp

theorem exists_onNumbers {op : BinaryOp} (h : op.isArithmetic = true) : ∃ f, op.onNumbers? = some f := by
  cases op <;> simp_all [isArithmetic, onNumbers?]

theorem apply_numbers {op : BinaryOp} {f : Number → Number → Except Error Number}
    (hf : op.onNumbers? = some f) (x y : Number) :
    op.apply x.toValue y.toValue = Number.toValue <$> f x y := by
  cases op <;> cases hf <;> cases x <;> cases y <;> rfl

theorem apply_comparison {op : BinaryOp} (h : op.isComparison = true) (l r : Value) :
    op.apply l r = .ok (.boolean ((l.compare r).any op.holds)) := by
  cases op <;> first | rfl | cases h

theorem type_apply {op : BinaryOp} (hop : op ≠ .and ∧ op ≠ .or) {l r v : Value} {ty : ColumnType}
    (hty : op.resultType? l.type r.type = some ty) (h : op.apply l r = .ok v) : v.type = ty := by
  obtain ⟨ha, hl, hr, rfl⟩ | ⟨rfl, hl, hr, rfl⟩ | ⟨hc, _, rfl⟩ | ⟨rfl, hl, hr, rfl⟩ | ⟨hlog, _⟩ :=
    resultType?_cases hty
  · obtain ⟨x, rfl⟩ := Value.exists_number hl
    obtain ⟨y, rfl⟩ := Value.exists_number hr
    obtain ⟨f, hf⟩ := exists_onNumbers ha
    rw [apply_numbers hf] at h
    cases hxy : f x y with
    | ok z =>
      rw [hxy] at h
      cases h
      exact Number.type_onNumbers hf hxy
    | error e => rw [hxy] at h; cases h
  · obtain ⟨a, rfl⟩ := Value.exists_text hl
    obtain ⟨b, rfl⟩ := Value.exists_text hr
    cases h; rfl
  · rw [apply_comparison hc] at h
    cases h; rfl
  · obtain ⟨a, rfl⟩ := Value.exists_text hl
    obtain ⟨b, rfl⟩ := Value.exists_text hr
    cases h; rfl
  · rcases hlog with rfl | rfl <;> simp at hop

end BinaryOp

theorem UnaryOp.type_apply {op : UnaryOp} {v w : Value} {ty : ColumnType}
    (hty : op.resultType? v.type = some ty) (h : op.apply v = .ok w) : w.type = ty := by
  cases op with
  | neg =>
    simp only [resultType?] at hty
    split at hty
    · cases hty
      obtain ⟨x, rfl⟩ := Value.exists_number (by assumption)
      cases hx : x.neg with
      | ok z => simp_all [apply]; cases h; exact Number.type_neg hx
      | error e => simp_all [apply]
    · cases hty
  | not =>
    simp only [resultType?] at hty
    split at hty
    · cases hty
      obtain ⟨b, rfl⟩ := Value.exists_boolean (by assumption)
      cases h; rfl
    · cases hty

namespace TypedExpr

mutual

/-- The value of a well-typed expression has the expression's type. -/
theorem type_eval {g : Sight} {s : Scene} (hs : s.Fits g) :
    ∀ (e : TypedExpr) (v : Value), e.WellTyped g → e.eval s = .ok v → v.type = e.type
  | .literal _, v, _, h => by cases h; rfl
  | .column cursor ordinal name ty, v, hw, h => by
    obtain ⟨columns, hmem, hcol⟩ := hw
    obtain ⟨row, w, hrow, hw, hty⟩ := hs.column hmem hcol
    simp only [eval, Scene.column, hrow, hw] at h
    cases h
    exact hty
  | .call f args, v, hw, h => by
    obtain ⟨hmethod, hfit, hargs⟩ := hw
    obtain ⟨values, hvalues, hf⟩ := except_bind_eq_ok.mp h
    have htypes := types_evalAll hs args values hargs hvalues
    exact hs.methods f hmethod _ v (Value.types_widen (by rwa [htypes])) hf
  | .aggregate slot ty, v, _, h => by
    simp only [eval, Scene.aggregate] at h
    split at h
    · cases h
    · exact Value.type_coerce h
  | .binary op left right ty, v, hw, h => by
    obtain ⟨hty, hl, hr⟩ := hw
    -- AND and OR give the value of an operand or the truth value that decides them.
    by_cases hop : op ≠ .and ∧ op ≠ .or
    · rw [eval_binary hop] at h
      obtain ⟨a, ha, h⟩ := except_bind_eq_ok.mp h
      obtain ⟨b, hb, h⟩ := except_bind_eq_ok.mp h
      refine BinaryOp.type_apply hop ?_ h
      rwa [type_eval hs left a hl ha, type_eval hs right b hr hb]
    · obtain ⟨b, hb⟩ := BinaryOp.exists_logical hop
      obtain ⟨_, hrt, rfl⟩ := BinaryOp.resultType?_logical hb hty
      rw [eval_logical hb] at h
      obtain ⟨a, ha, h⟩ := except_bind_eq_ok.mp h
      split at h
      · cases h; rfl
      · exact (type_eval hs right v hr h).trans hrt
  | .unary op operand ty, v, hw, h => by
    obtain ⟨a, ha, h⟩ := except_bind_eq_ok.mp h
    refine UnaryOp.type_apply ?_ h
    rw [type_eval hs operand a hw.2 ha]
    exact hw.1

theorem types_evalAll {g : Sight} {s : Scene} (hs : s.Fits g) :
    ∀ (es : List TypedExpr) (values : List Value), AllWellTyped g es → evalAll s es = .ok values →
      values.map Value.type = es.map TypedExpr.type
  | [], values, _, h => by cases h; rfl
  | e :: es, values, hw, h => by
    obtain ⟨v, hv, h⟩ := except_bind_eq_ok.mp h
    obtain ⟨vs, hvs, h⟩ := except_bind_eq_ok.mp h
    cases h
    simp [type_eval hs e v hw.1 hv, types_evalAll hs es vs hw.2 hvs]

end

mutual

/-- A well-typed expression does not see more than it may look at. -/
theorem eval_congr {g : Sight} {s t : Scene} (h : Scene.Agree g s t) :
    ∀ e : TypedExpr, e.WellTyped g → e.eval s = e.eval t
  | .literal _, _ => rfl
  | .column cursor _ _ _, hw => by
    obtain ⟨columns, hmem, _⟩ := hw
    simp only [eval, Scene.column, h.rows cursor columns hmem]
  | .call f args, hw => by simp only [eval, evalAll_congr h args hw.2.2]
  | .aggregate slot ty, hw => by simp only [eval, Scene.aggregate, h.slots slot hw]
  | .binary op left right ty, hw => by
    have hl := eval_congr h left hw.2.1
    have hr := eval_congr h right hw.2.2
    cases op <;> simp only [eval, hl, hr]
  | .unary op operand ty, hw => by simp only [eval, eval_congr h operand hw.2]

theorem evalAll_congr {g : Sight} {s t : Scene} (h : Scene.Agree g s t) :
    ∀ es : List TypedExpr, AllWellTyped g es → evalAll s es = evalAll t es
  | [], _ => rfl
  | e :: es, hw => by simp only [evalAll, eval_congr h e hw.1, evalAll_congr h es hw.2]

end

mutual

theorem WellTyped.mono {g g' : Sight} (h : g.Within g') :
    ∀ e : TypedExpr, e.WellTyped g → e.WellTyped g'
  | .literal _, _ => trivial
  | .column .., ⟨columns, hmem, hcol⟩ => ⟨columns, h.cursors hmem, hcol⟩
  | .call f args, ⟨hf, hfit, hargs⟩ => ⟨h.methods f hf, hfit, AllWellTyped.mono h args hargs⟩
  | .aggregate .., hw => h.slots hw
  | .binary _ left right _, ⟨hty, hl, hr⟩ => ⟨hty, WellTyped.mono h left hl, WellTyped.mono h right hr⟩
  | .unary _ operand _, ⟨hty, ho⟩ => ⟨hty, WellTyped.mono h operand ho⟩

theorem AllWellTyped.mono {g g' : Sight} (h : g.Within g') :
    ∀ es : List TypedExpr, AllWellTyped g es → AllWellTyped g' es
  | [], _ => trivial
  | e :: es, ⟨he, hes⟩ => ⟨WellTyped.mono h e he, AllWellTyped.mono h es hes⟩

end

end TypedExpr

end TabularQuery
