import Mathlib.Logic.Relation
import TabularQuery.Plan.Bind
import TabularQuery.Proofs.Typing

/-!
Binding of expressions. What it does to the state is little: it notes schemas and gives new aggregates
a slot of the innermost query. What it makes is well-typed under the sources that are visible, and
every call runs a method that one of their catalogs offers.
-/

namespace TabularQuery

/-! ### Look-up of methods -/

/-- Some scalar method or property of the catalog runs as `f`. -/
def Catalog.Offers (c : Catalog) (f : BoundFunction) : Prop := ∃ m ∈ c.methods, m.bound? = some f

theorem ColumnType.acceptsAll_of_zip {wanted given : List ColumnType}
    (hlen : wanted.length = given.length)
    (h : ((wanted.zip given).all fun (w, t) => w.accepts t) = true) : AcceptsAll wanted given := by
  induction wanted generalizing given with
  | nil =>
    cases given with
    | nil => exact .nil
    | cons t given => cases hlen
  | cons w wanted ih =>
    cases given with
    | nil => cases hlen
    | cons t given =>
      simp only [List.zip_cons_cons, List.all_cons, Bool.and_eq_true] at h
      exact .cons h.1 (ih (by simpa using hlen) h.2)

variable {α : Type} {name : String} {i : Nat} {c : Column} {e : SourceEntry}

theorem Catalog.selectOverload_eq_some {params : α → List ColumnType}
    {candidates : List α} {args : List ColumnType} {c : α}
    (h : selectOverload name params candidates args = .ok (some c)) :
    c ∈ candidates ∧ ColumnType.AcceptsAll (params c) args := by
  unfold selectOverload at h
  split at h
  · rename_i exactly hfind
    cases h
    have heq : params c = args := by simpa using List.find?_some hfind
    exact ⟨List.mem_of_find?_eq_some hfind, heq ▸ ColumnType.acceptsAll_self _⟩
  · dsimp only at h
    split at h
    · cases h
    · rename_i only hfilter
      cases h
      have hmem := List.mem_filter.mp (hfilter ▸ List.mem_singleton_self c)
      simp only [Bool.and_eq_true, decide_eq_true_eq] at hmem
      exact ⟨hmem.1, ColumnType.acceptsAll_of_zip hmem.2.1 hmem.2.2⟩
    · cases h

theorem findSomeM?_eq_some {β : Type} {f : α → Except Error (Option β)} {xs : List α} {b : β}
    (h : xs.findSomeM? f = .ok (some b)) : ∃ a ∈ xs, f a = .ok (some b) := by
  induction xs with
  | nil => cases h
  | cons a xs ih =>
    rw [List.findSomeM?] at h
    obtain ⟨r, hr, h⟩ := except_bind_eq_ok.mp h
    cases r with
    | some c =>
      cases h
      exact ⟨a, List.mem_cons_self, hr⟩
    | none =>
      obtain ⟨a', hmem, ha'⟩ := ih h
      exact ⟨a', List.mem_cons_of_mem a hmem, ha'⟩

/-- An aggregate of the catalog reads the accumulator as a value of the type. -/
def Catalog.Reads (c : Catalog) (ty : ColumnType) (a : AccumulatorMethod) : Prop :=
  a ∈ c.accumulators ∧ ∃ m ∈ c.methods, m.isAggregate = true ∧ m.result = ty ∧
    sameName a.name (m.accumulator?.getD "") = true

namespace SourceList

/-- Some catalog in sight offers the function. -/
def Offers (s : SourceList) (f : BoundFunction) : Prop := ∃ c ∈ s.catalogs, c.2.Offers f

/-- Some catalog in sight has the accumulator. -/
def Accumulates (s : SourceList) (a : AccumulatorMethod) : Prop := ∃ c ∈ s.catalogs, a ∈ c.2.accumulators

variable {s : SourceList} {name : String} {types : List ColumnType} {library : Option String} {f : BoundFunction}

theorem scalar?_eq_some (h : s.scalar? name types = .ok (some (library, f))) :
    s.Offers f ∧ ColumnType.AcceptsAll f.params types ∧ Catalog.sameName f.name name = true := by
  obtain ⟨c, hc, h⟩ := findSomeM?_eq_some h
  obtain ⟨found, hfound, h⟩ := except_bind_eq_ok.mp h
  have h : (found.bind Method.bound?).map (c.1, ·) = some (library, f) := Except.ok.inj h
  obtain ⟨f', hf', hpair⟩ := Option.map_eq_some_iff.mp h
  cases hpair
  obtain ⟨m, rfl, hm⟩ := Option.bind_eq_some_iff.mp hf'
  obtain ⟨hmem, haccepts⟩ := Catalog.selectOverload_eq_some hfound
  rw [List.mem_filter] at hmem
  obtain ⟨hmem, hscalar⟩ := hmem
  refine ⟨⟨c, hc, m, (List.mem_filter.mp hmem).1, hm⟩, ?_⟩
  have hmethod : f.params = m.params ∧ f.name = m.name := by
    unfold Method.isScalar at hscalar
    unfold Method.bound? at hm
    split at hm
    · cases hm
      exact ⟨rfl, rfl⟩
    · simp_all
    · cases hm
  rw [hmethod.1, hmethod.2]
  exact ⟨haccepts, (List.mem_filter.mp hmem).2⟩

theorem property?_eq_some (h : s.property? name = some (library, f)) : s.Offers f ∧ f.params = [] := by
  obtain ⟨c, hc, h⟩ := List.exists_of_findSome?_eq_some h
  obtain ⟨m, hm, h⟩ := Option.bind_eq_some_iff.mp h
  obtain ⟨f', hf', h⟩ := Option.bind_eq_some_iff.mp h
  cases h
  have hmem := List.mem_of_find?_eq_some hm
  have hproperty := List.find?_some hm
  refine ⟨⟨c, hc, m, (List.mem_filter.mp hmem).1, hf'⟩, ?_⟩
  unfold Method.isProperty at hproperty
  unfold Method.bound? at hf'
  split at hf'
  · simp_all
  · cases hf'
    rfl
  · cases hf'

theorem aggregate?_eq_some {ty : ColumnType} {a : AccumulatorMethod}
    (h : s.aggregate? name types = .ok (some (library, ty, a))) :
    (∃ c ∈ s.catalogs, c.2.Reads ty a) ∧ ColumnType.AcceptsAll a.params types := by
  unfold aggregate? at h
  split at h
  · cases h
  · obtain ⟨c, hc, h⟩ := findSomeM?_eq_some h
    obtain ⟨found, hfound, h⟩ := except_bind_eq_ok.mp h
    cases found with
    | none => cases h
    | some read =>
      have hread := List.mem_filter.mp (Catalog.selectOverload_eq_some hfound).1
      obtain ⟨a', ha', h⟩ := except_bind_eq_ok.mp h
      cases h
      obtain ⟨chosen, hchosen, h⟩ := except_bind_eq_ok.mp ha'
      cases chosen with
      | none => cases h
      | some a'' =>
        cases h
        obtain ⟨hmem, haccepts⟩ := Catalog.selectOverload_eq_some hchosen
        obtain ⟨hmem, hname⟩ := List.mem_filter.mp hmem
        exact ⟨⟨c, hc, hmem, read, (List.mem_filter.mp hread.1).1, hread.2, rfl, hname⟩, haccepts⟩

theorem catalogs_eq (hs : s ≠ []) :
    s.catalogs = s.map fun e => (e.library, e.catalog) := by
  cases s with
  | nil => exact absurd rfl hs
  | cons e s => rfl

theorem catalogs_subset {t : SourceList} (hs : s ≠ []) (h : s ⊆ t) : s.catalogs ⊆ t.catalogs := by
  have ht : t ≠ [] := by
    rintro rfl
    exact hs (List.subset_nil.mp h)
  rw [catalogs_eq hs, catalogs_eq ht]
  exact List.map_subset _ h

/-- What expressions over the sources may look at and call. -/
def sight (s : SourceList) (slots : List Nat) : Sight where
  cursors := s.map fun e => (e.cursor, e.columns)
  slots := slots
  methods := s.Offers

end SourceList

/-! ### What binding an expression does to the state -/

namespace ScopeStack

/-- The aggregates of the innermost query; there are none outside of queries. -/
def aggregates (s : ScopeStack) : List AggregateSlot :=
  match s.slots with
  | .ok slots => slots
  | .error _ => []

variable {s s' : ScopeStack} {a : AggregateSlot}

theorem visibleFrames_addSlot (h : s.addSlot a = .ok s') :
    s'.visibleFrames.map ScopeFrame.symbols = s.visibleFrames.map ScopeFrame.symbols := by
  induction s generalizing s' with
  | nil => cases h
  | cons f rest ih =>
    rw [addSlot] at h
    split at h
    · cases h
      simp_all [visibleFrames]
    · obtain ⟨rest', hrest, h⟩ := except_bind_eq_ok.mp h
      cases h
      simp_all [visibleFrames]

theorem entries_addSlot (h : s.addSlot a = .ok s') : s'.entries = s.entries := by
  have hlists : ∀ frames : List ScopeFrame, frames.flatMap ScopeFrame.sourceLists =
      (frames.map ScopeFrame.symbols).flatMap fun symbols =>
        (ScopeFrame.mk .query symbols []).sourceLists := by
    intro frames
    rw [List.flatMap_map]
    rfl
  rw [entries, visible, hlists, visibleFrames_addSlot h, ← hlists]
  rfl

theorem aggregates_addSlot (h : s.addSlot a = .ok s') : s'.aggregates = s.aggregates ++ [a] := by
  induction s generalizing s' with
  | nil => cases h
  | cons f rest ih =>
    rw [addSlot] at h
    split at h
    · cases h
      simp_all [aggregates, slots]
    · obtain ⟨rest', hrest, h⟩ := except_bind_eq_ok.mp h
      cases h
      have := ih hrest
      simp_all [aggregates, slots]

end ScopeStack

/-- What a row hands to an accumulator: values of the types that it asks for, without aggregates. -/
structure AggregateSlot.WellTyped (entries : SourceList) (a : AggregateSlot) : Prop where
  args : TypedExpr.AllWellTyped (entries.sight []) a.args
  accepts : ColumnType.AcceptsAll a.accumulator.params (a.args.map TypedExpr.type)
  offered : entries.Accumulates a.accumulator

namespace BindState

/-- What an expression that was bound up to here may look at and call. -/
def sight (s : BindState) : Sight :=
  s.scopes.entries.sight (s.scopes.aggregates.map AggregateSlot.slot)

/-- The two things that binding an expression can do. -/
inductive Step (clause : Clause) : BindState → BindState → Prop
  | note (s : BindState) (libraries : List String) : Step clause s { s with libraries }
  | slot (s : BindState) (a : AggregateSlot) {scopes : ScopeStack}
      (allowed : clause.allowsAggregates = true) (added : s.scopes.addSlot a = .ok scopes)
      (number : a.slot = s.scopes.aggregates.length) (typed : a.WellTyped s.scopes.entries) :
      Step clause s { s with scopes }

abbrev Extends (clause : Clause) : BindState → BindState → Prop := Relation.ReflTransGen (Step clause)

/-- Slots are numbered from zero on, and what they are handed is well-typed. -/
def SlotsInOrder (s : BindState) : Prop :=
  ∀ (i : Nat) (a : AggregateSlot), s.scopes.aggregates[i]? = some a → a.slot = i ∧ a.WellTyped s.scopes.entries

namespace Extends

variable {clause : Clause} {s s' : BindState}

theorem entries (h : Extends clause s s') : s'.scopes.entries = s.scopes.entries := by
  induction h with
  | refl => rfl
  | tail _ hstep ih =>
    cases hstep with
    | note => exact ih
    | slot a _ added => exact (ScopeStack.entries_addSlot added).trans ih

theorem cursors (h : Extends clause s s') : s'.cursors = s.cursors := by
  induction h with
  | refl => rfl
  | tail _ hstep ih => cases hstep <;> exact ih

theorem aliases (h : Extends clause s s') : s'.aliases = s.aliases := by
  induction h with
  | refl => rfl
  | tail _ hstep ih => cases hstep <;> exact ih

theorem scopes_eq (h : Extends clause s s') (hclause : clause.allowsAggregates = false) :
    s'.scopes = s.scopes := by
  induction h with
  | refl => rfl
  | tail _ hstep ih =>
    cases hstep with
    | note => exact ih
    | slot _ allowed => rw [hclause] at allowed; cases allowed

theorem queryFrame (h : Extends clause s s') {f : ScopeFrame} {rest : ScopeStack}
    (hkind : f.kind = .query) (hs : s.scopes = f :: rest) :
    ∃ more, s'.scopes = { f with slots := f.slots ++ more } :: rest := by
  induction h with
  | refl => exact ⟨[], by simpa using hs⟩
  | tail _ hstep ih =>
    obtain ⟨more, ih⟩ := ih
    cases hstep with
    | note => exact ⟨more, ih⟩
    | slot a _ added =>
      rw [ih, ScopeStack.addSlot, if_pos hkind] at added
      cases added
      exact ⟨more ++ [a], by simp⟩

theorem aggregates (h : Extends clause s s') : s.scopes.aggregates <+: s'.scopes.aggregates := by
  induction h with
  | refl => exact List.prefix_rfl
  | tail _ hstep ih =>
    cases hstep with
    | note => exact ih
    | slot a _ added =>
      rw [ScopeStack.aggregates_addSlot added]
      exact ih.trans (List.prefix_append _ _)

theorem sight (h : Extends clause s s') : s.sight.Within s'.sight where
  cursors := by
    rw [BindState.sight, BindState.sight, h.entries]
    exact List.Subset.refl _
  slots := List.map_subset _ h.aggregates.subset
  methods f hf := by rwa [BindState.sight, h.entries]

theorem slotsInOrder (h : Extends clause s s') (hs : s.SlotsInOrder) : s'.SlotsInOrder := by
  induction h with
  | refl => exact hs
  | tail _ hstep ih =>
    cases hstep with
    | note => exact ih
    | slot a _ added number typed =>
      intro i b hb
      rw [ScopeStack.aggregates_addSlot added] at hb
      rw [ScopeStack.entries_addSlot added]
      by_cases hi : i < a.slot
      · rw [List.getElem?_append_left (number ▸ hi)] at hb
        exact ih i b hb
      · rw [List.getElem?_append_right (by omega), List.getElem?_singleton] at hb
        split at hb
        · cases hb
          exact ⟨by omega, typed⟩
        · cases hb

end Extends

end BindState

/-! ### What binding succeeds with -/

namespace SourceList

/-- The sources whose catalogs a call looks through: the one under its alias, or all that are in sight. -/
def searched? (visible : SourceList) : Option String → Option SourceList
  | some a => (visible.entry? a).map fun e => [e]
  | none => some visible

end SourceList

namespace TypedExpr

/-- Is the operand one of the items? Asked as a chain of `=` joined by `or`, after the tests that were made `before`. -/
def isAmong (operand : TypedExpr) (before : Option TypedExpr) : List TypedExpr → Option TypedExpr
  | [] => before
  | e :: es =>
    let test := binary .eq operand e .boolean
    isAmong operand (some (match before with
      | some earlier => .binary .or earlier test .boolean
      | none => test)) es

end TypedExpr

namespace Bind

variable {clause : Clause} {s s' : BindState} {e : TypedExpr} {x y : Expr} {aliasName : Option String} {name text : String}

theorem entry_eq_ok {visible : SourceList} {a : String} {found : SourceEntry} (h : visible.entry a = .ok found) :
    visible.entry? a = some found := by
  unfold SourceList.entry at h
  split at h
  · cases h
    assumption
  · cases h

theorem candidates_eq_ok {sources : SourceList} (h : candidates aliasName s = .ok sources s') :
    s.scopes.entries.searched? aliasName = some sources ∧ s = s' := by
  obtain ⟨visible, _, hvisible, h⟩ := bind_eq_ok.mp h
  obtain ⟨rfl, rfl⟩ : s.scopes.entries = visible ∧ s = _ := by simpa [Bind.entries] using hvisible
  cases aliasName with
  | none =>
    obtain ⟨rfl, rfl⟩ := pure_eq_ok.mp h
    exact ⟨rfl, rfl⟩
  | some a =>
    obtain ⟨found, hfound, h⟩ := ofExcept_bind_eq_ok.mp h
    obtain ⟨rfl, rfl⟩ := pure_eq_ok.mp h
    exact ⟨by rw [SourceList.searched?, entry_eq_ok hfound, Option.map_some], rfl⟩

/-- A name without an alias: a column if one source in sight has it, a property if none has, and otherwise an error. -/
theorem column_none_apply (name : String) (s : BindState) :
    column none name s = match s.scopes.entries.columns name with
      | [(e, i, c)] => .ok (e.columnExpr i c) s
      | [] => match s.scopes.entries.property? name with
        | some (library, f) => useFunction library f [] s
        | none => .error (.columnUnknown name) s
      | found => .error (.columnAmbiguous name (found.map fun (e, _) => e.aliasName)) s := by
  simp only [column, Bind.entries, bind_apply, get_apply, pure_apply]
  cases s.scopes.entries.columns name with
  | nil => cases s.scopes.entries.property? name <;> rfl
  | cons first others => cases others <;> rfl

theorem column_some_eq_ok {a : String} (h : column (some a) name s = .ok e s') :
    s = s' ∧ ∃ entry i c, s.scopes.entries.entry? a = some entry ∧ entry.column? name = some (i, c) ∧ e = entry.columnExpr i c := by
  obtain ⟨entries, s₁, hentries, h⟩ := bind_eq_ok.mp h
  obtain ⟨rfl, rfl⟩ : s.scopes.entries = entries ∧ s = s₁ := by simpa [Bind.entries] using hentries
  obtain ⟨entry, hentry, h⟩ := ofExcept_bind_eq_ok.mp h
  cases hc : entry.column? name with
  | none =>
    rw [hc] at h
    cases h
  | some found =>
    rw [hc] at h
    obtain ⟨rfl, rfl⟩ := pure_eq_ok.mp h
    exact ⟨rfl, entry, found.1, found.2, entry_eq_ok hentry, hc, rfl⟩

/-- A slot of the text is there, or a new one is put after the others. -/
theorem slotFor_eq_ok {accumulator : AccumulatorMethod} {args : List TypedExpr} {k : Nat}
    (h : slotFor text accumulator args s = .ok k s') :
    (s = s' ∧ ∃ a ∈ s.scopes.aggregates, a.text = text ∧ a.slot = k) ∨
    (k = s.scopes.aggregates.length ∧ (∀ a ∈ s.scopes.aggregates, a.text ≠ text) ∧
      ∃ scopes, s.scopes.addSlot ⟨k, text, accumulator, args⟩ = .ok scopes ∧ s' = { s with scopes }) := by
  replace h := eq_ok_of_bind h rfl
  obtain ⟨slots, hslots, h⟩ := ofExcept_bind_eq_ok.mp h
  rw [show s.scopes.aggregates = slots by rw [ScopeStack.aggregates, hslots]]
  cases hfind : slots.find? fun a => a.text = text with
  | some a =>
    rw [hfind] at h
    obtain ⟨rfl, rfl⟩ := pure_eq_ok.mp h
    exact .inl ⟨rfl, a, List.mem_of_find?_eq_some hfind, by simpa using List.find?_some hfind, rfl⟩
  | none =>
    rw [hfind] at h
    obtain ⟨scopes, hadd, h⟩ := ofExcept_bind_eq_ok.mp h
    replace h := eq_ok_of_bind h rfl
    obtain ⟨rfl, rfl⟩ := pure_eq_ok.mp h
    exact .inr ⟨rfl, by simpa using hfind, scopes, hadd, rfl⟩

/-- Both operands are bound, the left one first, and the operator takes values of their types. -/
theorem binary_eq_ok {op : BinaryOp} (h : expr clause (.binary op x y) s = .ok e s') :
    ∃ l s₁ r ty, expr clause x s = .ok l s₁ ∧ expr clause y s₁ = .ok r s' ∧ op.resultType? l.type r.type = some ty ∧
      e = .binary op l r ty := by
  obtain ⟨l, s₁, hl, h⟩ := bind_eq_ok.mp h
  obtain ⟨r, s₂, hr, h⟩ := bind_eq_ok.mp h
  cases hty : op.resultType? l.type r.type with
  | none =>
    rw [hty] at h
    cases h
  | some ty =>
    rw [hty] at h
    obtain ⟨rfl, rfl⟩ := pure_eq_ok.mp h
    exact ⟨l, s₁, r, ty, hl, hr, hty, rfl⟩

theorem unary_eq_ok {op : UnaryOp} (h : expr clause (.unary op x) s = .ok e s') :
    ∃ o ty, expr clause x s = .ok o s' ∧ op.resultType? o.type = some ty ∧ e = .unary op o ty := by
  obtain ⟨o, s₁, ho, h⟩ := bind_eq_ok.mp h
  cases hty : op.resultType? o.type with
  | none =>
    rw [hty] at h
    cases h
  | some ty =>
    rw [hty] at h
    obtain ⟨rfl, rfl⟩ := pure_eq_ok.mp h
    exact ⟨o, ty, ho, hty, rfl⟩

theorem membership_eq_ok_iff {operand : TypedExpr} {items : List Expr} {before test : Option TypedExpr} :
    membership clause text operand before items s = .ok test s' ↔ ∃ es, exprs clause items s = .ok es s' ∧
      (∀ e ∈ es, e.type.kind = operand.type.kind) ∧ operand.isAmong before es = test := by
  induction items generalizing before s with
  | nil =>
    constructor
    · intro h
      obtain ⟨rfl, rfl⟩ := pure_eq_ok.mp h
      exact ⟨[], rfl, List.forall_mem_nil _, rfl⟩
    · rintro ⟨es, hes, -, rfl⟩
      obtain ⟨rfl, rfl⟩ := pure_eq_ok.mp hes
      rfl
  | cons item items ih =>
    constructor
    · intro h
      obtain ⟨e, s₁, he, h⟩ := bind_eq_ok.mp h
      by_cases hkind : e.type.kind = operand.type.kind
      · simp only [ne_eq, hkind, not_true_eq_false, ↓reduceIte] at h
        obtain ⟨es, hes, hkinds, hamong⟩ := ih.mp h
        refine ⟨e :: es, ?_, List.forall_mem_cons.mpr ⟨hkind, hkinds⟩, hamong⟩
        exact bind_eq_ok.mpr ⟨e, s₁, he, bind_eq_ok.mpr ⟨es, s', hes, rfl⟩⟩
      · simp only [ne_eq, hkind, not_false_eq_true, ↓reduceIte] at h
        cases h
    · rintro ⟨all, hall, hkinds, hamong⟩
      obtain ⟨e, s₁, he, hall⟩ := bind_eq_ok.mp hall
      obtain ⟨es, hes, rfl⟩ := bind_pure_eq_ok.mp hall
      obtain ⟨hkind, hkinds⟩ := List.forall_mem_cons.mp hkinds
      refine bind_eq_ok.mpr ⟨e, s₁, he, ?_⟩
      simp only [ne_eq, hkind, not_true_eq_false, ↓reduceIte]
      exact ih.mpr ⟨es, hes, hkinds, hamong⟩

/-- A test is bound exactly where its operand and its items are, all of one kind. -/
theorem inList_eq_ok_iff {items : List Expr} : expr clause (.inList x items) s = .ok e s' ↔ ∃ o s₁ es,
    expr clause x s = .ok o s₁ ∧ exprs clause items s₁ = .ok es s' ∧ (∀ e ∈ es, e.type.kind = o.type.kind) ∧
      o.isAmong none es = some e := by
  constructor
  · intro h
    obtain ⟨o, s₁, ho, h⟩ := bind_eq_ok.mp h
    obtain ⟨test, s₂, htest, h⟩ := bind_eq_ok.mp h
    cases test with
    | none => cases h
    | some test =>
      obtain ⟨rfl, rfl⟩ := pure_eq_ok.mp h
      obtain ⟨es, hes, hkinds, hamong⟩ := membership_eq_ok_iff.mp htest
      exact ⟨o, s₁, es, ho, hes, hkinds, hamong⟩
  · rintro ⟨o, s₁, es, ho, hes, hkinds, hamong⟩
    exact bind_eq_ok.mpr ⟨o, s₁, ho, bind_eq_ok.mpr
      ⟨some e, s', membership_eq_ok_iff.mpr ⟨es, hes, hkinds, hamong⟩, rfl⟩⟩

theorem condition_eq_ok (h : condition clause x s = .ok e s') : expr clause x s = .ok e s' ∧ e.type = .boolean := by
  obtain ⟨e', s₁, he, h⟩ := bind_eq_ok.mp h
  by_cases hty : e'.type = .boolean
  · simp only [hty, ne_eq, not_true_eq_false, ↓reduceIte] at h
    obtain ⟨rfl, rfl⟩ := pure_eq_ok.mp h
    exact ⟨he, hty⟩
  · simp only [ne_eq, hty, not_false_eq_true, ↓reduceIte] at h
    cases h

end Bind

/-! ### Bound expressions are well-typed -/

theorem Column.find?_eq_some {columns : List Column}
    (h : Column.find? columns name = some (i, c)) : columns[i]? = some c := by
  obtain ⟨⟨c', i'⟩, hmem, h⟩ := List.exists_of_findSome?_eq_some h
  dsimp only at h
  split at h
  · cases h
    exact (List.mk_mem_zipIdx_iff_getElem?).mp hmem
  · cases h

theorem SourceEntry.columnExpr_wellTyped {entries : SourceList} (he : e ∈ entries) (hc : e.columns[i]? = some c) (slots : List Nat) :
    (e.columnExpr i c).WellTyped (entries.sight slots) :=
  ⟨e.columns, List.mem_map.mpr ⟨e, he, rfl⟩, hc⟩

mutual

theorem TypedExpr.WellTyped.withoutSlots {g : Sight} :
    ∀ e : TypedExpr, e.WellTyped g → e.hasAggregate = false → e.WellTyped { g with slots := [] }
  | .literal _, _, _ => trivial
  | .column .., hw, _ => hw
  | .call _ args, ⟨hf, hfit, hargs⟩, h => ⟨hf, hfit, AllWellTyped.withoutSlots args hargs h⟩
  | .aggregate .., _, h => by cases h
  | .binary _ left right _, ⟨hty, hl, hr⟩, h => by
    simp only [hasAggregate, Bool.or_eq_false_iff] at h
    exact ⟨hty, WellTyped.withoutSlots left hl h.1, WellTyped.withoutSlots right hr h.2⟩
  | .unary _ operand _, ⟨hty, ho⟩, h => ⟨hty, WellTyped.withoutSlots operand ho h⟩

theorem TypedExpr.AllWellTyped.withoutSlots {g : Sight} :
    ∀ es : List TypedExpr, AllWellTyped g es → anyAggregate es = false →
      AllWellTyped { g with slots := [] } es
  | [], _, _ => trivial
  | e :: es, ⟨he, hes⟩, h => by
    simp only [anyAggregate, Bool.or_eq_false_iff] at h
    exact ⟨WellTyped.withoutSlots e he h.1, AllWellTyped.withoutSlots es hes h.2⟩

end

namespace Bind

open BindState

variable {clause : Clause} {s s' : BindState} {e : TypedExpr}

variable {library aliasName : Option String} {f : BoundFunction} {args : List TypedExpr} {name text : String}
variable {accumulator : AccumulatorMethod} {ty : ColumnType}

theorem noteLibraries_ok {u : PUnit}
    (h : library.forM noteLibrary s = .ok u s') : s.Extends clause s' := by
  cases library with
  | none =>
    cases h
    exact .refl
  | some name =>
    cases h
    exact .single (.note s _)

theorem useFunction_ok (h : useFunction library f args s = .ok e s') (hf : s.scopes.entries.Offers f)
    (haccepts : ColumnType.AcceptsAll f.params (args.map TypedExpr.type))
    (hargs : TypedExpr.AllWellTyped s.sight args) :
    s.Extends clause s' ∧ e.WellTyped s'.sight := by
  obtain ⟨_, hnote, rfl⟩ := bind_pure_eq_ok.mp h
  have hext : s.Extends clause s' := noteLibraries_ok hnote
  exact ⟨hext, hext.sight.methods f hf, haccepts, .mono hext.sight args hargs⟩

theorem property_ok {entries : SourceList} (hfound : entries.property? name = some (library, f))
    (hentries : entries.catalogs ⊆ s.scopes.entries.catalogs)
    (h : useFunction library f [] s = .ok e s') : s.Extends clause s' ∧ e.WellTyped s'.sight := by
  obtain ⟨⟨c, hc, hf⟩, hparams⟩ := SourceList.property?_eq_some hfound
  refine useFunction_ok h ⟨c, hentries hc, hf⟩ ?_ trivial
  rw [hparams]
  exact .nil

theorem column_ok (h : column aliasName name s = .ok e s') : s.Extends clause s' ∧ e.WellTyped s'.sight := by
  cases aliasName with
  | some a =>
    obtain ⟨rfl, entry, i, c, hentry, hc, rfl⟩ := column_some_eq_ok h
    exact ⟨.refl, SourceEntry.columnExpr_wellTyped (List.mem_of_find?_eq_some hentry) (Column.find?_eq_some hc) _⟩
  | none =>
    rw [column_none_apply] at h
    split at h
    · rename_i entry i c hone
      cases h
      obtain ⟨entry', hmem, h⟩ := List.mem_filterMap.mp (hone ▸ List.mem_singleton_self (entry, i, c))
      obtain ⟨⟨i', c'⟩, hc, h⟩ := Option.map_eq_some_iff.mp h
      cases h
      exact ⟨.refl, SourceEntry.columnExpr_wellTyped hmem (Column.find?_eq_some hc) _⟩
    · split at h
      · rename_i hproperty
        exact property_ok hproperty (List.Subset.refl _) h
      · cases h
    · cases h

theorem slotFor_ok {k : Nat} (h : slotFor text accumulator args s = .ok k s') (allowed : clause.allowsAggregates = true)
    (typed : ∀ k, AggregateSlot.WellTyped s.scopes.entries ⟨k, text, accumulator, args⟩) :
    s.Extends clause s' ∧ k ∈ s'.sight.slots := by
  obtain ⟨rfl, a, ha, -, rfl⟩ | ⟨rfl, -, scopes, hadd, rfl⟩ := slotFor_eq_ok h
  · exact ⟨.refl, List.mem_map_of_mem ha⟩
  · refine ⟨.single (.slot s _ allowed hadd rfl (typed _)), ?_⟩
    rw [BindState.sight, ScopeStack.aggregates_addSlot hadd]
    simp [SourceList.sight]

theorem candidates_ok {sources : SourceList} (h : candidates aliasName s = .ok sources s') :
    sources.catalogs ⊆ s.scopes.entries.catalogs ∧ s = s' := by
  obtain ⟨hsearched, rfl⟩ := candidates_eq_ok h
  refine ⟨?_, rfl⟩
  cases aliasName with
  | none =>
    cases hsearched
    exact List.Subset.refl _
  | some a =>
    obtain ⟨entry, hentry, rfl⟩ := Option.map_eq_some_iff.mp hsearched
    refine SourceList.catalogs_subset nofun fun e he => ?_
    obtain rfl := List.mem_singleton.mp he
    exact List.mem_of_find?_eq_some hentry

theorem useAggregate_eq_ok (h : useAggregate clause text library ty accumulator args s = .ok e s') :
    clause.allowsAggregates = true ∧ TypedExpr.anyAggregate args = false ∧
      ∃ u s₁ k, library.forM noteLibrary s = .ok u s₁ ∧ slotFor text accumulator args s₁ = .ok k s' ∧ e = .aggregate k ty := by
  unfold useAggregate at h
  cases hallowed : clause.allowsAggregates with
  | false =>
    rw [hallowed] at h
    cases h
  | true =>
    rw [hallowed] at h
    cases hnested : TypedExpr.anyAggregate args with
    | true =>
      rw [hnested] at h
      cases h
    | false =>
      rw [hnested] at h
      obtain ⟨u, s₁, hnote, h⟩ := bind_eq_ok.mp h
      obtain ⟨k, hslot, rfl⟩ := bind_pure_eq_ok.mp h
      exact ⟨rfl, rfl, u, s₁, k, hnote, hslot, rfl⟩

theorem useAggregate_ok (h : useAggregate clause text library ty accumulator args s = .ok e s')
    (hoffered : s.scopes.entries.Accumulates accumulator)
    (haccepts : ColumnType.AcceptsAll accumulator.params (args.map TypedExpr.type))
    (hargs : TypedExpr.AllWellTyped s.sight args) :
    s.Extends clause s' ∧ e.WellTyped s'.sight := by
  obtain ⟨hallowed, hnested, _, s₁, k, hnote, hslot, rfl⟩ := useAggregate_eq_ok h
  have hext : s.Extends clause s₁ := noteLibraries_ok hnote
  have typed : ∀ k, AggregateSlot.WellTyped s₁.scopes.entries ⟨k, text, accumulator, args⟩ := by
    intro k
    rw [hext.entries]
    exact ⟨.withoutSlots args hargs hnested, haccepts, hoffered⟩
  obtain ⟨hext₁, hk⟩ := slotFor_ok hslot hallowed typed
  exact ⟨hext.trans hext₁, hk⟩

/-- A call is one of an aggregate if there is one, otherwise of a function, and otherwise of a property. -/
theorem call_eq_ok (h : call clause text aliasName name args s = .ok e s') :
    ∃ sources, candidates aliasName s = .ok sources s ∧
      ((∃ library ty a, sources.aggregate? name (args.map TypedExpr.type) = .ok (some (library, ty, a)) ∧
          useAggregate clause text library ty a args s = .ok e s') ∨
        sources.aggregate? name (args.map TypedExpr.type) = .ok none ∧
          ((∃ library f, sources.scalar? name (args.map TypedExpr.type) = .ok (some (library, f)) ∧
              useFunction library f args s = .ok e s') ∨
            sources.scalar? name (args.map TypedExpr.type) = .ok none ∧ args = [] ∧
              ∃ library f, sources.property? name = some (library, f) ∧ useFunction library f [] s = .ok e s')) := by
  obtain ⟨sources, _, hsources, h⟩ := bind_eq_ok.mp h
  obtain ⟨-, rfl⟩ := candidates_ok hsources
  refine ⟨sources, hsources, ?_⟩
  obtain ⟨aggregate, haggregate, h⟩ := ofExcept_bind_eq_ok.mp h
  match aggregate with
  | some (library, ty, a) => exact .inl ⟨library, ty, a, haggregate, h⟩
  | none =>
    obtain ⟨scalar, hscalar, h⟩ := ofExcept_bind_eq_ok.mp h
    match scalar with
    | some (library, f) => exact .inr ⟨haggregate, .inl ⟨library, f, hscalar, h⟩⟩
    | none =>
      dsimp only at h
      cases args with
      | cons e rest => cases h
      | nil =>
        rw [if_pos List.isEmpty_nil] at h
        cases hproperty : sources.property? name with
        | none =>
          rw [hproperty] at h
          cases h
        | some found =>
          rw [hproperty] at h
          exact .inr ⟨haggregate, .inr ⟨hscalar, rfl, found.1, found.2, rfl, h⟩⟩

theorem call_ok (h : call clause text aliasName name args s = .ok e s')
    (hargs : TypedExpr.AllWellTyped s.sight args) :
    s.Extends clause s' ∧ e.WellTyped s'.sight := by
  obtain ⟨sources, hsources, h⟩ := call_eq_ok h
  obtain ⟨hsubset, -⟩ := candidates_ok hsources
  obtain ⟨library, ty, a, hfound, h⟩ | ⟨-, ⟨library, f, hfound, h⟩ | ⟨-, rfl, library, f, hfound, h⟩⟩ := h
  · obtain ⟨⟨c, hc, ha⟩, haccepts⟩ := SourceList.aggregate?_eq_some hfound
    exact useAggregate_ok h ⟨c, hsubset hc, ha.1⟩ haccepts hargs
  · obtain ⟨⟨c, hc, hf⟩, haccepts, -⟩ := SourceList.scalar?_eq_some hfound
    exact useFunction_ok h ⟨c, hsubset hc, hf⟩ haccepts hargs
  · exact property_ok hfound hsubset h

theorem resultType?_of_kind {l r : ColumnType} (h : r.kind = l.kind) :
    BinaryOp.resultType? .eq l r = some .boolean := by
  simp [BinaryOp.resultType?, BinaryOp.isArithmetic, BinaryOp.isComparison, h]

theorem wellTyped_isAmong {operand : TypedExpr} {before : Option TypedExpr} {es : List TypedExpr} {g : Sight}
    (ho : operand.WellTyped g) (hbefore : ∀ b ∈ before, b.WellTyped g ∧ b.type = .boolean)
    (hes : TypedExpr.AllWellTyped g es) (hkinds : ∀ e ∈ es, e.type.kind = operand.type.kind)
    (h : operand.isAmong before es = some e) : e.WellTyped g := by
  induction es generalizing before with
  | nil => exact (hbefore e h).1
  | cons item es ih =>
    obtain ⟨hkind, hkinds⟩ := List.forall_mem_cons.mp hkinds
    have heq : (TypedExpr.binary .eq operand item .boolean).WellTyped g := ⟨resultType?_of_kind hkind, ho, hes.1⟩
    refine ih ?_ hes.2 hkinds h
    rintro _ ⟨⟩
    cases before with
    | none => exact ⟨heq, rfl⟩
    | some earlier =>
      obtain ⟨hearlier, htype⟩ := hbefore earlier rfl
      exact ⟨⟨by rw [htype]; rfl, hearlier, heq⟩, rfl⟩

mutual

/-- What binding makes of an expression is well-typed. -/
theorem expr_ok : ∀ (x : Expr) (s s' : BindState) (e : TypedExpr),
    expr clause x s = .ok e s' → s.Extends clause s' ∧ e.WellTyped s'.sight
  | .literal v, s, s', e, h => by
    obtain ⟨rfl, rfl⟩ := pure_eq_ok.mp h
    exact ⟨.refl, trivial⟩
  | .parens x, s, s', e, h => expr_ok x s s' e h
  | .column aliasName name, s, s', e, h => column_ok h
  | .call aliasName name args, s, s', e, h => by
    obtain ⟨typed, s₁, hargs, h⟩ := bind_eq_ok.mp h
    obtain ⟨hext, htyped⟩ := exprs_ok args s s₁ typed hargs
    obtain ⟨hext₁, he⟩ := call_ok h htyped
    exact ⟨hext.trans hext₁, he⟩
  | .binary op left right, s, s', e, h => by
    obtain ⟨l, s₁, r, ty, hl, hr, hty, rfl⟩ := binary_eq_ok h
    obtain ⟨hextl, hl⟩ := expr_ok left s s₁ l hl
    obtain ⟨hextr, hr⟩ := expr_ok right s₁ s' r hr
    exact ⟨hextl.trans hextr, hty, .mono hextr.sight l hl, hr⟩
  | .unary op operand, s, s', e, h => by
    obtain ⟨o, ty, ho, hty, rfl⟩ := unary_eq_ok h
    obtain ⟨hext, ho⟩ := expr_ok operand s s' o ho
    exact ⟨hext, hty, ho⟩
  | .inList operand items, s, s', e, h => by
    obtain ⟨o, s₁, es, ho, hes, hkinds, hamong⟩ := inList_eq_ok_iff.mp h
    obtain ⟨hext, ho⟩ := expr_ok operand s s₁ o ho
    obtain ⟨hext₁, hes⟩ := exprs_ok items s₁ s' es hes
    exact ⟨hext.trans hext₁, wellTyped_isAmong (.mono hext₁.sight o ho) (by simp) hes hkinds hamong⟩

theorem exprs_ok : ∀ (xs : List Expr) (s s' : BindState) (es : List TypedExpr),
    exprs clause xs s = .ok es s' → s.Extends clause s' ∧ TypedExpr.AllWellTyped s'.sight es
  | [], s, s', es, h => by
    obtain ⟨rfl, rfl⟩ := pure_eq_ok.mp h
    exact ⟨.refl, trivial⟩
  | x :: xs, s, s', es, h => by
    obtain ⟨e, s₁, he, h⟩ := bind_eq_ok.mp h
    obtain ⟨rest, hrest, rfl⟩ := bind_pure_eq_ok.mp h
    obtain ⟨hext, he⟩ := expr_ok x s s₁ e he
    obtain ⟨hext₁, hrest⟩ := exprs_ok xs s₁ s' rest hrest
    exact ⟨hext.trans hext₁, .mono hext₁.sight e he, hrest⟩

end

theorem condition_ok {x : Expr} (h : condition clause x s = .ok e s') :
    s.Extends clause s' ∧ e.WellTyped s'.sight ∧ e.type = .boolean := by
  obtain ⟨h, hboolean⟩ := condition_eq_ok h
  obtain ⟨hext, hwell⟩ := expr_ok x s s' e h
  exact ⟨hext, hwell, hboolean⟩

theorem starFields_wellTyped {entries : SourceList} {f : BoundField} (h : f ∈ starFields entries)
    (slots : List Nat) : f.expr.WellTyped (entries.sight slots) := by
  obtain ⟨entry, hentry, h⟩ := List.mem_flatMap.mp h
  obtain ⟨⟨c, i⟩, hc, rfl⟩ := List.mem_map.mp h
  exact SourceEntry.columnExpr_wellTyped hentry (List.mk_mem_zipIdx_iff_getElem?.mp hc) slots

/-- The expressions that binding makes, each with the state that it has then come to: those of the
query's text, the columns that a star stands for, and the key of a group that is not written. -/
inductive Makes : BindState → TypedExpr → Prop
  | expr {clause : Clause} {x : Expr} {s s' : BindState} {e : TypedExpr}
      (bound : Bind.expr clause x s = .ok e s') : Makes s' e
  | star {s : BindState} {f : BoundField} (among : f ∈ starFields s.scopes.entries) : Makes s f.expr
  | single {s : BindState} {e : TypedExpr} (among : e ∈ Grouping.single.keys) : Makes s e

theorem Makes.wellTyped (h : Makes s e) : e.WellTyped s.sight := by
  cases h with
  | expr bound => exact (expr_ok _ _ _ _ bound).2
  | star among => exact starFields_wellTyped among _
  | single among =>
    obtain rfl := List.mem_singleton.mp among
    trivial

end Bind

end TabularQuery
