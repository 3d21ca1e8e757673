import TabularQuery.Proofs.Safety
import TabularQuery.Proofs.SlotSharing

/-!
Failures of runs. Over tables in memory and the standard methods, a program that was compiled fails for reasons of
execution, with two exceptions that have the code of a type mismatch: `ToInt` refuses a text, or an aggregate is read from
the slot of another one and has not its type. The first needs a call of `ToInt`, the second two different calls of one text.
-/

namespace TabularQuery

/-! ### Calls -/

/-- A text that `ToInt` refuses is among the failures. -/
def Failures.CoverToInt (F : Failures) : Prop :=
  ∀ s, Scalar.toInteger [.text s] = .error (.notAnInteger s) → F.Has (.notAnInteger s)

namespace SourceList

variable {visible sources : SourceList} {name : String} {types : List ColumnType}

theorem catalogs_standard (h : ∀ e ∈ sources, e.catalog = .standard) : ∀ c ∈ sources.catalogs, c.2 = .standard := by
  intro c hc
  cases sources with
  | nil =>
    obtain rfl := List.mem_singleton.mp hc
    rfl
  | cons e sources =>
    obtain ⟨e', he', rfl⟩ := List.mem_map.mp hc
    exact h e' he'

theorem searched?_standard (h : ∀ e ∈ visible, e.catalog = .standard) {aliasName : Option String}
    (hsearched : visible.searched? aliasName = some sources) : ∀ e ∈ sources, e.catalog = .standard := by
  cases aliasName with
  | none =>
    cases hsearched
    exact h
  | some a =>
    obtain ⟨e, he, rfl⟩ := Option.map_eq_some_iff.mp hsearched
    intro e' he'
    rw [List.mem_singleton.mp he']
    exact h e (List.mem_of_find?_eq_some he)

theorem property?_standard (h : ∀ e ∈ sources, e.catalog = .standard) {library : Option String} {f : BoundFunction}
    (hfound : sources.property? name = some (library, f)) (F : Failures) : f.RegularIn F := by
  obtain ⟨⟨c, hc, hf⟩, hparams⟩ := property?_eq_some hfound
  rw [catalogs_standard h c hc] at hf
  refine Catalog.standard_regularIn hf fun _ htext => ?_
  rw [hparams] at htext
  cases htext

/-- A function of the standard library that is found under a name has ordinary failures, but for `ToInt`. -/
theorem Finds.regularIn {F : Failures} (h : ∀ e ∈ sources, e.catalog = .standard) {f : BoundFunction}
    (hfinds : sources.Finds name types (.function f))
    (hF : Catalog.sameName name "ToInt" = true → F.CoverToInt) : f.RegularIn F := by
  cases hfinds with
  | scalar noAggregate found =>
    obtain ⟨⟨c, hc, hf⟩, -, hname⟩ := scalar?_eq_some found
    rw [catalogs_standard h c hc] at hf
    refine Catalog.standard_regularIn hf fun htoInt _ => hF ?_
    rw [htoInt, Catalog.sameName, decide_eq_true_eq] at hname
    exact decide_eq_true hname.symm
  | property noAggregate noScalar bare found => exact property?_standard h found F

theorem Finds.type_eq (h : ∀ e ∈ sources, e.catalog = .standard) {ty : ColumnType} {a : AccumulatorMethod}
    (hfinds : sources.Finds name types (.aggregate ty a)) : ty = a.aggregate.resultType := by
  cases hfinds with
  | aggregate found =>
    obtain ⟨⟨c, hc, hreads⟩, -⟩ := aggregate?_eq_some found
    rw [catalogs_standard h c hc] at hreads
    exact Catalog.standard_reads hreads

end SourceList

/-! ### Expressions -/

/-- Is this a call of `ToInt`? -/
def Expr.isToInt : Expr → Bool
  | .call _ name _ => Catalog.sameName name "ToInt"
  | _ => false

/-- What can go wrong with the call is among the failures: a text that is no integer, for a call of `ToInt`, and a
mismatch, for an aggregate. -/
structure Expr.Risks (F : Failures) (visible : SourceList) (own slots : List AggregateSlot) (x : Expr) : Prop where
  toInt : x.isToInt = true → F.CoverToInt
  read : ∀ k ty, x.Denotes visible own (.aggregate k ty) → (TypedExpr.aggregate k ty).FailsIn F slots

section Expressions

variable {F : Failures} {visible : SourceList} {own slots : List AggregateSlot}

theorem TypedExpr.failsIn_isAmong {operand t : TypedExpr} {before : Option TypedExpr} {es : List TypedExpr}
    (hoperand : operand.FailsIn F slots) (hbefore : ∀ e ∈ before, e.FailsIn F slots) (hes : AllFailIn F slots es)
    (h : operand.isAmong before es = some t) : t.FailsIn F slots := by
  induction es generalizing before with
  | nil => exact hbefore t h
  | cons e es ih =>
    refine ih ?_ hes.2 h
    rintro _ ⟨⟩
    cases before with
    | none => exact ⟨hoperand, hes.1⟩
    | some earlier => exact ⟨hbefore earlier rfl, hoperand, hes.1⟩

namespace Expr

mutual

theorem Denotes.failsIn (h : ∀ e ∈ visible, e.catalog = .standard) : ∀ (x : Expr) (t : TypedExpr),
    x.Denotes visible own t → (∀ y ∈ x.calls, y.Risks F visible own slots) → t.FailsIn F slots
  | .literal _, _, hx, _ => by
    obtain rfl := hx
    trivial
  | .parens x, t, hx, hcalls => Denotes.failsIn h x t hx hcalls
  | .column (some _) _, _, hx, _ => by
    obtain ⟨e, i, c, -, -, rfl⟩ := hx
    trivial
  | .column none name, _, hx, _ => by
    obtain ⟨e, i, c, -, rfl⟩ | ⟨-, library, f, hf, rfl⟩ := hx
    · trivial
    · exact ⟨SourceList.property?_standard h hf F, trivial⟩
  | .call aliasName name args, t, hx, hcalls => by
    obtain ⟨hhead, hrest⟩ := List.forall_mem_cons.mp hcalls
    have hdenotes := hx
    obtain ⟨typed, sources, target, hargs, hsearched, hfinds, hmakes⟩ := hx
    cases target with
    | function f =>
      obtain rfl := hmakes
      exact ⟨hfinds.regularIn (SourceList.searched?_standard h hsearched) hhead.toInt,
        DenotesAll.failsIn h args typed hargs hrest⟩
    | aggregate ty a =>
      -- the arguments belong to the slot; here the slot is only read
      obtain ⟨-, k, found, -, -, rfl⟩ := hmakes
      exact hhead.read k ty hdenotes
  | .binary _ x y, _, hx, hcalls => by
    obtain ⟨l, r, ty, hl, hr, -, rfl⟩ := hx
    obtain ⟨hleft, hright⟩ := List.forall_mem_append.mp hcalls
    exact ⟨Denotes.failsIn h x l hl hleft, Denotes.failsIn h y r hr hright⟩
  | .unary _ x, _, hx, hcalls => by
    obtain ⟨o, ty, ho, -, rfl⟩ := hx
    exact Denotes.failsIn h x o ho hcalls
  | .inList x items, t, hx, hcalls => by
    obtain ⟨o, es, ho, hes, -, hamong⟩ := hx
    obtain ⟨hoperand, hitems⟩ := List.forall_mem_append.mp hcalls
    exact TypedExpr.failsIn_isAmong (Denotes.failsIn h x o ho hoperand) (by exact nofun)
      (DenotesAll.failsIn h items es hes hitems) hamong

theorem DenotesAll.failsIn (h : ∀ e ∈ visible, e.catalog = .standard) : ∀ (xs : List Expr) (ts : List TypedExpr),
    DenotesAll visible own xs ts → (∀ y ∈ callsAll xs, y.Risks F visible own slots) → TypedExpr.AllFailIn F slots ts
  | [], _, hx, _ => by
    obtain rfl := hx
    trivial
  | x :: xs, _, hx, hcalls => by
    obtain ⟨t, rest, ht, hrest, rfl⟩ := hx
    obtain ⟨hhead, htail⟩ := List.forall_mem_append.mp hcalls
    exact ⟨Denotes.failsIn h x t ht hhead, DenotesAll.failsIn h xs rest hrest htail⟩

end

end Expr

end Expressions

/-! ### Queries -/

/-- All calls of a query that come to be evaluated; conditions that a join loses do not. -/
def Query.calls (x : Query) : List Expr :=
  Expr.callsAll (x.source.kept.filterMap id) ++ Expr.callsAll x.filter.toList ++
    Expr.callsAll ((x.groupBy.map GroupBy.keys).getD []) ++ x.groupCalls

theorem Expr.calls_subset_of_mem {x : Expr} {xs : List Expr} (h : x ∈ xs) : x.calls ⊆ callsAll xs :=
  fun _ hy => mem_callsAll.mpr ⟨x, h, hy⟩

theorem BoundSource.catalog_entry (b : BoundSource) : b.entry.catalog = b.catalog := by
  unfold entry SourceEntry.catalog catalog
  cases b.origin <;> rfl

theorem JoinsResolve.condition {before : SourceList} {conditions : List (Option Expr)} {sources : List BoundSource}
    (h : JoinsResolve before conditions sources) {b : BoundSource} (hb : b ∈ sources) {e : TypedExpr} (he : e ∈ b.on) :
    ∃ visible x, visible ⊆ before ++ sources.map BoundSource.entry ∧ some x ∈ conditions ∧ x.Denotes visible [] e := by
  induction h with
  | nil => cases hb
  | @cons before on b' conditions sources head rest ih =>
    rcases List.mem_cons.mp hb with rfl | hb
    · rw [Option.mem_def.mp he] at head
      cases head with
      | some hx =>
        exact ⟨_, _, List.append_subset.mpr ⟨List.subset_append_left _ _, by simp⟩, List.mem_cons_self, hx⟩
    · obtain ⟨visible, x, hvisible, hx, hdenotes⟩ := ih hb
      rw [List.append_assoc] at hvisible
      exact ⟨visible, x, hvisible, List.mem_cons_of_mem _ hx, hdenotes⟩

section Queries

variable {F : Failures} {written : Query} {q : BoundQuery} {visible : SourceList} {own slots : List AggregateSlot}

/-- Where there are no aggregates, only `ToInt` is a risk. -/
theorem Expr.Risks.bare {x : Expr} {xs : List Expr} (hx : x ∈ callsAll xs) (htoInt : x.isToInt = true → F.CoverToInt) :
    x.Risks F visible [] slots where
  toInt := htoInt
  read k ty hread := by
    obtain ⟨aliasName, name, args, rfl⟩ := (Expr.callIn_of_memAll xs x hx).isCall
    obtain ⟨a, ha, -⟩ := hread.slot_text
    cases ha

theorem Expr.failsIn_of_rel (h : ∀ e ∈ visible, e.catalog = .standard) {x : Option Expr} {test : Option TypedExpr}
    (hrel : Option.Rel (fun y t => y.Denotes visible own t) x test)
    (hcalls : ∀ y ∈ x, ∀ z ∈ y.calls, z.Risks F visible own slots) : ∀ e ∈ test, e.FailsIn F slots := by
  rintro e ⟨⟩
  cases hrel with
  | some hdenotes => exact hdenotes.failsIn h _ e (hcalls _ rfl)

theorem SelectItem.ResolvesTo.failsIn (h : ∀ e ∈ visible, e.catalog = .standard) {item : SelectItem}
    {fields : List BoundField} (hitem : item.ResolvesTo visible own fields)
    (hcalls : ∀ y ∈ item.calls, y.Risks F visible own slots) : ∀ f ∈ fields, f.expr.FailsIn F slots := by
  intro f hf
  cases item with
  | star =>
    obtain rfl := hitem
    obtain ⟨e, -, hf⟩ := List.mem_flatMap.mp hf
    obtain ⟨c, -, rfl⟩ := List.mem_map.mp hf
    trivial
  | field x aliasName =>
    obtain ⟨t, ht, rfl⟩ := hitem
    rw [List.mem_singleton.mp hf]
    exact ht.failsIn h x t hcalls

theorem Query.ResolvesTo.grouping_cases (h : written.ResolvesTo q) {g : Grouping} (hg : q.grouping = some g) :
    g = .single ∨ ∃ g', written.groupBy = some g' ∧ Expr.DenotesAll q.visible [] g'.keys g.keys ∧
      Option.Rel (fun y t => y.Denotes q.visible q.slots t) g'.having g.having := by
  cases hgroupBy : written.groupBy with
  | none =>
    rw [h.ungrouped hgroupBy] at hg
    split at hg
    · cases hg
    · exact .inl (Option.some.inj hg).symm
  | some g' =>
    obtain ⟨keys, having, hgrouping, hkeys, hhaving⟩ := h.grouped g' hgroupBy
    cases hgrouping.symm.trans hg
    exact .inr ⟨g', rfl, hkeys, hhaving⟩

theorem Query.ResolvesTo.failsIn (h : written.ResolvesTo q) (hvisible : ∀ e ∈ q.visible, e.catalog = .standard)
    (htoInt : ∀ x ∈ written.calls, x.isToInt = true → F.CoverToInt)
    (hread : ∀ x ∈ written.groupCalls, ∀ k ty, x.Denotes q.visible q.slots (.aggregate k ty) →
      (TypedExpr.aggregate k ty).FailsIn F q.slots) : q.FailsIn F := by
  simp only [calls, List.forall_mem_append] at htoInt
  obtain ⟨⟨⟨hjoins, hfilter⟩, hkeys⟩, hgroup⟩ := htoInt
  have hrisks : ∀ x ∈ written.groupCalls, x.Risks F q.visible q.slots q.slots :=
    fun x hx => ⟨hgroup x hx, hread x hx⟩
  constructor
  case filter =>
    refine Expr.failsIn_of_rel hvisible h.filter fun x hx y hy => ?_
    have hcalls := Expr.calls_subset_of_mem (Option.mem_toList.mpr hx) hy
    exact .bare hcalls (hfilter y hcalls)
  case conditions =>
    intro b hb e he
    obtain ⟨visible, x, hsub, hx, hdenotes⟩ := h.joins.condition hb he
    have hcalls : x.calls ⊆ Expr.callsAll (written.source.kept.filterMap id) :=
      Expr.calls_subset_of_mem (List.mem_filterMap.mpr ⟨some x, hx, rfl⟩)
    exact hdenotes.failsIn (fun e he => hvisible e (hsub he)) x e fun y hy =>
      .bare (hcalls hy) (hjoins y (hcalls hy))
  case keys =>
    intro g hg
    obtain rfl | ⟨g', hgroupBy, hdenotes, -⟩ := h.grouping_cases hg
    · exact ⟨trivial, trivial⟩
    · rw [hgroupBy] at hkeys
      exact hdenotes.failsIn hvisible g'.keys g.keys fun y hy => .bare hy (hkeys y hy)
  case having =>
    intro g hg
    obtain rfl | ⟨g', hgroupBy, -, hhaving⟩ := h.grouping_cases hg
    · rintro _ ⟨⟩
    · refine Expr.failsIn_of_rel hvisible hhaving fun x hx y hy => hrisks y (List.mem_append_left _ ?_)
      rw [hgroupBy, Option.bind_some, Option.mem_def.mp hx]
      exact hy
  case fields =>
    obtain ⟨parts, hfields, hparts⟩ := h.fields
    rw [TypedExpr.allFailIn_iff, hfields]
    intro e he
    obtain ⟨f, hf, rfl⟩ := List.mem_map.mp he
    obtain ⟨part, hpart, hf⟩ := List.mem_flatten.mp hf
    obtain ⟨item, hitem, hresolves⟩ := exists_of_forall₂ hparts.flip hpart
    refine SelectItem.ResolvesTo.failsIn hvisible hresolves (fun y hy => hrisks y ?_) f hf
    exact List.mem_append_right _ (List.mem_flatMap.mpr ⟨item, hitem, hy⟩)
  case args =>
    intro a ha
    obtain ⟨x, hx, ty, aliasName, name, args, sources, rfl, hargs, -⟩ := h.requested a ha
    refine hargs.failsIn hvisible args a.args fun y hy => hrisks y ?_
    exact (Query.callIn_groupCalls hx).subset (List.mem_cons_of_mem _ hy)

end Queries

/-! ### Runs -/

/-- Two different calls of the query that may be aggregates have one text. -/
def Query.HasTwins (x : Query) : Prop := ∃ y ∈ x.groupCalls, ∃ z ∈ x.groupCalls, y ≠ z ∧ y.text = z.text

/-- The failures that the queries can have: ordinary ones, a text that is no integer if `ToInt` is called, and a mismatch if
there are two calls of one text. -/
def Failures.ofQueries (xs : List Query) : Failures where
  Has e := e.isOrdinary = true ∨
    (∃ s, e = .notAnInteger s ∧ Scalar.toInteger [.text s] = .error e ∧ ∃ x ∈ xs, ∃ y ∈ x.calls, y.isToInt = true) ∨
    ∃ wanted got, e = .valueMismatch wanted got ∧ wanted.accepts got = false ∧ ∃ x ∈ xs, x.HasTwins
  ordinary _ h := .inl h

/-- An aggregate that is read under another type than its own has the text of another call. -/
theorem Query.ResolvesTo.read_failsIn {written : Query} {q : BoundQuery} (h : written.ResolvesTo q)
    (hvisible : ∀ e ∈ q.visible, e.catalog = .standard) {xs : List Query} (hwritten : written ∈ xs) {x : Expr}
    (hx : x ∈ written.groupCalls) {k : Nat} {ty : ColumnType} (hread : x.Denotes q.visible q.slots (.aggregate k ty)) :
    (TypedExpr.aggregate k ty).FailsIn (.ofQueries xs) q.slots := by
  intro a ha hrefused
  obtain ⟨y, hy, ty', hrequests⟩ := h.requested a (List.mem_of_getElem? ha)
  refine .inr (.inr ⟨_, _, rfl, hrefused, written, hwritten, x, hx, y, hy, ?_, ?_⟩)
  · -- a call that reads what it requested itself reads it under the type of the result
    rintro rfl
    have hty := hrequests.type_eq h.distinct hread
    obtain ⟨_, _, _, sources, -, -, hsearched, hfinds, -⟩ := hrequests
    rw [← hty, hfinds.type_eq (SourceList.searched?_standard hvisible hsearched), ColumnType.accepts_self] at hrefused
    cases hrefused
  · obtain ⟨aliasName, name, args, rfl⟩ := Query.exists_call_of_mem_groupCalls hx
    obtain ⟨a', ha', htext⟩ := hread.slot_text
    cases ha.symm.trans ha'
    obtain ⟨_, _, _, _, -, -, -, -, -, htext'⟩ := hrequests
    exact htext.symm.trans htext'

theorem Error.category_of_isOrdinary {e : Error} (h : e.isOrdinary = true) : e.category = .execution := by
  unfold isOrdinary at h
  unfold category
  split at h <;> simp_all [ErrorCode.category]

/-- The failure of a run that has failed. -/
def RunResult.error? (r : RunResult) : Option Error :=
  match r.result with
  | .ok _ => none
  | .error e => some e

theorem RunResult.error?_eq_some_iff {r : RunResult} {e : Error} : r.error? = some e ↔ r.result = .error e := by
  unfold error?
  cases r.result <;> simp

section Runs

variable {env : Environment} {text : String} {p : Program}

theorem failsIn_of_query
    (hmemory : ∀ entry ∈ env.registry.schemas, ∃ s : MemorySchema, s.catalog = .standard ∧ entry.2 = s.toSchema)
    {xs : List Query} {x : Query} (hx : x ∈ xs) {q : BoundQuery} {s s' : BindState} (h : Bind.query env x s = .ok q s') :
    q.FailsIn (.ofQueries xs) := by
  obtain ⟨⟨entries, hbound⟩, -⟩ := Bind.query_ok h
  have hresolves := Bind.query_resolves h
  have hsources : ∀ b ∈ q.sources, b.catalog = .standard :=
    fun b hb => (hbound.sources.known b hb).catalog_of_memory hmemory
  have hvisible : ∀ e ∈ q.visible, e.catalog = .standard := by
    intro e he
    obtain ⟨b, hb, rfl⟩ := List.mem_map.mp he
    exact b.catalog_entry.trans (hsources b hb)
  refine hresolves.failsIn hvisible (fun y hy htoInt s hs => ?_) fun y hy k ty => hresolves.read_failsIn hvisible hx hy
  exact .inr (.inl ⟨s, rfl, hs, x, hx, y, hy, htoInt⟩)

/-- A text that compiles over tables in memory and the standard methods gives a program whose failures, whatever the
tables hold, the limit is and the stop flag says, are those of execution. The exceptions have the category of failures that
keep a program from being made: `ToInt` was handed a text that it refuses; or an aggregate was read under a type that does not
accept the result of its slot, and two different calls of one query have the same text. -/
theorem run_failures_of_execution
    (hmemory : ∀ entry ∈ env.registry.schemas, ∃ s : MemorySchema, s.catalog = .standard ∧ entry.2 = s.toSchema)
    (hcompile : compile env text = .ok p) :
    ∃ xs, parse text = .ok xs ∧ ∀ context limit cancelled fuel r e,
      p.run context limit cancelled fuel = some r → r.result = .error e → e.category = .execution ∨
        e.category = .compile ∧
          ((∃ s, e = .notAnInteger s ∧ Scalar.toInteger [.text s] = .error e ∧
              ∃ x ∈ xs.flatMap Statement.queries, ∃ y ∈ x.calls, y.isToInt = true) ∨
            ∃ wanted got, e = .valueMismatch wanted got ∧ wanted.accepts got = false ∧
              ∃ x ∈ xs.flatMap Statement.queries, x.HasTwins) := by
  obtain ⟨xs, hparse, hcompile⟩ := except_bind_eq_ok.mp hcompile
  obtain ⟨b, hbind, hgenerate⟩ := except_bind_eq_ok.mp hcompile
  refine ⟨xs, hparse, fun context limit cancelled fuel r e hrun he => ?_⟩
  have hfails : ∀ q ∈ b.queries, q.FailsIn (.ofQueries (xs.flatMap Statement.queries)) := by
    intro q hq
    obtain ⟨x, hx, s, s', hquery⟩ := exists_of_forall₂ (bind_queriesBound hbind).queries.flip hq
    exact failsIn_of_query hmemory hx hquery
  have hsound := sound_generate (Environment.regularIn_of_memory hmemory context) hfails (bind_ok hbind) hgenerate limit
  obtain hordinary | ⟨s, rfl, hrest⟩ | ⟨wanted, got, rfl, hrest⟩ := hsound.failure hrun he
  · exact .inl (Error.category_of_isOrdinary hordinary)
  · exact .inr ⟨rfl, .inl ⟨s, rfl, hrest⟩⟩
  · exact .inr ⟨rfl, .inr ⟨wanted, got, rfl, hrest⟩⟩

/-- Groups with a HAVING clause, over a row whose sum overflows. Nothing calls `ToInt` and all calls have texts of
their own, so that only execution can fail; it does. -/
theorem run_failures_of_execution_overflow :
    let schema : MemorySchema := ⟨"m", [("t", ⟨[⟨"n", .integer⟩], [[.integer 9223372036854775807]]⟩)], .standard⟩
    let env : Environment := ⟨⟨[("m", schema.toSchema)]⟩, .empty⟩
    let text := "select n + Count(n) as k from #m.t() group by n having Count(1) > 0"
    ∃ p, compile env text = .ok p ∧
      (∀ context limit cancelled fuel r e, p.run context limit cancelled fuel = some r → r.result = .error e →
        e.category = .execution) ∧
      ∃ r e, p.run ⟨.empty, 1⟩ 0 false 100 = some r ∧ r.result = .error e := by
  intro schema env text
  have hmemory : ∀ entry ∈ env.registry.schemas, ∃ s : MemorySchema, s.catalog = .standard ∧ entry.2 = s.toSchema :=
    List.forall_mem_singleton.mpr ⟨schema, rfl, rfl⟩
  have hvalue : ((parse text).toOption >>= fun xs => (compile env text).toOption >>= fun p =>
      p.run ⟨.empty, 1⟩ 0 false 100 >>= fun r => r.error?.map fun _ => decide
        (∀ x ∈ xs.flatMap Statement.queries, (∀ y ∈ x.calls, y.isToInt = false) ∧ (x.groupCalls.map Expr.text).Nodup)) =
      some true := by
    rw [compile, parse, tokenize_ofList]
    decide +kernel
  obtain ⟨xs, hparse, hvalue⟩ := Option.bind_eq_some_iff.mp hvalue
  obtain ⟨p, hcompile, hvalue⟩ := Option.bind_eq_some_iff.mp hvalue
  obtain ⟨r, hrun, hvalue⟩ := Option.bind_eq_some_iff.mp hvalue
  obtain ⟨e, he, hvalue⟩ := Option.map_eq_some_iff.mp hvalue
  replace hcompile := toOption_eq_some_iff.mp hcompile
  replace hparse := toOption_eq_some_iff.mp hparse
  have hqueries := of_decide_eq_true hvalue
  refine ⟨p, hcompile, fun context limit cancelled fuel r e hrun he => ?_, r, e, hrun, RunResult.error?_eq_some_iff.mp he⟩
  obtain ⟨xs', hparse', hfailures⟩ := run_failures_of_execution hmemory hcompile
  cases hparse.symm.trans hparse'
  obtain hexecution | ⟨-, ⟨-, -, -, x, hx, y, hy, htoInt⟩ | ⟨-, -, -, -, x, hx, y, hy, z, hz, hne, htext⟩⟩ :=
    hfailures context limit cancelled fuel r e hrun he
  · exact hexecution
  · rw [(hqueries x hx).1 y hy] at htoInt
    cases htoInt
  · exact absurd (List.inj_on_of_nodup_map (hqueries x hx).2 hy hz htext) hne

/-- Two texts that compile and whose runs fail with the category of failures that keep a program from being made: `ToInt`
reads a text that is no integer, and a text is read from the slot of a count. -/
theorem runs_fail_as_compilation :
    let columns : List Column := [⟨"x", .text⟩, ⟨"1) + a.AggregateValues(x", .text⟩]
    let schema : MemorySchema := ⟨"m", [("t", ⟨columns, [[.text "u", .text "v"]]⟩)], .standard⟩
    let env : Environment := ⟨⟨[("m", schema.toSchema)]⟩, .empty⟩
    let Fails (text message : String) : Prop := ∃ p r e, compile env text = .ok p ∧
      p.run ⟨.empty, 1⟩ 0 false 100 = some r ∧ r.result = .error e ∧ e.category = .compile ∧ e.message = message
    Fails "select ToInt(x) from #m.t()" "ToInt: 'u' is not an integer" ∧
      Fails ("select Count([1) + a.AggregateValues(x]) as p, [Count(1) + a].AggregateValues(x) as q " ++
        "from #m.t() [Count(1) + a]") "expected Text value, got Integer" := by
  intro columns schema env Fails
  have hfails {text message : String} (h : ((compile env text).toOption >>= fun p => p.run ⟨.empty, 1⟩ 0 false 100 >>=
      fun r => r.error?.map fun e => (e.category, e.message)) = some (.compile, message)) : Fails text message := by
    obtain ⟨p, hcompile, h⟩ := Option.bind_eq_some_iff.mp h
    obtain ⟨r, hrun, h⟩ := Option.bind_eq_some_iff.mp h
    obtain ⟨e, he, h⟩ := Option.map_eq_some_iff.mp h
    obtain ⟨hcategory, hmessage⟩ := Prod.mk.inj h
    exact ⟨p, r, e, toOption_eq_some_iff.mp hcompile, hrun, RunResult.error?_eq_some_iff.mp he, hcategory, hmessage⟩
  constructor
  · apply hfails
    rw [compile, parse, tokenize_ofList]
    decide +kernel
  · apply hfails
    rw [compile, parse, tokenize_append]
    decide +kernel

end Runs

end TabularQuery
