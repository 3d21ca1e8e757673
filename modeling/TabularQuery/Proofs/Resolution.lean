import TabularQuery.Proofs.QueryBinding

/-!
What names and calls stand for. `Expr.Denotes` relates an expression as it is written to what it is bound to, given the
sources in sight and the aggregates of its query; it knows neither scopes nor states, nor the order of binding. What
binding makes of an expression is what the expression denotes, and that is unique as long as the texts of the
aggregates are.
-/

namespace TabularQuery

/-! ### Calls -/

/-- What a call runs. -/
inductive CallTarget where
  /-- An accumulator, whose result is read as a value of the type. -/
  | aggregate (type : ColumnType) (accumulator : AccumulatorMethod)
  | function (f : BoundFunction)

namespace SourceList

/-- Aggregates go before scalar methods, and these before properties, which are called without arguments. -/
inductive Finds (sources : SourceList) (name : String) (types : List ColumnType) : CallTarget → Prop
  | aggregate {library : Option String} {ty : ColumnType} {a : AccumulatorMethod}
      (found : sources.aggregate? name types = .ok (some (library, ty, a))) : Finds sources name types (.aggregate ty a)
  | scalar {library : Option String} {f : BoundFunction} (noAggregate : sources.aggregate? name types = .ok none)
      (found : sources.scalar? name types = .ok (some (library, f))) : Finds sources name types (.function f)
  | property {library : Option String} {f : BoundFunction} (noAggregate : sources.aggregate? name types = .ok none)
      (noScalar : sources.scalar? name types = .ok none) (bare : types = [])
      (found : sources.property? name = some (library, f)) : Finds sources name types (.function f)

theorem Finds.unique {sources : SourceList} {name : String} {types : List ColumnType} {t t' : CallTarget}
    (h : sources.Finds name types t) (h' : sources.Finds name types t') : t = t' := by
  cases h <;> cases h' <;> simp_all

end SourceList

/-! ### Expressions -/

/-- The call as an expression. An aggregate, over arguments without aggregates, is read from a slot that has the text of
the call. -/
def CallTarget.Makes (slots : List AggregateSlot) (text : String) (args : List TypedExpr) :
    CallTarget → TypedExpr → Prop
  | .function f, t => t = .call f args
  | .aggregate ty _, t => TypedExpr.anyAggregate args = false ∧
      ∃ k a, slots[k]? = some a ∧ a.text = text ∧ t = .aggregate k ty

namespace Expr

mutual

/-- What an expression stands for among the visible sources and the aggregates of its query. A name without an alias is
a column if exactly one source has it, and a property if none has. -/
def Denotes (visible : SourceList) (slots : List AggregateSlot) : Expr → TypedExpr → Prop
  | .literal v, t => t = .literal v
  | .parens x, t => x.Denotes visible slots t
  | .column (some a) name, t =>
    ∃ e i c, visible.entry? a = some e ∧ e.column? name = some (i, c) ∧ t = e.columnExpr i c
  | .column none name, t =>
    (∃ e i c, visible.columns name = [(e, i, c)] ∧ t = e.columnExpr i c) ∨
      visible.columns name = [] ∧ ∃ library f, visible.property? name = some (library, f) ∧ t = .call f []
  | .call aliasName name args, t => ∃ typed sources target, DenotesAll visible slots args typed ∧
      visible.searched? aliasName = some sources ∧ sources.Finds name (typed.map TypedExpr.type) target ∧
      target.Makes slots (Expr.call aliasName name args).text typed t
  | .binary op x y, t => ∃ l r ty, x.Denotes visible slots l ∧ y.Denotes visible slots r ∧
      op.resultType? l.type r.type = some ty ∧ t = .binary op l r ty
  | .unary op x, t => ∃ o ty, x.Denotes visible slots o ∧ op.resultType? o.type = some ty ∧ t = .unary op o ty
  | .inList x items, t => ∃ o es, x.Denotes visible slots o ∧ DenotesAll visible slots items es ∧
      (∀ e ∈ es, e.type.kind = o.type.kind) ∧ o.isAmong none es = some t

def DenotesAll (visible : SourceList) (slots : List AggregateSlot) : List Expr → List TypedExpr → Prop
  | [], ts => ts = []
  | x :: xs, ts => ∃ t rest, x.Denotes visible slots t ∧ DenotesAll visible slots xs rest ∧ ts = t :: rest

end

mutual

/-- The calls in an expression. -/
def calls : Expr → List Expr
  | .literal _ | .column .. => []
  | .parens x => x.calls
  | .call aliasName name args => .call aliasName name args :: callsAll args
  | .binary _ x y => x.calls ++ y.calls
  | .unary _ x => x.calls
  | .inList x items => x.calls ++ callsAll items

def callsAll : List Expr → List Expr
  | [] => []
  | x :: xs => x.calls ++ callsAll xs

end

/-- The call is that of an aggregate, which reads as a value of type `ty`: by itself it asks for the slot `a`. -/
def Requests (visible : SourceList) (slots : List AggregateSlot) (ty : ColumnType) (a : AggregateSlot) (x : Expr) : Prop :=
  ∃ aliasName name args sources, x = .call aliasName name args ∧ DenotesAll visible slots args a.args ∧
    visible.searched? aliasName = some sources ∧
    sources.Finds name (a.args.map TypedExpr.type) (.aggregate ty a.accumulator) ∧
    TypedExpr.anyAggregate a.args = false ∧ a.text = x.text

/-! ### More aggregates, and uniqueness -/

section Laws

variable {visible : SourceList} {slots slots' : List AggregateSlot}

mutual

theorem Denotes.mono (h : slots <+: slots') :
    ∀ (x : Expr) (t : TypedExpr), x.Denotes visible slots t → x.Denotes visible slots' t
  | .literal _, _, hx => hx
  | .parens x, t, hx => Denotes.mono h x t hx
  | .column (some _) _, _, hx => hx
  | .column none _, _, hx => hx
  | .call _ _ args, t, hx => by
    obtain ⟨typed, sources, target, hargs, hsearched, hfinds, hmakes⟩ := hx
    refine ⟨typed, sources, target, DenotesAll.mono h args typed hargs, hsearched, hfinds, ?_⟩
    cases target with
    | function f => exact hmakes
    | aggregate ty a =>
      obtain ⟨hnested, k, found, hk, hrest⟩ := hmakes
      exact ⟨hnested, k, found, getElem?_of_isPrefix h hk, hrest⟩
  | .binary _ x y, t, hx => by
    obtain ⟨l, r, ty, hl, hr, hrest⟩ := hx
    exact ⟨l, r, ty, Denotes.mono h x l hl, Denotes.mono h y r hr, hrest⟩
  | .unary _ x, t, hx => by
    obtain ⟨o, ty, ho, hrest⟩ := hx
    exact ⟨o, ty, Denotes.mono h x o ho, hrest⟩
  | .inList x items, t, hx => by
    obtain ⟨o, es, ho, hes, hrest⟩ := hx
    exact ⟨o, es, Denotes.mono h x o ho, DenotesAll.mono h items es hes, hrest⟩

theorem DenotesAll.mono (h : slots <+: slots') :
    ∀ (xs : List Expr) (ts : List TypedExpr), DenotesAll visible slots xs ts → DenotesAll visible slots' xs ts
  | [], _, hx => hx
  | x :: xs, _, hx => by
    obtain ⟨t, rest, ht, hrest, rfl⟩ := hx
    exact ⟨t, rest, Denotes.mono h x t ht, DenotesAll.mono h xs rest hrest, rfl⟩

end

theorem slot_unique (h : (slots.map AggregateSlot.text).Nodup) {k k' : Nat} {a a' : AggregateSlot}
    (hk : slots[k]? = some a) (hk' : slots[k']? = some a') (htext : a.text = a'.text) : k = k' := by
  have hlt : k < (slots.map AggregateSlot.text).length := by
    rw [List.length_map]
    exact (List.getElem?_eq_some_iff.mp hk).1
  refine (List.getElem?_inj hlt h).mp ?_
  rw [List.getElem?_map, List.getElem?_map, hk, hk', Option.map_some, Option.map_some, htext]

mutual

theorem Denotes.unique (h : (slots.map AggregateSlot.text).Nodup) : ∀ (x : Expr) (t t' : TypedExpr),
    x.Denotes visible slots t → x.Denotes visible slots t' → t = t'
  | .literal _, _, _, hx, hx' => hx.trans hx'.symm
  | .parens x, t, t', hx, hx' => Denotes.unique h x t t' hx hx'
  | .column (some a) name, _, _, hx, hx' => by
    obtain ⟨e, i, c, he, hc, rfl⟩ := hx
    obtain ⟨e', i', c', he', hc', rfl⟩ := hx'
    cases he.symm.trans he'
    cases hc.symm.trans hc'
    rfl
  | .column none name, _, _, hx, hx' => by
    obtain ⟨e, i, c, hone, rfl⟩ | ⟨hnone, library, f, hf, rfl⟩ := hx
    · obtain ⟨e', i', c', hone', rfl⟩ | ⟨hnone', -⟩ := hx'
      · cases hone.symm.trans hone'
        rfl
      · cases hone.symm.trans hnone'
    · obtain ⟨e', i', c', hone', rfl⟩ | ⟨-, library', f', hf', rfl⟩ := hx'
      · cases hnone.symm.trans hone'
      · cases hf.symm.trans hf'
        rfl
  | .call _ _ args, _, _, hx, hx' => by
    obtain ⟨typed, sources, target, hargs, hsearched, hfinds, hmakes⟩ := hx
    obtain ⟨typed', sources', target', hargs', hsearched', hfinds', hmakes'⟩ := hx'
    obtain rfl := DenotesAll.unique h args typed typed' hargs hargs'
    cases hsearched.symm.trans hsearched'
    obtain rfl := hfinds.unique hfinds'
    cases target with
    | function f => exact hmakes.trans hmakes'.symm
    | aggregate ty a =>
      obtain ⟨-, k, found, hk, htext, rfl⟩ := hmakes
      obtain ⟨-, k', found', hk', htext', rfl⟩ := hmakes'
      rw [slot_unique h hk hk' (htext.trans htext'.symm)]
  | .binary _ x y, _, _, hx, hx' => by
    obtain ⟨l, r, ty, hl, hr, hty, rfl⟩ := hx
    obtain ⟨l', r', ty', hl', hr', hty', rfl⟩ := hx'
    obtain rfl := Denotes.unique h x l l' hl hl'
    obtain rfl := Denotes.unique h y r r' hr hr'
    cases hty.symm.trans hty'
    rfl
  | .unary _ x, _, _, hx, hx' => by
    obtain ⟨o, ty, ho, hty, rfl⟩ := hx
    obtain ⟨o', ty', ho', hty', rfl⟩ := hx'
    obtain rfl := Denotes.unique h x o o' ho ho'
    cases hty.symm.trans hty'
    rfl
  | .inList x items, _, _, hx, hx' => by
    obtain ⟨o, es, ho, hes, -, ht⟩ := hx
    obtain ⟨o', es', ho', hes', -, ht'⟩ := hx'
    obtain rfl := Denotes.unique h x o o' ho ho'
    obtain rfl := DenotesAll.unique h items es es' hes hes'
    exact Option.some.inj (ht.symm.trans ht')

theorem DenotesAll.unique (h : (slots.map AggregateSlot.text).Nodup) : ∀ (xs : List Expr) (ts ts' : List TypedExpr),
    DenotesAll visible slots xs ts → DenotesAll visible slots xs ts' → ts = ts'
  | [], _, _, hx, hx' => hx.trans hx'.symm
  | x :: xs, _, _, hx, hx' => by
    obtain ⟨t, rest, ht, hrest, rfl⟩ := hx
    obtain ⟨t', rest', ht', hrest', rfl⟩ := hx'
    rw [Denotes.unique h x t t' ht ht', DenotesAll.unique h xs rest rest' hrest hrest']

end

theorem Requests.mono (h : slots <+: slots') {ty : ColumnType} {a : AggregateSlot} {x : Expr}
    (hx : x.Requests visible slots ty a) : x.Requests visible slots' ty a := by
  obtain ⟨aliasName, name, args, sources, rfl, hargs, hrest⟩ := hx
  exact ⟨aliasName, name, args, sources, rfl, DenotesAll.mono h args a.args hargs, hrest⟩

end Laws

end Expr

/-! ### Binding -/

namespace BindState

/-- Aggregates stand in the places of their slots. -/
def Numbered (s : BindState) : Prop := ∀ (i : Nat) (a : AggregateSlot), s.scopes.aggregates[i]? = some a → a.slot = i

theorem numbered_of_nil {s : BindState} (h : s.scopes.aggregates = []) : s.Numbered := by
  intro i a ha
  rw [h] at ha
  cases ha

/-- What binding some expressions does to the aggregates of the query: those that are new have texts of their own, and
each is what one of the calls asks for. -/
structure Collects (calls : List Expr) (s s' : BindState) : Prop where
  entries : s'.scopes.entries = s.scopes.entries
  aggregates : s.scopes.aggregates <+: s'.scopes.aggregates
  numbered : s.Numbered → s'.Numbered
  distinct : (s.scopes.aggregates.map AggregateSlot.text).Nodup → (s'.scopes.aggregates.map AggregateSlot.text).Nodup
  requested : ∀ a ∈ s'.scopes.aggregates, a ∈ s.scopes.aggregates ∨
    ∃ x ∈ calls, ∃ ty, x.Requests s.scopes.entries s'.scopes.aggregates ty a

namespace Collects

variable {calls more : List Expr} {s s₁ s' : BindState}

theorem same (hentries : s'.scopes.entries = s.scopes.entries) (haggregates : s'.scopes.aggregates = s.scopes.aggregates) :
    Collects calls s s' where
  entries := hentries
  aggregates := haggregates ▸ List.prefix_rfl
  numbered hs := by
    unfold Numbered
    rw [haggregates]
    exact hs
  distinct hs := haggregates ▸ hs
  requested a ha := .inl (haggregates ▸ ha)

theorem refl (s : BindState) : Collects calls s s := same rfl rfl

theorem trans (h : Collects calls s s₁) (h' : Collects more s₁ s') : Collects (calls ++ more) s s' where
  entries := h'.entries.trans h.entries
  aggregates := h.aggregates.trans h'.aggregates
  numbered hs := h'.numbered (h.numbered hs)
  distinct hs := h'.distinct (h.distinct hs)
  requested a ha := by
    rcases h'.requested a ha with ha | ⟨x, hx, ty, hrequests⟩
    · rcases h.requested a ha with ha | ⟨x, hx, ty, hrequests⟩
      · exact .inl ha
      · exact .inr ⟨x, List.mem_append_left _ hx, ty, hrequests.mono h'.aggregates⟩
    · exact .inr ⟨x, List.mem_append_right _ hx, ty, h.entries ▸ hrequests⟩

theorem weaken (h : Collects calls s s') (hsub : calls ⊆ more) : Collects more s s' where
  entries := h.entries
  aggregates := h.aggregates
  numbered := h.numbered
  distinct := h.distinct
  requested a ha := (h.requested a ha).imp_right fun ⟨x, hx, hrest⟩ => ⟨x, hsub hx, hrest⟩

end Collects

end BindState

namespace Bind

open BindState
open TabularQuery.Expr (Denotes DenotesAll)

variable {clause : Clause} {s s' : BindState} {e : TypedExpr} {calls : List Expr}

theorem noteLibraries_scopes {library : Option String} {u : PUnit} (h : library.forM noteLibrary s = .ok u s') :
    s'.scopes = s.scopes := by
  cases library <;> cases h <;> rfl

theorem useFunction_eq_ok {library : Option String} {f : BoundFunction} {args : List TypedExpr}
    (h : useFunction library f args s = .ok e s') : s'.scopes = s.scopes ∧ e = .call f args := by
  obtain ⟨_, hnote, rfl⟩ := bind_pure_eq_ok.mp h
  exact ⟨noteLibraries_scopes hnote, rfl⟩

theorem column_denotes {aliasName : Option String} {name : String} (h : column aliasName name s = .ok e s')
    (slots : List AggregateSlot) :
    s'.scopes = s.scopes ∧ (Expr.column aliasName name).Denotes s.scopes.entries slots e := by
  cases aliasName with
  | some a =>
    obtain ⟨rfl, hdenotes⟩ := column_some_eq_ok h
    exact ⟨rfl, hdenotes⟩
  | none =>
    rw [column_none_apply] at h
    split at h
    · rename_i found i c hone
      cases h
      exact ⟨rfl, .inl ⟨found, i, c, hone, rfl⟩⟩
    · rename_i hnone
      split at h
      · rename_i library f hf
        obtain ⟨hscopes, rfl⟩ := useFunction_eq_ok h
        exact ⟨hscopes, .inr ⟨hnone, library, f, hf, rfl⟩⟩
      · cases h
    · cases h

/-- A call by itself asks for a slot of its text; the one that it gets may have been there. -/
theorem slotFor_collects {x : Expr} {accumulator : AccumulatorMethod} {args : List TypedExpr} {ty : ColumnType} {k : Nat}
    (hs : s.Numbered) (h : slotFor x.text accumulator args s = .ok k s')
    (hx : ∀ k, x.Requests s.scopes.entries s.scopes.aggregates ty ⟨k, x.text, accumulator, args⟩) :
    s.Collects [x] s' ∧ ∃ a, s'.scopes.aggregates[k]? = some a ∧ a.text = x.text := by
  obtain ⟨rfl, a, ha, htext, rfl⟩ | ⟨rfl, hnew, scopes, hadd, rfl⟩ := slotFor_eq_ok h
  · obtain ⟨i, hi⟩ := List.getElem?_of_mem ha
    exact ⟨.refl s, a, by rw [hs i a hi, hi], htext⟩
  · have haggregates := ScopeStack.aggregates_addSlot hadd
    have hlast : scopes.aggregates[s.scopes.aggregates.length]? =
        some ⟨s.scopes.aggregates.length, x.text, accumulator, args⟩ := by
      rw [haggregates, List.getElem?_concat_length]
    refine ⟨⟨ScopeStack.entries_addSlot hadd, ?_, ?_, ?_, ?_⟩, _, hlast, rfl⟩
    · rw [haggregates]
      exact List.prefix_append _ _
    · intro _ i a ha
      rw [haggregates] at ha
      rcases Nat.lt_trichotomy i s.scopes.aggregates.length with hi | rfl | hi
      · rw [List.getElem?_append_left hi] at ha
        exact hs i a ha
      · rw [List.getElem?_concat_length] at ha
        cases ha
        rfl
      · rw [List.getElem?_eq_none (by rw [List.length_append, List.length_singleton]; omega)] at ha
        cases ha
    · intro hdistinct
      rw [haggregates, List.map_append, List.map_singleton, List.nodup_append]
      refine ⟨hdistinct, List.pairwise_singleton _ _, ?_⟩
      intro text htext text' htext' hsame
      obtain ⟨a, ha, rfl⟩ := List.mem_map.mp htext
      exact hnew a ha (hsame.trans (List.mem_singleton.mp htext'))
    · intro a ha
      rw [haggregates] at ha ⊢
      refine (List.mem_append.mp ha).imp_right fun ha => ?_
      obtain rfl := List.mem_singleton.mp ha
      exact ⟨x, List.mem_singleton_self x, ty, (hx _).mono (List.prefix_append _ _)⟩

theorem call_denotes {aliasName : Option String} {name : String} {args : List Expr} {typed : List TypedExpr}
    (hs : s.Numbered) (h : call clause (Expr.call aliasName name args).text aliasName name typed s = .ok e s')
    (hargs : DenotesAll s.scopes.entries s.scopes.aggregates args typed) :
    s.Collects [.call aliasName name args] s' ∧
      (Expr.call aliasName name args).Denotes s.scopes.entries s'.scopes.aggregates e := by
  obtain ⟨sources, hsources, h⟩ := call_eq_ok h
  obtain ⟨hsearched, -⟩ := candidates_eq_ok hsources
  have hfunction : ∀ library f, useFunction library f typed s = .ok e s' →
      sources.Finds name (typed.map TypedExpr.type) (.function f) → s.Collects [.call aliasName name args] s' ∧
        (Expr.call aliasName name args).Denotes s.scopes.entries s'.scopes.aggregates e := by
    intro library f h hfinds
    obtain ⟨hscopes, rfl⟩ := useFunction_eq_ok h
    rw [hscopes]
    exact ⟨.same (by rw [hscopes]) (by rw [hscopes]), typed, sources, _, hargs, hsearched, hfinds, rfl⟩
  obtain ⟨library, ty, accumulator, haggregate, h⟩ | ⟨haggregate, ⟨library, f, hscalar, h⟩ |
    ⟨hscalar, rfl, library, f, hproperty, h⟩⟩ := h
  · obtain ⟨-, hnested, _, s₁, k, hnote, hslot, rfl⟩ := useAggregate_eq_ok h
    have hscopes := noteLibraries_scopes hnote
    have hnumbered : s₁.Numbered := by
      unfold Numbered
      rw [hscopes]
      exact hs
    have hrequests : ∀ k, (Expr.call aliasName name args).Requests s₁.scopes.entries s₁.scopes.aggregates ty
        ⟨k, (Expr.call aliasName name args).text, accumulator, typed⟩ := by
      intro k
      rw [hscopes]
      exact ⟨aliasName, name, args, sources, rfl, hargs, hsearched, .aggregate haggregate, hnested, rfl⟩
    obtain ⟨hcollects, a, ha, htext⟩ := slotFor_collects hnumbered hslot hrequests
    have hall : s.Collects ([] ++ [.call aliasName name args]) s' :=
      .trans (.same (by rw [hscopes]) (by rw [hscopes])) hcollects
    exact ⟨hall, typed, sources, _, .mono hall.aggregates args typed hargs, hsearched, .aggregate haggregate,
      hnested, k, a, ha, htext, rfl⟩
  · exact hfunction library f h (.scalar haggregate hscalar)
  · exact hfunction library f h (.property haggregate hscalar rfl hproperty)

mutual

/-- What binding makes of an expression is what the expression denotes, and the slots that it adds are asked for. -/
theorem expr_denotes : ∀ (x : Expr) (s s' : BindState) (e : TypedExpr), s.Numbered → expr clause x s = .ok e s' →
    s.Collects x.calls s' ∧ x.Denotes s.scopes.entries s'.scopes.aggregates e
  | .literal v, s, s', e, _, h => by
    obtain ⟨rfl, rfl⟩ := pure_eq_ok.mp h
    exact ⟨.refl s, rfl⟩
  | .parens x, s, s', e, hs, h => expr_denotes x s s' e hs h
  | .column aliasName name, s, s', e, _, h => by
    obtain ⟨hscopes, hdenotes⟩ := column_denotes h s'.scopes.aggregates
    exact ⟨.same (by rw [hscopes]) (by rw [hscopes]), hdenotes⟩
  | .call aliasName name args, s, s', e, hs, h => by
    obtain ⟨typed, s₁, hargs, h⟩ := bind_eq_ok.mp h
    obtain ⟨hcollects, htyped⟩ := exprs_denote args s s₁ typed hs hargs
    rw [← hcollects.entries] at htyped
    obtain ⟨hcollects₁, he⟩ := call_denotes (hcollects.numbered hs) h htyped
    exact ⟨(hcollects.trans hcollects₁).weaken (by simp [Expr.calls]), hcollects.entries ▸ he⟩
  | .binary op left right, s, s', e, hs, h => by
    obtain ⟨l, s₁, r, ty, hl, hr, hty, rfl⟩ := binary_eq_ok h
    obtain ⟨hcollects, hl⟩ := expr_denotes left s s₁ l hs hl
    obtain ⟨hcollects₁, hr⟩ := expr_denotes right s₁ s' r (hcollects.numbered hs) hr
    exact ⟨hcollects.trans hcollects₁, l, r, ty, .mono hcollects₁.aggregates left l hl, hcollects.entries ▸ hr, hty, rfl⟩
  | .unary op operand, s, s', e, hs, h => by
    obtain ⟨o, ty, ho, hty, rfl⟩ := unary_eq_ok h
    obtain ⟨hcollects, ho⟩ := expr_denotes operand s s' o hs ho
    exact ⟨hcollects, o, ty, ho, hty, rfl⟩
  | .inList operand items, s, s', e, hs, h => by
    obtain ⟨o, s₁, es, ho, hes, hkinds, hamong⟩ := inList_eq_ok_iff.mp h
    obtain ⟨hcollects, ho⟩ := expr_denotes operand s s₁ o hs ho
    obtain ⟨hcollects₁, hes⟩ := exprs_denote items s₁ s' es (hcollects.numbered hs) hes
    exact ⟨hcollects.trans hcollects₁, o, es, .mono hcollects₁.aggregates operand o ho, hcollects.entries ▸ hes,
      hkinds, hamong⟩

theorem exprs_denote : ∀ (xs : List Expr) (s s' : BindState) (es : List TypedExpr), s.Numbered →
    exprs clause xs s = .ok es s' →
    s.Collects (Expr.callsAll xs) s' ∧ DenotesAll s.scopes.entries s'.scopes.aggregates xs es
  | [], s, s', es, _, h => by
    obtain ⟨rfl, rfl⟩ := pure_eq_ok.mp h
    exact ⟨.refl s, rfl⟩
  | x :: xs, s, s', es, hs, h => by
    obtain ⟨e, s₁, he, h⟩ := bind_eq_ok.mp h
    obtain ⟨rest, hrest, rfl⟩ := bind_pure_eq_ok.mp h
    obtain ⟨hcollects, he⟩ := expr_denotes x s s₁ e hs he
    obtain ⟨hcollects₁, hrest⟩ := exprs_denote xs s₁ s' rest (hcollects.numbered hs) hrest
    exact ⟨hcollects.trans hcollects₁, e, rest, .mono hcollects₁.aggregates x e he, hcollects.entries ▸ hrest, rfl⟩

end

theorem condition_denotes {x : Expr} (hs : s.Numbered) (h : condition clause x s = .ok e s') :
    s.Collects x.calls s' ∧ x.Denotes s.scopes.entries s'.scopes.aggregates e :=
  expr_denotes x s s' e hs (condition_eq_ok h).1

end Bind

/-! ### FROM clauses -/

/-- The source as expressions see it. -/
def BoundSource.entry (b : BoundSource) : SourceEntry where
  aliasName := b.aliasName
  cursor := b.cursor
  columns := b.columns
  schema := match b.origin with
    | .schema schema name .. => some (name, schema)
    | .table _ => none

/-- The join conditions that sources are given, one place for each source. A join gives its condition to the last source of
its right side, in place of the one that it may have. -/
def FromSource.kept : FromSource → List (Option Expr)
  | .schema .. | .named .. => [none]
  | .join left right on => left.kept ++ right.kept.dropLast ++ [some on]

theorem FromSource.kept_ne_nil (x : FromSource) : x.kept ≠ [] := by
  cases x <;> simp [kept]

/-- Sources one after another, each with what the condition at its place denotes, in sight of the sources `before` it and
of its own. -/
inductive JoinsResolve : SourceList → List (Option Expr) → List BoundSource → Prop
  | nil {before : SourceList} : JoinsResolve before [] []
  | cons {before : SourceList} {on : Option Expr} {b : BoundSource} {conditions : List (Option Expr)}
      {sources : List BoundSource} (head : Option.Rel (fun x t => x.Denotes (before ++ [b.entry]) [] t) on b.on)
      (rest : JoinsResolve (before ++ [b.entry]) conditions sources) :
      JoinsResolve before (on :: conditions) (b :: sources)

namespace JoinsResolve

variable {before : SourceList} {conditions more : List (Option Expr)} {sources others : List BoundSource}

theorem append (h : JoinsResolve before conditions sources)
    (h' : JoinsResolve (before ++ sources.map BoundSource.entry) more others) :
    JoinsResolve before (conditions ++ more) (sources ++ others) := by
  induction h with
  | nil => simpa using h'
  | cons head rest ih => exact .cons head (ih (by simpa using h'))

theorem setLast {on : Expr} {test : TypedExpr} (h : JoinsResolve before conditions sources) (hne : sources ≠ [])
    (htest : on.Denotes (before ++ sources.map BoundSource.entry) [] test) :
    JoinsResolve before (conditions.dropLast ++ [some on]) (setLastCondition test sources) := by
  induction h with
  | nil => exact absurd rfl hne
  | @cons before c b conditions sources head rest ih =>
    cases rest with
    | nil => exact .cons (.some htest) .nil
    | @cons _ _ b' _ sources head' rest' =>
      rw [List.map_cons, ← List.singleton_append, ← List.append_assoc] at htest
      exact .cons head (ih (List.cons_ne_nil _ _) htest)

end JoinsResolve

/-- The sources of a FROM clause are what its aliases stand for, and their conditions are the ones kept. -/
theorem Bind.fromSource_resolves {env : Environment} : ∀ (x : FromSource) (s s' : BindState)
    (bound : SourceList × List BoundSource), s.scopes.aggregates = [] → fromSource env x s = .ok bound s' →
    bound.1 = bound.2.map BoundSource.entry ∧ JoinsResolve s.scopes.entries x.kept bound.2
  | .schema c aliasName, s, s', bound, _, h => by
    obtain ⟨_, _, _, _, -, -, rfl, -⟩ := schema_eq_ok h
    exact ⟨rfl, .cons .none .nil⟩
  | .named name aliasName, s, s', bound, _, h => by
    obtain ⟨_, -, -, rfl⟩ := named_eq_ok h
    exact ⟨rfl, .cons .none .nil⟩
  | .join left right on, s, s', bound, haggregates, h => by
    obtain ⟨l, r, test, s₁, scopes₂, s₃, scopes₄, s₅, hleft, hshowLeft, hright, -, hshowRight, htest, rfl, rfl⟩ :=
      join_eq_ok_iff.mp h
    obtain ⟨-, hscopes₁, -⟩ := fromSource_ok left { s with scopes := s.scopes.push .join } s₁ l haggregates hleft
    obtain ⟨hl, hresolves⟩ := fromSource_resolves left { s with scopes := s.scopes.push .join } s₁ l haggregates hleft
    rw [hscopes₁] at hshowLeft
    rw [ScopeStack.entries_push_join] at hresolves
    have hentries₂ : scopes₂.entries = s.scopes.entries ++ l.2.map BoundSource.entry := by
      rw [ScopeStack.entries_insert hshowLeft, ScopeStack.entries_push_join, hl]
    have haggregates₂ : scopes₂.aggregates = [] := by
      rw [ScopeStack.aggregates_insert hshowLeft, ScopeStack.aggregates_push_join, haggregates]
    obtain ⟨hbound, hscopes₃, -⟩ := fromSource_ok right _ s₃ r haggregates₂ hright
    obtain ⟨hr, hresolves₂⟩ := fromSource_resolves right _ s₃ r haggregates₂ hright
    rw [hscopes₃] at hshowRight
    rw [hentries₂] at hresolves₂
    -- The condition is bound in sight of both sides, and no aggregate comes with it.
    have hentries₄ : scopes₄.entries = s.scopes.entries ++ (l.2 ++ r.2).map BoundSource.entry := by
      rw [ScopeStack.entries_insert hshowRight, hentries₂, hr, List.map_append, List.append_assoc]
    have haggregates₄ : scopes₄.aggregates = [] := by
      rw [ScopeStack.aggregates_insert hshowRight, haggregates₂]
    obtain ⟨-, hdenotes⟩ := condition_denotes (BindState.numbered_of_nil haggregates₄) htest
    rw [(condition_ok htest).1.scopes_eq rfl, haggregates₄, hentries₄] at hdenotes
    have hne : l.2 ++ r.2 ≠ [] := List.append_ne_nil_of_right_ne_nil _ hbound.nonempty
    refine ⟨?_, ?_⟩
    · obtain ⟨init, b, hlast⟩ := (List.eq_nil_or_concat' _).resolve_left hne
      rw [hl, hr, ← List.map_append, hlast, setLastCondition_concat, List.map_append, List.map_append]
      rfl
    · have hlast := (hresolves.append hresolves₂).setLast hne hdenotes
      rwa [List.dropLast_append_of_ne_nil right.kept_ne_nil] at hlast

/-! ### Queries -/

def SelectItem.calls : SelectItem → List Expr
  | .star => []
  | .field x _ => x.calls

/-- The calls that may be aggregates: those in the condition on groups and in the fields. -/
def Query.groupCalls (x : Query) : List Expr :=
  ((x.groupBy.bind GroupBy.having).map Expr.calls).getD [] ++ x.fields.flatMap SelectItem.calls

/-- The sources of the query as its clauses see them. -/
def BoundQuery.visible (q : BoundQuery) : SourceList := q.sources.map BoundSource.entry

/-- A star stands for the columns of all sources. -/
def SelectItem.ResolvesTo (visible : SourceList) (slots : List AggregateSlot) : SelectItem → List BoundField → Prop
  | .star, fields => fields = Bind.starFields visible
  | .field x aliasName, fields => ∃ t, x.Denotes visible slots t ∧ fields = [⟨aliasName.getD x.text, t⟩]

/-- Each clause of a query is bound to what it denotes, and the aggregates are those that its calls ask for. Rows are
filtered and keys are formed before there are aggregates. -/
structure Query.ResolvesTo (x : Query) (q : BoundQuery) : Prop where
  joins : JoinsResolve [] x.source.kept q.sources
  filter : Option.Rel (fun y t => y.Denotes q.visible [] t) x.filter q.filter
  grouped : ∀ g, x.groupBy = some g → ∃ keys having, q.grouping = some ⟨keys, having, false⟩ ∧
    Expr.DenotesAll q.visible [] g.keys keys ∧
    Option.Rel (fun y t => y.Denotes q.visible q.slots t) g.having having
  ungrouped : x.groupBy = none → q.grouping = if q.slots = [] then none else some Grouping.single
  fields : ∃ parts, q.fields = parts.flatten ∧ List.Forall₂ (SelectItem.ResolvesTo q.visible q.slots) x.fields parts
  numbered : ∀ (k : Nat) (a : AggregateSlot), q.slots[k]? = some a → a.slot = k
  distinct : (q.slots.map AggregateSlot.text).Nodup
  requested : ∀ a ∈ q.slots, ∃ y ∈ x.groupCalls, ∃ ty, y.Requests q.visible q.slots ty a

theorem SelectItem.ResolvesTo.mono {visible : SourceList} {slots slots' : List AggregateSlot} (h : slots <+: slots')
    {item : SelectItem} {fields : List BoundField} (hitem : item.ResolvesTo visible slots fields) :
    item.ResolvesTo visible slots' fields := by
  cases item with
  | star => exact hitem
  | field x aliasName =>
    obtain ⟨t, ht, hfields⟩ := hitem
    exact ⟨t, .mono h x t ht, hfields⟩

namespace Bind

open BindState

variable {env : Environment} {s s' : BindState}

theorem optional_denotes {clause : Clause} {x : Option Expr} {test : Option TypedExpr} (hs : s.Numbered)
    (h : optional clause x s = .ok test s') : s.Collects ((x.map Expr.calls).getD []) s' ∧
      Option.Rel (fun y t => y.Denotes s.scopes.entries s'.scopes.aggregates t) x test := by
  cases x with
  | none =>
    obtain ⟨rfl, rfl⟩ := pure_eq_ok.mp h
    exact ⟨.refl s, .none⟩
  | some x =>
    obtain ⟨e, he, rfl⟩ := bind_pure_eq_ok.mp h
    obtain ⟨hcollects, hdenotes⟩ := condition_denotes hs he
    exact ⟨hcollects, .some hdenotes⟩

theorem selectItem_denotes {item : SelectItem} {fields : List BoundField} (hs : s.Numbered)
    (h : selectItem s.scopes.entries item s = .ok fields s') :
    s.Collects item.calls s' ∧ item.ResolvesTo s.scopes.entries s'.scopes.aggregates fields := by
  cases item with
  | star =>
    obtain ⟨rfl, rfl⟩ := pure_eq_ok.mp h
    exact ⟨.refl s, rfl⟩
  | field x aliasName =>
    obtain ⟨e, he, rfl⟩ := bind_pure_eq_ok.mp h
    obtain ⟨hcollects, hdenotes⟩ := expr_denotes _ _ _ _ hs he
    exact ⟨hcollects, e, hdenotes, rfl⟩

theorem selectItems_denote {items : List SelectItem} {fields : List BoundField} (hs : s.Numbered)
    (h : selectItems s.scopes.entries items s = .ok fields s') :
    s.Collects (items.flatMap SelectItem.calls) s' ∧ ∃ parts, fields = parts.flatten ∧
      List.Forall₂ (SelectItem.ResolvesTo s.scopes.entries s'.scopes.aggregates) items parts := by
  induction items generalizing s s' fields with
  | nil =>
    obtain ⟨rfl, rfl⟩ := pure_eq_ok.mp h
    exact ⟨.refl s, [], rfl, .nil⟩
  | cons item items ih =>
    obtain ⟨these, s₁, hthese, h⟩ := bind_eq_ok.mp h
    obtain ⟨rest, hrest, rfl⟩ := bind_pure_eq_ok.mp h
    obtain ⟨hcollects, hitem⟩ := selectItem_denotes hs hthese
    rw [← hcollects.entries] at hrest
    obtain ⟨hcollects₁, parts, rfl, hparts⟩ := ih (hcollects.numbered hs) hrest
    exact ⟨hcollects.trans hcollects₁, these :: parts, rfl,
      .cons (hitem.mono hcollects₁.aggregates) (hcollects.entries ▸ hparts)⟩

theorem fields_denote {name : String} {items : List SelectItem} {bound : List BoundField} (hs : s.Numbered)
    (h : fields name s.scopes.entries items s = .ok bound s') :
    s.Collects (items.flatMap SelectItem.calls) s' ∧ ∃ parts, bound = parts.flatten ∧
      List.Forall₂ (SelectItem.ResolvesTo s.scopes.entries s'.scopes.aggregates) items parts := by
  obtain ⟨found, s₁, hfound, h⟩ := bind_eq_ok.mp h
  cases hrepeated : Column.repeatedName? (found.map BoundField.name) with
  | some name =>
    rw [hrepeated] at h
    cases h
  | none =>
    rw [hrepeated] at h
    obtain ⟨rfl, rfl⟩ := pure_eq_ok.mp h
    exact selectItems_denote hs hfound

theorem popQuery_aggregates {slots : List AggregateSlot} (h : popQuery s = .ok slots s') :
    slots = s.scopes.aggregates := by
  cases hscopes : s.scopes with
  | nil => simp [popQuery, hscopes, ScopeStack.popQuery] at h
  | cons f rest =>
    by_cases hkind : f.kind = .query
    · rw [popQuery_apply hkind hscopes] at h
      cases h
      simp [ScopeStack.aggregates, ScopeStack.slots, hkind]
    · simp [popQuery, hscopes, ScopeStack.popQuery, hkind] at h

theorem grouping_denotes {x : Option GroupBy} {g : Option Grouping} (hs : s.Numbered) (h : grouping x s = .ok g s') :
    s.Collects (((x.bind GroupBy.having).map Expr.calls).getD []) s' ∧ (x = none → g = none) ∧
      ∀ g₀, x = some g₀ → ∃ keys having, g = some ⟨keys, having, false⟩ ∧
        Expr.DenotesAll s.scopes.entries s.scopes.aggregates g₀.keys keys ∧
        Option.Rel (fun y t => y.Denotes s.scopes.entries s'.scopes.aggregates t) g₀.having having := by
  cases x with
  | none =>
    obtain ⟨rfl, rfl⟩ := pure_eq_ok.mp h
    exact ⟨.refl s, fun _ => rfl, nofun⟩
  | some g₀ =>
    obtain ⟨keys, s₁, hkeys, h⟩ := bind_eq_ok.mp h
    obtain ⟨having, hhaving, rfl⟩ := bind_pure_eq_ok.mp h
    have hscopes := (exprs_ok _ _ _ _ hkeys).1.scopes_eq rfl
    obtain ⟨hcollects, hdenote⟩ := exprs_denote _ _ _ _ hs hkeys
    obtain ⟨hcollects₁, hrel⟩ := optional_denotes (hcollects.numbered hs) hhaving
    rw [hscopes] at hdenote hrel
    have hsame : s.Collects [] s₁ := .same (by rw [hscopes]) (by rw [hscopes])
    refine ⟨hsame.trans hcollects₁, nofun, ?_⟩
    rintro _ ⟨⟩
    exact ⟨keys, having, rfl, hdenote, hrel⟩

/-- Every clause of a query that is bound is bound to what it denotes. -/
theorem query_resolves {x : Query} {q : BoundQuery} (h : query env x s = .ok q s') : x.ResolvesTo q := by
  obtain ⟨⟨entries, sources⟩, s₂, scopes₃, filter, s₄, group, s₅, fields, s₆, slots, hfrom, hshow, hfilter, hgrouping,
    hfields, hpop, rfl⟩ := query_eq_ok_iff.mp h
  obtain ⟨-, hscopes₂, -⟩ := fromSource_ok x.source _ s₂ (entries, sources) rfl hfrom
  obtain ⟨hvisible, hjoins⟩ := fromSource_resolves x.source _ s₂ (entries, sources) rfl hfrom
  obtain rfl : entries = sources.map BoundSource.entry := hvisible
  obtain rfl := popQuery_aggregates hpop
  rw [hscopes₂] at hshow
  have hentries₃ : scopes₃.entries = sources.map BoundSource.entry := by
    rw [ScopeStack.entries_insert hshow, ScopeStack.entries_push_query, List.nil_append]
  have haggregates₃ : scopes₃.aggregates = [] := ScopeStack.aggregates_insert hshow
  have hnumbered₃ : ({ s₂ with scopes := scopes₃ } : BindState).Numbered := numbered_of_nil haggregates₃
  -- Up to the keys there are no aggregates; then HAVING and the fields add theirs.
  obtain ⟨hcollects₄, hfilter'⟩ := optional_denotes hnumbered₃ hfilter
  have hscopes₄ : s₄.scopes = scopes₃ := (optional_ok hfilter).1.scopes_eq rfl
  have hnumbered₄ := hcollects₄.numbered hnumbered₃
  obtain ⟨hcollects₅, hnone, hsome⟩ := grouping_denotes hnumbered₄ hgrouping
  rw [hscopes₄, hentries₃] at hsome
  have hentries₅ : s₅.scopes.entries = sources.map BoundSource.entry := by
    rw [hcollects₅.entries, hscopes₄, hentries₃]
  rw [← hentries₅] at hfields
  obtain ⟨hcollects₆, hparts⟩ := fields_denote (hcollects₅.numbered hnumbered₄) hfields
  rw [hentries₅] at hparts
  have hcollects := hcollects₅.trans hcollects₆
  refine ⟨hjoins, ?_, ?_, ?_, hparts, hcollects.numbered hnumbered₄, ?_, ?_⟩
  · rwa [hscopes₄, haggregates₃, hentries₃] at hfilter'
  · rintro ⟨written, condition⟩ hg
    obtain ⟨keys, having, rfl, hkeys, hhaving⟩ := hsome _ hg
    rw [haggregates₃] at hkeys
    refine ⟨keys, having, rfl, hkeys, ?_⟩
    cases hhaving with
    | none => exact .none
    | some hdenotes => exact .some (.mono hcollects₆.aggregates _ _ hdenotes)
  · intro hg
    obtain rfl := hnone hg
    cases s₆.scopes.aggregates <;> rfl
  · refine hcollects.distinct ?_
    rw [hscopes₄, haggregates₃]
    exact List.nodup_nil
  · intro a ha
    rcases hcollects.requested a ha with hold | ⟨y, hy, ty, hrequests⟩
    · rw [hscopes₄, haggregates₃] at hold
      cases hold
    · rw [hscopes₄, hentries₃] at hrequests
      exact ⟨y, hy, ty, hrequests⟩

end Bind

end TabularQuery
