import TabularQuery.Proofs.Outcomes
import TabularQuery.Proofs.Parsing
import TabularQuery.Proofs.Printing
import TabularQuery.Proofs.Scoping

/-!
Which aggregates share a slot. Calls get the same slot exactly if they have the same text, and the slot accumulates what
one of the calls of this text asks for. Texts tell calls apart if names are words: then the text of a call is read back as
the call. A name in brackets is printed without them, and may look like something else.
-/

namespace TabularQuery

open Grammar
open TokenReader (Level)

/-! ### Texts that are read back -/

variable {x : Expr} {u w toks : List Token} {ℓ : Level} {statements : List Statement} {source : String}

/-- Expressions that are read back from their texts are told apart by these. -/
theorem Written.eq_of_text {y : Expr} (hx : Written .or x) (hy : Written .or y) (htext : x.text = y.text) : x = y := by
  obtain ⟨u, stop, htokens, hstop, hphrase⟩ := (hx [] (by simp [Ends])).tokenize
  obtain ⟨u', stop', htokens', hstop', hphrase'⟩ := (hy [] (by simp [Ends])).tokenize
  rw [htext, htokens'] at htokens
  obtain ⟨rfl, hlast⟩ := List.append_inj' (Except.ok.inj htokens) rfl
  cases hlast
  have hgives := TokenReader.gives_expr hphrase (v := []) (by decide) stop [] hstop
  rw [TokenReader.gives_expr hphrase' (v := []) (by decide) stop [] hstop] at hgives
  cases hgives
  rfl

/-- The call is a phrase of its own among the tokens. -/
def CallAmong (u : List Token) (x : Expr) : Prop := ∃ v, v ⊆ u ∧ ExprPhrase .primary v x

theorem CallAmong.mono {v : List Token} (h : CallAmong u x) (hsub : u ⊆ v) : CallAmong v x := by
  obtain ⟨w, hw, hphrase⟩ := h
  exact ⟨w, fun _ ht => hsub (hw ht), hphrase⟩

theorem Grammar.CommaList.exists_phrase {α : Type} {P : List Token → α → Prop} {as : List α} (h : CommaList P u as) {a : α}
    (ha : a ∈ as) : ∃ v, v ⊆ u ∧ v.length ≤ u.length ∧ P v a := by
  induction h with
  | one phrase =>
    rw [List.mem_singleton.mp ha]
    exact ⟨_, List.Subset.refl _, Nat.le_refl _, phrase⟩
  | more phrase comma rest ih =>
    rcases List.mem_cons.mp ha with rfl | ha
    · exact ⟨_, List.subset_append_left _ _, by simp, phrase⟩
    · obtain ⟨v, hsub, hle, hv⟩ := ih ha
      exact ⟨v, fun _ ht => by simp [hsub ht], by simp; omega, hv⟩

theorem Expr.mem_callsAll {es : List Expr} : x ∈ callsAll es ↔ ∃ e ∈ es, x ∈ e.calls := by
  induction es with
  | nil => simp [callsAll]
  | cons e es ih => simp [callsAll, ih]

/-- The calls of an expression are phrases of their own. -/
theorem callAmong_of_phrase {e : Expr} (h : ExprPhrase ℓ u e) : ∀ x ∈ e.calls, CallAmong u x := by
  induction h using ExprPhrase.length_induction with
  | @step ℓ u e h ih htighter =>
    have hpart : ∀ {ℓ' : Level} {u' : List Token} {e' : Expr}, u'.length < u.length → ExprPhrase ℓ' u' e' → u' ⊆ u →
        ∀ x ∈ e'.calls, CallAmong u x :=
      fun hlt hphrase hsub x hx => (ih hlt hphrase x hx).mono hsub
    have hlist : ∀ {ℓ' : Level} {u' : List Token} {es : List Expr}, u'.length < u.length →
        CommaList (ExprPhrase ℓ') u' es → u' ⊆ u → ∀ x ∈ Expr.callsAll es, CallAmong u x := by
      intro ℓ' u' es hlt hes hsub x hx
      obtain ⟨e', he', hx⟩ := Expr.mem_callsAll.mp hx
      obtain ⟨v, hv, hle, hphrase⟩ := hes.exists_phrase he'
      exact hpart (by omega) hphrase (List.Subset.trans hv hsub) x hx
    intro x hx
    cases h with
    | tighter next phrase => exact htighter next phrase x hx
    | binary level several next left spelled right | compare level left spelled right
    | notLike left isNot isLike right =>
      rcases List.mem_append.mp hx with hx | hx
      · exact hpart (by simp) left (fun _ ht => by simp [ht]) x hx
      · exact hpart (by simp; omega) right (fun _ ht => by simp [ht]) x hx
    | inList left isIn opens list closes | notIn left isNot isIn opens list closes =>
      rcases List.mem_append.mp hx with hx | hx
      · exact hpart (by simp) left (fun _ ht => by simp [ht]) x hx
      · exact hlist (by simp; omega) list (fun _ ht => by simp [ht]) x hx
    | not keyword operand | minus isMinus operand | plus isPlus operand =>
      exact hpart (by simp) operand (fun _ ht => by simp [ht]) x hx
    | literal literal => cases hx
    | column before isName => cases hx
    | call before isName opens arguments closes =>
      rcases List.mem_cons.mp hx with rfl | hx
      · exact ⟨_, List.Subset.refl _, .call before isName opens arguments closes⟩
      · cases arguments with
        | none => cases hx
        | some list => exact hlist (by simp; omega) list (fun _ ht => by simp [ht]) x hx
    | parens opens inner closes => exact hpart (by simp) inner (fun _ ht => by simp [ht]) x hx

theorem callAmong_of_item {item : SelectItem} (h : ItemPhrase u item) : ∀ x ∈ item.calls, CallAmong u x := by
  intro x hx
  cases h with
  | star isStar => cases hx
  | field expr hasAlias =>
    exact (callAmong_of_phrase expr x hx).mono fun _ ht => by simp [ht]

theorem callAmong_of_items {items : List SelectItem} (h : CommaList ItemPhrase u items) :
    ∀ x ∈ items.flatMap SelectItem.calls, CallAmong u x := by
  intro x hx
  obtain ⟨item, hitem, hx⟩ := List.mem_flatMap.mp hx
  obtain ⟨v, hsub, -, phrase⟩ := h.exists_phrase hitem
  exact (callAmong_of_item phrase x hx).mono hsub

theorem callAmong_of_query {query : Query} (h : QueryPhrase w query) :
    ∀ x ∈ query.groupCalls, CallAmong w x := by
  obtain ⟨-, items, -, -, -, groups, -, -⟩ := h
  intro x hx
  rcases List.mem_append.mp hx with hx | hx
  · cases groups with
    | none => cases hx
    | some keyword phrase =>
      obtain ⟨isBy, list, clause⟩ := phrase
      cases clause with
      | none => cases hx
      | some keyword condition =>
        exact (callAmong_of_phrase condition x hx).mono fun _ ht => by simp [ht]
  · exact (callAmong_of_items items x hx).mono fun _ ht => by simp [ht]

theorem callAmong_of_set {set : SetExpr} (h : SetPhrase w set) :
    ∀ query ∈ set.queries, ∀ x ∈ query.groupCalls, CallAmong w x := by
  induction h with
  | query phrase =>
    intro query hquery
    rw [List.mem_singleton.mp hquery]
    exact callAmong_of_query phrase
  | operation left operator opens names closes right ih =>
    intro query hquery x hx
    rcases List.mem_append.mp hquery with hleft | hright
    · exact (ih query hleft x hx).mono fun _ ht => by simp [ht]
    · rw [List.mem_singleton.mp hright] at hx
      exact (callAmong_of_query right x hx).mono fun _ ht => by simp [ht]

theorem callAmong_of_tables {tables : List NamedTable} (h : CommaList TablePhrase w tables) :
    ∀ query ∈ tables.flatMap fun t => t.body.queries, ∀ x ∈ query.groupCalls, CallAmong w x := by
  intro query hquery x hx
  obtain ⟨table, htable, hquery⟩ := List.mem_flatMap.mp hquery
  obtain ⟨v, hsub, -, -, -, -, set, -⟩ := h.exists_phrase htable
  exact (callAmong_of_set set query hquery x hx).mono fun _ ht => hsub (by simp [ht])

theorem callAmong_of_statement {statement : Statement} (h : StatementPhrase w statement) :
    ∀ query ∈ statement.queries, ∀ x ∈ query.groupCalls, CallAmong w x := by
  intro query hquery x hx
  cases h with
  | describe keyword isCall => cases hquery
  | query defined set =>
    rcases List.mem_append.mp hquery with htables | hbody
    · cases defined with
      | none => cases htables
      | some keyword list => exact (callAmong_of_tables list query htables x hx).mono fun _ ht => by simp [ht]
    · exact (callAmong_of_set set query hbody x hx).mono fun _ ht => by simp [ht]

theorem callAmong_of_statements (h : StatementsPhrase w statements) :
    ∀ query ∈ statements.flatMap Statement.queries, ∀ x ∈ query.groupCalls, CallAmong w x := by
  induction h with
  | last statement trailing =>
    intro query hquery x hx
    rw [List.flatMap_singleton] at hquery
    exact (callAmong_of_statement statement query hquery x hx).mono fun _ ht => by simp [ht]
  | more statement separators separated rest ih =>
    intro query hquery x hx
    rcases List.mem_append.mp hquery with hfirst | hrest
    · exact (callAmong_of_statement statement query hfirst x hx).mono fun _ ht => by simp [ht]
    · exact (ih query hrest x hx).mono fun _ ht => by simp [ht]

theorem callAmong_of_parse (htoks : tokenize source = .ok toks) (hparse : parse source = .ok statements) :
    ∀ query ∈ statements.flatMap Statement.queries, ∀ x ∈ query.groupCalls, CallAmong toks x := by
  obtain ⟨body, last, s₁, rfl, hlast, hscans, -⟩ := Scanner.scans_of_tokens htoks
  have hroot : parseTokens (body ++ [last]) = .ok statements := by
    rw [parse, htoks] at hparse
    exact hparse
  obtain ⟨leading, phrase⟩ := (parseTokens_eq_ok_iff hscans.kind_ne_eof hlast [] statements).mp hroot
  intro query hquery x hx
  exact (callAmong_of_statements phrase query hquery x hx).mono fun _ ht => by simp [ht]

theorem CallAmong.written (h : CallAmong u x) (hplain : ∀ t ∈ u, PlainToken t)
    (hneg : x.noDoubleNeg) : Written .or x := by
  obtain ⟨v, hv, hphrase⟩ := h
  have hprimary : Written .primary x := written_of_phrase hphrase (fun t ht => hplain t (hv ht)) hneg
  exact ((((((hprimary.looser (ℓ := .sign) rfl).looser (ℓ := .product) rfl).looser (ℓ := .sum) rfl).looser
    (ℓ := .comparison) rfl).looser (ℓ := .not) rfl).looser (ℓ := .and) rfl).looser rfl

theorem plainToken_of_tokenize (htoks : tokenize source = .ok toks)
    (hreal : ∀ t ∈ toks, t.kind ≠ .real) (hbracket : ∀ t ∈ toks, t.kind = .identifier → t.text.toList.head? ≠ some '[') :
    ∀ t ∈ toks, PlainToken t := by
  obtain ⟨body, last, s₁, rfl, hlast, hscans, -⟩ := Scanner.scans_of_tokens htoks
  intro t ht
  refine ⟨hreal t ht, fun hkind => ?_⟩
  rcases List.mem_append.mp ht with hbody | hend
  · exact hscans.isName hbody hkind (hbracket t ht hkind)
  · rw [List.mem_singleton.mp hend, hlast] at hkind
    cases hkind

/-! ### Slots and texts -/

namespace Expr

variable {visible : SourceList} {slots : List AggregateSlot} {k : Nat} {ty : ColumnType} {x : Expr}

theorem Denotes.slot_text {aliasName : Option String} {name : String} {args : List Expr}
    (h : (Expr.call aliasName name args).Denotes visible slots (.aggregate k ty)) :
    ∃ a, slots[k]? = some a ∧ a.text = (Expr.call aliasName name args).text := by
  obtain ⟨typed, sources, target, -, -, -, hmakes⟩ := h
  cases target with
  | function f => cases hmakes
  | aggregate ty' accumulator =>
    obtain ⟨-, k', a, ha, htext, hread⟩ := hmakes
    cases hread
    exact ⟨a, ha, htext⟩

theorem Requests.type_eq (hdistinct : (slots.map AggregateSlot.text).Nodup) {ty' : ColumnType} {a : AggregateSlot}
    (h : x.Requests visible slots ty' a) (hx : x.Denotes visible slots (.aggregate k ty)) : ty' = ty := by
  obtain ⟨aliasName, name, args, sources, rfl, hargs, hsearched, hfinds, -⟩ := h
  obtain ⟨typed, sources', target, hargs', hsearched', hfinds', hmakes⟩ := hx
  obtain rfl := DenotesAll.unique hdistinct args a.args typed hargs hargs'
  cases hsearched.symm.trans hsearched'
  cases hfinds.unique hfinds'
  obtain ⟨-, k', a', -, -, hread⟩ := hmakes
  cases hread
  rfl

/-- Among these calls it is one, and so are the calls in it. -/
structure CallIn (x : Expr) (calls : List Expr) : Prop where
  isCall : ∃ aliasName name args, x = .call aliasName name args
  subset : x.calls ⊆ calls

theorem CallIn.mono {calls more : List Expr} (h : x.CallIn calls) (hsub : calls ⊆ more) : x.CallIn more :=
  ⟨h.isCall, List.Subset.trans h.subset hsub⟩

mutual

theorem callIn_of_mem : ∀ e : Expr, ∀ x ∈ e.calls, x.CallIn e.calls
  | .literal _, _, hx => nomatch hx
  | .column .., _, hx => nomatch hx
  | .parens e, x, hx => callIn_of_mem e x hx
  | .call aliasName name args, x, hx => by
    rcases List.mem_cons.mp hx with rfl | hx
    · exact ⟨⟨aliasName, name, args, rfl⟩, List.Subset.refl _⟩
    · exact (callIn_of_memAll args x hx).mono (List.subset_cons_self _ _)
  | .binary _ a b, x, hx => by
    rcases List.mem_append.mp hx with hx | hx
    · exact (callIn_of_mem a x hx).mono (List.subset_append_left _ _)
    · exact (callIn_of_mem b x hx).mono (List.subset_append_right _ _)
  | .unary _ e, x, hx => callIn_of_mem e x hx
  | .inList e items, x, hx => by
    rcases List.mem_append.mp hx with hx | hx
    · exact (callIn_of_mem e x hx).mono (List.subset_append_left _ _)
    · exact (callIn_of_memAll items x hx).mono (List.subset_append_right _ _)

theorem callIn_of_memAll : ∀ es : List Expr, ∀ x ∈ callsAll es, x.CallIn (callsAll es)
  | [], _, hx => nomatch hx
  | e :: es, x, hx => by
    rcases List.mem_append.mp hx with hx | hx
    · exact (callIn_of_mem e x hx).mono (List.subset_append_left _ _)
    · exact (callIn_of_memAll es x hx).mono (List.subset_append_right _ _)

end

end Expr

theorem Query.callIn_groupCalls {query : Query} {x : Expr} (hx : x ∈ query.groupCalls) : x.CallIn query.groupCalls := by
  rcases List.mem_append.mp hx with hx | hx
  · refine Expr.CallIn.mono ?_ (List.subset_append_left _ _)
    cases hhaving : query.groupBy.bind GroupBy.having with
    | none =>
      rw [hhaving] at hx
      cases hx
    | some e =>
      rw [hhaving] at hx
      exact e.callIn_of_mem x hx
  · obtain ⟨item, hitem, hx⟩ := List.mem_flatMap.mp hx
    refine Expr.CallIn.mono ?_ fun y hy => List.mem_append_right _ (List.mem_flatMap.mpr ⟨item, hitem, hy⟩)
    cases item with
    | star => cases hx
    | field e aliasName => exact e.callIn_of_mem x hx

theorem Query.exists_call_of_mem_groupCalls {query : Query} {x : Expr} (hx : x ∈ query.groupCalls) :
    ∃ aliasName name args, x = .call aliasName name args :=
  (callIn_groupCalls hx).isCall

section Sharing

variable {env : Environment} {written : Query} {s s' : BindState} {q : BoundQuery}

/-- Aggregate calls of a query share a slot exactly if they have the same text. The slot accumulates what one of the calls
of its text asks for; so it is what a call asks for that has its text to itself. In a query that is read from a text
without real numbers and names in brackets, no two calls have the same text, except for those with a minus sign under
another. -/
theorem slots_shared_by_text (hbound : Bind.query env written s = .ok q s') :
    (∀ x ∈ written.groupCalls, ∀ y ∈ written.groupCalls, ∀ k k' ty ty',
      x.Denotes q.visible q.slots (.aggregate k ty) → y.Denotes q.visible q.slots (.aggregate k' ty') →
      (k = k' ↔ x.text = y.text)) ∧
    (∀ x ∈ written.groupCalls, ∀ k ty, x.Denotes q.visible q.slots (.aggregate k ty) →
      ∃ a, q.slots[k]? = some a ∧ a.slot = k ∧
        (∃ y ∈ written.groupCalls, y.text = x.text ∧ ∃ ty', y.Requests q.visible q.slots ty' a) ∧
        ((∀ y ∈ written.groupCalls, y.text = x.text → y = x) → x.Requests q.visible q.slots ty a)) ∧
    ∀ source toks statements, tokenize source = .ok toks → (∀ t ∈ toks, t.kind ≠ .real) →
      (∀ t ∈ toks, t.kind = .identifier → t.text.toList.head? ≠ some '[') → parse source = .ok statements →
      written ∈ statements.flatMap Statement.queries → (∀ x ∈ written.groupCalls, x.noDoubleNeg) →
      ∀ x ∈ written.groupCalls, ∀ y ∈ written.groupCalls, x.text = y.text → x = y := by
  have hresolves := Bind.query_resolves hbound
  have hslot : ∀ x ∈ written.groupCalls, ∀ k ty, x.Denotes q.visible q.slots (.aggregate k ty) →
      ∃ a, q.slots[k]? = some a ∧ a.text = x.text := by
    intro x hx k ty hdenotes
    obtain ⟨aliasName, name, args, rfl⟩ := Query.exists_call_of_mem_groupCalls hx
    exact hdenotes.slot_text
  refine ⟨?_, ?_, ?_⟩
  · intro x hx y hy k k' ty ty' hdenotes hdenotes'
    obtain ⟨a, ha, htext⟩ := hslot x hx k ty hdenotes
    obtain ⟨a', ha', htext'⟩ := hslot y hy k' ty' hdenotes'
    constructor
    · rintro rfl
      cases ha.symm.trans ha'
      exact htext.symm.trans htext'
    · intro hsame
      exact Expr.slot_unique hresolves.distinct ha ha' (htext.trans (hsame.trans htext'.symm))
  · intro x hx k ty hdenotes
    obtain ⟨a, ha, htext⟩ := hslot x hx k ty hdenotes
    obtain ⟨y, hy, ty', hrequests⟩ := hresolves.requested a (List.mem_of_getElem? ha)
    have hsame : y.text = x.text := by
      obtain ⟨_, _, _, _, -, -, -, -, -, htext'⟩ := hrequests
      exact htext'.symm.trans htext
    refine ⟨a, ha, hresolves.numbered k a ha, ⟨y, hy, hsame, ty', hrequests⟩, fun halone => ?_⟩
    obtain rfl := halone y hy hsame
    exact hrequests.type_eq hresolves.distinct hdenotes ▸ hrequests
  · intro source toks statements htoks hreal hbracket hparse hquery hneg x hx y hy htext
    have hplain := plainToken_of_tokenize htoks hreal hbracket
    have hwritten : ∀ x ∈ written.groupCalls, Written .or x :=
      fun x hx => (callAmong_of_parse htoks hparse written hquery x hx).written hplain (hneg x hx)
    exact (hwritten x hx).eq_of_text (hwritten y hy) htext

/-- Two columns are counted, the first one twice. -/
theorem slots_shared_by_text_words :
    let schema : MemorySchema := ⟨"m", [("t", ⟨[⟨"n", .text⟩, ⟨"k", .text⟩], []⟩)], .standard⟩
    let env : Environment := ⟨⟨[("m", schema.toSchema)]⟩, .empty⟩
    let source := "select Count(n) as x, Count(a.k) as y from #m.t() a group by k having Count(n) > 1"
    ∃ toks statements written q s', tokenize source = .ok toks ∧ (∀ t ∈ toks, t.kind ≠ .real) ∧
      (∀ t ∈ toks, t.kind = .identifier → t.text.toList.head? ≠ some '[') ∧
      parse source = .ok statements ∧ written ∈ statements.flatMap Statement.queries ∧
      (∀ x ∈ written.groupCalls, x.noDoubleNeg) ∧
      Bind.query env written .init = .ok q s' ∧
      written.groupCalls.map Expr.text = ["Count(n)", "Count(n)", "Count(a.k)"] ∧
      q.slots.map AggregateSlot.text = ["Count(n)", "Count(a.k)"] ∧
      ∀ x ∈ written.groupCalls, ∀ k ty, x.Denotes q.visible q.slots (.aggregate k ty) →
        ∃ a, q.slots[k]? = some a ∧ x.Requests q.visible q.slots ty a := by
  intro schema env source
  have hvalue : ((tokenize source).toOption >>= fun toks => (parse source).toOption >>= fun statements =>
      (statements.flatMap Statement.queries).head? >>= fun written => ((Bind.query env written).run' .init).map fun q =>
        (toks.all fun t => t.kind ≠ .real && t.text.toList.head? ≠ some '[', written.groupCalls.all Expr.noDoubleNeg,
          written.groupCalls.map Expr.text, q.slots.map AggregateSlot.text)) =
      some (true, true, ["Count(n)", "Count(n)", "Count(a.k)"], ["Count(n)", "Count(a.k)"]) := by
    rw [parse, tokenize_ofList]
    decide +kernel
  obtain ⟨toks, htoks, hvalue⟩ := Option.bind_eq_some_iff.mp hvalue
  obtain ⟨statements, hparse, hvalue⟩ := Option.bind_eq_some_iff.mp hvalue
  obtain ⟨written, hwritten, hvalue⟩ := Option.bind_eq_some_iff.mp hvalue
  obtain ⟨q, hbound, hvalue⟩ := Option.map_eq_some_iff.mp hvalue
  replace htoks := toOption_eq_some_iff.mp htoks
  replace hparse := toOption_eq_some_iff.mp hparse
  replace hwritten := List.mem_of_mem_head? hwritten
  obtain ⟨s', hbound⟩ := run'_eq_some_iff.mp hbound
  simp only [Prod.mk.injEq, Bool.and_eq_true, decide_eq_true_eq, List.all_eq_true] at hvalue
  obtain ⟨hplain, hneg, htexts, hslots⟩ := hvalue
  have hreal : ∀ t ∈ toks, t.kind ≠ .real := fun t ht => (hplain t ht).1
  have hbracket : ∀ t ∈ toks, t.kind = .identifier → t.text.toList.head? ≠ some '[' := fun t ht _ => (hplain t ht).2
  obtain ⟨-, hslot, htell⟩ := slots_shared_by_text hbound
  have hinjective := htell source toks _ htoks hreal hbracket hparse hwritten hneg
  refine ⟨toks, statements, written, q, s', htoks, hreal, hbracket, hparse, hwritten, hneg, hbound, htexts, hslots, ?_⟩
  intro x hx k ty hdenotes
  obtain ⟨a, ha, -, -, halone⟩ := hslot x hx k ty hdenotes
  exact ⟨a, ha, halone fun y hy => hinjective y hy x hx⟩

/-- Two columns of one text: the second column is named in brackets and has the name of the first one with its alias. Both
calls are read from the slot of the first, so the second column is never collected. -/
theorem bracketed_name_shares_slot :
    let columns : List Column := [⟨"n", .text⟩, ⟨"a.n", .text⟩]
    let schema : MemorySchema := ⟨"m", [("t", ⟨columns, [[.text "u", .text "v"]]⟩)], .standard⟩
    let env : Environment := ⟨⟨[("m", schema.toSchema)]⟩, .empty⟩
    let values (aliasName : Option String) (column : String) : Expr :=
      .call none "AggregateValues" [.column aliasName column]
    let written : Query := ⟨[.field (values (some "a") "n") (some "x"), .field (values none "a.n") (some "y")],
      .schema ⟨"m", "t", []⟩ (some "a"), none, none, none, none⟩
    let slot : AggregateSlot :=
      ⟨0, "AggregateValues(a.n)", ⟨"SetAggregateValues", [.text], .values⟩, [.column 0 0 "n" .text]⟩
    let q : BoundQuery := ⟨"Query1", [⟨0, "a", .schema schema.toSchema "m" "t" [], columns, none⟩], none,
      some ⟨[.literal (.integer 1)], none, true⟩, [⟨"x", .aggregate 0 .text⟩, ⟨"y", .aggregate 0 .text⟩], none, none, [slot]⟩
    parse "select AggregateValues(a.n) as x, AggregateValues([a.n]) as y from #m.t() a" = .ok [.query [] (.query written)] ∧
      Bind.query env written .init = .ok q ⟨[], 1, 1, 0, 0, ["m"]⟩ ∧
      (values none "a.n").Denotes q.visible q.slots (.aggregate 0 .text) ∧
      (Expr.column none "a.n").Denotes q.visible q.slots (.column 0 1 "a.n" .text) ∧
      env.Yields ⟨.empty, 1⟩ [.query [] (.query written)]
        (.ok ([⟨"x", .text⟩, ⟨"y", .text⟩], [[.text "u", .text "u"]])) := by
  intro columns schema env values written slot q
  have henv : env.Quiet ⟨.empty, 1⟩ := Environment.quiet_of_memory _ schema _ _
  have hcolumn : (Expr.column none "a.n").Denotes q.visible q.slots (.column 0 1 "a.n" .text) :=
    .inl ⟨_, _, _, rfl, rfl⟩
  have hparse : parse "select AggregateValues(a.n) as x, AggregateValues([a.n]) as y from #m.t() a" =
      .ok [.query [] (.query written)] := by
    rw [parse, tokenize_ofList]
    cbv
  refine ⟨hparse, by cbv, ?_, hcolumn, (Environment.yields_ok_iff henv).mpr (by decide +kernel)⟩
  exact ⟨_, _, .aggregate .text ⟨"SetAggregateValues", [.text], .values⟩, ⟨_, _, hcolumn, rfl, rfl⟩, rfl, .aggregate rfl, rfl,
    0, slot, rfl, rfl, rfl⟩

end Sharing

end TabularQuery
