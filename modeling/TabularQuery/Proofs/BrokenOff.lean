import TabularQuery.Proofs.Outcomes

/-!
Sources that break off. One and the same query, over sources that bring the same rows except that some fail earlier than
others: either it does not come to such a failure, and then nothing is different, or it fails with it.
-/

namespace TabularQuery

variable {α β σ : Type} {F : Error → Prop}

/-- The same outcome, unless it is one of some failures. -/
def SameUnless (F : Error → Prop) (r r' : Except Error α) : Prop := r = r' ∨ ∃ e, F e ∧ r = .error e

namespace SameUnless

variable {r r' : Except Error α}

theorem refl (r : Except Error α) : SameUnless F r r := .inl rfl

theorem bind {f g : α → Except Error β} (h : SameUnless F r r') (hfg : ∀ a, SameUnless F (f a) (g a)) :
    SameUnless F (r >>= f) (r' >>= g) := by
  rcases h with rfl | ⟨e, he, rfl⟩
  · cases r with
    | error e => exact refl _
    | ok a => exact hfg a
  · exact .inr ⟨e, he, rfl⟩

theorem map (f : α → β) (h : SameUnless F r r') : SameUnless F (f <$> r) (f <$> r') := by
  rcases h with rfl | ⟨e, he, rfl⟩
  · exact refl _
  · exact .inr ⟨e, he, rfl⟩

theorem mapM {xs : List α} {f g : α → Except Error β} (h : ∀ x ∈ xs, SameUnless F (f x) (g x)) :
    SameUnless F (xs.mapM f) (xs.mapM g) := by
  induction xs with
  | nil => exact refl _
  | cons x xs ih =>
    obtain ⟨hx, hxs⟩ := List.forall_mem_cons.mp h
    rw [List.mapM_cons, List.mapM_cons]
    apply hx.bind
    intro y
    apply (ih hxs).bind
    intro ys
    exact refl _

end SameUnless

/-! ### Events -/

/-- The same events, unless one of some failures breaks them off. -/
inductive BrokenOff (F : Error → Prop) : List (Except Error α) → List (Except Error α) → Prop
  | nil : BrokenOff F [] []
  | cons (x : Except Error α) {xs ys : List (Except Error α)} (h : BrokenOff F xs ys) : BrokenOff F (x :: xs) (x :: ys)
  | failure {e : Error} (he : F e) (xs ys : List (Except Error α)) : BrokenOff F (.error e :: xs) ys

namespace BrokenOff

variable {xs ys zs ws : List (Except Error α)}

theorem refl (xs : List (Except Error α)) : BrokenOff F xs xs := by
  induction xs with
  | nil => exact nil
  | cons x xs ih => exact ih.cons x

theorem append (h : BrokenOff F xs ys) (h' : BrokenOff F zs ws) : BrokenOff F (xs ++ zs) (ys ++ ws) := by
  induction h with
  | nil => exact h'
  | cons x _ ih => exact ih.cons x
  | failure he xs ys => exact failure he _ _

theorem guarded (test : Except Error Bool) (h : BrokenOff F xs ys) :
    BrokenOff F (guarded test xs) (TabularQuery.guarded test ys) := by
  rcases test with e | _ | _
  · exact refl _
  · exact refl _
  · exact h

theorem eachRow {rows rows' : Delivery} (h : BrokenOff F rows rows') {f g : List Value → List (Except Error α)}
    (hfg : ∀ row, BrokenOff F (f row) (g row)) : BrokenOff F (eachRow rows f) (TabularQuery.eachRow rows' g) := by
  induction h with
  | nil => exact nil
  | cons x _ ih =>
    cases x with
    | error e => exact ih.cons _
    | ok row => exact (hfg row).append ih
  | failure he rows rows' => exact failure he _ _

/-- What takes up events in order comes to the same, unless it comes to the failure. -/
theorem consume (body : α → σ → Except Error (Progress σ)) (h : BrokenOff F xs ys) (s : σ) :
    SameUnless F (consume body xs s) (TabularQuery.consume body ys s) := by
  induction h generalizing s with
  | nil => exact .refl _
  | cons x _ ih =>
    cases x with
    | error e => exact .refl _
    | ok a =>
      refine (SameUnless.refl (body a s)).bind fun p => ?_
      cases p with
      | more s' => exact ih s'
      | done s' => exact .refl _
  | failure he xs ys => exact .inr ⟨_, he, rfl⟩

end BrokenOff

namespace Reader

/-- Nested loops break off where one of their sources does. -/
theorem brokenOff_visits (r : Reader) (filter : Option TypedExpr)
    {supplies supplies' : List (BoundSource × Except Error Delivery)}
    (h : List.Forall₂ (fun x y => y.1 = x.1 ∧ Matching (BrokenOff F) x.2 y.2) supplies supplies') (s : Scene) :
    BrokenOff F (r.visits filter supplies s) (r.visits filter supplies' s) := by
  induction h generalizing s with
  | nil => exact .refl _
  | @cons x y supplies supplies' hxy _ ih =>
    obtain ⟨b, brought⟩ := x
    obtain ⟨b', brought'⟩ := y
    obtain ⟨rfl, hbrought⟩ : b' = b ∧ Matching (BrokenOff F) brought brought' := hxy
    cases hbrought with
    | error e => exact .refl _
    | ok hrows => exact hrows.eachRow fun row => .guarded _ (ih _)

theorem sameUnless_output (r : Reader) (q : BoundQuery) {events events' : List (Except Error Scene)}
    (h : BrokenOff F events events') (t : Table) : SameUnless F (r.output q events t) (r.output q events' t) := by
  unfold output
  cases q.grouping with
  | none => exact (h.consume _ _).map _
  | some g => exact (h.consume _ _).bind fun gathered => .refl _

end Reader

/-! ### Statements -/

variable {context context' : SourceContext}

/-- In one context the sources of a query bring what they bring in the other, unless one of some failures breaks it
off. -/
def BoundQuery.BreaksOff (F : Error → Prop) (context context' : SourceContext) (q : BoundQuery) : Prop :=
  ∀ b ∈ q.sources, ∀ tables, Matching (BrokenOff F) (b.origin.delivery b.columns context tables)
    (b.origin.delivery b.columns context' tables)

theorem BoundQuery.BreaksOff.rows {q : BoundQuery} (h : q.BreaksOff F context context') (tables : NamedRows) :
    SameUnless F (q.rows context tables) (q.rows context' tables) := by
  have hdeliveries : List.Forall₂ (fun x y => y.1 = x.1 ∧ Matching (BrokenOff F) x.2 y.2) (q.deliveries context tables)
      (q.deliveries context' tables) := by
    unfold deliveries
    rw [List.forall₂_map_left_iff, List.forall₂_map_right_iff, List.forall₂_same]
    intro b hb
    exact ⟨rfl, h b hb tables⟩
  have hvisits := Reader.popped.brokenOff_visits q.filter hdeliveries .empty
  exact (Reader.popped.sameUnless_output q hvisits _).map _

theorem BoundSet.sameUnless_rows {x : BoundSet} (h : ∀ q ∈ x.queries, q.BreaksOff F context context')
    (tables : NamedRows) : SameUnless F (x.rows context tables) (x.rows context' tables) := by
  induction x with
  | query q => exact (h q List.mem_cons_self).rows tables
  | operation op name take keys left right ihl ihr =>
    obtain ⟨hleft, hright⟩ := List.forall_mem_append.mp h
    rw [rows, rows]
    apply (ihl hleft).bind
    intro l
    apply (ihr hright).bind
    intro r
    exact .refl _

theorem sameUnless_definedRows {xs : List BoundTable}
    (h : ∀ q ∈ xs.flatMap fun t => t.body.queries, q.BreaksOff F context context') (tables : NamedRows) :
    SameUnless F (definedRows context tables xs) (definedRows context' tables xs) := by
  induction xs generalizing tables with
  | nil => exact .refl _
  | cons t xs ih =>
    obtain ⟨hbody, hrest⟩ := List.forall_mem_append.mp h
    rw [definedRows, definedRows]
    apply (BoundSet.sameUnless_rows hbody tables).bind
    intro rows
    exact ih hrest _

theorem BoundStatement.sameUnless_rows {x : BoundStatement} (h : ∀ q ∈ x.queries, q.BreaksOff F context context') :
    SameUnless F (x.rows context) (x.rows context') := by
  cases x with
  | query tables body =>
    obtain ⟨htables, hbody⟩ := List.forall_mem_append.mp h
    rw [rows, rows]
    apply (sameUnless_definedRows htables []).bind
    intro defined
    exact BoundSet.sameUnless_rows hbody defined
  | describe name method columns => exact .refl _

/-- A program comes to a result in either context, and in the first it is that in the second or one of the failures. -/
theorem sameUnless_yields {env : Environment} {xs : List Statement} {b : BoundProgram} {p : Program}
    (henv : env.Quiet context) (henv' : env.Quiet context') (hbind : bind env xs = .ok b) (hgen : generate b = .ok p)
    (h : ∀ q ∈ b.queries, q.BreaksOff F context context') :
    ∃ r r', p.Yields context r ∧ p.Yields context' r' ∧ SameUnless F r r' := by
  have hbound := bind_ok hbind
  obtain ⟨statements, libraries, cursorCount⟩ := b
  obtain rfl | ⟨before, last, rfl⟩ := List.eq_nil_or_concat' statements
  · cases hgen
  · refine ⟨_, _, yields_generate henv hbound hgen, yields_generate henv' hbound hgen, ?_⟩
    have hrows : ∀ x ∈ before ++ [last], SameUnless F (x.rows context) (x.rows context') := fun x hx =>
      BoundStatement.sameUnless_rows fun q hq => h q (List.mem_flatMap_of_mem hx hq)
    obtain ⟨hbefore, hlast⟩ := List.forall_mem_append.mp hrows
    apply (SameUnless.mapM hbefore).bind
    intro results
    exact (hlast last List.mem_cons_self).map _

end TabularQuery
