import TabularQuery.Plan.Bound
import TabularQuery.Proofs.Typing
import TabularQuery.Table.Basic

/-!
What a query goes through, without a machine. A `Reader` says what comes of expressions in a scene. In
terms of it `visits` lists, in order, the scenes in which the body of the nested loops runs, together with
the failures on the way; `consume` hands them to the body, which may stop early. The body of a plain query
is `emit`: it counts rows off and writes them.
-/

namespace TabularQuery

/-- What opening a source brings: its rows in order, each of which may fail to come. -/
abbrev Delivery := List (Except Error (List Value))

/-- A failure ends everything; a truth value decides whether to go on. -/
def guarded (test : Except Error Bool) (rest : List (Except Error α)) : List (Except Error α) :=
  match test with
  | .error e => [.error e]
  | .ok true => rest
  | .ok false => []

/-- Does a condition hold? A missing one does. -/
def Scene.test (s : Scene) : Option TypedExpr → Except Error Bool
  | none => .ok true
  | some e => (fun v => decide (v = .boolean true)) <$> e.eval s

/-- A condition that may be tested: a well-typed truth value, or none. -/
def Sight.Tests (g : Sight) (test : Option TypedExpr) : Prop :=
  ∀ e, test = some e → e.WellTyped g ∧ e.type = .boolean

theorem Scene.test_congr {g : Sight} {s t : Scene} (h : Scene.Agree g s t) {test : Option TypedExpr}
    (htest : g.Tests test) : s.test test = t.test test := by
  cases test with
  | none => rfl
  | some e => rw [Scene.test, Scene.test, TypedExpr.eval_congr h e (htest e rfl).1]

/-- What comes of every row of a source, in order. -/
def eachRow (rows : Delivery) (inside : List Value → List (Except Error α)) : List (Except Error α) :=
  rows.flatMap fun
    | .error e => [.error e]
    | .ok row => inside row

/-- What comes of conditions and of lists of expressions in a scene. -/
structure Reader where
  test : Scene → TypedExpr → Except Error Bool
  values : Scene → List TypedExpr → Except Error (List Value)
  /-- The values of expressions, taken as values of the given types. -/
  arguments : Scene → List ColumnType → List TypedExpr → Except Error (List Value)

namespace Reader

/-- Evaluation. -/
def exact : Reader where
  test s e := s.test (some e)
  values := TypedExpr.evalAll
  arguments s types es := List.zipWith Value.widen types <$> TypedExpr.evalAll s es

/-- Does a condition hold? A missing one does. -/
def passes (r : Reader) (s : Scene) : Option TypedExpr → Except Error Bool
  | none => .ok true
  | some e => r.test s e

theorem values_exact : exact.values = TypedExpr.evalAll := rfl

theorem passes_exact : exact.passes = Scene.test := by
  funext s test
  cases test <;> rfl

/-- The scenes that pass the nested loops and the filter; every source comes with what opening it
brings. -/
def visits (r : Reader) (filter : Option TypedExpr) :
    List (BoundSource × Except Error Delivery) → Scene → List (Except Error Scene)
  | [], s => guarded (r.passes s filter) [.ok s]
  | (_, .error e) :: _, _ => [.error e]
  | (source, .ok rows) :: rest, s => eachRow rows fun row =>
    let s := s.put source.cursor row
    guarded (r.passes s source.on) (r.visits filter rest s)

end Reader

/-- The sight together with the cursor of a source. -/
def Sight.add (g : Sight) (source : BoundSource) : Sight :=
  { g with cursors := g.cursors ++ [(source.cursor, source.columns)] }

variable {source : BoundSource} {filter : Option TypedExpr} {sources : List BoundSource} {row : List Value} {α σ : Type}
variable {columns : List Column} {t : Table}

theorem Sight.mem_add {g : Sight} {x : Nat × List Column} :
    x ∈ (g.add source).cursors ↔ x ∈ g.cursors ∨ x = (source.cursor, source.columns) := by
  simp [add]

/-- The sight of some sources. -/
def Sight.ofSources (sources : List BoundSource) (methods : BoundFunction → Prop) (slots : List Nat) : Sight :=
  ⟨sources.map fun b => (b.cursor, b.columns), slots, methods⟩

theorem Sight.add_ofSources (sources : List BoundSource) (b : BoundSource) (methods : BoundFunction → Prop) :
    (ofSources sources methods []).add b = ofSources (sources ++ [b]) methods [] := by
  simp [add, ofSources]

/-- Conditions of nested loops, each over what is then in sight; every source has its own cursor. -/
def Sight.Nested (filter : Option TypedExpr) : Sight → List BoundSource → Prop
  | g, [] => g.Tests filter
  | g, source :: sources =>
    (∀ x ∈ g.cursors, x.1 ≠ source.cursor) ∧ (g.add source).Tests source.on ∧
      Nested filter (g.add source) sources

theorem Sight.Nested.new {g : Sight}
    (h : Nested filter g sources) : ∀ source ∈ sources, ∀ x ∈ g.cursors, x.1 ≠ source.cursor := by
  induction sources generalizing g with
  | nil => exact nofun
  | cons source sources ih =>
    intro b hb x hx
    rcases List.mem_cons.mp hb with rfl | hb
    · exact h.1 x hx
    · exact ih h.2.2 b hb x (Sight.mem_add.mpr (.inl hx))

theorem Sight.Nested.condition {g : Sight}
    (h : Nested filter g sources) {b : BoundSource} (hb : b ∈ sources) :
    ∃ g' : Sight, g'.methods = g.methods ∧ g'.Tests b.on := by
  induction sources generalizing g with
  | nil => cases hb
  | cons source sources ih =>
    rcases List.mem_cons.mp hb with rfl | hb
    · exact ⟨g.add b, rfl, h.2.1⟩
    · obtain ⟨g', hmethods, htests⟩ := ih h.2.2 hb
      exact ⟨g', hmethods, htests⟩

theorem Scene.Fits.put {s : Scene} {g : Sight} (hs : s.Fits g)
    (hnew : ∀ x ∈ g.cursors, x.1 ≠ source.cursor)
    (hrow : RowFits source.columns row) : (s.put source.cursor row).Fits (g.add source) where
  rows c columns hmem := by
    rcases Sight.mem_add.mp hmem with hmem | hmem
    · obtain ⟨row', hrow', hfits⟩ := hs.rows c columns hmem
      exact ⟨row', by rw [Scene.put_other _ _ _ _ (hnew _ hmem), hrow'], hfits⟩
    · cases hmem
      exact ⟨row, Scene.put_same _ _ _, hrow⟩
  slots := hs.slots
  methods := hs.methods

/-- What a loop body leaves behind: it wants more, or it is done. -/
inductive Progress (σ : Type) where
  | more (state : σ)
  | done (state : σ)

def Progress.state : Progress σ → σ
  | .more s => s
  | .done s => s

/-- Where to go on. -/
def Progress.pick (p : Progress σ) (more done : α) : α :=
  match p with
  | .more _ => more
  | .done _ => done

/-- Goes on with more, unless done. -/
def Progress.andThen (p : Progress σ) (next : σ → Except Error (Progress σ)) :
    Except Error (Progress σ) :=
  match p with
  | .more s => next s
  | .done s => .ok (.done s)

/-- Hands items to a body until it is done or something fails. -/
def consume (body : α → σ → Except Error (Progress σ)) :
    List (Except Error α) → σ → Except Error (Progress σ)
  | [], s => .ok (.more s)
  | .error e :: _, _ => .error e
  | .ok a :: rest, s => body a s >>= fun p => p.andThen (consume body rest)

theorem consume_append (body : α → σ → Except Error (Progress σ))
    (xs ys : List (Except Error α)) (s : σ) :
    consume body (xs ++ ys) s =
      (consume body xs s >>= fun p => p.andThen (consume body ys)) := by
  induction xs generalizing s with
  | nil => rfl
  | cons x xs ih =>
    cases x with
    | error e => rfl
    | ok a =>
      simp only [List.cons_append, consume, bind_assoc]
      congr 1
      funext p
      cases p with
      | more s => exact ih s
      | done s => rfl

theorem consume_guarded (body : α → σ → Except Error (Progress σ))
    (test : Except Error Bool) (rest : List (Except Error α)) (s : σ) :
    consume body (guarded test rest) s =
      (test >>= fun holds => if holds then consume body rest s else .ok (.more s)) := by
  cases test with
  | error e => rfl
  | ok holds => cases holds <;> rfl

theorem consume_singleton (body : α → σ → Except Error (Progress σ)) (a : α) (s : σ) :
    consume body [.ok a] s = body a s := by
  rw [consume]
  cases body a s with
  | error e => rfl
  | ok p => cases p <;> rfl

/-- Appends a row that fits. -/
def Table.push (t : Table) (row : List Value) : Table :=
  { t with rows := t.rows.push row, indexes := t.indexes.map fun i => i.insert t.rows.size row }

theorem Table.mismatch?_of_fits (t : Table)
    (h : RowFits columns row) : t.mismatch? columns row = none := by
  induction columns generalizing row with
  | nil => cases row <;> rfl
  | cons c columns ih =>
    cases row with
    | nil => rfl
    | cons v row =>
      obtain ⟨hv, hrow⟩ := List.cons.inj h
      rw [mismatch?, if_pos hv]
      exact ih hrow

theorem Table.add_of_fits (h : RowFits t.columns row) :
    t.add row = .ok (t.push row) := by
  have hlen : row.length = t.columns.length := by simpa using congrArg List.length h
  rw [add, misfit?, if_pos hlen, t.mismatch?_of_fits h]
  rfl

theorem Table.fits_of_mismatch? (t : Table)
    (hlen : row.length = columns.length) (h : t.mismatch? columns row = none) : RowFits columns row := by
  induction columns generalizing row with
  | nil => rw [List.length_eq_zero_iff.mp hlen]; rfl
  | cons c columns ih =>
    cases row with
    | nil => cases hlen
    | cons v row =>
      rw [mismatch?] at h
      split at h
      · rename_i hv
        rw [RowFits, List.map_cons, List.map_cons, hv, ih (Nat.succ.inj hlen) h]
      · cases h

theorem Table.add_eq_ok {t' : Table} (h : t.add row = .ok t') :
    RowFits t.columns row ∧ t' = t.push row := by
  have hfits : RowFits t.columns row := by
    unfold add misfit? at h
    by_cases hlen : row.length = t.columns.length
    · cases hmismatch : t.mismatch? t.columns row with
      | none => exact t.fits_of_mismatch? hlen hmismatch
      | some e =>
        rw [if_pos hlen, hmismatch] at h
        cases h
    · rw [if_neg hlen] at h
      cases h
  rw [add_of_fits hfits] at h
  exact ⟨hfits, (Except.ok.inj h).symm⟩

/-- What is left to skip and to take, and what is written. -/
structure Tally where
  skip : Option Int64
  take : Option Int64
  table : Table

/-- A row is written, and counted if rows are. -/
def Tally.write (t : Tally) (row : List Value) : Tally :=
  { t with take := t.take.map (· - 1), table := t.table.push row }

/-- Counts a scene off and writes the fields in it. -/
def Reader.emit (r : Reader) (fields : List TypedExpr) (s : Scene) (t : Tally) : Except Error (Progress Tally) :=
  if t.skip.any (0 < ·) then .ok (.more { t with skip := t.skip.map (· - 1) })
  else if t.take.any (· ≤ 0) then .ok (.done t)
  else do
    let row ← r.values s fields
    return .more (t.write row)

/-- A table to which the fields of the query are written, scene by scene. -/
def Reader.written (r : Reader) (q : BoundQuery) (events : List (Except Error Scene)) (t : Table) : Except Error Table :=
  (fun p => p.state.table) <$> consume (r.emit (q.fields.map BoundField.expr)) events ⟨q.skip, q.take, t⟩

end TabularQuery
