import TabularQuery.Proofs.OutputRun

/-!
Procedures of queries without groups. The code makes the table and sets the counts, goes through the
nested loops with the writing of rows as their body, and halts: the table then holds what `consume`
makes of the scenes that `Reader.visits` lists.
-/

namespace TabularQuery

/-- The table as it is made, without rows. -/
def TableDeclaration.table (d : TableDeclaration) : Table := ⟨d.name, d.columns, #[], []⟩

namespace Machine

variable {ctx : RunContext} {p : Procedure} {P : Machine → Prop} {m m₁ : Machine}

/-- Every list is as long as the program says, the stacks are empty, and the stop flag is down. -/
structure Ready (program : Program) (m : Machine) : Prop where
  clear : m.frame.isClear = true
  registers : m.frame.registers.length = program.registerCount
  cursors : m.cursors.length = program.cursorCount
  rows : m.rows.length = program.cursorCount
  tables : m.tables.length = program.tables.length
  groups : m.groups.length = program.groupings.length
  running : m.cancelled = false

theorem Ready.start {program : Program} (h : m.Ready program) :
    Ready program { m with address := some 0 } :=
  ⟨h.clear, h.registers, h.cursors, h.rows, h.tables, h.groups, h.running⟩

theorem ready_init (p : Program) : (init p false).Ready p where
  clear := rfl
  registers := by simp [init, Frame.init]
  cursors := List.length_replicate
  rows := List.length_replicate
  tables := List.length_replicate
  groups := List.length_replicate
  running := rfl

/-- From `m` the procedure does what `r` says and then halts. -/
def Finishes (ctx : RunContext) (p : Procedure) (P : Machine → Prop) (m : Machine) (r : Except Error α)
    (Q : α → Machine → Prop) : Prop :=
  Runs ctx p P m r fun x m₁ => ∃ m₂, P m₁ ∧ step ctx p m₁ = .ok .halt m₂ ∧ Q x m₂

theorem step_halt (hlimit : ctx.limit = 0) {a : Nat} (haddr : m.address = some a)
    (hop : p.code[a]? = some { opcode := .halt }) :
    step ctx p m = .ok .halt { m with address := some (a + 1), count := m.count + 1 } := by
  rw [step_eq haddr hop (.inl hlimit)]
  simp only [exec, pure_apply, haddr, Option.map_some]

theorem exec_createTable {k : Nat} {d : TableDeclaration} (hd : ctx.program.tables[k]? = some d)
    (hnames : Column.repeatedName? (d.columns.map Column.name) = none) (comment : Option String) :
    exec ctx { opcode := .createTable, p1 := k, comment } m =
      .ok .next { m with tables := m.tables.set k (some d.table) } := by
  have hitem : item? ctx.program.tables (k : Int) = some d := by simp [item?, hd]
  have htable : Table.withColumns d.name d.columns = .ok d.table := by
    simp [Table.withColumns, Table.addColumns, Table.empty, hnames, TableDeclaration.table]
  simp only [exec, hitem, bind_apply, ofTable, htable, pure_apply, setTable, modify_apply, setItem,
    place?_natCast]

open QueryCode

theorem runs_limit (hlimit : ctx.limit = 0) {register : Option Nat} {count : Option Int64}
    (hsome : register.isSome = count.isSome)
    (hlt : ∀ r, register = some r → r < m.frame.registers.length) {comment : String} {start : Nat}
    (hcode : p.HasCode start (limitCode register count comment)) (haddr : m.address = some start) :
    Runs ctx p (Safe p) m (.ok ()) fun _ m₁ => ∃ f n, m₁ = { m with
        frame := f, address := some (start + (limitCode register count comment).length), count := n } ∧
      f.isClear = m.frame.isClear ∧ f.registers.length = m.frame.registers.length ∧
      f.Counts register count ∧
      ∀ other c, other ≠ register ∨ register = none → m.frame.Counts other c → f.Counts other c := by
  cases register with
  | none =>
    obtain rfl : count = none := by simpa using hsome.symm
    exact .ok ⟨m.frame, m.count, by simp [limitCode, ← haddr], rfl, rfl, rfl, fun _ _ _ h => h⟩
  | some r =>
    obtain ⟨n, rfl⟩ := Option.isSome_iff_exists.mp (show count.isSome = true from hsome.symm)
    have hexec := exec_setInteger ctx (m := { m with count := m.count + 1 }) (hlt r rfl) n comment
    refine Runs.next hlimit haddr hcode.head (safe_of_isPlain haddr hcode.head rfl) hexec haddr
      (.ok ⟨_, _, rfl, rfl, List.length_set, counts_set_self (hlt r rfl) n, ?_⟩)
    intro other c hother h
    exact counts_set_other h (hother.resolve_right nofun) n

end Machine

/-! ### What the code of a query relies on -/

/-- The program has a place for all that the query's code uses. -/
structure QuerySites.Declared (program : Program) (q : BoundQuery) (d : TableDeclaration)
    (sites : QuerySites) : Prop where
  table : program.tables[sites.table]? = some d
  columns : d.columns = q.fields.map BoundField.column
  skip : sites.skip.isSome = q.skip.isSome
  take : sites.take.isSome = q.take.isSome
  skip_lt : ∀ r, sites.skip = some r → r < program.registerCount
  take_lt : ∀ r, sites.take = some r → r < program.registerCount
  apart : sites.Apart

namespace Machine

variable {ctx : RunContext} {p : Procedure} {m : Machine} {q : BoundQuery} {sites : QuerySites}
variable {d : TableDeclaration}

open QueryCode

theorem runs_setup (hlimit : ctx.limit = 0) (hdeclared : sites.Declared ctx.program q d)
    (hnames : Column.repeatedName? (q.fields.map BoundField.name) = none)
    (hready : m.Ready ctx.program)
    (hcode : p.HasCode 0 (setupCode q sites)) (haddr : m.address = some 0) :
    Runs ctx p (Safe p) m (.ok ()) fun _ m₁ =>
      Writes sites (q.fields.map BoundField.column) m ⟨q.skip, q.take, d.table⟩ m₁ ∧ SameRows m m₁ ∧
        m₁.address = some (setupCode q sites).length := by
  have hdistinct : Column.repeatedName? (d.columns.map Column.name) = none := by
    rw [hdeclared.columns, List.map_map]
    exact hnames
  have hcreate := hcode.left.left
  have hskip := hcode.left.right
  have htake := hcode.right
  rw [List.length_append, List.length_singleton, Nat.zero_add] at htake
  refine Runs.next hlimit haddr hcreate.head (safe_of_isPlain haddr hcreate.head rfl)
    (exec_createTable hdeclared.table hdistinct _) haddr ?_
  refine Runs.bind (runs_limit hlimit hdeclared.skip ?_ hskip rfl) ?_
  · intro r hr
    exact hready.registers ▸ hdeclared.skip_lt r hr
  rintro - _ - ⟨f₁, n₁, rfl, hclear₁, hlen₁, hcounts₁, -⟩
  refine (runs_limit hlimit hdeclared.take ?_ htake rfl).mono (fun _ => id) ?_
  · intro r hr
    rw [hlen₁]
    exact hready.registers ▸ hdeclared.take_lt r hr
  rintro - _ - ⟨f₂, n₂, rfl, hclear₂, hlen₂, hcounts₂, hkept⟩
  have happart : sites.skip ≠ sites.take ∨ sites.take = none := by
    cases ht : sites.take with
    | none => exact .inr rfl
    | some r => exact .inl fun hs => hdeclared.apart r hs ht
  refine ⟨⟨?_, hlen₂.trans hlen₁, hkept _ _ happart hcounts₁, hcounts₂, rfl, ⟨hdeclared.columns, nofun, nofun⟩,
    hready.running⟩, ⟨rfl, rfl, rfl⟩, ?_⟩
  · exact (hclear₂.trans hclear₁).trans hready.clear
  · simp only [setupCode, List.length_append, List.length_singleton]

end Machine

theorem Scene.fits_empty (methods : BoundFunction → Prop) :
    Scene.empty.Fits (Sight.bare ⟨[], [], methods⟩) where
  rows _ _ hmem := by cases hmem
  slots _ hmem := by cases hmem
  methods := nofun

theorem Sight.foldl_add (before sources : List BoundSource) (methods : BoundFunction → Prop) :
    sources.foldl Sight.add (ofSources before methods []) = ofSources (before ++ sources) methods [] := by
  induction sources generalizing before with
  | nil => simp
  | cons s sources ih => simp [add_ofSources, ih]

namespace BoundQuery

/-- The query stands in a program that has a place for all that its code uses. Opening its sources
brings what `loops` says, where the tables of `T` are in their places. -/
structure Placed (ctx : RunContext) (T : Nat → Option Table) (methods : BoundFunction → Prop)
    (q : BoundQuery) (sites : QuerySites) (d : TableDeclaration) (loops : List Machine.Loop) : Prop where
  declared : sites.Declared ctx.program q d
  names : Column.repeatedName? (q.fields.map BoundField.name) = none
  sources : loops.map (fun l => l.2.1) = q.sources
  opens : loops.map Prod.fst = sites.opens
  supplied : ∀ l ∈ loops, Machine.Supplied ctx T ctx.program.cursorCount l
  nested : Sight.Nested q.filter ⟨[], [], methods⟩ q.sources

namespace Placed

variable {ctx : RunContext} {T : Nat → Option Table} {methods : BoundFunction → Prop} {q : BoundQuery}
variable {sites : QuerySites} {d : TableDeclaration} {loops : List Machine.Loop}

theorem length_loopsCode (h : q.Placed ctx T methods sites d loops) (exhausted start : Nat) :
    (QueryCode.loopsCode (sites.opens.zip q.sources) exhausted start).length =
      QueryCode.loopsSize q.sources := by
  rw [QueryCode.length_loopsCode, List.map_snd_zip]
  simp [← h.opens, ← h.sources]

theorem table_lt (h : q.Placed ctx T methods sites d loops) {m : Machine} (hm : m.Ready ctx.program) :
    sites.table < m.tables.length := by
  rw [hm.tables]
  exact (List.getElem?_eq_some_iff.mp h.declared.table).1

end Placed

end BoundQuery

namespace Machine

open QueryCode

section Query

variable {ctx : RunContext} {p : Procedure} {m base : Machine} {q : BoundQuery} {sites : QuerySites}
variable {d : TableDeclaration} {T : Nat → Option Table} {methods : BoundFunction → Prop} {loops : List Machine.Loop}
variable {σ : Type} {R : σ → Machine → Prop} {body : Scene → σ → Except Error (Progress σ)}
variable {start loopsDone done : Nat} {r : Reader}

theorem visiting_query (hlimit : ctx.limit = 0) (hr : r.Runs ctx p methods)
    (hplaced : q.Placed ctx T methods sites d loops)
    (hR : Tracks T R)
    (hloops : p.HasCode start (loopsCode (sites.opens.zip q.sources) loopsDone start))
    (hfilter : p.HasCode (start + loopsSize q.sources) (testCode 0 q.filter
      (innermost q.sources loopsDone start) none (start + loopsSize q.sources)))
    (hbody : Visiting ctx p R body ctx.program.cursorCount (Sight.ofSources q.sources methods []) (fun s => [.ok s])
      (start + loopsSize q.sources + testSize q.filter) (innermost q.sources loopsDone start) done) :
    Visiting ctx p R body ctx.program.cursorCount ⟨[], [], methods⟩
      (r.visits q.filter (loops.map Prod.snd)) start loopsDone done := by
  have hzip : sites.opens.zip q.sources = loops.map fun l => (l.1, l.2.1) := by
    rw [← hplaced.opens, ← hplaced.sources, List.zip_map']
  rw [hzip] at hloops
  have hsources := hplaced.sources
  have hnested := hplaced.nested
  rw [← hsources] at hnested
  refine visiting_loops hlimit hr hR hfilter loops _ loopsDone start rfl rfl hnested hplaced.supplied hloops
    (by rw [hsources]) (by rw [hsources]) ?_
  have hsight := Sight.foldl_add [] q.sources methods
  rw [hsources]
  exact hsight ▸ hbody

/-- Tables besides the one that is written. -/
def Others (T : Nat → Option Table) (k : Nat) (m : Machine) : Prop :=
  ∀ n t, T n = some t → n ≠ k ∧ m.tables[n]? = some (some t)

/-- The tables with lower numbers, as the machine has them. -/
def tablesBelow (m : Machine) (k : Nat) : Nat → Option Table :=
  fun n => if n < k then m.tables[n]?.join else none

theorem others_tablesBelow (m : Machine) (k : Nat) : Others (m.tablesBelow k) k m := by
  intro n t ht
  unfold tablesBelow at ht
  split at ht
  · rename_i hlt
    refine ⟨by omega, ?_⟩
    cases hn : m.tables[n]? with
    | none =>
      rw [hn] at ht
      cases ht
    | some t' =>
      rw [hn] at ht
      rw [show t' = some t from ht]
  · cases ht

theorem Writes.move {columns : List Column} {t : Tally} (h : Writes sites columns base t m)
    (cursors : List Cursor) (rows : List (Option (List Value))) (groups : List Groups)
    (address : Option Nat) (count : Nat) :
    Writes sites columns base t { m with cursors, rows, groups, address, count } :=
  ⟨h.clear, h.registers, h.skip, h.take, h.tables, h.fits, h.running⟩

theorem Writes.hasTables {columns : List Column} {t : Tally} (h : Writes sites columns base t m)
    (hT : Others T sites.table base) : m.HasTables T := by
  intro n t hn
  obtain ⟨hne, ht⟩ := hT n t hn
  rw [h.tables, List.getElem?_set_ne (Ne.symm hne), ht]

/-- Writing goes on while cursors move; groups stay as they are. -/
theorem tracks_writes (hT : Others T sites.table base) (columns : List Column) :
    Tracks T fun t m => Writes sites columns base t m ∧ m.groups = base.groups where
  move h cursors rows address count := ⟨h.1.move cursors rows _ address count, h.2⟩
  tables h := h.1.hasTables hT
  clear h := h.1.clear
  running h := h.1.running

theorem visiting_output (hlimit : ctx.limit = 0) (hr : r.Runs ctx p methods) (hapart : sites.Apart)
    (htable : sites.table < base.tables.length)
    (hfields : TypedExpr.AllWellTyped (Sight.ofSources q.sources methods []) (q.fields.map BoundField.expr))
    {inner : Nat} (hcode : p.HasCode start (outputCode q sites inner done start))
    (hgoto : p.code[start + outputSize q sites]? = some (.jump .goto inner))
    (width : Nat) :
    Visiting ctx p
      (fun t m => Writes sites (q.fields.map BoundField.column) base t m ∧ m.groups = base.groups)
      (r.emit (q.fields.map BoundField.expr)) width (Sight.ofSources q.sources methods []) (fun s => [.ok s])
      start inner done := by
  rintro s t m ⟨hw, hgroups⟩ hshows hfits haddr - -
  have hvalues := Reader.Runs.values_congr (g := Sight.ofSources q.sources methods []) hr hfields hfits
    (hshows.agree rfl sites.group)
  have hemit : r.emit (q.fields.map BoundField.expr) s t =
      r.emit (q.fields.map BoundField.expr) (m.scene sites.group) t := by
    simp only [Reader.emit, hvalues]
  have hrun := runs_output (g := Sight.ofSources q.sources methods []) hlimit hr hapart htable hw hfields
    (hshows.fits rfl hfits sites.group) hcode haddr
  rw [consume_singleton, hemit]
  refine hrun.followed ?_
  rintro progress m₁ - ⟨hw₁, hsame, haddr₁⟩
  have hgroups₁ : m₁.groups = base.groups := hsame.groups.trans hgroups
  have huntouched : Untouched (Sight.ofSources q.sources methods []) m m₁ := .ofEq hsame.cursors hsame.rows
  cases progress with
  | done t₁ => exact .ok ⟨⟨hw₁, hgroups₁⟩, huntouched, haddr₁⟩
  | more t₁ =>
    rcases haddr₁ with haddr₁ | haddr₁
    · exact .ok ⟨⟨hw₁, hgroups₁⟩, huntouched, haddr₁⟩
    · refine Runs.jump hlimit haddr₁ hgoto (safe_of_isPlain haddr₁ hgoto rfl) (exec_goto ctx _ inner) rfl ?_
      exact .ok ⟨⟨hw₁.move _ _ _ _ _, hgroups₁⟩, huntouched.trans (.ofEq rfl rfl), rfl⟩

/-- The table is written, and the machine is ready for the next procedure. -/
structure Wrote (program : Program) (base : Machine) (k : Nat) (columns : List Column) (t : Table)
    (m : Machine) : Prop where
  ready : m.Ready program
  tables : m.tables = base.tables.set k (some t)
  fits : t.Fits columns

theorem Writes.finishes (hlimit : ctx.limit = 0) {columns : List Column} {t : Tally}
    (h : Writes sites columns base t m) (hready : base.Ready ctx.program)
    (hcursors : m.cursors.length = base.cursors.length) (hrows : m.rows.length = base.rows.length)
    (hgroups : m.groups.length = base.groups.length) {a : Nat} (haddr : m.address = some a)
    (hhalt : p.code[a]? = some { opcode := .halt }) :
    Finishes ctx p (Safe p) m (.ok t.table) (Wrote ctx.program base sites.table columns) := by
  have hsafe : Safe p m := safe_of_careful haddr hhalt h.clear
  refine Runs.ok ⟨_, hsafe, step_halt hlimit haddr hhalt, ⟨h.clear, ?_, ?_, ?_, ?_, ?_, h.running⟩,
    h.tables, h.fits⟩
  · exact h.registers.trans hready.registers
  · exact hcursors.trans hready.cursors
  · exact hrows.trans hready.rows
  · rw [h.tables, List.length_set, hready.tables]
  · exact hgroups.trans hready.groups

/-- The procedure of a query without groups writes the query's table. -/
theorem finishes_flat (hlimit : ctx.limit = 0) (hr : r.Runs ctx p methods) (hplaced : q.Placed ctx T methods sites d loops)
    (hgrouping : q.grouping = none) (hready : m.Ready ctx.program) (hT : Others T sites.table m)
    (hfields : TypedExpr.AllWellTyped (Sight.ofSources q.sources methods []) (q.fields.map BoundField.expr))
    (hcode : p.HasCode 0 (q.code sites)) (haddr : m.address = some 0) :
    Finishes ctx p (Safe p) m (r.written q (r.visits q.filter (loops.map Prod.snd) .empty) d.table)
      (Wrote ctx.program m sites.table (q.fields.map BoundField.column)) := by
  have hlength := hplaced.length_loopsCode
  have hprologue : prologue q sites = setupCode q sites := by
    simp [prologue, BoundQuery.isGrouped, hgrouping]
  obtain ⟨start, hstart⟩ : ∃ n, (setupCode q sites).length = n := ⟨_, rfl⟩
  simp only [BoundQuery.code, hgrouping, hprologue, hstart, List.append_nil] at hcode
  have hhalt := hcode.right.head
  have hgoto := hcode.left.right.head
  have houtput := hcode.left.left.right
  have hfilter := hcode.left.left.left.right
  have hloops := hcode.left.left.left.left.right
  have hsetup := hcode.left.left.left.left.left
  simp only [List.length_append, hlength, length_testCode, length_outputCode, List.length_singleton,
    hstart, Nat.zero_add] at hhalt hgoto houtput hfilter hloops
  have hbody := visiting_output hlimit hr hplaced.declared.apart (hplaced.table_lt hready) hfields houtput
    hgoto ctx.program.cursorCount
  have hvisiting := visiting_query hlimit hr hplaced (tracks_writes hT _) hloops hfilter hbody
  have hwritten : r.written q (r.visits q.filter (loops.map Prod.snd) .empty) d.table =
      ((.ok () : Except Error Unit) >>= fun _ =>
        consume (r.emit (q.fields.map BoundField.expr)) (r.visits q.filter (loops.map Prod.snd) .empty)
          ⟨q.skip, q.take, d.table⟩ >>= fun progress => .ok progress.state.table) := by
    rw [Reader.written]
    cases consume (r.emit (q.fields.map BoundField.expr))
      (r.visits q.filter (loops.map Prod.snd) .empty) ⟨q.skip, q.take, d.table⟩ <;> rfl
  rw [Finishes, hwritten]
  refine Runs.bind (runs_setup hlimit hplaced.declared hplaced.names hready hsetup haddr) ?_
  rintro - m₁ - ⟨hw, hsame, haddr₁⟩
  rw [hstart] at haddr₁
  refine Runs.bind (hvisiting .empty _ m₁ ⟨hw, hsame.groups⟩ nofun (Scene.fits_empty methods)
    haddr₁ (by rw [hsame.cursors, hready.cursors]) (by rw [hsame.rows, hready.rows])) ?_
  rintro progress m₂ - ⟨⟨hw₂, hgroups₂⟩, huntouched, haddr₂⟩
  -- The loops end at the halt, whether they are through or enough is written.
  have haddr₂ : m₂.address = some (start + loopsSize q.sources + testSize q.filter +
      outputSize q sites + 1) := by cases progress <;> exact haddr₂
  exact hw₂.finishes hlimit hready (huntouched.cursors.trans (by rw [hsame.cursors]))
    (huntouched.rows.trans (by rw [hsame.rows])) (by rw [hgroups₂]) haddr₂ hhalt

end Query

end Machine

end TabularQuery
