import TabularQuery.Program.Generate
import TabularQuery.Proofs.QueryRun

/-!
Procedures of set operations and descriptions. A set operation goes through the tables of its operands and
copies rows, UNION with an eye on what it wrote, EXCEPT and INTERSECT with an eye on the right operand; it
writes what `SetOperator.combine` says. None of these procedures can fail.
-/

namespace TabularQuery

/-! ### What is written -/

/-- Does the table have the key of the row? -/
def Table.hasKeyOf (t : Table) (keys : List Nat) (row : List Value) : Bool :=
  (Key.ofRow? keys row).any (t.hasKey keys)

namespace SetOperator

/-- Is a row copied, with this table on the right and so much written? -/
def copies (op : SetOperator) (keys : List Nat) (right written : Table) (row : List Value) : Bool :=
  match op with
  | .unionAll => true
  | .union => !written.hasKeyOf keys row
  | .except => !right.hasKeyOf keys row
  | .intersect => right.hasKeyOf keys row

def copy (op : SetOperator) (keys : List Nat) (right written : Table) (row : List Value) : Table :=
  if op.copies keys right written row then written.push row else written

/-- What a set operation adds to a table. -/
def combine (op : SetOperator) (keys : List Nat) (left right written : Table) : Table :=
  let copied := left.rows.toList.foldl (op.copy keys right) written
  if op.copiesRight then right.rows.toList.foldl (op.copy keys right) copied else copied

/-- The table before rows are copied; UNION looks keys up in it. -/
def fresh (op : SetOperator) (keys : List Nat) (t : Table) : Table :=
  if op = .union then t.withIndex keys else t

/-- The right operand; EXCEPT and INTERSECT look keys up in it. -/
def probed (op : SetOperator) (keys : List Nat) (right : Table) : Table :=
  if op.copiesRight then right else right.withIndex keys

/-- A row is handed over by its cursor. -/
def visit (op : SetOperator) (keys : List Nat) (right : Table) (cursor : Nat) (s : Scene) (t : Table) :
    Except Error (Progress Table) :=
  match s.row? cursor with
  | some row => .ok (.more (op.copy keys right t row))
  | none => .error (.cursorUnpositioned cursor)

theorem consume_visit (op : SetOperator) (keys : List Nat) (right : Table) (cursor : Nat) (s : Scene)
    (rows : List (List Value)) (t : Table) :
    consume (op.visit keys right cursor) (eachRow (rows.map .ok) fun row =>
      guarded ((s.put cursor row).test none) [.ok (s.put cursor row)]) t =
      .ok (.more (rows.foldl (op.copy keys right) t)) := by
  induction rows generalizing t with
  | nil => rfl
  | cons row rows ih =>
    have hvisit : op.visit keys right cursor (s.put cursor row) t = .ok (.more (op.copy keys right t row)) := by
      rw [visit, Scene.put_same]
    rw [List.map_cons, eachRow, List.flatMap_cons, consume_append]
    simp only [Scene.test, guarded, consume_singleton, hvisit]
    exact ih _

end SetOperator

namespace Machine

/-! ### Instructions -/

section Instructions

variable (ctx : RunContext) {m : Machine} {c n : Nat} {row : List Value} {t : Table} {keys : List Nat}

theorem currentRow_apply (h : m.rows[c]? = some (some row)) : currentRow (c : Int) m = .ok row m := by
  simp [currentRow, item?, h]

theorem exec_copyRow (hrow : m.rows[c]? = some (some row)) (ht : m.tables[n]? = some (some t))
    (hfits : RowFits t.columns row) :
    exec ctx { opcode := .copyRow, p1 := c, p3 := n } m =
      .ok .next { m with tables := m.tables.set n (some (t.push row)) } := by
  simp only [exec, bind_apply, currentRow_apply hrow,
    changeTable_apply ht (fun t => t.add row) (Table.add_of_fits hfits), pure_apply]

theorem exec_addIndex (ht : m.tables[n]? = some (some t)) (hkeys : ∀ c ∈ keys, c < t.columns.length)
    (comment : Option String) :
    exec ctx { opcode := .addIndex, p1 := n, operand := .ordinals keys, comment } m =
      .ok .next { m with tables := m.tables.set n (some (t.withIndex keys)) } := by
  simp only [exec, bind_apply, ordinalsOperand, pure_apply,
    changeTable_apply ht (fun t => t.addIndex keys) (Table.addIndex_of_lt hkeys)]

theorem findKey_apply {wanted : List Column} (hrow : m.rows[c]? = some (some row))
    (ht : m.tables[n]? = some (some t)) (hfits : t.Fits wanted) (hindexed : t.IndexedOn keys)
    (hkeys : ∀ k ∈ keys, k < row.length) (opcode : Opcode) (p2 : Int) :
    findKey { opcode, p1 := c, p2, p3 := n, operand := .ordinals keys } m = .ok (t.hasKeyOf keys row) m := by
  obtain ⟨key, hkey⟩ := Key.exists_ofRow hkeys
  simp only [findKey, bind_apply, ordinalsOperand, pure_apply, currentRow_apply hrow, hkey, table_apply ht,
    ofTable, Table.containsKey_eq hfits.indexes hindexed, Table.hasKeyOf, Option.any_some]

end Instructions

end Machine

/-! ### Copying -/

/-- Nothing but a table is written. -/
def QuerySites.only (table : Nat) : QuerySites := ⟨table, none, none, 0, []⟩

def Tally.only (t : Table) : Tally := ⟨none, none, t⟩

/-- A table that is read through a cursor. -/
def BoundSource.scan (cursor : Nat) (columns : List Column) : BoundSource := ⟨cursor, "", .table "", columns, none⟩

open SetCode

/-- Where the operation looks keys up in the right operand, that is in its place and indexed. -/
def SetOperator.Probes (op : SetOperator) (keys : List Nat) (n : Nat) (T : Nat → Option Table) (right : Table) : Prop :=
  op.copiesRight = false → T n = some right ∧ right.IndexedOn keys ∧ ∃ wanted, right.Fits wanted

namespace Machine

/-- Rows are copied to the table of a set operation. -/
structure Copying (op : SetOperator) (keys : List Nat) (output : Nat) (columns : List Column) (base : Machine)
    (t : Table) (m : Machine) : Prop where
  writes : Writes (.only output) columns base (.only t) m
  groups : m.groups = base.groups
  indexed : op = .union → t.IndexedOn keys

section Copying

variable {ctx : RunContext} {p : Procedure} {m base : Machine} {op : SetOperator} {keys : List Nat}
variable {sites : SetSites} {columns : List Column} {T : Nat → Option Table} {t right : Table}
variable {c start : Nat} {row : List Value}

theorem tracks_copying (hT : Others T sites.output base) : Tracks T (Copying op keys sites.output columns base) where
  move h cursors rows address count := ⟨h.writes.move cursors rows _ address count, h.groups, h.indexed⟩
  tables h := h.writes.hasTables hT
  clear h := h.writes.clear
  running h := h.writes.running

theorem Copying.table (h : Copying op keys sites.output columns base t m)
    (houtput : sites.output < base.tables.length) : m.tables[sites.output]? = some (some t) := by
  rw [h.writes.tables]
  exact List.getElem?_set_self houtput

theorem exec_probe (ctx : RunContext) (h : Copying op keys sites.output columns base t m) (hT : Others T sites.output base)
    (houtput : sites.output < base.tables.length) (hprobes : op.Probes keys sites.right T right)
    (hrow : m.rows[c]? = some (some row)) (hkeys : ∀ k ∈ keys, k < row.length) {probe : Probe}
    (hprobe : probe? op keys sites = some probe) (head : Int) :
    exec ctx { opcode := probe.opcode, p1 := c, p2 := head, p3 := probe.table, operand := .ordinals probe.keys } m =
      .ok (.jumpIf !(op.copies keys right t row)) m := by
  have hright : op.copiesRight = false → ∀ opcode,
      findKey { opcode, p1 := c, p2 := head, p3 := sites.right, operand := .ordinals keys } m =
        .ok (right.hasKeyOf keys row) m := by
    intro hcopies opcode
    obtain ⟨hplace, hindexed, wanted, hfits⟩ := hprobes hcopies
    exact findKey_apply hrow (h.writes.hasTables hT _ _ hplace) hfits hindexed hkeys opcode head
  cases op with
  | unionAll => cases hprobe
  | union =>
    cases hprobe
    simp only [exec, bind_apply, pure_apply, SetOperator.copies, Bool.not_not,
      findKey_apply hrow (h.table houtput) h.writes.fits (h.indexed rfl) hkeys]
  | except =>
    cases hprobe
    simp only [exec, bind_apply, pure_apply, SetOperator.copies, Bool.not_not, hright rfl]
  | intersect =>
    cases hprobe
    simp only [exec, bind_apply, pure_apply, SetOperator.copies, hright rfl]

theorem runs_probe (hlimit : ctx.limit = 0) (h : Copying op keys sites.output columns base t m)
    (hT : Others T sites.output base) (houtput : sites.output < base.tables.length)
    (hprobes : op.Probes keys sites.right T right) (hrow : m.rows[c]? = some (some row))
    (hkeys : ∀ k ∈ keys, k < row.length) {head : Nat}
    (hcode : p.HasCode start (probeTest c head (probe? op keys sites))) (haddr : m.address = some start) :
    Runs ctx p (Safe p) m (.ok (op.copies keys right t row)) fun copied m₁ => ∃ n, m₁ = { m with
      address := some (if copied then start + (probeTest c head (probe? op keys sites)).length else head),
      count := n } := by
  cases hprobe : probe? op keys sites with
  | none =>
    obtain rfl : op = .unionAll := by cases op <;> cases hprobe; rfl
    exact .ok ⟨m.count, by simp [SetOperator.copies, probeTest, ← haddr]⟩
  | some probe =>
    rw [hprobe] at hcode
    have hop := hcode.head
    have hplain : probe.opcode = .found ∨ probe.opcode = .notFound := by
      cases op <;> cases hprobe <;> simp
    have hsafe : Safe p m := by
      refine safe_of_isPlain haddr hop ?_
      rcases hplain with hopcode | hopcode <;> simp [Instruction.isPlain, hopcode]
    have hcounted : Copying op keys sites.output columns base t { m with count := m.count + 1 } :=
      ⟨h.writes.move _ _ _ _ _, h.groups, h.indexed⟩
    have hexec := exec_probe ctx hcounted hT houtput hprobes hrow hkeys hprobe head
    cases hcopies : op.copies keys right t row with
    | true =>
      rw [hcopies] at hexec
      exact Runs.next hlimit haddr hop hsafe hexec haddr (.ok ⟨_, rfl⟩)
    | false =>
      rw [hcopies] at hexec
      exact Runs.jump hlimit haddr hop hsafe hexec rfl (.ok ⟨_, rfl⟩)

theorem visiting_copy (hlimit : ctx.limit = 0) (hT : Others T sites.output base)
    (houtput : sites.output < base.tables.length) (hprobes : op.Probes keys sites.right T right)
    {source : BoundSource} (htypes : source.columns.map Column.type = columns.map Column.type)
    (hkeys : ∀ k ∈ keys, k < columns.length) {head done : Nat}
    (hcode : p.HasCode start (probeTest source.cursor head (probe? op keys sites) ++
      [{ opcode := .copyRow, p1 := source.cursor, p3 := sites.output }, .jump .goto head]))
    (methods : BoundFunction → Prop) (width : Nat) :
    Visiting ctx p (Copying op keys sites.output columns base) (op.visit keys right source.cursor) width
      (Sight.add ⟨[], [], methods⟩ source) (fun s => [.ok s]) start head done := by
  rintro s t m h hshows hfits haddr - -
  have hsight : (source.cursor, source.columns) ∈ (Sight.add ⟨[], [], methods⟩ source).cursors :=
    Sight.mem_add.mpr (.inr rfl)
  obtain ⟨row, hrow, hrowfits⟩ := hfits.rows _ _ hsight
  have hat : m.rows[source.cursor]? = some (some row) := Option.join_eq_some_iff.mp ((hshows _ hsight).trans hrow)
  have hfit : RowFits columns row := hrowfits.trans htypes
  have hlength : row.length = columns.length := by simpa using congrArg List.length hfit
  have hvisit : op.visit keys right source.cursor s t = (.ok (op.copies keys right t row) >>= fun copied =>
      .ok (.more (if copied then t.push row else t))) := by
    rw [SetOperator.visit, hrow]
    rfl
  rw [consume_singleton, hvisit]
  refine Runs.bind (runs_probe hlimit h hT houtput hprobes hat (hlength ▸ hkeys) hcode.left haddr) ?_
  rintro copied _ - ⟨n, rfl⟩
  cases copied with
  | false => exact .ok ⟨⟨h.writes.move _ _ _ _ _, h.groups, h.indexed⟩, .ofEq rfl rfl, rfl⟩
  | true =>
    have hcopy := hcode.right.head
    have hgoto := hcode.right.tail.head
    refine Runs.next hlimit rfl hcopy (safe_of_isPlain rfl hcopy rfl)
      (exec_copyRow ctx hat (h.table houtput) (h.writes.fits.columns ▸ hfit)) rfl ?_
    refine Runs.jump hlimit rfl hgoto (safe_of_isPlain rfl hgoto rfl) (exec_goto ctx _ head) rfl
      (.ok ⟨⟨h.writes.push hfit _ _, h.groups, fun hop => (h.indexed hop).push row⟩, .ofEq rfl rfl, rfl⟩)

theorem runs_copyLoop (hlimit : ctx.limit = 0) (hT : Others T sites.output base)
    (houtput : sites.output < base.tables.length) (hprobes : op.Probes keys sites.right T right) {n : Nat}
    {source : Table} (hsource : T n = some source) {wanted : List Column} (hfits : source.Fits wanted)
    (htypes : wanted.map Column.type = columns.map Column.type) (hkeys : ∀ k ∈ keys, k < columns.length)
    (hc : c < m.cursors.length) (hrows : m.rows.length = m.cursors.length) {done : Nat}
    (hcode : p.HasCode start (copyLoop c n sites.output (probe? op keys sites) done start))
    (h : Copying op keys sites.output columns base t m) (haddr : m.address = some start) :
    Runs ctx p (Safe p) m (.ok (source.rows.toList.foldl (op.copy keys right) t)) fun t₁ m₁ =>
      Copying op keys sites.output columns base t₁ m₁ ∧ m₁.cursors.length = m.cursors.length ∧
        m₁.rows.length = m.rows.length ∧ m₁.address = some done := by
  have hparts : p.HasCode start ([{ opcode := .openTable, p1 := c, p2 := n },
      { opcode := .next, p1 := c, p2 := done }] ++ (probeTest c (start + 1) (probe? op keys sites) ++
        [{ opcode := .copyRow, p1 := c, p3 := sites.output }, .jump .goto (start + 1)])) := by
    rw [← List.append_assoc]
    exact hcode
  have hsupplied : Supplied ctx T m.cursors.length
      ({ opcode := .openTable, p1 := c, p2 := n }, .scan c wanted, .ok (source.rows.toList.map .ok)) := by
    refine ⟨hc, ?_, opens_table hsource none, rfl⟩
    rintro rows ⟨⟩ row hrow
    obtain ⟨row', hrow', hsame⟩ := List.mem_map.mp hrow
    cases hsame
    exact hfits.rows row hrow'
  have hbody : Visiting ctx p (Copying op keys sites.output columns base) (op.visit keys right c) m.cursors.length
      (Sight.add ⟨[], [], fun _ => False⟩ (.scan c wanted)) (fun s => [.ok s]) (start + 2) (start + 1) done :=
    visiting_copy hlimit hT houtput hprobes htypes hkeys hparts.right _ _
  have hvisiting := visiting_loop hlimit (Reader.runs_popped hlimit p _) (tracks_copying hT) rfl (by exact nofun)
    (by exact nofun) hsupplied
    hparts.left hbody
  have hrun := hvisiting .empty t m h nofun (Scene.fits_empty _) haddr rfl hrows
  obtain ⟨m₁, hpath, hleft⟩ := (SetOperator.consume_visit op keys right c .empty _ t) ▸ hrun
  exact ⟨m₁, hpath, hleft.tracked, hleft.untouched.cursors, hleft.untouched.rows, hleft.address⟩

end Copying

end Machine

/-! ### Set operations -/

/-- The operation stands in a program that has a place for all that its code uses. Its operands have
these columns, and tables of their own. -/
structure SetOperator.Placed (op : SetOperator) (program : Program) (keys : List Nat) (sites : SetSites)
    (d : TableDeclaration) (leftColumns rightColumns : List Column) : Prop where
  table : program.tables[sites.output]? = some d
  names : Column.repeatedName? (d.columns.map Column.name) = none
  keys : ∀ k ∈ keys, k < d.columns.length
  leftTypes : leftColumns.map Column.type = d.columns.map Column.type
  rightTypes : rightColumns.map Column.type = d.columns.map Column.type
  left_ne : sites.left ≠ sites.output
  right_ne : sites.right ≠ sites.output
  apart : sites.left ≠ sites.right
  leftCursor : sites.leftCursor < program.cursorCount
  rightCursor : op.copiesRight = true → sites.rightCursor < program.cursorCount

theorem SetOperator.fits_fresh {d : TableDeclaration} (op : SetOperator) (keys : List Nat) :
    (op.fresh keys d.table).Fits d.columns := by
  have hfits : d.table.Fits d.columns := ⟨rfl, nofun, nofun⟩
  unfold fresh
  split
  · exact hfits.withIndex keys
  · exact hfits

theorem SetOperator.rows_probed (op : SetOperator) (keys : List Nat) (right : Table) :
    (op.probed keys right).rows = right.rows := by
  unfold probed
  split
  · rfl
  · exact right.rows_withIndex keys

theorem SetOperator.fits_probed (op : SetOperator) (keys : List Nat) {right : Table} {wanted : List Column}
    (h : right.Fits wanted) : (op.probed keys right).Fits wanted := by
  unfold probed
  split
  · exact h
  · exact h.withIndex keys

/-- An index on the right operand makes no difference to what is written. -/
theorem SetOperator.combine_probed (op : SetOperator) (keys : List Nat) (left right t : Table) :
    op.combine keys left (op.probed keys right) t = op.combine keys left right t := by
  have hkey : (op.probed keys right).hasKey keys = right.hasKey keys := by
    funext key
    rw [Table.hasKey, Table.hasKey, rows_probed]
  have hcopy : op.copy keys (op.probed keys right) = op.copy keys right := by
    funext written row
    have hcopies : op.copies keys (op.probed keys right) written row = op.copies keys right written row := by
      simp only [copies, Table.hasKeyOf, hkey]
    rw [copy, copy, hcopies]
  simp only [combine, hcopy, rows_probed]

namespace Machine

section SetOperations

variable {ctx : RunContext} {p : Procedure} {m : Machine} {op : SetOperator} {keys : List Nat}
variable {sites : SetSites} {d : TableDeclaration} {leftColumns rightColumns : List Column} {left right : Table}

/-- The machine after the right operand got the index that it needs. -/
def indexRight (op : SetOperator) (keys : List Nat) (n : Nat) (right : Table) (m : Machine) : Machine :=
  { m with tables := m.tables.set n (some (op.probed keys right)) }

theorem indexRight_self (hright : m.tables[sites.right]? = some (some right)) (hop : op.copiesRight = true) :
    indexRight op keys sites.right right m = m := by
  obtain ⟨hlt, hget⟩ := List.getElem?_eq_some_iff.mp hright
  rw [indexRight, SetOperator.probed, if_pos hop, ← hget, List.set_getElem_self]

theorem Ready.indexRight {program : Program} (h : m.Ready program) (op : SetOperator) (keys : List Nat) (n : Nat)
    (right : Table) : (indexRight op keys n right m).Ready program :=
  ⟨h.clear, h.registers, h.cursors, h.rows, List.length_set.trans h.tables, h.groups, h.running⟩

theorem runs_setSetup (hlimit : ctx.limit = 0)
    (hplaced : op.Placed ctx.program keys sites d leftColumns rightColumns) (hready : m.Ready ctx.program)
    (hright : m.tables[sites.right]? = some (some right)) (hfits : right.Fits rightColumns)
    {name : String} {keyId : Nat}
    (hcode : p.HasCode 0 ([{ opcode := .createTable, p1 := sites.output, comment := some name }] ++
      indexCode keyId keys (probe? op keys sites)))
    (haddr : m.address = some 0) :
    Runs ctx p (Safe p) m (.ok ()) fun _ m₁ =>
      Copying op keys sites.output d.columns (indexRight op keys sites.right right m) (op.fresh keys d.table) m₁ ∧
        m₁.cursors = m.cursors ∧ m₁.rows = m.rows ∧
        m₁.address = some (1 + (indexCode keyId keys (probe? op keys sites)).length) := by
  have houtput : sites.output < m.tables.length := by
    rw [hready.tables]
    exact (List.getElem?_eq_some_iff.mp hplaced.table).1
  have hcreate := hcode.left.head
  have hindex := hcode.right
  have hwrites : ∀ (tables : List (Option Table)) (address : Option Nat) (count : Nat),
      tables = (indexRight op keys sites.right right m).tables.set sites.output (some (op.fresh keys d.table)) →
      Copying op keys sites.output d.columns (indexRight op keys sites.right right m) (op.fresh keys d.table)
        { m with tables, address, count } := by
    intro tables address count htables
    refine ⟨⟨hready.clear, rfl, rfl, rfl, htables, op.fits_fresh keys, hready.running⟩, rfl, ?_⟩
    rintro rfl
    rw [SetOperator.fresh, if_pos rfl]
    exact Table.indexedOn_withIndex _ _
  refine Runs.next hlimit haddr hcreate (safe_of_isPlain haddr hcreate rfl)
    (exec_createTable hplaced.table hplaced.names _) haddr ?_
  have hsame : op.copiesRight = true → indexRight op keys sites.right right m = m := indexRight_self hright
  have hatOutput : (m.tables.set sites.output (some d.table))[sites.output]? = some (some d.table) :=
    List.getElem?_set_self houtput
  have hatRight : (m.tables.set sites.output (some d.table))[sites.right]? = some (some right) := by
    rw [List.getElem?_set_ne (Ne.symm hplaced.right_ne), hright]
  have hkeysRight : ∀ k ∈ keys, k < right.columns.length := by
    have hlength := congrArg List.length hplaced.rightTypes
    rw [List.length_map, List.length_map] at hlength
    rw [hfits.columns, hlength]
    exact hplaced.keys
  have hcomm : ∀ t : Table, (m.tables.set sites.output (some d.table)).set sites.right (some t) =
      (m.tables.set sites.right (some t)).set sites.output (some d.table) :=
    fun _ => List.set_comm _ _ (Ne.symm hplaced.right_ne)
  cases op with
  | unionAll => exact .ok ⟨hwrites _ _ _ (by rw [hsame rfl]; rfl), rfl, rfl, rfl⟩
  | union =>
    refine Runs.next hlimit rfl hindex.head (safe_of_isPlain rfl hindex.head rfl)
      (exec_addIndex ctx hatOutput hplaced.keys _) rfl (.ok ⟨hwrites _ _ _ ?_, rfl, rfl, rfl⟩)
    rw [hsame rfl]
    exact List.set_set ..
  | except | intersect =>
    exact Runs.next hlimit rfl hindex.head (safe_of_isPlain rfl hindex.head rfl)
      (exec_addIndex ctx hatRight hkeysRight _) rfl (.ok ⟨hwrites _ _ _ (hcomm _), rfl, rfl, rfl⟩)

/-- The tables that a set operation reads. -/
def operands (op : SetOperator) (keys : List Nat) (sites : SetSites) (left right : Table) (n : Nat) : Option Table :=
  if n = sites.left then some left else if n = sites.right then some (op.probed keys right) else none

theorem others_operands (hplaced : op.Placed ctx.program keys sites d leftColumns rightColumns)
    (hleft : m.tables[sites.left]? = some (some left)) (hright : m.tables[sites.right]? = some (some right)) :
    Others (operands op keys sites left right) sites.output (indexRight op keys sites.right right m) := by
  intro n t hn
  unfold operands at hn
  split at hn
  · cases hn
    subst n
    refine ⟨hplaced.left_ne, ?_⟩
    rw [indexRight, List.getElem?_set_ne (Ne.symm hplaced.apart), hleft]
  · split at hn
    · cases hn
      subst n
      exact ⟨hplaced.right_ne, List.getElem?_set_self (List.getElem?_eq_some_iff.mp hright).1⟩
    · cases hn

/-- The procedure of a set operation writes the operation's table. -/
theorem finishes_set (hlimit : ctx.limit = 0)
    (hplaced : op.Placed ctx.program keys sites d leftColumns rightColumns) (hready : m.Ready ctx.program)
    (hleft : m.tables[sites.left]? = some (some left)) (hleftFits : left.Fits leftColumns)
    (hright : m.tables[sites.right]? = some (some right)) (hrightFits : right.Fits rightColumns)
    {name : String} {keyId : Nat} (hcode : p.HasCode 0 (op.code name keyId keys sites))
    (haddr : m.address = some 0) :
    Finishes ctx p (Safe p) m (.ok (op.combine keys left right (op.fresh keys d.table)))
      (Wrote ctx.program (indexRight op keys sites.right right m) sites.output d.columns) := by
  obtain ⟨start, hstart⟩ : ∃ n, 1 + (indexCode keyId keys (probe? op keys sites)).length = n := ⟨_, rfl⟩
  simp only [SetOperator.code, List.length_append, List.length_singleton, hstart] at hcode
  have hhalt := hcode.right.head
  have hrightLoop := hcode.left.right
  have hleftLoop := hcode.left.left.right
  have hsetup := hcode.left.left.left
  simp only [List.length_append, List.length_singleton, length_copyLoop, hstart, Nat.zero_add]
    at hhalt hrightLoop hleftLoop
  obtain ⟨base, hbase⟩ : ∃ b, indexRight op keys sites.right right m = b := ⟨_, rfl⟩
  have hreadyBase : base.Ready ctx.program := hbase ▸ hready.indexRight op keys sites.right right
  have houtput : sites.output < base.tables.length := by
    rw [hreadyBase.tables]
    exact (List.getElem?_eq_some_iff.mp hplaced.table).1
  have hT : Others (operands op keys sites left right) sites.output base :=
    hbase ▸ others_operands hplaced hleft hright
  have hprobed : operands op keys sites left right sites.right = some (op.probed keys right) := by
    rw [operands, if_neg (Ne.symm hplaced.apart), if_pos rfl]
  have hprobes : op.Probes keys sites.right (operands op keys sites left right) (op.probed keys right) := by
    intro hop
    refine ⟨hprobed, ?_, rightColumns, op.fits_probed keys hrightFits⟩
    rw [SetOperator.probed, hop]
    exact Table.indexedOn_withIndex right keys
  have hcombine : op.combine keys left right (op.fresh keys d.table) =
      if op.copiesRight then (op.probed keys right).rows.toList.foldl (op.copy keys (op.probed keys right))
        (left.rows.toList.foldl (op.copy keys (op.probed keys right)) (op.fresh keys d.table))
      else left.rows.toList.foldl (op.copy keys (op.probed keys right)) (op.fresh keys d.table) := by
    rw [← op.combine_probed]
    rfl
  have hrun := runs_setSetup hlimit hplaced hready hright hrightFits hsetup haddr
  rw [hstart, hbase] at hrun
  rw [Finishes, hbase, hcombine]
  refine Runs.bind (f := fun _ => _) hrun ?_
  rintro - m₁ - ⟨hcopying, hcursors, hrows, haddr₁⟩
  have hwidth : m₁.cursors.length = ctx.program.cursorCount := by rw [hcursors, hready.cursors]
  have hheight : m₁.rows.length = ctx.program.cursorCount := by rw [hrows, hready.rows]
  have hcopied := runs_copyLoop hlimit hT houtput hprobes (if_pos rfl) hleftFits hplaced.leftTypes hplaced.keys
    (hwidth ▸ hplaced.leftCursor) (hheight.trans hwidth.symm) hleftLoop hcopying haddr₁
  cases hop : op.copiesRight with
  | false =>
    simp only [hop, Bool.false_eq_true, if_false, List.length_nil, Nat.add_zero] at hhalt ⊢
    refine hcopied.followed ?_
    rintro t₂ m₂ - ⟨hcopying₂, hcursors₂, hrows₂, haddr₂⟩
    exact hcopying₂.writes.finishes hlimit hreadyBase (by rw [hcursors₂, hwidth, hreadyBase.cursors])
      (by rw [hrows₂, hheight, hreadyBase.rows]) (by rw [hcopying₂.groups]) haddr₂ hhalt
  | true =>
    simp only [hop, if_true, length_copyLoop] at hhalt hrightLoop ⊢
    refine Runs.bind (f := fun t => .ok (List.foldl _ t _)) hcopied ?_
    rintro t₂ m₂ - ⟨hcopying₂, hcursors₂, hrows₂, haddr₂⟩
    have hwidth₂ := hcursors₂.trans hwidth
    have hheight₂ := hrows₂.trans hheight
    refine (runs_copyLoop hlimit hT houtput hprobes hprobed (op.fits_probed keys hrightFits) hplaced.rightTypes
      hplaced.keys (hwidth₂ ▸ hplaced.rightCursor hop) (hheight₂.trans hwidth₂.symm) hrightLoop hcopying₂
      haddr₂).followed ?_
    rintro t₃ m₃ - ⟨hcopying₃, hcursors₃, hrows₃, haddr₃⟩
    exact hcopying₃.writes.finishes hlimit hreadyBase (by rw [hcursors₃, hwidth₂, hreadyBase.cursors])
      (by rw [hrows₃, hheight₂, hreadyBase.rows]) (by rw [hcopying₃.groups]) haddr₃ hhalt

end SetOperations

end Machine

/-! ### Descriptions -/

/-- A row for each column, with its name and type. -/
def Table.describe (t : Table) (columns : List Column) : Table :=
  columns.foldl (fun t c => t.push [.text c.name, .text c.type.name]) t

namespace Machine

variable {ctx : RunContext} {p : Procedure} {m base : Machine} {n : Nat}

theorem runs_describe (hlimit : ctx.limit = 0) (hn : n < base.tables.length) (columns : List Column) :
    ∀ (start : Nat) (t : Table) (m : Machine), Writes (.only n) Generate.describeColumns base (.only t) m →
      p.HasCode start (columns.flatMap fun c =>
        [{ opcode := .pushText, operand := .text c.name }, { opcode := .pushText, operand := .text c.type.name },
          { opcode := .makeRecord, p1 := n, p3 := 2, operand := .types [.text, .text] }]) →
      m.address = some start →
      Runs ctx p (Safe p) m (.ok (t.describe columns)) fun t₁ m₁ =>
        Writes (.only n) Generate.describeColumns base (.only t₁) m₁ ∧ SameRows m m₁ ∧
          m₁.address = some (start + 3 * columns.length) := by
  induction columns with
  | nil => exact fun start t m h _ haddr => .ok ⟨h, ⟨rfl, rfl, rfl⟩, haddr⟩
  | cons c columns ih =>
    intro start t m h hcode haddr
    rw [List.flatMap_cons] at hcode
    have hname := hcode.left.head
    have htype := hcode.left.tail.head
    have hrecord := hcode.left.tail.tail.head
    have hat : m.tables[n]? = some (some t) := by
      rw [h.tables]
      exact List.getElem?_set_self hn
    have hfit : RowFits Generate.describeColumns [.text c.name, .text c.type.name] := rfl
    have hmake := makeRecord_apply (m := { m with address := some (start + 1 + 1), count := m.count + 1 + 1 + 1 })
      hat (h.fits.columns ▸ hfit)
    have hexec : exec ctx { opcode := .makeRecord, p1 := n, p3 := 2, operand := .types [.text, .text] }
        { m with
          frame := m.frame.pushAll [.text c.name, .text c.type.name],
          address := some (start + 1 + 1), count := m.count + 1 + 1 + 1 } = _ := hmake
    refine Runs.next hlimit haddr hname (safe_of_isPlain haddr hname rfl) (exec_push ctx _ (.text c.name)) haddr ?_
    refine Runs.next hlimit rfl htype (safe_of_isPlain rfl htype rfl) (exec_push ctx _ (.text c.type.name)) rfl ?_
    refine Runs.next hlimit rfl hrecord (safe_of_isPlain rfl hrecord rfl) hexec rfl ?_
    have hrest : p.HasCode (start + 1 + 1 + 1) _ := hcode.right
    refine (ih _ (t.push [.text c.name, .text c.type.name]) _ (h.push hfit _ _) hrest rfl).mono (fun _ => id) ?_
    rintro t₁ m₁ - ⟨hw, hsame, haddr₁⟩
    refine ⟨hw, ⟨hsame.cursors, hsame.rows, hsame.groups⟩, ?_⟩
    rw [haddr₁, List.length_cons]
    congr 1
    omega

/-- The procedure of a description writes the description's table. -/
theorem finishes_describe (hlimit : ctx.limit = 0) {d : TableDeclaration} (hd : ctx.program.tables[n]? = some d)
    (hdescribes : d.columns = Generate.describeColumns) (hready : m.Ready ctx.program) {source : String}
    {columns : List Column} (hcode : p.HasCode 0 (describeCode source columns n)) (haddr : m.address = some 0) :
    Finishes ctx p (Safe p) m (.ok (d.table.describe columns))
      (Wrote ctx.program m n Generate.describeColumns) := by
  have hn : n < m.tables.length := by
    rw [hready.tables]
    exact (List.getElem?_eq_some_iff.mp hd).1
  have hnames : Column.repeatedName? (d.columns.map Column.name) = none := by
    rw [hdescribes]
    decide
  have hcreate := hcode.left.left.head
  have hrows := hcode.left.right
  have hhalt := hcode.right.head
  have hlength : (columns.flatMap fun c => ([{ opcode := .pushText, operand := .text c.name },
      { opcode := .pushText, operand := .text c.type.name },
      { opcode := .makeRecord, p1 := n, p3 := 2, operand := .types [.text, .text] }] : List Instruction)).length =
      3 * columns.length := by
    simp [List.length_flatMap, Nat.mul_comm]
  rw [List.length_append, List.length_singleton, hlength, Nat.zero_add] at hhalt
  refine Runs.next hlimit haddr hcreate (safe_of_isPlain haddr hcreate rfl) (exec_createTable hd hnames _) haddr ?_
  refine (runs_describe hlimit hn columns _ d.table { m with
    tables := m.tables.set n (some d.table), address := some 1, count := m.count + 1 } ?_ hrows rfl).followed ?_
  · exact ⟨hready.clear, rfl, rfl, rfl, rfl, ⟨hdescribes, nofun, nofun⟩, hready.running⟩
  · rintro t₁ m₁ - ⟨hw, hsame, haddr₁⟩
    exact hw.finishes hlimit hready (by rw [hsame.cursors]) (by rw [hsame.rows]) (by rw [hsame.groups]) haddr₁ hhalt

end Machine

end TabularQuery
