import TabularQuery.Proofs.Indexes
import TabularQuery.Proofs.LoopRun

/-!
Writing rows. The last part of a query's code counts a row off against SKIP and TAKE, evaluates the
fields and appends their values to the query's table; it does what `Reader.emit` says. Each of the two
counts is in a register of its own, and neither of them can leave its range.
-/

namespace TabularQuery

namespace Counter

theorem ofInt_one : Int64.ofInt 1 = 1 := rfl

theorem add_ofInt_neg_one (n : Int64) : n + Int64.ofInt (-1) = n - 1 :=
  (Int64.sub_eq_add_neg n 1).symm

theorem toInt_sub_one {n : Int64} (h : 0 < n) : (n - 1).toInt = n.toInt - 1 := by
  have hpos : 0 < n.toInt := by simpa using Int64.lt_iff_toInt_lt.mp h
  have hlt := n.toInt_lt
  rw [Int64.toInt_sub, Int64.toInt_one, Int.bmod_eq_of_le] <;> omega

end Counter

namespace Machine

variable (ctx : RunContext) {m : Machine} {r : Nat} {n : Int64}

theorem register_apply {f : Frame} (h : f.registers[r]? = some n) :
    Frame.register (r : Int) f = .ok n f := by
  simp [Frame.register, h]

theorem setRegister_apply {f : Frame} (h : r < f.registers.length) (n : Int64) :
    Frame.setRegister (r : Int) n f = .ok ⟨⟩ { f with registers := f.registers.set r n } := by
  simp [Frame.setRegister, Option.filter, h]

theorem exec_ifPos (h : m.frame.registers[r]? = some n) (target : Int) :
    exec ctx { opcode := .ifPos, p1 := r, p2 := target, p3 := 1 } m =
      if 0 < n then .ok .jump { m with
        frame := { m.frame with registers := m.frame.registers.set r (n - 1) } }
      else .ok .next m := by
  have hlt : r < m.frame.registers.length := (List.getElem?_eq_some_iff.mp h).1
  simp only [exec, bind_apply, onFrame, register_apply h]
  split
  · simp only [bind_apply, onFrame, setRegister_apply hlt, pure_apply, Counter.ofInt_one]
  · rfl

theorem exec_ifNotPos (h : m.frame.registers[r]? = some n) (target : Int) :
    exec ctx { opcode := .ifNotPos, p1 := r, p2 := target } m = .ok (.jumpIf (n ≤ 0)) m := by
  simp only [exec, bind_apply, onFrame, register_apply h, pure_apply]

theorem exec_addImm (h : m.frame.registers[r]? = some n) :
    exec ctx { opcode := .addImm, p1 := r, p3 := -1 } m = .ok .next { m with
      frame := { m.frame with registers := m.frame.registers.set r (n - 1) } } := by
  have hlt : r < m.frame.registers.length := (List.getElem?_eq_some_iff.mp h).1
  simp only [exec, bind_apply, onFrame, register_apply h, setRegister_apply hlt, pure_apply,
    Counter.add_ofInt_neg_one]

theorem exec_setInteger (h : r < m.frame.registers.length) (n : Int64) (comment : Option String) :
    exec ctx { opcode := .setInteger, p1 := r, operand := .integer n, comment } m =
      .ok .next { m with frame := { m.frame with registers := m.frame.registers.set r n } } := by
  simp only [exec, bind_apply, integerOperand, pure_apply, onFrame, setRegister_apply h]

theorem changeTable_apply {k : Nat} {t : Table} (h : m.tables[k]? = some (some t))
    (change : Table → Except Error Table) {t' : Table} (ht : change t = .ok t') :
    changeTable (k : Int) change m = .ok ⟨⟩ { m with tables := m.tables.set k (some t') } := by
  simp only [changeTable, bind_apply, table_apply h, ofTable, ht, pure_apply, setTable, modify_apply,
    setItem, place?_natCast]

/-- A record is made of the operands that are taken from the stacks. -/
def makeRecord (table : Int) (values : List Value) : MachineAction Flow := do
  changeTable table fun t => t.add values
  return .next

theorem makeRecord_apply {k : Nat} {t : Table} (h : m.tables[k]? = some (some t)) {values : List Value}
    (hfits : RowFits t.columns values) :
    makeRecord (k : Int) values m = .ok .next { m with tables := m.tables.set k (some (t.push values)) } := by
  simp only [makeRecord, bind_apply, changeTable_apply h (fun t => t.add values) (Table.add_of_fits hfits), pure_apply]

end Machine

/-! ### The tally on the machine -/

/-- A count is in its register, if it has one. -/
def Frame.Counts (f : Frame) (register : Option Nat) (count : Option Int64) : Prop :=
  match register with
  | none => count = none
  | some r => count.isSome = true ∧ f.registers[r]? = count

/-- Both counts, if there are two, have registers of their own. -/
def QuerySites.Apart (sites : QuerySites) : Prop := ∀ r, sites.skip = some r → sites.take ≠ some r

namespace Machine

variable {ctx : RunContext} {p : Procedure} {m : Machine} {sites : QuerySites} {base : Machine} {t : Tally}

/-- The machine has what the tally says, and otherwise the tables that it had at first. -/
structure Writes (sites : QuerySites) (columns : List Column) (base : Machine) (t : Tally)
    (m : Machine) : Prop where
  clear : m.frame.isClear = true
  registers : m.frame.registers.length = base.frame.registers.length
  skip : m.frame.Counts sites.skip t.skip
  take : m.frame.Counts sites.take t.take
  tables : m.tables = base.tables.set sites.table (some t.table)
  fits : t.table.Fits columns
  running : m.cancelled = false

open QueryCode

variable {columns : List Column} {start skipped done : Nat}

theorem Writes.push (h : Writes sites columns base t m) {row : List Value} (hrow : RowFits columns row)
    (address : Option Nat) (count : Nat) :
    Writes sites columns base { t with table := t.table.push row } { m with
      tables := m.tables.set sites.table (some (t.table.push row)), address, count } where
  clear := h.clear
  registers := h.registers
  skip := h.skip
  take := h.take
  tables := by simp only [h.tables, List.set_set]
  fits := h.fits.push hrow
  running := h.running

theorem counts_set_other {f : Frame} {register : Option Nat} {count : Option Int64} {r : Nat}
    (h : f.Counts register count) (hother : register ≠ some r) (n : Int64) :
    Frame.Counts { f with registers := f.registers.set r n } register count := by
  cases register with
  | none => exact h
  | some r' =>
    refine ⟨h.1, ?_⟩
    have hne : r ≠ r' := fun heq => hother (by rw [heq])
    rw [List.getElem?_set_ne hne]
    exact h.2

theorem counts_set_self {f : Frame} {r : Nat} (h : r < f.registers.length) (n : Int64) :
    Frame.Counts { f with registers := f.registers.set r n } (some r) (some n) :=
  ⟨rfl, List.getElem?_set_self h⟩

theorem runs_skipTest (hlimit : ctx.limit = 0) (hapart : sites.Apart)
    (h : Writes sites columns base t m) (hcode : p.HasCode start (skipTest sites.skip skipped))
    (haddr : m.address = some start) :
    Runs ctx p (Safe p) m (.ok (t.skip.any (0 < ·))) fun passed m₁ =>
      if passed then Writes sites columns base { t with skip := t.skip.map (· - 1) } m₁ ∧
        m₁.cursors = m.cursors ∧ m₁.rows = m.rows ∧ m₁.groups = m.groups ∧ m₁.address = some skipped
      else ∃ n, m₁ = { m with
        address := some (start + (skipTest sites.skip skipped).length), count := n } := by
  have hskip := h.skip
  cases hs : sites.skip with
  | none =>
    rw [hs] at hskip
    rw [show t.skip = none from hskip]
    exact .ok ⟨m.count, by simp [skipTest, ← haddr]⟩
  | some r =>
    rw [hs] at hcode hskip
    obtain ⟨hsome, hreg⟩ := hskip
    obtain ⟨n, hn⟩ := Option.isSome_iff_exists.mp hsome
    rw [hn] at hreg
    have hlt : r < m.frame.registers.length := (List.getElem?_eq_some_iff.mp hreg).1
    have hsafe : Safe p m := by
      refine safe_of_careful haddr hcode.head ?_
      intro k f' hk hpos
      rw [register_apply hreg] at hk
      cases hk
      exact Counter.toInt_sub_one hpos
    have hexec := exec_ifPos ctx (m := { m with count := m.count + 1 }) hreg skipped
    rw [hn]
    by_cases hpos : 0 < n
    · rw [if_pos hpos] at hexec
      simp only [Option.any_some, hpos, decide_true]
      refine Runs.jump hlimit haddr hcode.head hsafe hexec rfl (.ok ?_)
      rw [if_pos rfl]
      refine ⟨⟨h.clear, ?_, ?_, ?_, h.tables, h.fits, h.running⟩, rfl, rfl, rfl, rfl⟩
      · rw [← h.registers]
        exact List.length_set
      · rw [hs]
        exact counts_set_self hlt _
      · exact counts_set_other h.take (hapart r hs) _
    · rw [if_neg hpos] at hexec
      simp only [Option.any_some, hpos, decide_false]
      exact Runs.next hlimit haddr hcode.head hsafe hexec haddr (.ok ⟨m.count + 1, rfl⟩)

theorem runs_takeTest (hlimit : ctx.limit = 0) (h : m.frame.Counts sites.take t.take)
    (hcode : p.HasCode start (takeTest sites.take done)) (haddr : m.address = some start) :
    Runs ctx p (Safe p) m (.ok (t.take.any (· ≤ 0))) fun through m₁ => ∃ n, m₁ = { m with
      address := some (if through then done else start + (takeTest sites.take done).length),
      count := n } := by
  cases hs : sites.take with
  | none =>
    rw [hs] at h
    rw [show t.take = none from h]
    exact .ok ⟨m.count, by simp [takeTest, ← haddr]⟩
  | some r =>
    rw [hs] at hcode h
    obtain ⟨hsome, hreg⟩ := h
    obtain ⟨n, hn⟩ := Option.isSome_iff_exists.mp hsome
    rw [hn] at hreg
    have hsafe : Safe p m := safe_of_isPlain haddr hcode.head rfl
    have hexec := exec_ifNotPos ctx (m := { m with count := m.count + 1 }) hreg done
    rw [hn]
    by_cases hthrough : n ≤ 0
    · simp only [hthrough, decide_true] at hexec
      simp only [Option.any_some, hthrough, decide_true]
      exact Runs.jump hlimit haddr hcode.head hsafe hexec rfl (.ok ⟨m.count + 1, rfl⟩)
    · simp only [hthrough, decide_false] at hexec
      simp only [Option.any_some, hthrough, decide_false]
      exact Runs.next hlimit haddr hcode.head hsafe hexec haddr (.ok ⟨m.count + 1, rfl⟩)

/-- The rest of the machine is as it was. -/
structure SameRows (m m₁ : Machine) : Prop where
  cursors : m₁.cursors = m.cursors
  rows : m₁.rows = m.rows
  groups : m₁.groups = m.groups

theorem runs_takeCount (hlimit : ctx.limit = 0) (hapart : sites.Apart)
    (h : Writes sites columns base t m) (hleft : t.take.any (· ≤ 0) = false)
    (hcode : p.HasCode start (takeCount sites.take)) (haddr : m.address = some start) :
    Runs ctx p (Safe p) m (.ok { t with take := t.take.map (· - 1) }) fun t₁ m₁ =>
      Writes sites columns base t₁ m₁ ∧ SameRows m m₁ ∧
        m₁.address = some (start + (takeCount sites.take).length) := by
  have htake := h.take
  cases hs : sites.take with
  | none =>
    rw [hs] at htake
    have hnone : t.take = none := htake
    refine Runs.ok ⟨?_, ⟨rfl, rfl, rfl⟩, haddr⟩
    refine ⟨h.clear, h.registers, h.skip, ?_, h.tables, h.fits, h.running⟩
    rw [hs]
    simp [Frame.Counts, hnone]
  | some r =>
    rw [hs] at hcode htake
    obtain ⟨hsome, hreg⟩ := htake
    obtain ⟨n, hn⟩ := Option.isSome_iff_exists.mp hsome
    rw [hn] at hreg hleft
    have hpos : 0 < n := by
      simpa using hleft
    have hlt : r < m.frame.registers.length := (List.getElem?_eq_some_iff.mp hreg).1
    have hsafe : Safe p m := by
      refine safe_of_careful haddr hcode.head ?_
      intro k f' hk
      rw [register_apply hreg] at hk
      cases hk
      rw [Counter.add_ofInt_neg_one]
      exact Counter.toInt_sub_one hpos
    have hexec := exec_addImm ctx (m := { m with count := m.count + 1 }) hreg
    refine Runs.next hlimit haddr hcode.head hsafe hexec haddr (Runs.ok ⟨?_, ⟨rfl, rfl, rfl⟩, rfl⟩)
    refine ⟨h.clear, ?_, ?_, ?_, h.tables, h.fits, h.running⟩
    · rw [← h.registers]
      exact List.length_set
    · refine counts_set_other h.skip (fun hskip => ?_) _
      exact hapart r hskip hs
    · rw [hs, hn]
      exact counts_set_self hlt _

variable {q : BoundQuery} {g : Sight} {r : Reader}

theorem runs_writeRow (hlimit : ctx.limit = 0) (hr : r.Runs ctx p g.methods) (hapart : sites.Apart)
    (htable : sites.table < base.tables.length)
    (h : Writes sites (q.fields.map BoundField.column) base t m)
    (hleft : t.take.any (· ≤ 0) = false)
    (hfields : TypedExpr.AllWellTyped g (q.fields.map BoundField.expr))
    (hfits : (m.scene sites.group).Fits g.bare)
    (hcode : p.HasCode start (TypedExpr.codes sites.group (q.fields.map BoundField.expr) start ++
      [writeRow q sites.table] ++ takeCount sites.take))
    (haddr : m.address = some start) :
    Runs ctx p (Safe p) m (r.values (m.scene sites.group) (q.fields.map BoundField.expr) >>=
      fun row => .ok (t.write row)) fun t₁ m₁ =>
        Writes sites (q.fields.map BoundField.column) base t₁ m₁ ∧ SameRows m m₁ ∧
          m₁.address = some (start + TypedExpr.codesSize (q.fields.map BoundField.expr) + 1 +
            (takeCount sites.take).length) := by
  have hwrite := hcode.left.right.head
  have hcount := hcode.right
  rw [List.length_append, List.length_singleton, ← Nat.add_assoc] at hcount
  rw [TypedExpr.length_codes] at hwrite hcount
  have htypes : (q.fields.map BoundField.expr).map TypedExpr.type = q.fields.map BoundField.type := by
    rw [List.map_map]
    rfl
  have haccepts : ColumnType.AcceptsAll (q.fields.map BoundField.type)
      ((q.fields.map BoundField.expr).map TypedExpr.type) := htypes ▸ ColumnType.acceptsAll_self _
  have hexec : exec ctx (writeRow q sites.table) =
      (onFrame (Frame.popValues (q.fields.map BoundField.type)) >>= makeRecord sites.table) := rfl
  rw [hr.values_eq rfl hfields hfits, htypes]
  refine Runs.bind (hr.arguments rfl hfields haccepts hfits h.clear hcode.left.left hwrite rfl hexec haddr) ?_
  rintro row m₁ hrow ⟨haddr₁, n, hmake⟩
  have hfit : RowFits (q.fields.map BoundField.column) row := by
    rw [RowFits, hr.types rfl hfields haccepts hfits hrow, List.map_map]
    rfl
  have hat : m.tables[sites.table]? = some (some t.table) := by
    rw [h.tables, List.getElem?_set_self htable]
  rw [makeRecord_apply (m := { m with
    address := some (start + TypedExpr.codesSize (q.fields.map BoundField.expr)), count := n })
    hat (h.fits.columns ▸ hfit)] at hmake
  refine Runs.next hlimit haddr₁ hwrite (safe_of_isPlain haddr₁ hwrite rfl) hmake rfl ?_
  have hwritten := h.push hfit (some (start + TypedExpr.codesSize (q.fields.map BoundField.expr) + 1)) n
  refine (runs_takeCount hlimit hapart hwritten hleft hcount rfl).mono (fun _ => id) ?_
  rintro t₁ m₁ - ⟨hw₁, hsame, haddr₁⟩
  exact ⟨hw₁, ⟨hsame.cursors, hsame.rows, hsame.groups⟩, haddr₁⟩

theorem length_outputTests (sites : QuerySites) (skipped done : Nat) :
    (skipTest sites.skip skipped ++ takeTest sites.take done).length + (takeCount sites.take).length =
      (if sites.skip.isSome then 1 else 0) + if sites.take.isSome then 2 else 0 := by
  cases sites.skip <;> cases sites.take <;> rfl

/-- The end of a query's code: the row is counted off and written. A row that was passed over goes
on at `skipped`, one that was written after the code, and when no more is wanted at `done`. -/
theorem runs_output (hlimit : ctx.limit = 0) (hr : r.Runs ctx p g.methods) (hapart : sites.Apart)
    (htable : sites.table < base.tables.length)
    (h : Writes sites (q.fields.map BoundField.column) base t m)
    (hfields : TypedExpr.AllWellTyped g (q.fields.map BoundField.expr))
    (hfits : (m.scene sites.group).Fits g.bare)
    (hcode : p.HasCode start (outputCode q sites skipped done start))
    (haddr : m.address = some start) :
    Runs ctx p (Safe p) m (r.emit (q.fields.map BoundField.expr) (m.scene sites.group) t) fun progress m₁ =>
      Writes sites (q.fields.map BoundField.column) base progress.state m₁ ∧ SameRows m m₁ ∧ match progress with
        | .more _ => m₁.address = some skipped ∨ m₁.address = some (start + outputSize q sites)
        | .done _ => m₁.address = some done := by
  have hemit : r.emit (q.fields.map BoundField.expr) (m.scene sites.group) t =
      (.ok (t.skip.any (0 < ·)) >>= fun passed =>
        if passed then .ok (.more { t with skip := t.skip.map (· - 1) })
        else .ok (t.take.any (· ≤ 0)) >>= fun through =>
          if through then .ok (.done t)
          else r.values (m.scene sites.group) (q.fields.map BoundField.expr) >>= fun row =>
            .ok (.more (t.write row))) := by
    unfold Reader.emit
    rfl
  have hparts : p.HasCode start (skipTest sites.skip skipped ++ (takeTest sites.take done ++
      (TypedExpr.codes sites.group (q.fields.map BoundField.expr) (start +
        (skipTest sites.skip skipped ++ takeTest sites.take done).length) ++
        [writeRow q sites.table] ++ takeCount sites.take))) := by
    simpa only [outputCode, List.append_assoc] using hcode
  rw [hemit]
  refine Runs.bind (runs_skipTest hlimit hapart h hparts.left haddr) ?_
  rintro passed m₁ - hm₁
  cases passed with
  | true =>
    obtain ⟨hw, hcursors, hrows, hgroups, haddr₁⟩ := hm₁
    exact .ok ⟨hw, ⟨hcursors, hrows, hgroups⟩, .inl haddr₁⟩
  | false =>
    obtain ⟨n₁, rfl⟩ := hm₁
    refine Runs.bind (runs_takeTest hlimit h.take hparts.right.left rfl) ?_
    rintro through _ hthrough ⟨n₂, rfl⟩
    have hthrough : t.take.any (· ≤ 0) = through := Except.ok.inj hthrough
    cases through with
    | true =>
      refine Runs.ok ⟨?_, ⟨rfl, rfl, rfl⟩, rfl⟩
      exact ⟨h.clear, h.registers, h.skip, h.take, h.tables, h.fits, h.running⟩
    | false =>
      have hwrite := hparts.right.right
      rw [Nat.add_assoc, ← List.length_append] at hwrite
      have hmore : (r.values (m.scene sites.group) (q.fields.map BoundField.expr) >>=
          fun row => .ok (.more (t.write row)) : Except Error (Progress Tally)) =
          ((r.values (m.scene sites.group) (q.fields.map BoundField.expr) >>=
            fun row => .ok (t.write row)) >>= fun t₁ => .ok (.more t₁)) := by
        cases r.values (m.scene sites.group) (q.fields.map BoundField.expr) <;> rfl
      have htested : Writes sites (q.fields.map BoundField.column) base t { m with
          address := some (start + (skipTest sites.skip skipped ++ takeTest sites.take done).length),
          count := n₂ } :=
        ⟨h.clear, h.registers, h.skip, h.take, h.tables, h.fits, h.running⟩
      have haddr₂ : start + (skipTest sites.skip skipped).length + (takeTest sites.take done).length =
          start + (skipTest sites.skip skipped ++ takeTest sites.take done).length := by
        rw [List.length_append, Nat.add_assoc]
      simp only [Bool.false_eq_true, if_false, haddr₂]
      rw [hmore]
      refine Runs.bind (runs_writeRow hlimit hr hapart htable htested hthrough hfields hfits hwrite rfl) ?_
      rintro t₁ m₁ - ⟨hw₁, hsame, haddr₁⟩
      refine Runs.ok ⟨hw₁, ⟨hsame.cursors, hsame.rows, hsame.groups⟩, .inr ?_⟩
      have hlength := length_outputTests sites skipped done
      rw [haddr₁, outputSize]
      congr 1
      omega

end Machine

end TabularQuery
