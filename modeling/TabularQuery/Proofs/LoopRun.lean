import TabularQuery.Proofs.Cursors
import TabularQuery.Proofs.Reading

/-!
Nested loops on the machine. The code of the loops of a query visits the scenes that `Reader.visits`
lists, in order, and runs a body in each of them. What the body computes is a parameter: a state `st`
that the machine tracks by a relation `R`, which must not depend on cursors and their rows.
-/

namespace TabularQuery

open QueryCode

namespace Machine

variable {m m₁ m₂ : Machine} {g : Sight} {s : Scene}

/-- The rows in sight are those of the scene. -/
def Shows (g : Sight) (s : Scene) (m : Machine) : Prop :=
  ∀ x ∈ g.cursors, m.rows[x.1]?.join = s.row? x.1

theorem Shows.agree (h : Shows g s m) (hslots : g.slots = []) (group : Nat) :
    Scene.Agree g s (m.scene group) where
  rows c columns hmem := (h (c, columns) hmem).symm
  slots k hk := by
    rw [hslots] at hk
    cases hk

theorem Shows.fits (h : Shows g s m) (hslots : g.slots = []) (hs : s.Fits g.bare) (group : Nat) :
    (m.scene group).Fits g.bare :=
  hs.of_agree ⟨(h.agree hslots group).rows, (h.agree hslots group).slots⟩

theorem Shows.put (h : Shows g s m) {source : BoundSource}
    (hnew : ∀ x ∈ g.cursors, x.1 ≠ source.cursor) {row : List Value}
    (hrows : m₁.rows = m.rows.set source.cursor (some row)) (hlt : source.cursor < m.rows.length) :
    Shows (g.add source) (s.put source.cursor row) m₁ := by
  intro x hx
  rcases Sight.mem_add.mp hx with hx | rfl
  · rw [hrows, List.getElem?_set_ne (Ne.symm (hnew x hx)), h x hx, Scene.put_other _ _ _ _ (hnew x hx)]
  · rw [hrows, List.getElem?_set_self hlt, Scene.put_same]
    rfl

/-- The cursors in sight and their rows are as they were. -/
structure Untouched (g : Sight) (m m₁ : Machine) : Prop where
  cursors : m₁.cursors.length = m.cursors.length
  rows : m₁.rows.length = m.rows.length
  same : ∀ x ∈ g.cursors, m₁.cursors[x.1]? = m.cursors[x.1]? ∧ m₁.rows[x.1]? = m.rows[x.1]?

theorem Untouched.ofEq (hcursors : m₁.cursors = m.cursors) (hrows : m₁.rows = m.rows) :
    Untouched g m m₁ := by
  refine ⟨by rw [hcursors], by rw [hrows], fun x _ => ?_⟩
  rw [hcursors, hrows]
  exact ⟨rfl, rfl⟩

theorem Untouched.trans (h : Untouched g m m₁) (h' : Untouched g m₁ m₂) : Untouched g m m₂ where
  cursors := h'.cursors.trans h.cursors
  rows := h'.rows.trans h.rows
  same x hx := ⟨(h'.same x hx).1.trans (h.same x hx).1, (h'.same x hx).2.trans (h.same x hx).2⟩

theorem Untouched.shows (h : Untouched g m m₁) (hs : Shows g s m) : Shows g s m₁ := by
  intro x hx
  rw [(h.same x hx).2, hs x hx]

theorem Untouched.ofAdd {source : BoundSource} (h : Untouched (g.add source) m m₁) :
    Untouched g m m₁ :=
  ⟨h.cursors, h.rows, fun x hx => h.same x (Sight.mem_add.mpr (.inl hx))⟩

theorem Untouched.set {c : Nat} (hnew : ∀ x ∈ g.cursors, x.1 ≠ c) {cur : Cursor}
    {row : Option (List Value)} (hcursors : m₁.cursors = m.cursors.set c cur)
    (hrows : m₁.rows = m.rows.set c row) : Untouched g m m₁ where
  cursors := by rw [hcursors, List.length_set]
  rows := by rw [hrows, List.length_set]
  same x hx := by
    have hne := Ne.symm (hnew x hx)
    rw [hcursors, hrows, List.getElem?_set_ne hne, List.getElem?_set_ne hne]
    exact ⟨rfl, rfl⟩

/-- A relation between states of a loop body and of the machine that survives moving cursors. The
tables of `T` are in their places, and rows can be read. -/
structure Tracks {σ : Type} (T : Nat → Option Table) (R : σ → Machine → Prop) : Prop where
  move : ∀ {st m}, R st m → ∀ cursors rows address count, R st { m with cursors, rows, address, count }
  tables : ∀ {st m}, R st m → m.HasTables T
  clear : ∀ {st m}, R st m → m.frame.isClear = true
  running : ∀ {st m}, R st m → m.cancelled = false

section Loops

variable {ctx : RunContext} {p : Procedure} {σ : Type} {T : Nat → Option Table}
variable {R : σ → Machine → Prop} {body : Scene → σ → Except Error (Progress σ)} {width : Nat}
variable {events inside : Scene → List (Except Error Scene)} {start more done : Nat} {r : Reader}

/-- The body is in state `r`, and the machine goes on at `more` or `done`. -/
structure Left (R : σ → Machine → Prop) (g : Sight) (m : Machine) (more done : Nat) (r : Progress σ)
    (m₁ : Machine) : Prop where
  tracked : R r.state m₁
  untouched : Untouched g m m₁
  address : m₁.address = some (r.pick more done)

theorem Left.after {r : Progress σ} (h : Untouched g m m₁) (h' : Left R g m₁ more done r m₂) :
    Left R g m more done r m₂ :=
  ⟨h'.tracked, h.trans h'.untouched, h'.address⟩

/-- From `start` on the code hands the scenes that `events` lists to the body; then it goes to `more`,
or to `done` if the body wants no more. -/
def Visiting (ctx : RunContext) (p : Procedure) (R : σ → Machine → Prop)
    (body : Scene → σ → Except Error (Progress σ)) (width : Nat) (g : Sight)
    (events : Scene → List (Except Error Scene)) (start more done : Nat) : Prop :=
  ∀ (s : Scene) (st : σ) (m : Machine), R st m → Shows g s m → s.Fits g.bare → m.address = some start →
    m.cursors.length = width → m.rows.length = width →
    Runs ctx p (Safe p) m (consume body (events s) st) (Left R g m more done)

theorem visiting_test (hr : r.Runs ctx p g.methods) (hR : Tracks T R) (hslots : g.slots = [])
    {test : Option TypedExpr} (htest : g.Tests test) {comment : Option String}
    (hcode : p.HasCode start (testCode 0 test more comment start))
    (h : Visiting ctx p R body width g events (start + testSize test) more done) :
    Visiting ctx p R body width g (fun s => guarded (r.passes s test) (events s)) start more done := by
  intro s st m hst hshows hfits haddr hcursors hrows
  have hrun := hr.passes htest (hshows.fits hslots hfits 0) (hR.clear hst) hcode haddr
  rw [consume_guarded, hr.passes_congr htest hfits (hshows.agree hslots 0)]
  refine Runs.bind hrun ?_
  rintro holds _ - ⟨n, rfl⟩
  have hmoved := hR.move hst m.cursors m.rows
  cases holds with
  | true =>
    exact (h s st _ (hmoved _ n) hshows hfits rfl hcursors hrows).mono (fun _ => id)
      fun _ _ _ => Left.after (.ofEq rfl rfl)
  | false => exact .ok ⟨hmoved _ n, .ofEq rfl rfl, rfl⟩

variable {source : BoundSource} {exhausted : Nat}

/-- The rows of a cursor one by one: at `start` the loop goes round. -/
theorem runs_rows (hlimit : ctx.limit = 0) (hR : Tracks T R)
    (hnew : ∀ x ∈ g.cursors, x.1 ≠ source.cursor) (hwidth : source.cursor < width)
    (hnext : p.code[start]? = some { opcode := .next, p1 := source.cursor, p2 := exhausted })
    (h : Visiting ctx p R body width (g.add source) inside (start + 1) start done) {s : Scene}
    (hfits : s.Fits g.bare) :
    ∀ (rows : Delivery) (st : σ) (m : Machine) (cur : Cursor),
      (∀ row, .ok row ∈ rows → RowFits source.columns row) →
      m.cursors[source.cursor]? = some cur → cur.Holds T rows → R st m → Shows g s m →
      m.address = some start → m.cursors.length = width → m.rows.length = width →
      Runs ctx p (Safe p) m
        (consume body (eachRow rows fun row => inside (s.put source.cursor row)) st)
        (Left R g m exhausted done) := by
  intro rows
  induction rows with
  | nil =>
    intro st m cur _ hcur hholds hst hshows haddr hcursors hrows
    have hsafe : Safe p m := safe_of_careful haddr hnext (hR.clear hst)
    have hcounted := hR.move hst m.cursors m.rows m.address (m.count + 1)
    obtain ⟨cur', _, hadvance⟩ := advances (hR.running hcounted) (hR.tables hcounted) hcur hholds
    have hexec := exec_next ctx (hR.running hcounted) hadvance exhausted
    refine Runs.jump hlimit haddr hnext hsafe hexec rfl (.ok ⟨hR.move hst _ _ _ _, ?_, rfl⟩)
    exact .set hnew rfl rfl
  | cons item rows ih =>
    intro st m cur hfit hcur hholds hst hshows haddr hcursors hrows
    have hsafe : Safe p m := safe_of_careful haddr hnext (hR.clear hst)
    have hcounted := hR.move hst m.cursors m.rows m.address (m.count + 1)
    have hadvances := advances (hR.running hcounted) (hR.tables hcounted) hcur hholds
    cases item with
    | error e =>
      obtain ⟨m', hadvance⟩ := hadvances
      exact Runs.fail hlimit haddr hnext hsafe (exec_next_error ctx (hR.running hcounted) hadvance _)
    | ok row =>
      obtain ⟨cur', hholds', hadvance⟩ := hadvances
      have hexec := exec_next ctx (hR.running hcounted) hadvance exhausted
      have hlt : source.cursor < m.cursors.length := by omega
      -- The inner part runs for this row, and then the loop for the rows after it.
      have hrest : ∀ m₁ : Machine, m₁.cursors = m.cursors.set source.cursor cur' →
          m₁.rows = m.rows.set source.cursor (some row) → R st m₁ → m₁.address = some (start + 1) →
          Runs ctx p (Safe p) m₁
            (consume body (eachRow (.ok row :: rows) fun row => inside (s.put source.cursor row)) st)
            (Left R g m exhausted done) := by
        intro m₁ hcursors₁ hrows₁ hst₁ haddr₁
        have hmoved : Untouched g m m₁ := .set hnew hcursors₁ hrows₁
        have hshows₁ := hshows.put hnew hrows₁ (by omega)
        have hfits₁ : (s.put source.cursor row).Fits (g.add source).bare :=
          hfits.put hnew (hfit row List.mem_cons_self)
        rw [eachRow, List.flatMap_cons, consume_append]
        refine Runs.bind (h _ st m₁ hst₁ hshows₁ hfits₁ haddr₁ (hmoved.cursors.trans hcursors)
          (hmoved.rows.trans hrows)) ?_
        rintro progress m₂ - hleft
        have huntouched := hmoved.trans hleft.untouched.ofAdd
        cases progress with
        | done st₂ => exact .ok ⟨hleft.tracked, huntouched, hleft.address⟩
        | more st₂ =>
          have hcur₂ : m₂.cursors[source.cursor]? = some cur' := by
            rw [(hleft.untouched.same _ (Sight.mem_add.mpr (.inr rfl))).1, hcursors₁,
              List.getElem?_set_self hlt]
          exact (ih st₂ m₂ cur' (fun row' hmem => hfit row' (List.mem_cons_of_mem _ hmem)) hcur₂ hholds'
            hleft.tracked (huntouched.shows hshows) hleft.address (huntouched.cursors.trans hcursors)
            (huntouched.rows.trans hrows)).mono (fun _ => id) fun _ _ _ => Left.after huntouched
      exact Runs.next hlimit haddr hnext hsafe hexec haddr
        (hrest _ rfl rfl (hR.move hst _ _ _ _) rfl)

/-- A source, the instruction that opens it, and what opening it brings. -/
abbrev Loop := Instruction × BoundSource × Except Error Delivery

/-- The instruction opens the source's cursor, and the rows that then come fit the columns. -/
structure Supplied (ctx : RunContext) (T : Nat → Option Table) (width : Nat) (l : Loop) : Prop where
  width : l.2.1.cursor < width
  fits : ∀ rows, l.2.2 = .ok rows → ∀ row, .ok row ∈ rows → RowFits l.2.1.columns row
  opens : Opens ctx T l.1 l.2.1.cursor l.2.2
  plain : l.1.isPlain = true

theorem visiting_loop (hlimit : ctx.limit = 0) (hr : r.Runs ctx p g.methods) (hR : Tracks T R) (hslots : g.slots = [])
    (hnew : ∀ x ∈ g.cursors, x.1 ≠ source.cursor) (hon : (g.add source).Tests source.on)
    {op : Instruction} {opened : Except Error Delivery}
    (hsupplied : Supplied ctx T width (op, source, opened))
    (hcode : p.HasCode start (loopCode op source exhausted start))
    (h : Visiting ctx p R body width (g.add source) inside (start + loopSize source) (start + 1) done) :
    Visiting ctx p R body width g (fun s => match opened with
      | .error e => [.error e]
      | .ok rows => eachRow rows fun row =>
        guarded (r.passes (s.put source.cursor row) source.on) (inside (s.put source.cursor row)))
      start exhausted done := by
  intro s st m hst hshows hfits haddr hcursors hrows
  have hsafe : Safe p m := safe_of_isPlain haddr hcode.head hsupplied.plain
  have hwidth : source.cursor < width := hsupplied.width
  have hcounted := hR.move hst m.cursors m.rows m.address (m.count + 1)
  have hopened := hsupplied.opens { m with count := m.count + 1 } (by simp only; omega)
    (hR.tables hcounted)
  cases opened with
  | error e =>
    obtain ⟨m', hexec⟩ := hopened
    exact Runs.fail hlimit haddr hcode.head hsafe hexec
  | ok rows =>
    obtain ⟨cur, hholds, hexec⟩ := hopened
    have hsize : start + 1 + 1 + testSize source.on = start + loopSize source := by
      simp only [loopSize]
      omega
    rw [← hsize] at h
    have hslots₁ : (g.add source).slots = [] := hslots
    have hinside := visiting_test (g := g.add source) hr hR hslots₁ hon hcode.tail.tail h
    have hrest : ∀ m₁ : Machine, m₁.cursors = m.cursors.set source.cursor cur →
        m₁.rows = m.rows.set source.cursor none → R st m₁ → m₁.address = some (start + 1) →
        Runs ctx p (Safe p) m₁ (consume body (eachRow rows fun row =>
          guarded (r.passes (s.put source.cursor row) source.on) (inside (s.put source.cursor row))) st)
          (Left R g m exhausted done) := by
      intro m₁ hcursors₁ hrows₁ hst₁ haddr₁
      have hmoved : Untouched g m m₁ := .set hnew hcursors₁ hrows₁
      have hcur : m₁.cursors[source.cursor]? = some cur := by
        rw [hcursors₁, List.getElem?_set_self (by omega)]
      exact (runs_rows hlimit hR hnew hwidth hcode.tail.head hinside hfits rows st m₁ cur
        (hsupplied.fits rows rfl) hcur hholds hst₁ (hmoved.shows hshows) haddr₁
        (hmoved.cursors.trans hcursors) (hmoved.rows.trans hrows)).mono (fun _ => id)
        fun _ _ _ => Left.after hmoved
    exact Runs.next hlimit haddr hcode.head hsafe hexec haddr
      (hrest _ rfl rfl (hR.move hst _ _ _ _) rfl)

/-- All the loops of a query: the filter stands after them, and what passes it goes to the body. -/
theorem visiting_loops (hlimit : ctx.limit = 0) {methods : BoundFunction → Prop} (hr : r.Runs ctx p methods)
    (hR : Tracks T R) {filter : Option TypedExpr}
    {filterAt inner : Nat} (hfilter : p.HasCode filterAt (testCode 0 filter inner none filterAt)) :
    ∀ (loops : List Loop) (g : Sight) (exhausted start : Nat), g.methods = methods → g.slots = [] →
      g.Nested filter (loops.map fun l => l.2.1) → (∀ l ∈ loops, Supplied ctx T width l) →
      p.HasCode start (loopsCode (loops.map fun l => (l.1, l.2.1)) exhausted start) →
      start + loopsSize (loops.map fun l => l.2.1) = filterAt →
      innermost (loops.map fun l => l.2.1) exhausted start = inner →
      Visiting ctx p R body width ((loops.map fun l => l.2.1).foldl Sight.add g) (fun s => [.ok s])
        (filterAt + testSize filter) inner done →
      Visiting ctx p R body width g (r.visits filter (loops.map Prod.snd)) start exhausted done := by
  intro loops
  induction loops with
  | nil =>
    rintro g exhausted start rfl hslots hnested _ _ hstart hinner hbody
    obtain rfl : start = filterAt := by simpa [loopsSize] using hstart
    obtain rfl : exhausted = inner := hinner
    exact visiting_test hr hR hslots hnested hfilter hbody
  | cons l loops ih =>
    obtain ⟨op, source, opened⟩ := l
    rintro g exhausted start rfl hslots hnested hsupplied hcode hstart hinner hbody
    obtain ⟨hnew, hon, hnested⟩ := hnested
    have hcoderest := hcode.right
    rw [length_loopCode] at hcoderest
    have hrest := ih (g.add source) (start + 1) (start + loopSize source) rfl hslots hnested
      (fun l hl => hsupplied l (List.mem_cons_of_mem _ hl)) hcoderest
      (by rw [← hstart]; simp [loopsSize, Nat.add_assoc]) hinner hbody
    have hloop := visiting_loop hlimit hr hR hslots hnew hon (hsupplied _ List.mem_cons_self) hcode.left hrest
    cases opened <;> exact hloop

end Loops

end Machine

end TabularQuery
