import Mathlib.Order.Filter.AtTopBot.Basic
import Mathlib.Order.Filter.Finite
import Mathlib.Order.OrderIsoNat
import TabularQuery.Proofs.ControlFlow
import TabularQuery.Proofs.Indexes

/-!
Runs that come to an end. A step takes from a supply what its instruction says, and adds to none that the
instruction does not fill up, as long as no table is read that is being written. So a procedure that winds down
ends, whatever its data: a run that went on for ever would go round between the sites that it passes again and again,
and would take for ever from a supply that is never filled up.
-/

namespace TabularQuery

/-! ### What is left -/

namespace RowSource

variable {cancelled : Bool} {rows : RowSource}

theorem length_rest_le (cancelled : Bool) (rows : RowSource) : (rows.pull cancelled).rest.length ≤ rows.length := by
  induction rows generalizing cancelled with
  | nil => exact Nat.le_refl 0
  | cons event rest ih =>
    cases event with
    | row | failure => exact Nat.le_succ _
    | cancel => exact Nat.le_succ_of_le (ih true)
    | checkpoint =>
      cases cancelled with
      | true => exact Nat.zero_le _
      | false => exact Nat.le_succ_of_le (ih false)

theorem length_rest_lt {item : Except Error SourceRow} (h : (rows.pull cancelled).item = some item) :
    (rows.pull cancelled).rest.length < rows.length := by
  cases rows with
  | nil => cases h
  | cons event rest =>
    cases event with
    | row | failure => exact Nat.lt_succ_self _
    | cancel => exact Nat.lt_succ_of_le (length_rest_le true rest)
    | checkpoint =>
      cases cancelled with
      | true => exact Nat.succ_pos _
      | false => exact Nat.lt_succ_of_le (length_rest_le false rest)

end RowSource

/-- The number of rows of a table; one that is not there has none. -/
def rowsIn (tables : List (Option Table)) (n : Nat) : Nat := (tables[n]?.join).elim 0 fun t => t.rows.size

/-- The rows before a cursor, over these tables. -/
def Cursor.ahead (tables : List (Option Table)) : Cursor → Nat
  | .closed => 0
  | .source rows _ => rows.length
  | .table n following => rowsIn tables n - following

/-- The groups after the current one. -/
def Groups.ahead (g : Groups) : Nat := g.groups.length - g.following

/-- How much of a supply is left. -/
def Machine.left (m : Machine) : Supply → Nat
  | .cursor c => (m.cursors[c]?).elim 0 (Cursor.ahead m.tables)
  | .grouping g => (m.groups[g]?).elim 0 Groups.ahead

namespace Instruction

/-- The table over which the instruction opens a cursor. -/
def reads (op : Instruction) : Option Nat :=
  match op.opcode with
  | .openTable => place? op.p2
  | _ => none

/-- The table to which the instruction adds a row. -/
def writes (op : Instruction) : Option Nat :=
  match op.opcode with
  | .makeRecord => place? op.p1
  | .copyRow => place? op.p3
  | _ => none

end Instruction

/-- The procedure adds rows to table `i` alone, and reads none but those before it. -/
structure Procedure.Owns (p : Procedure) (i : Nat) : Prop where
  reads : ∀ (a : Nat) (op : Instruction) (n : Nat), p.code[a]? = some op → op.reads = some n → n < i
  writes : ∀ (a : Nat) (op : Instruction) (n : Nat), p.code[a]? = some op → op.writes = some n → n = i

/-- No cursor reads a table from number `i` on. -/
def Machine.ReadsBelow (m : Machine) (i : Nat) : Prop :=
  ∀ n following, .table n following ∈ m.cursors → n < i

/-! ### Sequences -/

section Sequences

open Filter

/-- A sequence in a finite set goes round: from some place on every item comes again and again, and there is a stretch
with all of them in it that begins and ends with the same one. -/
theorem exists_round {α : Type} {f : Nat → α} {xs : Finset α} (h : ∀ n, f n ∈ xs) :
    ∃ first last, (∀ n ≥ first, ∃ᶠ k in atTop, f k = f n) ∧ first < last ∧ f last = f first ∧
      ∀ n ≥ first, ∃ k ≥ first, k < last ∧ f k = f n := by
  have hrecurs : ∀ᶠ n in atTop, ∀ x ∈ xs, f n = x → ∃ᶠ k in atTop, f k = x := by
    refine (eventually_all_finset xs).mpr fun x _ => ?_
    by_cases hx : ∃ᶠ k in atTop, f k = x
    · exact .of_forall fun _ _ => hx
    · exact (not_frequently.mp hx).mono fun n hne heq => absurd heq hne
  obtain ⟨first, hfirst⟩ := eventually_atTop.mp hrecurs
  have hagain : ∀ n ≥ first, ∃ᶠ k in atTop, f k = f n := fun n hn => hfirst n hn (f n) (h n) rfl
  have hcovers : ∀ᶠ last in atTop, ∀ x ∈ xs, (∃ n ≥ first, f n = x) → ∃ k ≥ first, k < last ∧ f k = x := by
    refine (eventually_all_finset xs).mpr fun x _ => ?_
    by_cases hx : ∃ n ≥ first, f n = x
    · obtain ⟨n, hn, hfn⟩ := hx
      exact (eventually_gt_atTop n).mono fun last hlast _ => ⟨n, hn, hlast, hfn⟩
    · exact .of_forall fun _ hx' => absurd hx' hx
  obtain ⟨last, hlast, hcover, hlt⟩ :=
    ((hagain first (Nat.le_refl first)).and_eventually (hcovers.and (eventually_gt_atTop first))).exists
  exact ⟨first, last, hagain, hlt, hlast, fun n hn => hcover (f n) (h n) ⟨n, hn, rfl⟩⟩

/-- A sequence of numbers that never goes up from some place on does not go down again and again. -/
theorem not_frequently_lt {f : Nat → Nat} {first : Nat} (hle : ∀ n ≥ first, f (n + 1) ≤ f n) :
    ¬ ∃ᶠ n in atTop, f (n + 1) < f n := by
  have hantitone : Antitone fun n => f (first + n) :=
    antitone_nat_of_succ_le fun n => hle (first + n) (Nat.le_add_right _ _)
  obtain ⟨steady, hsteady⟩ := WellFoundedLT.antitone_chain_condition hantitone
  refine not_frequently.mpr (eventually_atTop.mpr ⟨first + steady, fun n hn hlt => ?_⟩)
  obtain ⟨k, rfl⟩ := Nat.exists_eq_add_of_le hn
  have hnow := hsteady (steady + k) (Nat.le_add_right _ _)
  have hthen := hsteady (steady + k + 1) (Nat.le_add_right_of_le (Nat.le_add_right _ _))
  simp only [← Nat.add_assoc] at hnow hthen
  omega

end Sequences

/-! ### Steps -/

namespace Machine

variable {ctx : RunContext} {op : Instruction} {m m' : Machine} {flow : Flow} {i : Nat}

theorem Effect.address_eq (h : Effect ctx op m flow m') : m'.address = m.address := by
  cases h <;> rfl

theorem Effect.readsBelow (h : Effect ctx op m flow m') (hop : ∀ n, op.reads = some n → n < i) (hm : m.ReadsBelow i) :
    m'.ReadsBelow i := by
  -- A new cursor comes in the place of an old one; it reads a table if it is opened over it, or if the old one did.
  have hset : ∀ j c, (∀ n k, c = .table n k → n < i) → ∀ n k, .table n k ∈ m.cursors.set j c → n < i := by
    intro j c hc n k hmem
    rcases List.mem_or_eq_of_mem_set hmem with hold | hnew
    · exact hm n k hold
    · exact hc n k hnew.symm
  cases h with
  | openedSource | pulled | drained => exact hset _ _ nofun
  | openedTable j n hopen hj hn =>
    refine hset j _ ?_
    rintro _ _ ⟨⟩
    exact hop n (by simp only [Instruction.reads, hopen, hn])
  | scanned j n following t row hnext hj hc =>
    refine hset j _ ?_
    rintro _ _ ⟨⟩
    exact hm n following (List.mem_of_getElem? hc)
  | _ => exact hm

section Lists

variable {α : Type} {xs : List α} {x y : α} {j k : Nat} {f : α → Nat}

theorem elim_set_le (hk : k ≠ j ∨ ∃ y, xs[k]? = some y ∧ f x ≤ f y) :
    ((xs.set k x)[j]?).elim 0 f ≤ (xs[j]?).elim 0 f := by
  rcases eq_or_ne k j with rfl | hne
  · obtain ⟨y, hy, hle⟩ := hk.resolve_left (fun hne => hne rfl)
    rw [List.getElem?_set_self (List.getElem?_eq_some_iff.mp hy).1, hy]
    exact hle
  · rw [List.getElem?_set_ne hne]

theorem elim_set_lt (hy : xs[k]? = some y) (hlt : f x < f y) : ((xs.set k x)[k]?).elim 0 f < (xs[k]?).elim 0 f := by
  rw [List.getElem?_set_self (List.getElem?_eq_some_iff.mp hy).1, hy]
  exact hlt

end Lists

theorem rowsIn_eq {tables : List (Option Table)} {n : Nat} {t : Table} (h : tables[n]? = some (some t)) :
    rowsIn tables n = t.rows.size := by
  simp only [rowsIn, h, Option.join_some, Option.elim_some]

/-- Another cursor in the place of one adds to no supply but its own, and not to that if it has no more before it. -/
theorem left_le_of_cursor {k : Nat} {c : Cursor} {s : Supply} (hcursors : m'.cursors = m.cursors.set k c)
    (htables : m'.tables = m.tables) (hgroups : m'.groups = m.groups)
    (h : s ≠ .cursor k ∨ ∃ c', m.cursors[k]? = some c' ∧ c.ahead m.tables ≤ c'.ahead m.tables) :
    m'.left s ≤ m.left s := by
  cases s with
  | grouping g => simp only [left, hgroups, Nat.le_refl]
  | cursor j =>
    simp only [left, hcursors, htables]
    exact elim_set_le (h.imp_left fun hne hkj => hne (congrArg _ hkj.symm))

theorem left_le_of_groups {k : Nat} {g : Groups} {s : Supply} (hcursors : m'.cursors = m.cursors)
    (htables : m'.tables = m.tables) (hgroups : m'.groups = m.groups.set k g)
    (h : s ≠ .grouping k ∨ ∃ g', m.groups[k]? = some g' ∧ g.ahead ≤ g'.ahead) : m'.left s ≤ m.left s := by
  cases s with
  | cursor c => simp only [left, hcursors, htables, Nat.le_refl]
  | grouping j =>
    simp only [left, hgroups]
    exact elim_set_le (h.imp_left fun hne hkj => hne (congrArg _ hkj.symm))

/-- Another table in the place of one adds to no supply, if it is no longer or no cursor reads it. -/
theorem left_le_of_table {k : Nat} {t : Table} {s : Supply} (hcursors : m'.cursors = m.cursors)
    (htables : m'.tables = m.tables.set k (some t)) (hgroups : m'.groups = m.groups)
    (h : t.rows.size ≤ rowsIn m.tables k ∨ ∀ following, .table k following ∉ m.cursors) :
    m'.left s ≤ m.left s := by
  cases s with
  | grouping g => simp only [left, hgroups, Nat.le_refl]
  | cursor c =>
    simp only [left, hcursors, htables]
    cases hc : m.cursors[c]? with
    | none => exact Nat.le_refl _
    | some cursor =>
      cases cursor with
      | closed | source => exact Nat.le_refl _
      | table n following =>
        simp only [Option.elim_some, Cursor.ahead]
        refine Nat.sub_le_sub_right ?_ following
        rcases eq_or_ne k n with rfl | hne
        · have hle := h.resolve_right fun hnone => hnone following (List.mem_of_getElem? hc)
          rw [rowsIn, List.getElem?_set]
          split
          · split
            · exact hle
            · exact Nat.zero_le _
          · exact Nat.le_refl _
        · rw [rowsIn, List.getElem?_set_ne hne]
          exact Nat.le_refl _

/-- A step adds to no supply that its instruction does not fill up, if the table to which it adds is not read. -/
theorem Effect.left_le (h : Effect ctx op m flow m') (hm : m.ReadsBelow i) (hop : ∀ n, op.writes = some n → n = i)
    {s : Supply} (hs : op.fillsUp ≠ some s) : m'.left s ≤ m.left s := by
  cases h with
  | still | passed => exact Nat.le_refl _
  | openedSource k rows columns hopen hk | openedTable k n hopen hk =>
    refine left_le_of_cursor rfl rfl rfl (.inl ?_)
    rintro rfl
    exact hs (by simp only [Instruction.fillsUp, hopen, hk, Option.map_some])
  | pulled k rows columns item row hnext hk hc | drained k rows columns hnext hk hc =>
    exact left_le_of_cursor rfl rfl rfl (.inr ⟨_, hc, rows.length_rest_le m.cancelled⟩)
  | scanned k n following t row hnext hk hc =>
    exact left_le_of_cursor rfl rfl rfl (.inr ⟨_, hc, Nat.sub_le_sub_left (Nat.le_succ following) _⟩)
  | reset k hreset hk =>
    refine left_le_of_groups rfl rfl rfl (.inl ?_)
    rintro rfl
    exact hs (by simp only [Instruction.fillsUp, hreset, hk, Option.map_some])
  | met k g key j f hkey hk | founded k d g key f hkey hk =>
    refine left_le_of_groups rfl rfl rfl (.inl ?_)
    rintro rfl
    exact hs (by simp only [Instruction.fillsUp, hkey, hk, Option.map_some])
  | accumulated k g j group slot a f hacc hk hg hj =>
    refine left_le_of_groups rfl rfl rfl (.inr ⟨g, hg, ?_⟩)
    simp only [Groups.ahead, Groups.following, List.length_set, Nat.le_refl]
  | selected flow k d g j group hselect hk hg hj =>
    rcases hselect with ⟨hrewind, -, -⟩ | ⟨-, -, rfl⟩
    · refine left_le_of_groups rfl rfl rfl (.inl ?_)
      rintro rfl
      exact hs (by simp only [Instruction.fillsUp, hrewind, hk, Option.map_some])
    · exact left_le_of_groups rfl rfl rfl (.inr ⟨g, hg, Nat.sub_le_sub_left (Nat.le_succ _) _⟩)
  | created k d t hcreate hk hd ht =>
    refine left_le_of_table rfl rfl rfl (.inl ?_)
    rw [Table.withColumns_eq_ok ht]
    exact Nat.zero_le _
  | indexed k t t' columns f hindex hk ht ht' =>
    refine left_le_of_table rfl rfl rfl (.inl ?_)
    rw [(Table.addIndex_eq_ok ht').2, Table.rows_withIndex, rowsIn_eq ht]
  | appended k t t' row f happend ht ht' =>
    have hk : k = i := by
      refine hop k ?_
      rcases happend with ⟨hrecord, hk⟩ | ⟨hcopy, hk⟩
      · simp only [Instruction.writes, hrecord, hk]
      · simp only [Instruction.writes, hcopy, hk]
    exact left_le_of_table rfl rfl rfl (.inr fun following hmem => Nat.ne_of_lt (hm k following hmem) hk)

theorem Effect.left_lt (h : Effect ctx op m flow m') {s : Supply} (hs : op.takesFrom flow = some s) :
    m'.left s < m.left s := by
  cases h with
  | pulled k rows columns item row hnext hk hc hitem =>
    simp only [Instruction.takesFrom, hnext, hk, Option.map_some, Option.some.injEq] at hs
    subst hs
    exact elim_set_lt hc (RowSource.length_rest_lt hitem)
  | scanned k n following t row hnext hk hc ht hrow =>
    simp only [Instruction.takesFrom, hnext, hk, Option.map_some, Option.some.injEq] at hs
    subst hs
    refine elim_set_lt hc ?_
    have hlt := (Array.getElem?_eq_some_iff.mp hrow).1
    simp only [Cursor.ahead, rowsIn_eq ht]
    omega
  | selected flow k d g j group hselect hk hg hj =>
    rcases hselect with ⟨hrewind, rfl, -⟩ | ⟨hgroup, rfl, rfl⟩
    · simp [Instruction.takesFrom, hrewind] at hs
    · simp only [Instruction.takesFrom, hgroup, hk, Option.map_some, Option.some.injEq] at hs
      subst hs
      refine elim_set_lt hg ?_
      have hlt := (List.getElem?_eq_some_iff.mp hj).1
      simp only [Groups.ahead, Groups.following] at hlt ⊢
      omega
  | still flow f hstill =>
    rcases Instruction.opcode_of_takesFrom hs with ⟨hnext, rfl⟩ | ⟨hgroup, rfl⟩
    · simp [hnext, Opcode.acts] at hstill
    · simp [hgroup, Opcode.acts] at hstill
  | appended k t t' row f happend =>
    rcases happend with ⟨hrecord, -⟩ | ⟨hcopy, -⟩
    · simp [Instruction.takesFrom, hrecord] at hs
    · simp [Instruction.takesFrom, hcopy] at hs
  | _ => simp_all [Instruction.takesFrom]

/-! ### Runs -/

section Runs

variable {p : Procedure} {site site' : Nat × Flow} {m₁ m₂ : Machine}

/-- The machine does the instruction at the site, which goes on in the site's way. -/
structure Passes (ctx : RunContext) (p : Procedure) (site : Nat × Flow) (m m' : Machine) : Prop where
  address : m.address = some site.1
  goes : site.2 ≠ .halt
  step : step ctx p m = .ok site.2 m'

theorem Passes.effect (h : Passes ctx p site m m') : ∃ op m₁, p.code[site.1]? = some op ∧
    Effect ctx op { m with count := m.count + 1 } site.2 m₁ ∧ site.2 ∈ op.opcode.flows ∧
    m' = { m₁ with address := following op site.2 (some site.1) } := by
  obtain ⟨op, m₁, hfetch, hexec, rfl⟩ := step_eq_ok h.step
  have heffect := (exec_ok hexec).1
  have haddress : m₁.address = some site.1 := heffect.address_eq.trans h.address
  refine ⟨op, m₁, ?_, heffect, (exec_flows ctx op).mem hexec, by rw [haddress]⟩
  simpa only [fetch?, h.address, Option.bind_some] using hfetch

theorem Passes.leads (h : Passes ctx p site m m₁) (h' : Passes ctx p site' m₁ m₂) : p.Leads site.1 site.2 site'.1 := by
  obtain ⟨op, m₀, hop, -, hflow, rfl⟩ := h.effect
  exact ⟨op, hop, hflow, h.goes, h'.address⟩

theorem Passes.left_le (h : Passes ctx p site m m') (howns : p.Owns i) (hm : m.ReadsBelow i) {s : Supply}
    (hs : ∀ op, p.code[site.1]? = some op → op.fillsUp ≠ some s) : m'.left s ≤ m.left s := by
  obtain ⟨op, m₁, hop, heffect, -, rfl⟩ := h.effect
  exact heffect.left_le hm (fun n => howns.writes _ op n hop) (hs op hop)

theorem Passes.left_lt (h : Passes ctx p site m m') {op : Instruction} (hop : p.code[site.1]? = some op) {s : Supply}
    (hs : op.takesFrom site.2 = some s) : m'.left s < m.left s := by
  obtain ⟨op', m₁, hop', heffect, -, rfl⟩ := h.effect
  obtain rfl : op = op' := Option.some.inj (hop.symm.trans hop')
  exact heffect.left_lt hs

theorem ReadsBelow.stepped (hm : m.ReadsBelow i) (howns : p.Owns i) (h : step ctx p m = .ok flow m') :
    m'.ReadsBelow i := by
  obtain ⟨op, m₁, hfetch, hexec, rfl⟩ := step_eq_ok h
  obtain ⟨a, -, hop⟩ := Option.bind_eq_some_iff.mp hfetch
  exact (exec_ok hexec).1.readsBelow (fun n => howns.reads a op n hop) hm

theorem runCode_underway {n : Nat} (h : runCode ctx p (n + 1) m = .ok false m₂) :
    ∃ flow m₁, step ctx p m = .ok flow m₁ ∧ flow ≠ .halt ∧ runCode ctx p n m₁ = .ok false m₂ := by
  obtain ⟨flow, m₁, hstep, hrest⟩ := bind_eq_ok.mp h
  cases flow with
  | halt => cases hrest
  | next => exact ⟨.next, m₁, hstep, nofun, hrest⟩
  | jump => exact ⟨.jump, m₁, hstep, nofun, hrest⟩

theorem exists_passes {n : Nat} (h : runCode ctx p n m = .ok false m₁) (h' : runCode ctx p (n + 1) m = .ok false m₂) :
    ∃ site, Passes ctx p site m₁ m₂ := by
  induction n generalizing m with
  | zero =>
    obtain ⟨-, rfl⟩ := pure_eq_ok.mp h
    obtain ⟨flow, m', hstep, hgoes, hrest⟩ := runCode_underway h'
    obtain ⟨-, rfl⟩ := pure_eq_ok.mp hrest
    obtain ⟨op, -, hfetch, -⟩ := step_eq_ok hstep
    obtain ⟨a, haddress, -⟩ := Option.bind_eq_some_iff.mp hfetch
    exact ⟨(a, flow), haddress, hgoes, hstep⟩
  | succ n ih =>
    obtain ⟨flow, m', hstep, hgoes, hrest⟩ := runCode_underway h
    rw [runCode_step hstep hgoes] at h'
    exact ih hrest h'

theorem walk_of_passes {run : Nat → Machine} {sites : Nat → Nat × Flow}
    (h : ∀ n, Passes ctx p (sites n) (run n) (run (n + 1))) (first count : Nat) :
    p.Walk (sites first).1 ((List.range' first count).map sites) (sites (first + count)).1 := by
  induction count generalizing first with
  | zero => exact .nil _
  | succ count ih =>
    have hrest := ih (first + 1)
    rw [Nat.add_right_comm] at hrest
    exact .cons ((h first).leads (h (first + 1))) hrest

/-- A procedure that winds down comes to an end or fails. -/
theorem exists_runCode_ne (hwinds : p.WindsDown) (howns : p.Owns i) (hm : m.ReadsBelow i) :
    ∃ fuel, ∀ m', runCode ctx p fuel m ≠ .ok false m' := by
  by_contra hnever
  simp only [not_exists, not_forall, not_not] at hnever
  choose run hrun using hnever
  choose sites hsites using fun n => exists_passes (hrun n) (hrun (n + 1))
  have hreads : ∀ n, (run n).ReadsBelow i := fun n =>
    runCode_invariant (I := fun m => m.ReadsBelow i) (fun h hstep => h.stepped howns hstep) (hrun n) hm
  have hfinite : ∀ n, sites n ∈ Finset.range p.code.size ×ˢ [Flow.next, .jump, .halt].toFinset := by
    intro n
    obtain ⟨op, -, hop, -⟩ := (hsites n).effect
    refine Finset.mem_product.mpr ⟨Finset.mem_range.mpr (Array.getElem?_eq_some_iff.mp hop).1, ?_⟩
    cases (sites n).2 <;> decide
  obtain ⟨first, last, hagain, hlt, hround, hcovers⟩ := exists_round hfinite
  -- The round is a walk that comes back, so there is a supply from which it takes and which it does not fill up.
  have hwalk := walk_of_passes hsites first (last - first)
  rw [Nat.add_sub_cancel' (Nat.le_of_lt hlt), hround] at hwalk
  have hmem : ∀ n ≥ first, sites n ∈ (List.range' first (last - first)).map sites := by
    intro n hn
    obtain ⟨k, hk, hklt, hkn⟩ := hcovers n hn
    exact List.mem_map.mpr ⟨k, List.mem_range'_1.mpr (by omega), hkn⟩
  obtain ⟨s, ⟨site, hsite, op, hop, htakes⟩, hkeeps⟩ := hwinds _ _ hwalk (by simp; omega)
  obtain ⟨k, hk, rfl⟩ := List.mem_map.mp hsite
  have hfirst : first ≤ k := (List.mem_range'_1.mp hk).1
  have hle : ∀ n ≥ first, (run (n + 1)).left s ≤ (run n).left s := fun n hn =>
    (hsites n).left_le howns (hreads n) (hkeeps (sites n) (hmem n hn))
  refine not_frequently_lt (f := fun n => (run n).left s) hle ((hagain k hfirst).mono fun n hn => ?_)
  rw [← hn] at hop htakes
  exact (hsites n).left_lt hop htakes

end Runs

end Machine

end TabularQuery
