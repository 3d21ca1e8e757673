import Mathlib.Data.List.Induction
import TabularQuery.Proofs.Renumbering
import TabularQuery.Proofs.SoundGeneration

/-!
What queries, sets and statements mean, without a machine: rows made of rows. A set operation combines the
rows of its operands by their keys; a WITH list gives names to rows, each body in sight of those before it.
Meaning does not depend on names of queries nor on numbers of cursors.
-/

namespace TabularQuery

/-! ### Set operators -/

namespace Key

/-- The values of a row at some columns; columns that the row does not have are left out. -/
def ofRow (columns : List Nat) (row : List Value) : Key := ⟨columns.filterMap fun c => row[c]?, columns⟩

theorem ofRow?_eq {columns : List Nat} {row : List Value} (h : ∀ c ∈ columns, c < row.length) :
    ofRow? columns row = some (ofRow columns row) := by
  suffices hvalues : (columns.mapM fun c => row[c]?) = some (columns.filterMap fun c => row[c]?) by
    rw [ofRow?, hvalues]
    rfl
  induction columns with
  | nil => rfl
  | cons c columns ih =>
    obtain ⟨hc, hcolumns⟩ := List.forall_mem_cons.mp h
    rw [List.mapM_cons, ih hcolumns, List.getElem?_eq_getElem hc, List.filterMap_cons, List.getElem?_eq_getElem hc]
    rfl

end Key

/-- Does some row have the same key as this one? -/
def keyOccurs (keys : List Nat) (rows : List (List Value)) (row : List Value) : Bool :=
  rows.any fun other => (Key.ofRow keys other).same (Key.ofRow keys row)

theorem Table.hasKeyOf_eq {t : Table} {keys : List Nat} {row : List Value}
    (hrows : ∀ other ∈ t.rows.toList, ∀ k ∈ keys, k < other.length) (hrow : ∀ k ∈ keys, k < row.length) :
    t.hasKeyOf keys row = keyOccurs keys t.rows.toList row := by
  rw [hasKeyOf, Key.ofRow?_eq hrow, Option.any_some, hasKey, keyOccurs]
  rw [Bool.eq_iff_iff, List.any_eq_true, List.any_eq_true]
  refine exists_congr fun other => and_congr_right fun hother => ?_
  rw [Key.isOf, Key.ofRow?_eq (hrows other hother), Option.any_some]

namespace SetOperator

/-- What a set operator makes of the rows of its operands: all of them; the first of each key; the rows on
the left whose key is not on the right; those whose key is. -/
def rows (op : SetOperator) (keys : List Nat) (left right : List (List Value)) : List (List Value) :=
  match op with
  | .unionAll => left ++ right
  | .union => Key.firstOfEach (Key.ofRow keys) (left ++ right)
  | .except => left.filter fun row => !keyOccurs keys right row
  | .intersect => left.filter (keyOccurs keys right)

theorem rows_subset (op : SetOperator) (keys : List Nat) (left right : List (List Value)) :
    op.rows keys left right ⊆ left ++ right := by
  cases op with
  | unionAll => exact List.Subset.refl _
  | union => exact Key.firstOfEach_subset _ _
  | except | intersect => exact List.subset_append_of_subset_left _ List.filter_sublist.subset

variable {keys : List Nat} {left right t : Table}

/-- Where it does not depend on what is written whether a row is copied, those that are form a filter. -/
theorem rows_foldl_copy {op : SetOperator} {p : List Value → Bool} {rows : List (List Value)}
    (hcopies : ∀ (t : Table), ∀ row ∈ rows, op.copies keys right t row = p row) (t : Table) :
    (rows.foldl (op.copy keys right) t).rows.toList = t.rows.toList ++ rows.filter p := by
  induction rows generalizing t with
  | nil => simp
  | cons row rows ih =>
    have hrow := hcopies t row List.mem_cons_self
    rw [List.foldl_cons, ih (fun t row hrow => hcopies t row (List.mem_cons_of_mem _ hrow)), copy, hrow]
    cases hp : p row with
    | true => simp [hp, Table.push]
    | false => simp [hp]

theorem rows_foldl_union {rows : List (List Value)} (hempty : t.rows = #[])
    (hlong : ∀ row ∈ rows, ∀ k ∈ keys, k < row.length) :
    (rows.foldl (union.copy keys right) t).rows.toList = Key.firstOfEach (Key.ofRow keys) rows := by
  induction rows using List.reverseRecOn with
  | nil => simp [hempty, Key.firstOfEach]
  | append_singleton rows row ih =>
    have hbefore : ∀ row ∈ rows, ∀ k ∈ keys, k < row.length := fun row hrow => hlong row (List.mem_append_left _ hrow)
    have hrow := hlong row (List.mem_append_right _ (List.mem_singleton_self row))
    have hwritten := ih hbefore
    have hlongWritten : ∀ other ∈ (rows.foldl (union.copy keys right) t).rows.toList, ∀ k ∈ keys, k < other.length := by
      intro other hother
      rw [hwritten] at hother
      exact hbefore other (Key.firstOfEach_subset _ _ hother)
    rw [List.foldl_append, List.foldl_cons, List.foldl_nil, copy, copies, Table.hasKeyOf_eq hlongWritten hrow, hwritten,
      keyOccurs, Key.any_firstOfEach, Key.firstOfEach_concat]
    cases rows.any fun other => (Key.ofRow keys other).same (Key.ofRow keys row) with
    | true => simp [hwritten]
    | false => simp [hwritten, Table.push]

theorem rows_combine (op : SetOperator) (hleft : ∀ row ∈ left.rows.toList, ∀ k ∈ keys, k < row.length)
    (hright : ∀ row ∈ right.rows.toList, ∀ k ∈ keys, k < row.length) (ht : t.rows = #[]) :
    (op.combine keys left right (op.fresh keys t)).rows.toList = op.rows keys left.rows.toList right.rows.toList := by
  have hempty : (op.fresh keys t).rows = #[] := by
    unfold fresh
    split
    · rw [Table.rows_withIndex, ht]
    · exact ht
  unfold combine
  cases op with
  | unionAll =>
    have hcopies : ∀ (t : Table), ∀ (rows : List (List Value)), ∀ row ∈ rows,
        unionAll.copies keys right t row = (fun _ => true) row := fun _ _ _ _ => rfl
    simp only [copiesRight, if_true, rows_foldl_copy (fun t => hcopies t _), hempty, rows, List.nil_append,
      List.filter_true]
  | union =>
    simp only [copiesRight, if_true, ← List.foldl_append]
    refine rows_foldl_union hempty fun row hrow => ?_
    rcases List.mem_append.mp hrow with hrow | hrow
    · exact hleft row hrow
    · exact hright row hrow
  | except =>
    simp only [copiesRight, Bool.false_eq_true, if_false]
    rw [rows_foldl_copy (p := fun row => !keyOccurs keys right.rows.toList row), hempty]
    · rfl
    · exact fun _ row hrow => by rw [copies, Table.hasKeyOf_eq hright (hleft row hrow)]
  | intersect =>
    simp only [copiesRight, Bool.false_eq_true, if_false]
    rw [rows_foldl_copy (p := keyOccurs keys right.rows.toList), hempty]
    · rfl
    · exact fun _ row hrow => by rw [copies, Table.hasKeyOf_eq hright (hleft row hrow)]

end SetOperator

/-! ### Queries and sets -/

/-- Rows of the tables that a statement has defined so far, under their names in lower case. -/
abbrev NamedRows := List (String × List (List Value))

/-- What opening a source of this origin brings. -/
def SourceOrigin.delivery (origin : SourceOrigin) (columns : List Column) (context : SourceContext)
    (tables : NamedRows) : Except Error Delivery :=
  match origin with
  | .schema source _ method args => RowSource.delivery columns <$> source.rows context method args
  | .table name => match tables.lookup (Text.lower name) with
    | some rows => .ok (rows.map .ok)
    | none => .error (.tableUnknown name)

namespace BoundQuery

/-- The sources of a query, each with what it brings. -/
def deliveries (q : BoundQuery) (context : SourceContext) (tables : NamedRows) :
    List (BoundSource × Except Error Delivery) :=
  q.sources.map fun b => (b, b.origin.delivery b.columns context tables)

/-- The rows of a query. -/
def rows (q : BoundQuery) (context : SourceContext) (tables : NamedRows) : Except Error (List (List Value)) :=
  (fun t => t.rows.toList) <$> Reader.popped.output q
    (Reader.popped.visits q.filter (q.deliveries context tables) .empty) (TableDeclaration.table ⟨"", []⟩)

end BoundQuery

namespace BoundSet

/-- The rows of a set, those of its operands combined. -/
def rows (context : SourceContext) (tables : NamedRows) : BoundSet → Except Error (List (List Value))
  | .query q => q.rows context tables
  | .operation op _ _ keys left right => do
    let l ← left.rows context tables
    let r ← right.rows context tables
    return op.rows keys l r

end BoundSet

/-! ### Statements -/

/-- Adds the tables of a WITH list to those that are defined. -/
def definedRows (context : SourceContext) (tables : NamedRows) : List BoundTable → Except Error NamedRows
  | [] => .ok tables
  | t :: rest => do
    let rows ← t.body.rows context tables
    definedRows context ((Text.lower t.name, rows) :: tables) rest

namespace BoundStatement

/-- The rows of a statement. -/
def rows (context : SourceContext) : BoundStatement → Except Error (List (List Value))
  | .query tables body => do
    let defined ← definedRows context [] tables
    body.rows context defined
  | .describe _ _ columns => .ok (columns.map fun c => [.text c.name, .text c.type.name])

end BoundStatement

/-! ### Rows fit -/

theorem consume_preserves {α σ : Type} {body : α → σ → Except Error (Progress σ)} {P : σ → Prop}
    (hbody : ∀ a s p, P s → body a s = .ok p → P p.state) {events : List (Except Error α)} {s : σ} {p : Progress σ}
    (hs : P s) (h : consume body events s = .ok p) : P p.state := by
  induction events generalizing s with
  | nil =>
    cases h
    exact hs
  | cons x events ih =>
    cases x with
    | error e => cases h
    | ok a =>
      obtain ⟨p₁, hp₁, h⟩ := except_bind_eq_ok.mp h
      have hp := hbody a s p₁ hs hp₁
      cases p₁ with
      | more s₁ => exact ih hp h
      | done s₁ =>
        cases h
        exact hp

namespace Reader

theorem fits_written {q : BoundQuery} {events : List (Except Error Scene)} {t t' : Table}
    (ht : ∀ row ∈ t.rows.toList, RowFits (q.fields.map BoundField.column) row)
    (h : popped.written q events t = .ok t') : ∀ row ∈ t'.rows.toList, RowFits (q.fields.map BoundField.column) row := by
  obtain ⟨p, hp, rfl⟩ := except_map_eq_ok.mp h
  refine consume_preserves
    (P := fun tally : Tally => ∀ row ∈ tally.table.rows.toList, RowFits (q.fields.map BoundField.column) row) ?_ ht hp
  intro s tally p htally hemit
  unfold emit at hemit
  split at hemit
  · cases hemit
    exact htally
  · split at hemit
    · cases hemit
      exact htally
    · obtain ⟨values, hvalues, hemit⟩ := except_bind_eq_ok.mp hemit
      cases hemit
      intro row hrow
      have hrow : row ∈ tally.table.rows.toList ∨ row = values := by
        simpa [Progress.state, Tally.write, Table.push] using hrow
      rcases hrow with hrow | rfl
      · exact htally row hrow
      · have htypes : row.map Value.type = (q.fields.map BoundField.expr).map TypedExpr.type := types_popped hvalues
        simpa [RowFits, Function.comp_def, BoundField.column, BoundField.type] using htypes

end Reader

theorem BoundQuery.fits_rows {q : BoundQuery} {context : SourceContext} {tables : NamedRows}
    {rows : List (List Value)} (h : q.rows context tables = .ok rows) :
    ∀ row ∈ rows, RowFits (q.fields.map BoundField.column) row := by
  obtain ⟨t, ht, rfl⟩ := except_map_eq_ok.mp h
  unfold Reader.output at ht
  split at ht
  · exact Reader.fits_written (by exact nofun) ht
  · obtain ⟨gathered, -, ht⟩ := except_bind_eq_ok.mp ht
    exact Reader.fits_written (by exact nofun) ht

theorem RowFits.length_eq {columns : List Column} {row : List Value} (h : RowFits columns row) :
    row.length = columns.length := by
  simpa using congrArg List.length h

theorem RowFits.of_types {columns columns' : List Column} {row : List Value} (h : RowFits columns row)
    (htypes : columns'.map Column.type = columns.map Column.type) : RowFits columns' row :=
  Eq.trans h htypes.symm

theorem BoundSet.types_columns (s : BoundSet) : s.columns.map Column.type = s.fields.map BoundField.type := by
  rw [columns, List.map_map]
  rfl

theorem BoundSet.Bound.fits_rows {env : Environment} {scopes : ScopeStack} {limit : Nat} {s : BoundSet}
    (hbound : s.Bound env scopes limit) {context : SourceContext} {tables : NamedRows} {rows : List (List Value)}
    (h : s.rows context tables = .ok rows) : ∀ row ∈ rows, RowFits s.columns row := by
  induction s generalizing rows with
  | query q => exact BoundQuery.fits_rows h
  | operation op name keyId keys left right ihl ihr =>
    obtain ⟨hl, hr, htypes, -⟩ := hbound
    obtain ⟨l, hlrows, h⟩ := except_bind_eq_ok.mp h
    obtain ⟨r, hrrows, h⟩ := except_bind_eq_ok.mp h
    cases h
    intro row hrow
    rcases List.mem_append.mp (op.rows_subset keys l r hrow) with hrow | hrow
    · exact ihl hl hlrows row hrow
    · refine (ihr hr hrrows row hrow).of_types ?_
      rw [BoundSet.types_columns right, ← htypes, ← BoundSet.types_columns left]
      rfl

/-! ### Other numbers -/

/-- Rows of defined tables fit the columns under which the scopes show them. -/
def NamedRows.Fits (tables : NamedRows) (scopes : ScopeStack) : Prop :=
  ∀ key t, scopes.definedTable? key = some t → ∀ rows, tables.lookup (Text.lower t.name) = some rows →
    ∀ row ∈ rows, RowFits t.columns row

theorem BoundSource.Known.fits_delivery {env : Environment} {scopes : ScopeStack} {b : BoundSource}
    (hknown : b.Known env scopes) {tables : NamedRows} (htables : tables.Fits scopes) {context : SourceContext}
    {rows : Delivery} (h : b.origin.delivery b.columns context tables = .ok rows) {row : List Value}
    (hrow : .ok row ∈ rows) : RowFits b.columns row := by
  unfold Known at hknown
  unfold SourceOrigin.delivery at h
  cases horigin : b.origin with
  | schema schema name method args =>
    rw [horigin] at h
    obtain ⟨feed, -, rfl⟩ := except_map_eq_ok.mp h
    exact RowSource.fits_of_delivery hrow
  | table name =>
    rw [horigin] at h hknown
    obtain ⟨key, t, ht, rfl, hcolumns⟩ := hknown
    dsimp only at h
    cases hlookup : tables.lookup (Text.lower t.name) with
    | none =>
      rw [hlookup] at h
      cases h
    | some found =>
      rw [hlookup] at h
      cases h
      obtain ⟨row', hrow', hsame⟩ := List.mem_map.mp hrow
      cases hsame
      exact hcolumns ▸ htables key t ht found hlookup row hrow'

/-- Names of tables are found under what they are in lower case. -/
def ScopeStack.Keyed (scopes : ScopeStack) : Prop :=
  ∀ key t, scopes.definedTable? key = some t → Text.lower t.name = Text.lower key

section Define

variable {scopes scopes₁ : ScopeStack} {name : String} {columns : List Column}

theorem ScopeStack.Keyed.define (h : scopes.Keyed)
    (hinsert : scopes.insert (Text.lower name) (.defined ⟨name, columns⟩) = .ok scopes₁) : scopes₁.Keyed := by
  intro key t ht
  rw [ScopeStack.definedTable?_insert_defined hinsert] at ht
  split at ht
  · rename_i hkey
    cases ht
    exact hkey.symm
  · exact h key t ht

theorem NamedRows.Fits.define {tables : NamedRows} (h : tables.Fits scopes) (hkeyed : scopes.Keyed)
    (hinsert : scopes.insert (Text.lower name) (.defined ⟨name, columns⟩) = .ok scopes₁) {rows : List (List Value)}
    (hrows : ∀ row ∈ rows, RowFits columns row) : NamedRows.Fits ((Text.lower name, rows) :: tables) scopes₁ := by
  intro key t ht found hfound
  rw [ScopeStack.definedTable?_insert_defined hinsert] at ht
  rw [List.lookup_cons] at hfound
  split at ht
  · cases ht
    rw [beq_self_eq_true] at hfound
    cases hfound
    exact hrows
  · rename_i hkey
    have hother : (Text.lower t.name == Text.lower name) = false := by
      rw [hkeyed key t ht]
      exact beq_eq_false_iff_ne.mpr hkey
    rw [hother] at hfound
    exact h key t ht found hfound

theorem definedRows_fits {env : Environment} {limit : Nat} {context : SourceContext} {xs : List BoundTable}
    {after : ScopeStack} {tables tables' : NamedRows} (hfits : tables.Fits scopes) (hkeyed : scopes.Keyed)
    (hbound : TablesBound env limit scopes xs after) (h : definedRows context tables xs = .ok tables') :
    tables'.Fits after := by
  induction xs generalizing scopes tables with
  | nil =>
    cases h
    obtain rfl : scopes = after := hbound
    exact hfits
  | cons t rest ih =>
    obtain ⟨hbody, scopes₁, hinsert, hrest⟩ := hbound
    obtain ⟨rows, hrows, h⟩ := except_bind_eq_ok.mp h
    exact ih (hfits.define hkeyed hinsert (hbody.fits_rows hrows)) (hkeyed.define hinsert) hrest h

end Define

/-- Sets that differ in names of queries, numbers of cursors and what origins stand for each other. -/
inductive BoundSet.Renumbered (ρ : Nat → Nat) (O : OriginRelation) : BoundSet → BoundSet → Prop
  | query {q q' : BoundQuery} (h : q.Renumbered ρ O q') : BoundSet.Renumbered ρ O (.query q) (.query q')
  | operation {op : SetOperator} {name name' : String} {keyId keyId' : Nat} {keys : List Nat}
      {left left' right right' : BoundSet} (hleft : BoundSet.Renumbered ρ O left left')
      (hright : BoundSet.Renumbered ρ O right right') :
      BoundSet.Renumbered ρ O (.operation op name keyId keys left right) (.operation op name' keyId' keys left' right')

section Renumbered

variable {ρ : Nat → Nat} {O : OriginRelation} {context context' : SourceContext} {tables tables' : NamedRows}

/-- The rows of a query do not depend on names and numbers, if origins that stand for each other bring the
same. -/
theorem BoundQuery.Renumbered.rows {q q' : BoundQuery} (h : q.Renumbered ρ O q') (hρ : Function.Injective ρ)
    (hO : ∀ columns o o', O columns o o' → o'.delivery columns context' tables' = o.delivery columns context tables)
    {env : Environment} {scopes : ScopeStack} {first : Nat} {entries : SourceList}
    (hbound : QueryBound env scopes first q entries) (htables : tables.Fits scopes) :
    q'.rows context' tables' = q.rows context tables := by
  have hfst : (q.deliveries context tables).map Prod.fst = q.sources := by
    simp [deliveries, Function.comp_def]
  have hsupplies : RenumberedSupplies ρ O (q.deliveries context tables) (q'.deliveries context' tables') := by
    refine List.forall₂_map_left_iff.mpr (List.forall₂_map_right_iff.mpr (h.sources.imp ?_))
    intro b b' hb
    refine ⟨hb, ?_⟩
    rw [hb.columns]
    exact hO _ _ _ hb.origin
  have hfits : FittingSupplies (q.deliveries context tables) := by
    intro x hx rows hrows row hrow
    obtain ⟨b, hb, rfl⟩ := List.mem_map.mp hx
    exact (hbound.sources.known b hb).fits_delivery htables hrows hrow
  have hnested := hbound.nested
  rw [← hfst] at hnested
  have hevents := Reader.visits_renumbered hρ hsupplies hfits hnested
    ⟨Scene.fits_empty entries.Offers, Scene.renamed_empty ρ entries.Offers⟩
  have hsight : q.sources.foldl Sight.add ⟨[], [], entries.Offers⟩ = .ofSources q.sources entries.Offers [] :=
    Sight.foldl_add [] q.sources entries.Offers
  rw [hfst, hsight, ← h.filter] at hevents
  exact (Reader.output_renumbered hρ h (typed_fields hbound) (fun _ hg => hbound.gathers hg) hevents rfl).map_eq
    (fun _ _ hrows => (congrArg Array.toList hrows).symm) |>.symm

theorem BoundSet.Renumbered.fields {s s' : BoundSet} (h : s.Renumbered ρ O s') :
    s'.fields = s.fields.map (BoundField.mapCursors ρ) := by
  induction h with
  | query h => exact h.fields
  | operation _ _ ihl _ => exact ihl

theorem BoundSet.Renumbered.columns {s s' : BoundSet} (h : s.Renumbered ρ O s') : s'.columns = s.columns := by
  simp [BoundSet.columns, h.fields, Function.comp_def]

theorem BoundSet.Renumbered.rows {s s' : BoundSet} (h : s.Renumbered ρ O s') (hρ : Function.Injective ρ)
    (hO : ∀ columns o o', O columns o o' → o'.delivery columns context' tables' = o.delivery columns context tables)
    {env : Environment} {scopes : ScopeStack} {limit : Nat} (hbound : s.Bound env scopes limit)
    (htables : tables.Fits scopes) : s'.rows context' tables' = s.rows context tables := by
  induction h with
  | query h =>
    obtain ⟨first, entries, hquery, -⟩ := hbound
    exact h.rows hρ hO hquery htables
  | operation _ _ ihl ihr => rw [BoundSet.rows, BoundSet.rows, ihl hbound.1, ihr hbound.2.1]

end Renumbered

end TabularQuery
