import TabularQuery.Proofs.IntegerArithmetic
import TabularQuery.Proofs.SourceLabels
import TabularQuery.Proofs.StoredRows

/-!
Integers in the texts of queries. The digits of a negative number are read without its sign, which is applied to them
when the query runs; so every integer but the least one can be selected, and stands in every row that the sources bring.
As an argument of a schema call the number is read with its sign, and there the least one can be written, too.
-/

namespace TabularQuery

open Grammar

/-! ### Reading -/

section Reading

variable {n : Int64} {name text : String} {source : FromSource} {u v w : List Token}

theorem toInt_neg_of_ne (hn : n ≠ Int64.minValue) : (-n).toInt = -n.toInt := by
  have hmin : n.toInt ≠ -2 ^ 63 := fun h => hn (Int64.toInt_inj.mp (h.trans Int64.toInt_minValue.symm))
  have hle := n.le_toInt
  have hlt := n.toInt_lt
  rw [Int64.toInt_neg, Int.bmod_eq_of_le (by omega) (by omega)]

/-- What an integer is read as. -/
def Expr.ofInteger (n : Int64) : Expr :=
  if n.toInt < 0 then .unary .neg (.literal (.integer (-n))) else .literal (.integer n)

theorem IntegerWords.phrase (h : IntegerWords n.toInt w) (hn : n ≠ Int64.minValue) :
    ExprPhrase .or w (.ofInteger n) := by
  have hsign : ExprPhrase .sign w (.ofInteger n) := by
    unfold Expr.ofInteger
    cases h with
    | digits isInteger value =>
      rw [if_neg (by omega)]
      exact .tighter rfl (.literal (.integer (.mk isInteger value)))
    | negative isMinus isInteger isNegative value =>
      have hvalue : (-n).toInt = _ := (toInt_neg_of_ne hn).trans (Int.neg_eq_comm.mp value.symm)
      rw [if_pos isNegative]
      exact .minus isMinus (.tighter rfl (.literal (.integer (.mk isInteger hvalue))))
  exact .tighter rfl (.tighter rfl (.tighter rfl (.tighter rfl (.tighter rfl (.tighter rfl hsign)))))

/-- The query that selects items from the sources, and has no other clause. -/
def Query.selecting (items : List SelectItem) (source : FromSource) : Query := ⟨items, source, none, none, none, none⟩

theorem parse_selecting (hn : n ≠ Int64.minValue) (hname : IsName name) (hsource : Spells text.toList (FromPhrase · source) []) :
    parse ("select " ++ toString n.toInt ++ " as " ++ name ++ " from " ++ text) =
      .ok [.query [] (.query (.selecting [.field (.ofInteger n) (some name)] source))] := by
  apply Spells.parse
  have htext : ("select " ++ toString n.toInt ++ " as " ++ name ++ " from " ++ text).toList = "select".toList ++
      (' ' :: ((toString n.toInt).toList ++ (' ' :: ("as".toList ++ (' ' :: (name.toList ++ (' ' :: ("from".toList ++
        (' ' :: text.toList))))))))) := by simp
  rw [htext]
  refine (spells_word (k := .kwSelect) "SELECT" (by decide) (by decide) (by simp) ends_space.notWord).append
    fun u hu => .space ?_
  obtain ⟨select, rfl, isSelect⟩ := hu
  refine (spells_int n.toInt ends_space).append fun u hu => .space ?_
  refine (spells_word (k := .kwAs) "AS" (by decide) (by decide) (by simp) ends_space.notWord).append fun v hv => .space ?_
  obtain ⟨as, rfl, isAs⟩ := hv
  refine (spells_name hname ends_space.notWord).append fun v hv => .space ?_
  refine (spells_word (k := .kwFrom) "FROM" (by decide) (by decide) (by simp) ends_space.notWord).append
    fun w hw => .space ?_
  obtain ⟨fromWord, rfl, isFrom⟩ := hw
  refine hsource.mono fun w hw => ?_
  have hitem := ItemPhrase.field (hu.phrase hn) (.as isAs hv)
  have hquery := QueryPhrase.mk isSelect (.one hitem) isFrom hw .none .none .none .none
  have hnone : ∀ t ∈ ([] : List Token), t.kind = .semicolon := List.forall_mem_nil _
  simpa [Query.selecting] using RootPhrase.mk hnone (.last (.query .none (.query hquery)) hnone)

end Reading

/-! ### Binding -/

/-- An integer after binding. -/
def TypedExpr.ofInteger (n : Int64) : TypedExpr :=
  if n.toInt < 0 then .unary .neg (.literal (.integer (-n))) .integer else .literal (.integer n)

theorem BoundField.column_ofInteger (name : String) (n : Int64) : column ⟨name, .ofInteger n⟩ = ⟨name, .integer⟩ := by
  unfold TypedExpr.ofInteger
  split <;> rfl

namespace Bind

variable {env : Environment} {s s' : BindState} {items : List SelectItem} {source : FromSource} {q : BoundQuery}

theorem fields_ofInteger (query name : String) (entries : SourceList) (n : Int64) (s : BindState) :
    fields query entries [.field (.ofInteger n) (some name)] s = .ok [⟨name, .ofInteger n⟩] s := by
  unfold Expr.ofInteger TypedExpr.ofInteger
  split <;> rfl

/-- In place of what is selected from the sources, other fields can be, if no aggregate comes with them. -/
theorem query_selecting (h : query env (.selecting items source) s = .ok q s') : ∃ entries s₃ s₄ s₅,
    fields q.name entries items s₃ = .ok q.fields s₄ ∧ ∀ items' fs, fields q.name entries items' s₃ = .ok fs s₃ →
      query env (.selecting items' source) s = .ok ⟨q.name, q.sources, none, none, fs, none, none, []⟩ s₅ := by
  obtain ⟨bound, s₂, scopes₃, _, _, _, _, fs, s₆, slots, hfrom, hshow, hfilter, hgroup, hfields, -, rfl⟩ :=
    query_eq_ok_iff.mp h
  cases hfilter
  cases hgroup
  obtain ⟨-, hscopes₂, -⟩ := fromSource_ok _ _ _ _ rfl hfrom
  obtain ⟨f, rest, hpushed, rfl⟩ := ScopeStack.insert_eq_ok (hscopes₂ ▸ hshow)
  obtain ⟨rfl, rfl⟩ := List.cons.inj hpushed
  refine ⟨bound.1, _, s₆, { s₂ with scopes := s.scopes }, hfields, fun items' fs hfields' => ?_⟩
  exact query_eq_ok_iff.mpr ⟨bound, s₂, _, none, _, none, _, fs, _, [], hfrom, hshow, rfl, rfl, hfields', rfl, rfl⟩

theorem query_star (h : query env (.selecting [.star] source) s = .ok q s') :
    q = ⟨q.name, q.sources, none, none, q.fields, none, none, []⟩ := by
  obtain ⟨entries, s₃, s₄, s₅, hfields, hother⟩ := query_selecting h
  have hsame : s₄ = s₃ := by
    obtain ⟨fs, s₁, hstar, hfields⟩ := bind_eq_ok.mp hfields
    cases hrepeated : Column.repeatedName? (fs.map BoundField.name) with
    | some name =>
      rw [hrepeated] at hfields
      cases hfields
    | none =>
      rw [hrepeated] at hfields
      have hstate : s₃ = s₁ := (EStateM.Result.ok.inj hstar).2
      rw [hstate, (pure_eq_ok.mp hfields).2]
  have hquery := hother _ _ (hsame ▸ hfields)
  rw [h] at hquery
  exact (EStateM.Result.ok.inj hquery).1

end Bind

/-! ### Rows -/

section Rows

variable {n : Int64} {q : BoundQuery} {events : List (Except Error Scene)} {rows : List (List Value)}

theorem Reader.values_ofInteger (hn : n ≠ Int64.minValue) (scene : Scene) :
    popped.values scene [.ofInteger n] = .ok [.integer n] := by
  unfold TypedExpr.ofInteger
  split
  · have hneg : Number.neg (.integer (-n)) = .ok (.integer n) :=
      Number.ofInt_eq_ok_iff.mpr ⟨n, rfl, by rw [toInt_neg_of_ne hn, Int.neg_neg]⟩
    have hact : TypedExpr.actAll scene [.unary .neg (.literal (.integer (-n))) .integer] (.init 0) =
        .ok () ((Frame.init 0).push (.integer n)) := by
      have hoperand : Frame.popNumber ((Frame.init 0).push (.integer (-n))) = .ok (.integer (-n)) (.init 0) := rfl
      simp only [TypedExpr.actAll, TypedExpr.act, UnaryOp.act, bind_apply, Frame.pushed, modify_apply, hoperand, ofExcept_apply,
        hneg]
      rfl
    rw [popped]
    simp only [Frame.value, Frame.outcome, bind_apply, hact]
    rfl
  · rfl

theorem mapM_map_const {α β : Type} (b : β) (xs : List (Except Error α)) :
    (xs.mapM fun x => (fun _ => b) <$> x) = (fun k => List.replicate k b) <$> (List.length <$> xs.mapM id) := by
  induction xs with
  | nil => rfl
  | cons x xs ih =>
    rw [List.mapM_cons, List.mapM_cons, ih]
    cases x with
    | error e => rfl
    | ok a => cases xs.mapM id <;> rfl

theorem length_of_mapM_rowIn (h : events.mapM q.rowIn = .ok rows) : List.length <$> events.mapM id = .ok rows.length := by
  have hrows := mapM_eq_ok_iff.mp h
  clear h
  induction hrows with
  | nil => rfl
  | cons hrow _ ih =>
    obtain ⟨scene, rfl, -⟩ := except_bind_eq_ok.mp hrow
    obtain ⟨scenes, hscenes, hlength⟩ := except_map_eq_ok.mp ih
    rw [List.mapM_cons, hscenes, List.length_cons, ← hlength]
    rfl

theorem rows_ofInteger (hn : n ≠ Int64.minValue) (query name : String) (sources : List BoundSource) (context : SourceContext)
    (defined : NamedRows) :
    BoundQuery.rows ⟨query, sources, none, none, [⟨name, .ofInteger n⟩], none, none, []⟩ context defined =
      (fun k => List.replicate k [.integer n]) <$> (List.length <$> (Reader.popped.visits none
        (sources.map fun b => (b, b.origin.delivery b.columns context defined)) .empty).mapM id) := by
  rw [BoundQuery.rows_flat rfl rfl rfl, ← mapM_map_const]
  congr 1
  funext event
  cases event with
  | error e => rfl
  | ok scene => exact Reader.values_ofInteger hn scene

end Rows

section Yields

variable {env : Environment} {context : SourceContext} {tables : List NamedTable} {items : List SelectItem}
variable {source : FromSource} {r : Except Error (List Column × List (List Value))}

/-- Wherever anything can be selected from the sources, an integer can: there is a row of it for each row of theirs. -/
theorem Environment.yields_ofInteger (henv : env.Quiet context)
    (h : env.Yields context [.query tables (.query (.selecting items source))] r) :
    ∃ count : Except Error Nat,
      (∀ columns rows, items = [.star] → r = .ok (columns, rows) → count = .ok rows.length) ∧
      ∀ (n : Int64) (name : String), n ≠ Int64.minValue →
        env.Yields context [.query tables (.query (.selecting [.field (.ofInteger n) (some name)] source))]
          ((fun k => ([⟨name, .integer⟩], List.replicate k [.integer n])) <$> count) := by
  obtain ⟨b, s, hb, rfl⟩ := (yields_statement_iff henv).mp h
  obtain ⟨bound, s₁, body, s₂, htables, hbody, rfl, rfl⟩ := Bind.statement_query_eq_ok_iff.mp hb
  obtain ⟨q, hq, rfl⟩ := bind_pure_eq_ok.mp hbody
  obtain ⟨entries, s₃, s₄, s₅, hfields, hother⟩ := Bind.query_selecting hq
  refine ⟨definedRows context [] bound >>= fun defined =>
    List.length <$> (Reader.popped.visits none (q.deliveries context defined) .empty).mapM id, ?_, ?_⟩
  · rintro columns rows rfl hrows
    obtain ⟨rows', hrows, heq⟩ := except_map_eq_ok.mp hrows
    cases heq
    obtain ⟨defined, hdefined, hrows⟩ := except_bind_eq_ok.mp hrows
    rw [hdefined]
    rw [Bind.query_star hq] at hrows
    exact length_of_mapM_rowIn ((BoundQuery.rows_flat rfl rfl rfl context defined).symm.trans hrows)
  · intro n name hn
    have hquery := hother _ _ (Bind.fields_ofInteger _ name entries n s₃)
    refine (yields_statement_iff henv).mpr ⟨_, _, Bind.statement_query_eq_ok_iff.mpr
      ⟨bound, s₁, _, _, htables, bind_eq_ok.mpr ⟨_, _, hquery, rfl⟩, rfl, rfl⟩, ?_⟩
    simp only [BoundStatement.rows, BoundSet.rows, BoundStatement.columns, BoundSet.columns, BoundSet.fields, BoundSet.leftmost,
      List.map_singleton, BoundField.column_ofInteger, rows_ofInteger hn, map_bind, Functor.map_map]
    rfl

end Yields

/-- Tokens of the text are a phrase of the sources, and no more than blanks and closed comments come after them. -/
def FromSource.WrittenAs (source : FromSource) (text : String) : Prop :=
  ∃ u s, Scanner.Scans (.ofText text) u s ∧ Gap False s.rest ∧ FromPhrase u source

theorem FromSource.WrittenAs.spells {source : FromSource} {text : String} (h : source.WrittenAs text) :
    Spells text.toList (FromPhrase · source) [] := by
  obtain ⟨u, s, hscans, hclosed, hphrase⟩ := h
  exact (hscans.spells hclosed (by simp [Ends])).mono fun w hw => hw.sources hphrase

/-- Every integer but the least can be written as a field, in decimal digits and with a sign if it is negative, and the
query has it in each of its rows: as many as its sources bring. In a schema call every integer can be written so. -/
theorem integer_in_every_row {env : Environment} {context : SourceContext} {tables : List NamedTable}
    {items : List SelectItem} {source : FromSource} {text : String} {r : Except Error (List Column × List (List Value))}
    (henv : env.Quiet context) (hwritten : source.WrittenAs text)
    (h : env.Yields context [.query tables (.query (.selecting items source))] r) :
    (∃ count : Except Error Nat,
      (∀ columns rows, items = [.star] → r = .ok (columns, rows) → count = .ok rows.length) ∧
      ∀ (n : Int64) (name : String), n ≠ Int64.minValue → IsName name → ∃ body,
        parse ("select " ++ toString n.toInt ++ " as " ++ name ++ " from " ++ text) = .ok [.query [] body] ∧
        env.Yields context [.query tables body]
          ((fun k => ([⟨name, .integer⟩], List.replicate k [.integer n])) <$> count)) ∧
    ∀ (n : Int64) (schema method : String), IsName schema → IsName method →
      parse ("desc #" ++ schema ++ "." ++ method ++ "(" ++ toString n.toInt ++ ")") =
        .ok [.describe ⟨schema, method, [.integer n]⟩] := by
  obtain ⟨count, hstar, hcount⟩ := Environment.yields_ofInteger henv h
  refine ⟨⟨count, hstar, fun n name hn hname => ?_⟩, fun n schema method hschema hmethod => ?_⟩
  · exact ⟨_, parse_selecting hn hname hwritten.spells, hcount n name hn⟩
  · have hplain : SchemaCall.Plain ⟨schema, method, [.integer n]⟩ := ⟨hschema, hmethod, by simp [Value.type]⟩
    have hread := hplain.spells.describe
    simpa [SchemaCall.text, Value.literalText, Value.render, ← String.append_assoc] using hread

/-- The least integer that can be selected, in both rows of a table. -/
theorem integer_in_every_row_twice :
    let m : MemorySchema := ⟨"m", [("t", ⟨[⟨"n", .integer⟩], [[.integer 1], [.integer 2]]⟩)], .standard⟩
    let env := Environment.ofMemory "m" m
    let context : SourceContext := ⟨.empty, 1⟩
    let source : FromSource := .schema ⟨"m", "t", []⟩ none
    let n : Int64 := -9223372036854775807
    source.WrittenAs "#m.t()" ∧
    env.Yields context [.query [] (.query (.selecting [.star] source))] (.ok ([⟨"n", .integer⟩], [[.integer 1], [.integer 2]])) ∧
    ∃ body, parse "select -9223372036854775807 as X from #m.t()" = .ok [.query [] body] ∧
      env.Yields context [.query [] body] (.ok ([⟨"X", .integer⟩], [[.integer n], [.integer n]])) := by
  intro m env context source n
  have hkinds : TokenKind.ofWord "m" = .identifier ∧ TokenKind.ofWord "t" = .identifier ∧
    TokenKind.ofWord "X" = .identifier := by decide +kernel
  have hplain : SchemaCall.Plain ⟨"m", "t", []⟩ := ⟨⟨⟨'m', [], rfl, by decide⟩, by simp; decide, hkinds.1⟩,
    ⟨⟨'t', [], rfl, by decide⟩, by simp; decide, hkinds.2.1⟩, nofun⟩
  have hname : IsName "X" := ⟨⟨'X', [], rfl, by decide⟩, by simp; decide, hkinds.2.2⟩
  have hwritten : source.WrittenAs "#m.t()" := by
    obtain ⟨u, s, g, hscans, hg, hrest, hcall⟩ := hplain.spells (r := []) (.ofText "#m.t()") [] .none rfl
    have hphrase := SourcePhrase.schema hcall .none
    rw [List.append_nil] at hrest hphrase
    exact ⟨u, s, hscans, hrest ▸ hg, .source hphrase⟩
  have henv : env.Quiet context := Environment.quiet_ofMemory "m" m context
  have hstar : env.Yields context [.query [] (.query (.selecting [.star] source))]
      (.ok ([⟨"n", .integer⟩], [[.integer 1], [.integer 2]])) := (Environment.yields_ok_iff henv).mpr (by decide +kernel)
  obtain ⟨⟨count, hcount, hselected⟩, -⟩ := integer_in_every_row henv hwritten hstar
  obtain ⟨body, hread, hyields⟩ := hselected n "X" (by decide) hname
  rw [hcount _ _ rfl rfl] at hyields
  exact ⟨hwritten, hstar, body, hread, hyields⟩

/-- Not every integer can be written as a field: the digits of the least one are out of range before their sign counts. -/
theorem least_integer_refused :
    ¬ ∀ n : Int64, ∃ body, parse ("select " ++ toString n.toInt ++ " as X from #m.t()") = .ok [.query [] body] := by
  intro hall
  obtain ⟨body, hread⟩ := hall Int64.minValue
  have hnone : (parse ("select " ++ toString Int64.minValue.toInt ++ " as X from #m.t()")).toOption.isNone = true := by
    decide +kernel
  rw [hread] at hnone
  cases hnone

end TabularQuery
