import TabularQuery.Proofs.GeneratedProcedures
import TabularQuery.Proofs.IntegerTexts
import TabularQuery.Proofs.Overloads

/-!
Names of procedures. Queries and descriptions are numbered through a whole program, and the name of a set operation is
made of the names of its operands, with underscores around the name of the operator. A name tells its numbers, since they
stand in parts of it between underscores. What is bound later has higher numbers, and a set operation is the first to have
numbers of both its operands, so no name comes twice.
-/

namespace TabularQuery

/-! ### Numbers in names -/

/-- The parts of a name, between underscores. -/
def nameParts (name : String) : List (List Char) := name.toList.splitOnP fun c => c = '_'

/-- One of the parts is that of the query or the description with this number. -/
def Mentions (name : String) (n : Nat) : Prop :=
  "Query".toList ++ Nat.toDigits 10 n ∈ nameParts name ∨ "Desc".toList ++ Nat.toDigits 10 n ∈ nameParts name

section Mentions

variable {l r : String} {op : SetOperator} {m n : Nat}

theorem nameParts_of_notMem {name : String} (h : '_' ∉ name.toList) : nameParts name = [name.toList] :=
  List.splitOnP_eq_singleton fun _ hc => decide_eq_false fun heq => h (heq ▸ hc)

theorem nameParts_append (l r : String) : nameParts (l ++ "_" ++ r) = nameParts l ++ nameParts r := by
  have htext : (l ++ "_" ++ r).toList = l.toList ++ '_' :: r.toList := by simp
  rw [nameParts, htext]
  exact List.splitOnP_append_cons _ _ (decide_eq_true rfl)

theorem nameParts_numbered {word : String} (h : '_' ∉ word.toList) (n : Nat) :
    nameParts (word ++ toString n) = [word.toList ++ Nat.toDigits 10 n] := by
  have htext : (word ++ toString n).toList = word.toList ++ Nat.toDigits 10 n :=
    String.toList_append.trans (congrArg _ Nat.toList_repr)
  have hword : '_' ∉ (word ++ toString n).toList := by simp [h]
  rw [nameParts_of_notMem hword, htext]

theorem mentions_query : Mentions s!"Query{m}" n ↔ n = m := by
  have hparts : nameParts s!"Query{m}" = ["Query".toList ++ Nat.toDigits 10 m] := nameParts_numbered (by decide) m
  rw [Mentions, hparts, List.mem_singleton, List.mem_singleton]
  simp [Decimal.toDigits_inj]

theorem mentions_describe : Mentions s!"Desc{m}" n ↔ n = m := by
  have hparts : nameParts s!"Desc{m}" = ["Desc".toList ++ Nat.toDigits 10 m] := nameParts_numbered (by decide) m
  rw [Mentions, hparts, List.mem_singleton, List.mem_singleton]
  simp [Decimal.toDigits_inj]

/-- The name of an operator is a part of its own, and that of no query or description. -/
theorem mentions_operation : Mentions s!"{l}_{op.name}_{r}" n ↔ Mentions l n ∨ Mentions r n := by
  have hname : s!"{l}_{op.name}_{r}" = l ++ "_" ++ op.name ++ "_" ++ r := rfl
  have hop : nameParts op.name = [op.name.toList] := by
    refine nameParts_of_notMem ?_
    cases op <;> decide
  have hquery : "Query".toList ++ Nat.toDigits 10 n ≠ op.name.toList := by cases op <;> simp [SetOperator.name]
  have hdescribe : "Desc".toList ++ Nat.toDigits 10 n ≠ op.name.toList := by cases op <;> simp [SetOperator.name]
  simp only [Mentions, hname, nameParts_append, hop, List.mem_append, List.mem_singleton, hquery, hdescribe, or_false]
  exact or_or_or_comm

end Mentions

/-! ### Names with numbers in a range -/

/-- Names that differ from each other, each of which has a number, and only numbers after `first` and up to `last`. -/
structure NumberedNames (first last : Nat) (names : List String) : Prop where
  distinct : names.Nodup
  some : ∀ name ∈ names, ∃ n, Mentions name n
  range : ∀ name ∈ names, ∀ n, Mentions name n → first < n ∧ n ≤ last
  ordered : first ≤ last

namespace NumberedNames

variable {first mid last : Nat} {names names' : List String}

theorem none (n : Nat) : NumberedNames n n [] := ⟨List.nodup_nil, nofun, nofun, Nat.le_refl n⟩

theorem single {name : String} {n : Nat} (h : ∀ m, Mentions name m ↔ m = n + 1) : NumberedNames n (n + 1) [name] where
  distinct := List.nodup_singleton name
  some := List.forall_mem_singleton.mpr ⟨n + 1, (h _).mpr rfl⟩
  range := List.forall_mem_singleton.mpr fun m hm => by
    rw [(h m).mp hm]
    omega
  ordered := Nat.le_succ n

theorem disjoint (h : NumberedNames first mid names) (h' : NumberedNames mid last names') : List.Disjoint names names' := by
  intro name hname hname'
  obtain ⟨n, hn⟩ := h.some name hname
  have hle := h.range name hname n hn
  have hlt := h'.range name hname' n hn
  omega

theorem append (h : NumberedNames first mid names) (h' : NumberedNames mid last names') :
    NumberedNames first last (names ++ names') where
  distinct := h.distinct.append h'.distinct (h.disjoint h')
  some := List.forall_mem_append.mpr ⟨h.some, h'.some⟩
  range := by
    have hle := h.ordered
    have hle' := h'.ordered
    refine List.forall_mem_append.mpr ⟨fun name hname n hn => ?_, fun name hname n hn => ?_⟩
    · have hrange := h.range name hname n hn
      omega
    · have hrange := h'.range name hname n hn
      omega
  ordered := Nat.le_trans h.ordered h'.ordered

/-- The name of a set operation has numbers of both operands, as no name of either side has. -/
theorem operation (h : NumberedNames first mid names) (h' : NumberedNames mid last names') {l r : String} (hl : l ∈ names)
    (hr : r ∈ names') (op : SetOperator) : NumberedNames first last (names ++ names' ++ [s!"{l}_{op.name}_{r}"]) := by
  obtain ⟨n, hn⟩ := h.some l hl
  obtain ⟨n', hn'⟩ := h'.some r hr
  have hsides := h.append h'
  have hnew : s!"{l}_{op.name}_{r}" ∉ names ++ names' := by
    rw [List.mem_append, not_or]
    constructor
    · intro hmem
      have hrange := h.range _ hmem n' (mentions_operation.mpr (.inr hn'))
      have hrange' := h'.range r hr n' hn'
      omega
    · intro hmem
      have hrange := h'.range _ hmem n (mentions_operation.mpr (.inl hn))
      have hrange' := h.range l hl n hn
      omega
  refine ⟨hsides.distinct.append (List.nodup_singleton _) ?_, ?_, ?_, hsides.ordered⟩
  · exact fun name hname hname' => hnew (List.mem_singleton.mp hname' ▸ hname)
  · exact List.forall_mem_append.mpr ⟨hsides.some, List.forall_mem_singleton.mpr ⟨n, mentions_operation.mpr (.inl hn)⟩⟩
  · refine List.forall_mem_append.mpr ⟨hsides.range, List.forall_mem_singleton.mpr fun m hm => ?_⟩
    rcases mentions_operation.mp hm with hm | hm
    · exact hsides.range l (List.mem_append_left _ hl) m hm
    · exact hsides.range r (List.mem_append_right _ hr) m hm

end NumberedNames

/-! ### Binding -/

theorem BoundSet.name_mem_names (s : BoundSet) : s.name ∈ s.names := by
  cases s <;> simp [name, names]

theorem BindState.Extends.queries {clause : Clause} {s s' : BindState} (h : Extends clause s s') : s'.queries = s.queries := by
  induction h with
  | refl => rfl
  | tail _ hstep ih => cases hstep <;> exact ih

namespace Bind

variable {env : Environment} {s s' : BindState}

theorem fromSource_queries : ∀ (x : FromSource) (s s' : BindState) (bound : SourceList × List BoundSource),
    fromSource env x s = .ok bound s' → s'.queries = s.queries
  | .schema c aliasName, s, s', bound, h => by
    obtain ⟨schema, columns, name, s₁, -, halias, rfl, libraries, rfl⟩ := schema_eq_ok h
    cases aliasName <;> cases halias <;> rfl
  | .named name aliasName, s, s', bound, h => by
    obtain ⟨t, -, rfl, -⟩ := named_eq_ok h
    rfl
  | .join left right on, s, s', bound, h => by
    obtain ⟨l, r, test, s₁, scopes₂, s₃, scopes₄, s₅, hleft, -, hright, -, -, htest, -, rfl⟩ := join_eq_ok_iff.mp h
    obtain ⟨hext, -⟩ := condition_ok htest
    have hqueries := fromSource_queries left _ _ _ hleft
    have hqueries₃ := fromSource_queries right _ _ _ hright
    exact hext.queries.trans (hqueries₃.trans hqueries)

theorem query_named {x : Query} {q : BoundQuery} (h : query env x s = .ok q s') :
    q.name = s!"Query{s.queries + 1}" ∧ s'.queries = s.queries + 1 := by
  obtain ⟨bound, s₂, scopes₃, filter, s₄, group, s₅, fields, s₆, slots, hfrom, hshow, hfilter, hgroup, hfields, hpop, rfl⟩ :=
    query_eq_ok_iff.mp h
  have hqueries₂ := fromSource_queries x.source _ _ _ hfrom
  obtain ⟨-, hscopes₂, -⟩ := fromSource_ok x.source _ _ _ rfl hfrom
  rw [hscopes₂] at hshow
  have hentries : scopes₃.entries = bound.1 := ScopeStack.entries_insert hshow
  -- The clauses after FROM only add libraries and slots.
  obtain ⟨hext₄, -⟩ := optional_ok hfilter
  obtain ⟨s₁, hext₁, hext₅, -⟩ := grouping_ok hgroup
  have hentries₅ : s₅.scopes.entries = bound.1 := by rw [hext₅.entries, hext₁.entries, hext₄.entries, hentries]
  obtain ⟨hext₆, -⟩ := fields_ok (hentries₅ ▸ hfields)
  have hqueries₆ : s₆.queries = s.queries + 1 := by
    rw [hext₆.queries, hext₅.queries, hext₁.queries, hext₄.queries]
    exact hqueries₂
  have hpopped : s'.queries = s₆.queries := by
    replace hpop := eq_ok_of_bind hpop rfl
    replace hpop := eq_ok_of_bind hpop rfl
    obtain ⟨-, rfl⟩ := ofExcept_eq_ok.mp hpop
    rfl
  exact ⟨rfl, hpopped.trans hqueries₆⟩

theorem setExpr_names {x : SetExpr} {b : BoundSet} (h : setExpr env x s = .ok b s') :
    NumberedNames s.queries s'.queries b.names := by
  induction x generalizing s s' b with
  | query x =>
    obtain ⟨q, hq, rfl⟩ := bind_pure_eq_ok.mp h
    obtain ⟨hname, hqueries⟩ := query_named hq
    rw [BoundSet.names, hname, hqueries]
    exact .single fun m => mentions_query
  | operation op keys x y ihx ihy =>
    obtain ⟨l, r, columns, s₁, s₂, hl, hr, -, -, rfl, rfl⟩ := setExpr_operation_eq_ok_iff.mp h
    exact (ihx hl).operation (ihy hr) l.name_mem_names r.name_mem_names op

theorem namedTables_names {xs : List NamedTable} {tables : List BoundTable} (h : namedTables env xs s = .ok tables s') :
    NumberedNames s.queries s'.queries (tables.flatMap fun t => t.body.names) := by
  induction xs generalizing s tables with
  | nil =>
    obtain ⟨rfl, rfl⟩ := pure_eq_ok.mp h
    exact .none _
  | cons x xs ih =>
    obtain ⟨body, s₁, scopes, rest, hbody, -, hrest, rfl⟩ := namedTables_cons_eq_ok_iff.mp h
    have hrest := ih hrest
    exact (setExpr_names hbody).append hrest

theorem statement_names {x : Statement} {b : BoundStatement} (h : statement env x s = .ok b s') :
    NumberedNames s.queries s'.queries b.names := by
  cases x with
  | query xs x =>
    obtain ⟨tables, s₁, body, s₂, htables, hbody, rfl, rfl⟩ := statement_query_eq_ok_iff.mp h
    have hbody : NumberedNames s₁.queries s₂.queries body.names := setExpr_names hbody
    exact (namedTables_names htables).append hbody
  | describe c =>
    obtain ⟨schema, columns, -, rfl, rfl⟩ := statement_describe_eq_ok_iff.mp h
    exact .single fun m => mentions_describe

theorem statements_names {xs : List Statement} {bs : List BoundStatement} (h : statements env xs s = .ok bs s') :
    NumberedNames s.queries s'.queries (bs.flatMap BoundStatement.names) := by
  induction xs generalizing s bs with
  | nil =>
    obtain ⟨rfl, rfl⟩ := pure_eq_ok.mp h
    exact .none _
  | cons x xs ih =>
    obtain ⟨b, s₁, hb, h⟩ := bind_eq_ok.mp h
    obtain ⟨rest, hrest, rfl⟩ := bind_pure_eq_ok.mp h
    exact (statement_names hb).append (ih hrest)

end Bind

theorem nodup_names_of_bind {env : Environment} {xs : List Statement} {b : BoundProgram} (h : bind env xs = .ok b) :
    (b.statements.flatMap BoundStatement.names).Nodup := by
  unfold bind at h
  split at h
  · next hstatements =>
    cases h
    exact (Bind.statements_names hstatements).distinct
  · cases h

/-! ### Programs -/

theorem procedureNames_of_generate {b : BoundProgram} {p : Program} (h : generate b = .ok p) :
    p.procedureNames = b.statements.flatMap BoundStatement.names := by
  unfold generate at h
  split at h
  · cases h
  · next hrun =>
    cases h
    exact Generate.statements_names hrun
  · cases h

/-- The procedures of a program have different names, so a name finds the one procedure that has it. -/
theorem procedure_names_distinct {env : Environment} {root : List Statement} {p : Program}
    (h : (bind env root >>= generate) = .ok p) :
    p.procedureNames.Nodup ∧ ∀ name q, p.procedure? name = some q ↔ q ∈ p.procedures ∧ q.name = name := by
  obtain ⟨b, hbind, hgenerate⟩ := except_bind_eq_ok.mp h
  have hdistinct : p.procedureNames.Nodup := by
    rw [procedureNames_of_generate hgenerate]
    exact nodup_names_of_bind hbind
  refine ⟨hdistinct, fun name q => ⟨fun hfound => ?_, ?_⟩⟩
  · have hname := List.find?_some hfound
    exact ⟨List.mem_of_find?_eq_some hfound, of_decide_eq_true hname⟩
  · rintro ⟨hq, rfl⟩
    refine find?_eq_some_of_only hq (decide_eq_true rfl) fun q' hq' hname => ?_
    exact List.inj_on_of_nodup_map hdistinct hq' hq (of_decide_eq_true hname)

/-- A defined table with a set operation, a set operation with others on both sides, and a description. The names are found
where they stand. -/
theorem procedure_names_distinct_nested :
    let schema : MemorySchema := ⟨"m", [("t", ⟨[⟨"n", .integer⟩], []⟩)], .standard⟩
    let env : Environment := ⟨⟨[("m", schema.toSchema)]⟩, .empty⟩
    let read (source : FromSource) : SetExpr := .query ⟨[.star], source, none, none, none, none⟩
    let leaf : SetExpr := read (.schema ⟨"m", "t", []⟩ none)
    let pair (op : SetOperator) : SetExpr := .operation op ["n"] leaf leaf
    let root : List Statement := [.query [⟨"c", pair .union⟩] (read (.named "c" none)), .describe ⟨"m", "t", []⟩,
      .query [] (.operation .except ["n"] (pair .unionAll) (pair .intersect))]
    ∃ p, (bind env root >>= generate) = .ok p ∧
      p.procedureNames = ["Query1", "Query2", "Query1_Union_Query2", "Query3", "Desc4", "Query5", "Query6",
        "Query5_UnionAll_Query6", "Query7", "Query8", "Query7_Intersect_Query8",
        "Query5_UnionAll_Query6_Except_Query7_Intersect_Query8"] ∧
      ∀ q ∈ p.procedures, p.procedure? q.name = some q := by
  intro schema env read leaf pair root
  have hnames : (bind env root >>= generate).toOption.map Program.procedureNames = some ["Query1", "Query2",
      "Query1_Union_Query2", "Query3", "Desc4", "Query5", "Query6", "Query5_UnionAll_Query6", "Query7", "Query8",
      "Query7_Intersect_Query8", "Query5_UnionAll_Query6_Except_Query7_Intersect_Query8"] := by decide +kernel
  obtain ⟨p, hp, hnames⟩ := Option.map_eq_some_iff.mp hnames
  have hp := toOption_eq_some_iff.mp hp
  exact ⟨p, hp, hnames, fun q hq => ((procedure_names_distinct hp).2 q.name q).mpr ⟨hq, rfl⟩⟩

end TabularQuery
