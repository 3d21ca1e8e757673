import TabularQuery.Proofs.Outcomes

/-!
Set operations as they are written. Their keys are columns of the leftmost query, and what they make of the
rows of their operands is a list function: all rows, the first of every key, the rows on the left whose key
is not on the right, or those whose key is. Operands may be operations in turn.
-/

namespace TabularQuery

/-! ### Keys -/

theorem Bind.keyColumns_forall₂ {left : BoundSet} {names : List String} {keys : List Nat}
    (h : keyColumns left names = .ok keys) :
    List.Forall₂ (fun name k => left.leftmost.fields.findIdx? (fun f => f.name = name) = some k) names keys := by
  induction names generalizing keys with
  | nil =>
    cases h
    exact .nil
  | cons name names ih =>
    rw [keyColumns] at h
    split at h
    · rename_i i hi
      obtain ⟨rest, hrest, h⟩ := except_bind_eq_ok.mp h
      cases h
      exact .cons hi (ih hrest)
    · cases h

/-! ### Two halves -/

namespace SetOperator

theorem except_append_intersect_perm (keys : List Nat) (left right : List (List Value)) :
    (SetOperator.except.rows keys left right ++ SetOperator.intersect.rows keys left right).Perm left :=
  List.perm_append_comm.trans (List.filter_append_perm (keyOccurs keys right) left)

theorem disjoint_except_intersect (keys : List Nat) (left right : List (List Value)) :
    List.Disjoint (SetOperator.except.rows keys left right) (SetOperator.intersect.rows keys left right) := by
  intro row hexcept hintersect
  have hnot := (List.mem_filter.mp hexcept).2
  have hoccurs := (List.mem_filter.mp hintersect).2
  rw [hoccurs] at hnot
  cases hnot

end SetOperator

/-! ### From names to rows -/

section Operations

variable {env : Environment} {op : SetOperator} {names : List String} {x y : SetExpr} {s s' : BindState} {b : BoundSet}
variable {name : Option String} {n : Nat} {g g' : GenerateState} {ctx : RunContext}

/-- A set operation has the procedures of its operands and one of its own. From any rows in the tables of
its operands, the procedure makes those of the operator; run after those of the operands, it makes them of
what the operands mean, at any depth. EXCEPT and INTERSECT share the rows on the left between them. -/
theorem set_operation_rows (hbind : Bind.setExpr env (.operation op names x y) s = .ok b s')
    (hgen : Generate.set b name g = .ok n g') (hlimit : ctx.limit = 0) (hwithin : g'.Within ctx.program) :
    ∃ ownName keyId keys left right s₁ s₂ leftTable rightTable g₁ g₂ p,
      b = .operation op ownName keyId keys left right ∧
      Bind.setExpr env x s = .ok left s₁ ∧ Bind.setExpr env y s₁ = .ok right s₂ ∧
      Generate.set left none g = .ok leftTable g₁ ∧ Generate.set right none g₁ = .ok rightTable g₂ ∧
      g'.procedures = g₂.procedures ++ [p] ∧
      List.Forall₂ (fun name k => left.leftmost.fields.findIdx? (fun f => f.name = name) = some k) names keys ∧
      (∀ m L R, m.Ready ctx.program → m.Holds leftTable left.columns L → m.Holds rightTable right.columns R →
        Machine.Executes ctx [p] m (.ok (op.rows keys L R)) fun rows m₁ =>
          m₁.Ready ctx.program ∧ m₁.Holds n b.columns rows) ∧
      (env.Quiet ctx.sources → s.scopes.Generated g → s'.cursors ≤ g.cursorCount →
        ∀ m tables, m.Ready ctx.program → m.Defines g tables →
          Machine.Executes ctx (g.added g') m
            (do return op.rows keys (← left.rows ctx.sources tables) (← right.rows ctx.sources tables))
            fun rows m₁ => m₁.Ready ctx.program ∧ m₁.Holds n b.columns rows) ∧
      ∀ L R, (SetOperator.except.rows keys L R ++ SetOperator.intersect.rows keys L R).Perm L ∧
        List.Disjoint (SetOperator.except.rows keys L R) (SetOperator.intersect.rows keys L R) := by
  obtain ⟨hbound, -, -⟩ := Bind.setExpr_ok hbind
  obtain ⟨left, right, keys, s₁, s₂, hleft, hright, -, hkeys, rfl, -⟩ := Bind.setExpr_operation_eq_ok_iff.mp hbind
  obtain ⟨g₁, g₂, sites, hl, hr, rfl, hoperation⟩ := Generate.set_operation_ok hgen
  obtain ⟨hlt, hge, hlt'⟩ := Generate.operands_ordered hl hr hoperation
  refine ⟨_, _, keys, left, right, s₁, s₂, sites.left, sites.right, g₁, g₂, _, rfl, hleft, hright, hl, hr,
    hoperation.procedures, Bind.keyColumns_forall₂ hkeys, fun m L R hready hL hR => ?_,
    fun henv hscopes hcursors m tables hready hdefines => ?_,
    fun L R => ⟨SetOperator.except_append_intersect_perm keys L R, SetOperator.disjoint_except_intersect keys L R⟩⟩
  · rw [← GenerateState.added_eq hoperation.procedures]
    exact (Generate.operation_executes hlimit hbound hoperation hwithin (by omega) hlt' hready hL hR).mono
      fun rows m₁ hadded => ⟨hadded.ready, hadded.holds⟩
  · exact (Generate.set_executes henv hlimit hscopes hcursors hbound hgen hwithin hready hdefines).mono
      fun rows m₁ hadded => ⟨hadded.ready, hadded.holds⟩

/-- The first rows of the keys 1 to 4, under other names on the right, less the rows of the key 3. -/
theorem set_operation_rows_nested :
    let columns (key text : String) : List Column := [⟨key, .integer⟩, ⟨text, .text⟩]
    let row (i : Int64) (text : String) : List Value := [.integer i, .text text]
    let schema : MemorySchema := ⟨"m", [("t", ⟨columns "k" "x", [row 1 "a", row 2 "b", row 1 "c"]⟩),
      ("u", ⟨columns "j" "y", [row 2 "d", row 3 "e", row 4 "f"]⟩), ("v", ⟨columns "i" "z", [row 3 "g"]⟩)], .standard⟩
    let env : Environment := ⟨⟨[("m", schema.toSchema)]⟩, .empty⟩
    let select (table : String) : SetExpr :=
      .query ⟨[.star], .schema ⟨"m", table, []⟩ (some table), none, none, none, none⟩
    let x : SetExpr := .operation .except ["k"] (.operation .union ["k"] (select "t") (select "u")) (select "v")
    ∃ b s' n g', Bind.setExpr env x .init = .ok b s' ∧ Generate.set b none (.start s'.cursors) = .ok n g' ∧
      let program := g'.program n []
      Machine.Executes ⟨program, ⟨.empty, 1⟩, 0⟩ g'.procedures (.init program false)
        (.ok [row 1 "a", row 2 "b", row 4 "f"])
        fun rows m => m.Ready program ∧ m.Holds n (columns "k" "x") rows := by
  intro columns row schema env select x
  have hvalue : (match Bind.setExpr env x .init with
    | .ok b _ => (b.columns, (b.rows ⟨.empty, 1⟩ []).toOption)
    | .error _ _ => ([], none)) = (columns "k" "x", some [row 1 "a", row 2 "b", row 4 "f"]) := by decide +kernel
  cases hbind : Bind.setExpr env x .init with
  | error e s' =>
    rw [hbind] at hvalue
    cases hvalue
  | ok b s' =>
    rw [hbind] at hvalue
    obtain ⟨hcolumns, hrows⟩ := Prod.mk.inj hvalue
    have hscopes : BindState.init.scopes.Generated (.start s'.cursors) := nofun
    obtain ⟨n, g', hgen, -⟩ := Generate.succeeds_set hscopes (Bind.setExpr_ok hbind).1 none
    refine ⟨b, s', n, g', rfl, hgen, ?_⟩
    let ctx : RunContext := ⟨g'.program n [], ⟨.empty, 1⟩, 0⟩
    have hlimit : ctx.limit = 0 := rfl
    have hwithin : g'.Within ctx.program := g'.within_program n []
    obtain ⟨_, _, keys, left, right, _, _, _, _, _, _, _, rfl, -, -, -, -, -, -, -, hrun, -⟩ :=
      set_operation_rows hbind hgen hlimit hwithin
    have hexecutes := hrun (Environment.quiet_of_memory _ schema _ _) hscopes (Nat.le_refl _) (.init ctx.program false) []
      (Machine.ready_init _) .nil
    rw [← hcolumns]
    cases hmeaning : BoundSet.rows ⟨.empty, 1⟩ [] (.operation .except _ _ keys left right) with
    | error e =>
      rw [hmeaning] at hrows
      cases hrows
    | ok rows =>
      rw [hmeaning] at hrows
      cases hrows
      rw [BoundSet.rows] at hmeaning
      rw [hmeaning] at hexecutes
      exact hexecutes

end Operations

end TabularQuery
