import TabularQuery.Machine.Frame
import TabularQuery.Proofs.Typing

/-!
Operands on the stacks. What was pushed last on its stack is popped first, so a list of values that
was pushed in order is popped as a whole, each value widened to the type under which it is asked for.
Only a real is refused where an integer is asked for: popping ends at the last one of these.
-/

namespace TabularQuery

namespace Frame

variable {f : Frame}

@[simp] theorem pushAll_nil (f : Frame) : f.pushAll [] = f := rfl

@[simp] theorem pushAll_cons (f : Frame) (v : Value) (vs : List Value) :
    f.pushAll (v :: vs) = (f.push v).pushAll vs := rfl

theorem pushAll_eq_foldr (f : Frame) (vs : List Value) :
    f.pushAll vs = vs.reverse.foldr (fun v f => f.push v) f := by
  rw [List.foldr_reverse, pushAll]

@[simp] theorem popNumber_push (f : Frame) (n : Number) :
    popNumber (f.push n.toValue) = .ok n f := by
  cases n <;> rfl

theorem popValue_push {ty : ColumnType} {v : Value} (h : ty.accepts v.type = true) :
    popValue ty (f.push v) = .ok (v.widen ty) f := by
  cases v <;> cases ty <;> first | rfl | cases h

theorem mapM_popValue {types : List ColumnType} {values : List Value}
    (h : ColumnType.AcceptsAll types (values.map Value.type)) :
    types.mapM popValue (values.foldr (fun v f => f.push v) f) =
      .ok (List.zipWith Value.widen types values) f := by
  induction values generalizing types with
  | nil => cases h; rfl
  | cons v values ih =>
    cases h with
    | cons hv hvs =>
      simp only [List.mapM_cons, List.foldr_cons, bind_apply, popValue_push hv, ih hvs, pure_apply,
        List.zipWith_cons_cons]

theorem popValues_pushAll {types : List ColumnType} {values : List Value}
    (h : ColumnType.AcceptsAll types (values.map Value.type)) :
    popValues types (f.pushAll values) = .ok (List.zipWith Value.widen types values) f := by
  have hlen : types.length = values.length := by simpa using h.length_eq
  have hrev : ColumnType.AcceptsAll types.reverse (values.reverse.map Value.type) := by
    rw [List.map_reverse]
    exact List.forall₂_reverse_iff.mpr h
  simp only [popValues, bind_apply, pushAll_eq_foldr, mapM_popValue hrev, pure_apply]
  rw [← List.reverse_zipWith hlen, List.reverse_reverse]

/-- A real on top is refused where an integer is asked for, and it is gone all the same. -/
theorem popValue_push_real (f : Frame) (x : Binary64) :
    popValue .integer (f.push (.real x)) = .error (.numberMismatch (Number.shown (.real x)) .integer) f := rfl

theorem mapM_popValue_misfit {types : List ColumnType} {values : List Value}
    (h : ColumnType.AcceptsAll types (values.map Value.type)) (x : Binary64) (others : List ColumnType) (left : List Value) :
    (types ++ .integer :: others).mapM popValue ((values ++ .real x :: left).foldr (fun v f => f.push v) f) =
      .error (.numberMismatch (Number.shown (.real x)) .integer) (left.foldr (fun v f => f.push v) f) := by
  induction values generalizing types with
  | nil =>
    cases h
    simp only [List.nil_append, List.mapM_cons, List.foldr_cons, bind_apply, popValue_push_real]
  | cons v values ih =>
    cases h with
    | cons hv hvs =>
      simp only [List.cons_append, List.mapM_cons, List.foldr_cons, bind_apply, popValue_push hv, ih hvs]

/-- Popping ends at a real where an integer is asked for, if what was pushed after it can be popped. -/
theorem popValues_misfit {after : List ColumnType} {rest : List Value}
    (h : ColumnType.AcceptsAll after (rest.map Value.type)) (before : List ColumnType) (x : Binary64) (values : List Value) :
    popValues (before ++ .integer :: after) (f.pushAll (values ++ .real x :: rest)) =
      .error (.numberMismatch (Number.shown (.real x)) .integer) (f.pushAll values) := by
  have hrev : ColumnType.AcceptsAll after.reverse (rest.reverse.map Value.type) := by
    rw [List.map_reverse]
    exact List.forall₂_reverse_iff.mpr h
  have hstop := mapM_popValue_misfit (f := f) hrev x before.reverse values.reverse
  simp only [popValues, bind_apply, pushAll_eq_foldr, List.reverse_append, List.reverse_cons, List.append_assoc,
    List.singleton_append, hstop]

end Frame

/-- Each value is of the kind that its type asks for. Then all can be popped under these types, or there is a last real
where an integer is asked for. -/
theorem ColumnType.acceptsAll_or_misfit {types : List ColumnType} {values : List Value}
    (h : List.Forall₂ (fun ty v => ty.kind = v.type.kind) types values) :
    AcceptsAll types (values.map Value.type) ∨
      ∃ (before after : List ColumnType) (vs : List Value) (x : Binary64) (rest : List Value),
        types = before ++ .integer :: after ∧ values = vs ++ .real x :: rest ∧ before.length = vs.length ∧
        AcceptsAll after (rest.map Value.type) := by
  induction h with
  | nil => exact .inl .nil
  | @cons ty v types values hkind _ ih =>
    rcases ih with haccepts | ⟨before, after, vs, x, rest, rfl, rfl, hlength, haccepts⟩
    · cases v with
      | real x =>
        cases ty with
        | integer => exact .inr ⟨[], types, [], x, values, rfl, rfl, rfl, haccepts⟩
        | real => exact .inl (.cons rfl haccepts)
        | text | boolean => cases hkind
      | integer | text | boolean =>
        refine .inl (.cons ?_ haccepts)
        cases ty <;> first | rfl | cases hkind
    · exact .inr ⟨ty :: before, after, v :: vs, x, rest, rfl, rfl, congrArg (· + 1) hlength, haccepts⟩

theorem Value.widen_type (v : Value) : v.widen v.type = v := by cases v <;> rfl

theorem Value.zipWith_widen_types (values : List Value) :
    List.zipWith widen (values.map type) values = values := by
  induction values with
  | nil => rfl
  | cons v values ih => simp [widen_type, ih]

/-- Values that were pushed are popped again as they were, in order and widened where a real is asked for, and the stacks
and registers are as before. If there is a real where an integer is asked for, popping fails with a mismatch of kinds and
names such a value. -/
theorem Frame.popped_as_pushed (f : Frame) (types : List ColumnType) (values : List Value) :
    (List.Forall₂ (fun ty v => v.type = ty ∨ ty = .real ∧ v.type = .integer) types values →
      popValues types (f.pushAll values) = .ok (List.zipWith Value.widen types values) f) ∧
    (List.Forall₂ (fun ty v => ty.kind = v.type.kind) types values → (∃ x, (.integer, .real x) ∈ types.zip values) →
      ∃ x e left, (.integer, .real x) ∈ types.zip values ∧ popValues types (f.pushAll values) = .error e left ∧
        e = .numberMismatch (Number.shown (.real x)) .integer ∧ e.code = .kindMismatch) := by
  constructor
  · intro hfits
    refine popValues_pushAll (List.forall₂_map_right_iff.mpr (hfits.imp fun ty v h => ?_))
    rcases h with rfl | ⟨rfl, htype⟩
    · exact ColumnType.accepts_self _
    · rw [htype]
      rfl
  · rintro hkinds ⟨y, hy⟩
    rcases ColumnType.acceptsAll_or_misfit hkinds with haccepts | ⟨before, after, vs, x, rest, rfl, rfl, hlength, haccepts⟩
    · cases (List.forall₂_zip (List.forall₂_map_right_iff.mp haccepts) hy)
    · refine ⟨x, _, f.pushAll vs, ?_, popValues_misfit haccepts before x vs, rfl, rfl⟩
      rw [List.zip_append hlength]
      simp

/-- Values of all kinds on stacks that hold others, and then a real in the place of the last integer. -/
theorem Frame.popped_as_pushed_mixed :
    let f : Frame := ⟨[.integer 9], [], [true], [5]⟩
    let types : List ColumnType := [.text, .real, .boolean, .integer, .text]
    let values (v : Value) : List Value := [.text "a", .integer 4, .boolean false, v, .text "b"]
    popValues types (f.pushAll (values (.integer (-1)))) =
      .ok [.text "a", .real (.ofInt64 4), .boolean false, .integer (-1), .text "b"] f ∧
    ∃ x e left, (.integer, .real x) ∈ types.zip (values (.real (.ofInt64 1))) ∧
      popValues types (f.pushAll (values (.real (.ofInt64 1)))) = .error e left ∧
      e = .numberMismatch (Number.shown (.real x)) .integer ∧ e.code = .kindMismatch := by
  intro f types values
  obtain ⟨hpopped, -⟩ := popped_as_pushed f types (values (.integer (-1)))
  obtain ⟨-, hrefused⟩ := popped_as_pushed f types (values (.real (.ofInt64 1)))
  constructor
  · exact hpopped (.cons (.inl rfl) (.cons (.inr ⟨rfl, rfl⟩) (.cons (.inl rfl) (.cons (.inl rfl) (.cons (.inl rfl) .nil)))))
  · exact hrefused (.cons rfl (.cons rfl (.cons rfl (.cons rfl (.cons rfl .nil))))) ⟨.ofInt64 1, by simp [types, values]⟩

end TabularQuery
