import Mathlib.Data.List.Forall2
import TabularQuery.Source.Delimited

/-!
Writing delimited lines. A field is written between quotes, with the quotes in it doubled, or as it is, if it has no
separator in it and does not begin with a quote. However the fields of a line are written, it is split into these
fields.
-/

namespace TabularQuery.Delimited

/-- A field between quotes; a quote inside is written twice. -/
def quotedField (field : String) : String :=
  String.ofList ('"' :: field.toList.flatMap (fun c => if c = '"' then [c, c] else [c]) ++ ['"'])

/-- The ways to write a field. -/
inductive FieldText (separator : Char) : (field text : String) → Prop
  | quoted {field : String} : FieldText separator field (quotedField field)
  | raw {field : String} (hseparator : separator ∉ field.toList) (hquote : field.toList.head? ≠ some '"') :
      FieldText separator field field

section Fields

variable {separator : Char} {field text : String} {cs done rest : List Char}

/-- Inside quotes everything up to the closing one belongs to the field. -/
theorem splitFrom_doubled (separator : Char) (done cs : List Char) (hrest : rest.head? ≠ some '"') :
    splitFrom separator .quoted done (cs.flatMap (fun c => if c = '"' then [c, c] else [c]) ++ '"' :: rest) =
      splitFrom separator .bare (done ++ cs) rest := by
  induction cs generalizing done with
  | nil =>
    cases rest with
    | nil => simp [splitFrom]
    | cons d rest =>
      have hd : d ≠ '"' := by simpa using hrest
      simp [splitFrom, hd]
  | cons c cs ih =>
    by_cases hc : c = '"'
    · simp [hc, splitFrom, ih]
    · simp [hc, splitFrom, ih]

/-- Outside quotes everything up to the separator belongs to the field, if it does not begin with a quote. -/
theorem splitFrom_raw (hseparator : separator ∉ cs) (hquote : done = [] → cs.head? ≠ some '"') :
    splitFrom separator .bare done (cs ++ rest) = splitFrom separator .bare (done ++ cs) rest := by
  induction cs generalizing done with
  | nil => simp
  | cons c cs ih =>
    simp only [List.mem_cons, not_or] at hseparator
    have hopen : ¬ (c = '"' ∧ done = []) := by
      rintro ⟨hc, hdone⟩
      exact hquote hdone (by rw [hc, List.head?_cons])
    rw [List.cons_append, splitFrom]
    simp [hopen, Ne.symm hseparator.1, ih hseparator.2]

/-- A field that is written in one of the ways is read as it was. -/
theorem splitFrom_text (h : FieldText separator field text) (hrest : rest.head? ≠ some '"') :
    splitFrom separator .bare [] (text.toList ++ rest) = splitFrom separator .bare field.toList rest := by
  cases h with
  | quoted =>
    have hquoted := splitFrom_doubled separator [] field.toList hrest
    simpa [quotedField, splitFrom] using hquoted
  | raw hseparator hquote => exact splitFrom_raw hseparator fun _ => hquote

theorem splitFrom_separator (h : separator ≠ '"') :
    splitFrom separator .bare done (separator :: rest) = done :: splitFrom separator .bare [] rest := by
  simp [splitFrom, h]

theorem splitFrom_texts {fields texts : List String} (hseparator : separator ≠ '"') (hfields : fields ≠ [])
    (h : List.Forall₂ (FieldText separator) fields texts) :
    splitFrom separator .bare [] ([separator].intercalate (texts.map String.toList)) = fields.map String.toList := by
  induction h with
  | nil => exact absurd rfl hfields
  | @cons field text fields texts hfirst hothers ih =>
    cases hothers with
    | nil =>
      have hlast : splitFrom separator .bare [] (text.toList ++ []) = [field.toList] := splitFrom_text hfirst (by simp)
      simpa using hlast
    | cons hnext hothers =>
      rw [List.map_cons, List.map_cons, List.intercalate_cons_cons, List.append_assoc, List.singleton_append,
        splitFrom_text hfirst (by simpa using hseparator), splitFrom_separator hseparator, ← List.map_cons,
        ih (List.cons_ne_nil _ _)]
      rfl

end Fields

/-- However the fields of a line are written, between quotes or as they are, it is split into these fields. -/
theorem splitLine_written {separator : Char} {fields texts : List String} (hseparator : separator ≠ '"')
    (hfields : fields ≠ []) (h : List.Forall₂ (FieldText separator) fields texts) :
    splitLine separator ((String.singleton separator).intercalate texts) = fields := by
  rw [splitLine, String.toList_intercalate, String.toList_singleton, splitFrom_texts hseparator hfields h, List.map_map]
  exact List.map_id'' (fun field => String.ofList_toList) fields

/-- A field with separators and quotes, two empty ones, one between quotes and one not, and a quote that is not the
first character of its field. -/
theorem splitLine_written_mixed :
    splitLine ';' "\"a;\"\"\";;\"\";b\"" = ["a;\"", "", "", "b\""] := by
  have hfields : List.Forall₂ (FieldText ';') ["a;\"", "", "", "b\""] [quotedField "a;\"", "", quotedField "", "b\""] :=
    .cons .quoted (.cons (.raw (by decide) (by decide)) (.cons .quoted (.cons (.raw (by decide) (by decide)) .nil)))
  have hline : (String.singleton ';').intercalate [quotedField "a;\"", "", quotedField "", "b\""] =
    "\"a;\"\"\";;\"\";b\"" := by decide +kernel
  rw [← hline]
  exact splitLine_written (by decide) (by decide) hfields

end TabularQuery.Delimited
