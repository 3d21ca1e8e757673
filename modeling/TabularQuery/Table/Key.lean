import TabularQuery.Value

/-!
Rows and the keys they are found by. A key is the values at some columns of a row. Keys are equal
when their values are: reals by their bits, with both zeros alike; the columns do not count, so that
keys of different tables can be compared.
-/

namespace TabularQuery

structure Key where
  values : List Value
  columns : List Nat
  deriving DecidableEq, Repr

/-- The form of a value in which key equality is plain equality. -/
def Value.keyForm : Value → Value
  | .real x => .real ⟨x.keyBits⟩
  | v => v

namespace Key

def form (k : Key) : List Value := k.values.map Value.keyForm

/-- Key equality. -/
def same (a b : Key) : Bool := a.form = b.form

@[simp] theorem same_refl (k : Key) : k.same k = true := by simp [same]

theorem same_comm (a b : Key) : a.same b = b.same a := by
  simp only [same, decide_eq_decide]
  exact eq_comm

/-- The key of a row over `columns`, if the row has all of them. -/
def ofRow? (columns : List Nat) (row : List Value) : Option Key :=
  (columns.mapM fun c => row[c]?).map fun values => ⟨values, columns⟩

end Key

end TabularQuery
