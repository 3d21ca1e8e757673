import TabularQuery.Table.Key

/-!
Indexes: for a list of columns, the positions of the rows that have each key, in order of insertion.
-/

namespace TabularQuery

structure Index where
  /-- The columns of the key, in order; an index is known by them. -/
  columns : List Nat
  buckets : List (Key × List Nat)
  deriving DecidableEq, Repr

namespace Index

def empty (columns : List Nat) : Index := ⟨columns, []⟩

/-- Adds a position to the bucket of a key, which is made if there is none. -/
def file (key : Key) (position : Nat) : List (Key × List Nat) → List (Key × List Nat)
  | [] => [(key, [position])]
  | (k, positions) :: rest =>
    if k.same key then (k, positions ++ [position]) :: rest
    else (k, positions) :: file key position rest

/-- Records a row under its key; a row without all of the columns is left out. -/
def insert (i : Index) (position : Nat) (row : List Value) : Index :=
  match Key.ofRow? i.columns row with
  | some key => { i with buckets := file key position i.buckets }
  | none => i

/-- The positions under a key, in order of insertion. -/
def get? (i : Index) (key : Key) : Option (List Nat) :=
  i.buckets.findSome? fun (k, positions) => if k.same key then some positions else none

def contains (i : Index) (key : Key) : Bool := (i.get? key).isSome

/-- The number of different keys. -/
def size (i : Index) : Nat := i.buckets.length

end Index

end TabularQuery
