import TabularQuery.Plan.Scope

/-!
The state of binding. Names of queries and cursors are unique in the whole program; numbers of set
keys and made-up aliases start again with every statement.
-/

namespace TabularQuery

structure BindState where
  scopes : ScopeStack
  /-- Queries and descriptions named so far. -/
  queries : Nat
  cursors : Nat
  setKeys : Nat
  aliases : Nat
  /-- Schemas used so far, in order of their names. -/
  libraries : List String

/-- A step of binding, which may fail. -/
abbrev Bind := EStateM Error BindState

namespace BindState

def init : BindState := ⟨[], 0, 0, 0, 0, []⟩

end BindState

/-- Adds a name to a list in order, once. -/
def insertName (name : String) : List String → List String
  | [] => [name]
  | n :: rest =>
    if name = n then n :: rest
    else if name < n then name :: n :: rest
    else n :: insertName name rest

namespace Bind

def beginStatement : Bind Unit := modify fun s => { s with setKeys := 0, aliases := 0 }

/-- The number of the next query or description, from 1 on. -/
def nextQuery : Bind Nat := modifyGet fun s => (s.queries + 1, { s with queries := s.queries + 1 })

def nextCursor : Bind Nat := modifyGet fun s => (s.cursors, { s with cursors := s.cursors + 1 })

def nextSetKey : Bind Nat := modifyGet fun s => (s.setKeys, { s with setKeys := s.setKeys + 1 })

/-- An alias for a source that is written without one. -/
def nextAlias : Bind String :=
  modifyGet fun s => (s!"t{s.aliases}", { s with aliases := s.aliases + 1 })

def noteLibrary (name : String) : Bind Unit :=
  modify fun s => { s with libraries := insertName name s.libraries }

def pushScope (kind : ScopeKind) : Bind Unit := modify fun s => { s with scopes := s.scopes.push kind }

def popScope : Bind Unit := modify fun s => { s with scopes := s.scopes.tail }

def insertSymbol (name : String) (symbol : Symbol) : Bind Unit := do
  let s ← get
  set { s with scopes := ← MonadExcept.ofExcept (s.scopes.insert name symbol) }

/-- Leaves a query and gives its aggregates. -/
def popQuery : Bind (List AggregateSlot) := do
  let s ← get
  let (slots, scopes) := s.scopes.popQuery
  set { s with scopes }
  MonadExcept.ofExcept slots

end Bind

end TabularQuery
