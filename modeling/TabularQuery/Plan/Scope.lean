import TabularQuery.Plan.Bound

/-!
Scopes: what names stand for at each level of nesting. A statement has a frame for the tables that it
defines, a query one for its sources and aggregates, a join one while its condition is bound. A
column is looked for in the frames down to the innermost query's, a defined table in all of them.
-/

namespace TabularQuery

/-- A source under its alias. -/
structure SourceEntry where
  aliasName : String
  cursor : Nat
  columns : List Column
  /-- The schema and its name in lower case; none for a defined table. -/
  schema : Option (String × Schema)

namespace SourceEntry

/-- Methods that can be called on rows of the source. -/
def catalog (e : SourceEntry) : Catalog :=
  match e.schema with
  | some (_, s) => s.catalog
  | none => Catalog.standard

def library (e : SourceEntry) : Option String := e.schema.map Prod.fst

def column? (e : SourceEntry) (name : String) : Option (Nat × Column) := Column.find? e.columns name

end SourceEntry

/-- The sources of a FROM clause, or of one side of a join. -/
abbrev SourceList := List SourceEntry

namespace SourceList

def aliases (s : SourceList) : List String := s.map SourceEntry.aliasName

def entry? (s : SourceList) (aliasName : String) : Option SourceEntry :=
  s.find? fun e => e.aliasName = aliasName

/-- Both sides of a join, if no alias repeats. -/
def merge (s : SourceList) : SourceList → Except Error SourceList
  | [] => .ok s
  | e :: es =>
    match s.entry? e.aliasName with
    | some _ => .error (.aliasTaken e.aliasName)
    | none => merge (s ++ [e]) es

end SourceList

/-- A table that a statement defines, with its columns. -/
structure DefinedTable where
  name : String
  columns : List Column
  deriving DecidableEq, Repr

inductive Symbol where
  | sources (sources : SourceList)
  | defined (table : DefinedTable)

inductive ScopeKind where
  | query | table | join
  deriving DecidableEq, Repr

def ScopeKind.name : ScopeKind → String
  | .query => "Query"
  | .table => "Cte"
  | .join => "Join"

def ScopeKind.ofName? (name : String) : Option ScopeKind :=
  [ScopeKind.query, .table, .join].find? fun k => k.name = name

/-- Names of one level, in the order in which they came. -/
structure ScopeFrame where
  kind : ScopeKind
  symbols : List (String × Symbol)
  /-- The aggregates of a query. -/
  slots : List AggregateSlot

namespace ScopeFrame

/-- The name under which a query's frame keeps its aggregates; no identifier is spelled so. -/
def slotsName : String := "#refresh"

def lookup? (f : ScopeFrame) (name : String) : Option Symbol := f.symbols.lookup name

def isTaken (f : ScopeFrame) (name : String) : Bool :=
  (f.lookup? name).isSome || (f.kind = .query && name = slotsName)

def sourceLists (f : ScopeFrame) : List SourceList :=
  f.symbols.filterMap fun (_, s) =>
    match s with
    | .sources l => some l
    | .defined _ => none

def defined? (f : ScopeFrame) (name : String) : Option DefinedTable :=
  match f.lookup? name with
  | some (.defined t) => some t
  | _ => none

end ScopeFrame

/-- Frames, the innermost first. -/
abbrev ScopeStack := List ScopeFrame

namespace ScopeStack

def push (s : ScopeStack) (kind : ScopeKind) : ScopeStack := ⟨kind, [], []⟩ :: s

/-- Binds a name in the innermost frame. -/
def insert (s : ScopeStack) (name : String) (symbol : Symbol) : Except Error ScopeStack :=
  match s with
  | [] => .error .scopeMissing
  | f :: rest =>
    if f.isTaken name then .error (.nameTaken name)
    else .ok ({ f with symbols := f.symbols ++ [(name, symbol)] } :: rest)

/-- The frames from the innermost query's inward, the outermost first. -/
def visibleFrames : ScopeStack → List ScopeFrame
  | [] => []
  | f :: rest => if f.kind = .query then [f] else visibleFrames rest ++ [f]

/-- Visible groups of sources, in the order in which they were bound. -/
def visible (s : ScopeStack) : List SourceList := s.visibleFrames.flatMap ScopeFrame.sourceLists

def entries (s : ScopeStack) : SourceList := s.visible.flatten

/-- The defined table of a name, the same in either case; the innermost wins. -/
def definedTable? (s : ScopeStack) (name : String) : Option DefinedTable :=
  s.findSome? fun f => f.defined? (Text.lower name)

/-- The aggregates of the innermost query. -/
def slots : ScopeStack → Except Error (List AggregateSlot)
  | [] => .error .scopeMissing
  | f :: rest => if f.kind = .query then .ok f.slots else slots rest

/-- Adds an aggregate to the innermost query. -/
def addSlot (slot : AggregateSlot) : ScopeStack → Except Error ScopeStack
  | [] => .error .scopeMissing
  | f :: rest =>
    if f.kind = .query then .ok ({ f with slots := f.slots ++ [slot] } :: rest)
    else do return f :: (← addSlot slot rest)

/-- Takes the innermost frame off, whatever it is, and the aggregates out of it if it is a query's. -/
def popQuery : ScopeStack → Except Error (List AggregateSlot) × ScopeStack
  | [] => (.error .scopeMissing, [])
  | f :: rest =>
    (if f.kind = .query then .ok f.slots else .error (.scopeMismatch f.kind.name), rest)

end ScopeStack

end TabularQuery
