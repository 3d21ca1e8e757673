import TabularQuery.Source.Feed

/-!
Readers that work ahead. A reader produces rows one by one and hands them over in chunks of a fixed
size; a consumer takes chunks in the same order and looks at the stop flag before each. A
reader that comes to its end hands over the rows it still holds; one that fails hands over the
failure alone, and the rows of its unfinished chunk are lost.
-/

namespace TabularQuery

/-- What a reader would produce: rows, and a failure after them or none. -/
structure Production where
  rows : List (List Value)
  failure : Option Error

namespace Production

def nil : Production := ⟨[], none⟩

def fail (e : Error) : Production := ⟨[], some e⟩

def cons (row : List Value) (p : Production) : Production := { p with rows := row :: p.rows }

end Production

namespace Reader

/-- What goes from a reader to its consumer. -/
inductive Message where
  | chunk (rows : List (List Value))
  | failure (error : Error)

/-- The reader's side: rows of an unfinished chunk, and the size at which it is finished. -/
structure Sink where
  size : Nat
  pending : List (List Value)

/-- Hands over the unfinished chunk, if it has rows. -/
def Sink.flush (sink : Sink) : Sink × List Message :=
  if sink.pending.isEmpty then (sink, []) else ({ sink with pending := [] }, [.chunk sink.pending])

/-- Takes a row, and hands the chunk over when it is full. -/
def Sink.push (sink : Sink) (row : List Value) : Sink × List Message :=
  let fuller := { sink with pending := sink.pending ++ [row] }
  if sink.size ≤ fuller.pending.length then fuller.flush else (fuller, [])

/-- What a reader that is not stopped hands over from here on. -/
def Sink.messages (sink : Sink) (failure : Option Error) : List (List Value) → List Message
  | row :: rows =>
    let (after, sent) := sink.push row
    sent ++ after.messages failure rows
  | [] => match failure with
    | some e => [.failure e]
    | none => sink.flush.2

/-- All that a reader hands over; chunks have at least one row. -/
def messages (chunkSize : Nat) (p : Production) : List Message :=
  Sink.messages ⟨Nat.max chunkSize 1, []⟩ p.failure p.rows

/-- What a consumer does with a message: a look at the stop flag, then its rows or its failure. -/
def received (names : List String) : Message → List FeedEvent
  | .chunk rows => .checkpoint :: rows.map fun row => .row (.positional names row)
  | .failure e => [.checkpoint, .failure e]

/-- After a failure the consumer is done; otherwise it looks at the flag once more before the end. -/
def closing (p : Production) : List FeedEvent := if p.failure.isSome then [] else [.checkpoint]

/-- A reader's rows as its consumer delivers them. -/
def source (names : List String) (chunkSize : Nat) (p : Production) : RowSource :=
  (messages chunkSize p).flatMap (received names) ++ closing p

end Reader

end TabularQuery
