import TabularQuery.Source.Row

/-!
Row sources. An opened source is a finite list of events, read once from the front. Besides rows and
failures there are two events that concern the run's stop flag: a source may raise the flag, and
it may look at it, ending with a failure when it is up.
-/

namespace TabularQuery

/-- What a row source does next. -/
inductive FeedEvent where
  | row (row : SourceRow)
  /-- A failure; reading can go on after it. -/
  | failure (error : Error)
  /-- Raises the stop flag. -/
  | cancel
  /-- Ends the source with a failure if the stop flag is up. -/
  | checkpoint

abbrev RowSource := List FeedEvent

/-- What one pull on a source brings. -/
structure Pull where
  /-- A row or a failure, or nothing at the end. -/
  item : Option (Except Error SourceRow)
  rest : RowSource
  cancelled : Bool

/-- Reads a source up to its next row, failure or end. -/
def RowSource.pull (cancelled : Bool) : RowSource → Pull
  | [] => ⟨none, [], cancelled⟩
  | .row r :: rest => ⟨some (.ok r), rest, cancelled⟩
  | .failure e :: rest => ⟨some (.error e), rest, cancelled⟩
  | .cancel :: rest => pull true rest
  | .checkpoint :: rest =>
    if cancelled then ⟨some (.error .cancelled), [], true⟩ else pull cancelled rest

end TabularQuery
