import TabularQuery.Decimal.Numeral
import TabularQuery.Text.Blank

/-!
Settings of a run: an instruction budget, where zero means none, and the sizes that file
readers work with, which are at least one.
-/

namespace TabularQuery

structure Config where
  maxInstructions : Nat
  chunkSize : Nat
  queueDepth : Nat
  deriving DecidableEq, Repr

namespace Config

def default : Config := ⟨0, 1000, 8⟩

instance : Inhabited Config := ⟨default⟩

def withMaxInstructions (c : Config) (n : Nat) : Config := { c with maxInstructions := n }
def withChunkSize (c : Config) (n : Nat) : Config := { c with chunkSize := Nat.max n 1 }
def withQueueDepth (c : Config) (n : Nat) : Config := { c with queueDepth := Nat.max n 1 }

/-- A setting from the text of a variable; a text that is no number counts as absent. -/
def setting (fallback : Nat) (text : Option String) : Nat :=
  (text.bind fun s => Decimal.readUInt64? (Text.trimChars s.toList)).getD fallback

/-- The defaults, overridden by the variables `STEM_MAX_INSTRUCTIONS`, `STEM_CHUNK_SIZE` and
`STEM_QUEUE_DEPTH` of an environment. -/
def ofEnvironment (stem : String) (lookup : String → Option String) : Config :=
  let read (name : String) (fallback : Nat) := setting fallback (lookup (stem ++ "_" ++ name))
  ((default.withMaxInstructions (read "MAX_INSTRUCTIONS" default.maxInstructions)).withChunkSize
    (read "CHUNK_SIZE" default.chunkSize)).withQueueDepth (read "QUEUE_DEPTH" default.queueDepth)

end Config

end TabularQuery
