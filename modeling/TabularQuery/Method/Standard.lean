import TabularQuery.Method.Catalog

/-!
The standard library: the methods that every bundled source offers.
-/

namespace TabularQuery.Catalog

/-- Scalar methods and properties, with their signatures. -/
def standardMethods : List Method :=
  [⟨"ToUpper", [.text], .text, .scalar Scalar.toUpper⟩,
   ⟨"ToLower", [.text], .text, .scalar Scalar.toLower⟩,
   ⟨"Length", [.text], .integer, .scalar Scalar.length⟩,
   ⟨"Trim", [.text], .text, .scalar Scalar.trim⟩,
   ⟨"Substring", [.text, .integer, .integer], .text, .scalar Scalar.substring⟩,
   ⟨"Concat", [.text, .text], .text, .scalar Scalar.concat⟩,
   ⟨"Contains", [.text, .text], .boolean, .scalar Scalar.contains⟩,
   ⟨"Abs", [.integer], .integer, .scalar Scalar.abs⟩,
   ⟨"Abs", [.real], .real, .scalar Scalar.abs⟩,
   ⟨"Round", [.real, .integer], .real, .scalar Scalar.round⟩,
   ⟨"ToString", [.integer], .text, .scalar Scalar.toText⟩,
   ⟨"ToString", [.real], .text, .scalar Scalar.toText⟩,
   ⟨"ToString", [.boolean], .text, .scalar Scalar.toText⟩,
   ⟨"ToInt", [.text], .integer, .scalar Scalar.toInteger⟩,
   ⟨"ToReal", [.integer], .real, .scalar Scalar.toReal⟩,
   ⟨"Pi", [], .real, .property Scalar.pi⟩,
   ⟨"Count", [], .integer, .aggregate "SetCount"⟩,
   ⟨"Sum", [], .real, .aggregate "SetSum"⟩,
   ⟨"Avg", [], .real, .aggregate "SetAvg"⟩,
   ⟨"Min", [], .real, .aggregate "SetMin"⟩,
   ⟨"Max", [], .real, .aggregate "SetMax"⟩,
   ⟨"AggregateValues", [], .text, .aggregate "SetAggregateValues"⟩]

/-- Counting and listing take a value of any type, the others a number. -/
def standardAccumulators : List AccumulatorMethod :=
  ([ColumnType.integer, .real, .text, .boolean].flatMap fun ty =>
    [⟨"SetCount", [ty], .count⟩, ⟨"SetAggregateValues", [ty], .values⟩]) ++
  [⟨"SetSum", [.real], .sum⟩, ⟨"SetAvg", [.real], .average⟩, ⟨"SetMin", [.real], .minimum⟩,
   ⟨"SetMax", [.real], .maximum⟩]

def standard : Catalog := ⟨standardMethods, standardAccumulators⟩

end TabularQuery.Catalog
