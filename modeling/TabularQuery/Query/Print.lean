import TabularQuery.Query.Tree
import TabularQuery.Text.Quoted

/-!
The text of expressions: one space around binary operators, none after a minus sign. It is the
default name of a field, and messages show it.
-/

namespace TabularQuery

/-- A literal as a query has it. -/
def Value.literalText : Value → String
  | .real x => Decimal.compact x
  | .text s => Text.quoted s
  | v => v.render

namespace Expr

/-- A name, with the alias before it if there is one. -/
def qualified (aliasName : Option String) (name : String) : String :=
  match aliasName with
  | some a => a ++ "." ++ name
  | none => name

mutual

def text : Expr → String
  | .literal v => v.literalText
  | .column aliasName name => qualified aliasName name
  | .call aliasName name args => qualified aliasName name ++ "(" ++ ", ".intercalate (texts args) ++ ")"
  | .binary op left right => left.text ++ " " ++ op.symbol ++ " " ++ right.text
  | .unary .neg e => "-" ++ e.text
  | .unary .not e => "not " ++ e.text
  | .inList e items => e.text ++ " in (" ++ ", ".intercalate (texts items) ++ ")"
  | .parens e => "(" ++ e.text ++ ")"

def texts : List Expr → List String
  | [] => []
  | e :: es => e.text :: texts es

end

end Expr

/-- A schema call as a query has it. -/
def SchemaCall.text (c : SchemaCall) : String :=
  "#" ++ c.schema ++ "." ++ c.method ++ "(" ++ ", ".intercalate (c.args.map Value.literalText) ++ ")"

end TabularQuery
