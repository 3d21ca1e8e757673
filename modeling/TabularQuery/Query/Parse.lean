import TabularQuery.Query.TokenReader
import TabularQuery.Query.Tree
import TabularQuery.Text.Quoted

/-!
Reading queries off tokens.

```text
root       := ';'* (statement ';'+)* [statement]        with at least one statement
statement  := DESC schemaCall | [WITH table (',' table)*] setExpr
table      := name AS '(' setExpr ')'
setExpr    := query (operator '(' name (',' name)* ')' query)*
operator   := UNION [ALL] | EXCEPT | INTERSECT
query      := SELECT item (',' item)* FROM from [WHERE expr]
              [GROUP BY expr (',' expr)* [HAVING expr]] [SKIP integer] [TAKE integer]
item       := '*' | expr [alias]
alias      := [AS] name
from       := source ([INNER] JOIN source ON expr)*
source     := schemaCall [alias] | name [alias]
schemaCall := '#' name '.' name '(' [literal (',' literal)*] ')'
```

Expressions bind, from the loosest to the tightest: `or`, `and`, `not`, at most one comparison
(also `like` and `in`, with or without `not`), sums, products, signs. The items of an `in` list are
sums.
-/

namespace TabularQuery

namespace TokenReader

/-- The name that an identifier stands for; brackets are not part of it. -/
def identifierName (text : String) : String :=
  match text.toList with
  | '[' :: rest => String.ofList rest.dropLast
  | _ => text

def name : TokenReader String := do
  if (← kind) = .identifier then identifierName <$> takeText else fail .identifier

/-- The text between the quotes of a token, with doubled quotes made single. -/
def unquoted (text : String) : String :=
  String.ofList (Text.singleQuotes (text.toList.drop 1).dropLast)

/-- The real number that a token's digits and point stand for. -/
def realOfText (text : String) : Binary64 :=
  let whole := text.toList.takeWhile (· ≠ '.')
  let fraction := (text.toList.dropWhile (· ≠ '.')).drop 1
  .ofDecimal (Decimal.natOfDigits (whole ++ fraction)) fraction.length

def integer (negative : Bool) : TokenReader Int64 := do
  let digits := Decimal.natOfDigits (← get).current.text.toList
  match Decimal.int64? (if negative then -(digits : Int) else digits) with
  | some n =>
    advance
    return n
  | none => fail .integerInRange

/-- A literal; only a number may have a sign. -/
def literal : TokenReader Value := do
  let negative ← accept .minus
  match ← kind with
  | .integer => Value.integer <$> integer negative
  | .real =>
    let x := realOfText (← takeText)
    return .real (if negative then x.neg else x)
  | k =>
    if negative then fail .literal
    else match k with
      | .text => (Value.text ∘ unquoted) <$> takeText
      | .kwTrue => (fun _ => Value.boolean true) <$> takeText
      | .kwFalse => (fun _ => Value.boolean false) <$> takeText
      | _ => fail .literal

def alias? : TokenReader (Option String) := do
  if ← accept .kwAs then some <$> name
  else if (← kind) = .identifier then some <$> name
  else return none

def schemaCall : TokenReader SchemaCall := do
  expect .hash
  let schema ← name
  expect .dot
  let method ← name
  expect .lparen
  let args ← if (← kind) = .rparen then pure [] else commaList literal
  expect .rparen
  return ⟨schema, method, args⟩

/-! ### Expressions -/

/-- Levels of expressions, from the loosest to the tightest. -/
inductive Level where
  | or | and | not | comparison | sum | product | sign | primary
  deriving DecidableEq, Repr

def orOp? : TokenKind → Option BinaryOp
  | .kwOr => some .or
  | _ => none

def andOp? : TokenKind → Option BinaryOp
  | .kwAnd => some .and
  | _ => none

def sumOp? : TokenKind → Option BinaryOp
  | .plus => some .add
  | .minus => some .sub
  | _ => none

def productOp? : TokenKind → Option BinaryOp
  | .star => some .mul
  | .slash => some .div
  | .percent => some .mod
  | _ => none

def comparisonOp? : TokenKind → Option BinaryOp
  | .eq | .eqEq => some .eq
  | .ne | .bangEq => some .ne
  | .lt => some .lt
  | .le => some .le
  | .gt => some .gt
  | .ge => some .ge
  | .kwLike => some .like
  | _ => none

/-- Further operands of a left-associative operator; `n` bounds their number. -/
def moreOperands (op? : TokenKind → Option BinaryOp) (operand : TokenReader Expr) :
    (n : Nat) → Expr → TokenReader Expr
  | 0, left => return left
  | n + 1, left => do
    match op? (← kind) with
    | some op =>
      advance
      let right ← operand
      moreOperands op? operand n (.binary op left right)
    | none => return left

/-- Operands with left-associative operators between them. -/
def leftAssoc (op? : TokenKind → Option BinaryOp) (operand : TokenReader Expr) :
    TokenReader Expr := do
  let left ← operand
  moreOperands op? operand (← get).fuel left

/-- The list of `left in (…)`. -/
def inItems (sum : TokenReader Expr) (left : Expr) : TokenReader Expr := do
  expect .lparen
  let items ← commaList sum
  expect .rparen
  return .inList left items

/-- A sum, and at most one comparison with another. -/
def comparison (sum : TokenReader Expr) : TokenReader Expr := do
  let left ← sum
  match comparisonOp? (← kind), ← kind, ← nextKind with
  | some op, _, _ =>
    advance
    let right ← sum
    return .binary op left right
  | none, .kwIn, _ =>
    advance
    inItems sum left
  | none, .kwNot, .kwIn =>
    advance
    advance
    return .unary .not (← inItems sum left)
  | none, .kwNot, .kwLike =>
    advance
    advance
    let right ← sum
    return .unary .not (.binary .like left right)
  | none, _, _ => return left

def callArgs (expr : TokenReader Expr) : TokenReader (List Expr) := do
  expect .lparen
  let args ← if (← kind) = .rparen then pure [] else commaList expr
  expect .rparen
  return args

/-- A column or a call. -/
def reference (expr : TokenReader Expr) (aliasName : Option String) (name : String) :
    TokenReader Expr := do
  if (← kind) = .lparen then .call aliasName name <$> callArgs expr else return .column aliasName name

def primary (expr : TokenReader Expr) : TokenReader Expr := do
  match ← kind with
  | .integer | .real | .text | .kwTrue | .kwFalse => .literal <$> literal
  | .lparen =>
    advance
    let inner ← expr
    expect .rparen
    return .parens inner
  | .identifier =>
    let first ← name
    if (← kind) = .dot then
      advance
      reference expr (some first) (← name)
    else reference expr none first
  | _ => fail .expression

/-- An expression of a level; `n` bounds the depth of the descent. -/
def exprAt : (n : Nat) → Level → TokenReader Expr
  | 0, _ => fail .expression
  | n + 1, .or => leftAssoc orOp? (exprAt n .and)
  | n + 1, .and => leftAssoc andOp? (exprAt n .not)
  | n + 1, .not => do
    if ← accept .kwNot then .unary .not <$> exprAt n .not else exprAt n .comparison
  | n + 1, .comparison => comparison (exprAt n .sum)
  | n + 1, .sum => leftAssoc sumOp? (exprAt n .product)
  | n + 1, .product => leftAssoc productOp? (exprAt n .sign)
  | n + 1, .sign => do
    if ← accept .minus then .unary .neg <$> exprAt n .sign
    else if ← accept .plus then exprAt n .sign
    else exprAt n .primary
  | n + 1, .primary => primary (exprAt n .or)

/-- An expression. A descent through all eight levels passes a token. -/
def expr : TokenReader Expr := do exprAt (8 * (← get).fuel) .or

/-! ### Queries -/

def selectItem : TokenReader SelectItem := do
  if ← accept .star then return .star
  let e ← expr
  return .field e (← alias?)

def fromSource : TokenReader FromSource := do
  if (← kind) = .hash then
    let call ← schemaCall
    return .schema call (← alias?)
  else
    let table ← name
    return .named table (← alias?)

/-- Is there a JOIN? If so it is passed. -/
def acceptJoin : TokenReader Bool := do
  if ← accept .kwInner then
    expect .kwJoin
    return true
  else accept .kwJoin

/-- Further sources of a FROM clause; `n` bounds their number. -/
def moreJoins : (n : Nat) → FromSource → TokenReader FromSource
  | 0, left => return left
  | n + 1, left => do
    if ← acceptJoin then
      let right ← fromSource
      expect .kwOn
      let on ← expr
      moreJoins n (.join left right on)
    else return left

def fromClause : TokenReader FromSource := do
  let first ← fromSource
  moreJoins (← get).fuel first

def groupBy : TokenReader GroupBy := do
  expect .kwBy
  let keys ← commaList expr
  return ⟨keys, ← after? .kwHaving expr⟩

def rowCount : TokenReader Int64 := do
  if (← kind) = .integer then integer false else fail .rowCount

def query : TokenReader Query := do
  expect .kwSelect
  let fields ← commaList selectItem
  expect .kwFrom
  let source ← fromClause
  let filter ← after? .kwWhere expr
  let grouping ← after? .kwGroup groupBy
  let skip ← after? .kwSkip rowCount
  let take ← after? .kwTake rowCount
  return ⟨fields, source, filter, grouping, skip, take⟩

/-- A set operator, if there is one. -/
def setOperator? : TokenReader (Option SetOperator) := do
  if ← accept .kwUnion then
    return some (if ← accept .kwAll then .unionAll else .union)
  else if ← accept .kwExcept then return some .except
  else if ← accept .kwIntersect then return some .intersect
  else return none

/-- Further operands of set operators; `n` bounds their number. -/
def moreSets : (n : Nat) → SetExpr → TokenReader SetExpr
  | 0, left => return left
  | n + 1, left => do
    match ← setOperator? with
    | some op =>
      expect .lparen
      let keys ← commaList name
      expect .rparen
      let right ← query
      moreSets n (.operation op keys left (.query right))
    | none => return left

def setExpr : TokenReader SetExpr := do
  let first ← query
  moreSets (← get).fuel (.query first)

def namedTable : TokenReader NamedTable := do
  let table ← name
  expect .kwAs
  expect .lparen
  let body ← setExpr
  expect .rparen
  return ⟨table, body⟩

def statement : TokenReader Statement := do
  if ← accept .kwDesc then
    if (← kind) = .hash then .describe <$> schemaCall else fail .describedSource
  else
    let tables ← after? .kwWith (commaList namedTable)
    return .query (tables.getD []) (← setExpr)

/-- Passes semicolons; `n` bounds their number. -/
def skipSemicolons : (n : Nat) → TokenReader Unit
  | 0 => return ()
  | n + 1 => do if ← accept .semicolon then skipSemicolons n

/-- Statements up to the end of the input; `n` bounds their number. -/
def statements : (n : Nat) → TokenReader (List Statement)
  | 0 => return []
  | n + 1 => do
    skipSemicolons (← get).fuel
    if (← kind) = .eof then return []
    let first ← statement
    if (← kind) ≠ .eof && (← kind) ≠ .semicolon then fail .separator
    let rest ← statements n
    return first :: rest

def root : TokenReader (List Statement) := do
  let all ← statements (← get).fuel
  if all.isEmpty then fail .statement else return all

end TokenReader

/-- Reads the statements of a list of tokens that ends with the end of the input. -/
def parseTokens (tokens : List Token) : Except Error (List Statement) :=
  match TokenStream.ofTokens? tokens with
  | none => .error (.tokenUnexpected .statement ⟨1, 1⟩ none)
  | some stream => match TokenReader.root stream with
    | .ok statements _ => .ok statements
    | .error e _ => .error e

/-- Reads the statements of a query text. -/
def parse (source : String) : Except Error (List Statement) := do
  parseTokens (← tokenize source)

end TabularQuery
