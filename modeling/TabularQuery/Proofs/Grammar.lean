import TabularQuery.Query.Parse

/-!
The grammar of queries, as relations between rows of tokens and what they stand for. It says nothing of how tokens are
read: binary operators and set operators are left-recursive rules, and there is no look-ahead in it.

The rules for statements are those that `Query.Parse` lists, with signs before the numbers among the arguments of a
schema call.
Phrases of expressions have a level; each level takes in the next tighter one.

```text
or         := and | or OR and                      sum     := product | sum ('+' | '-') product
and        := not | and AND not                    product := sign | product ('*' | '/' | '%') sign
not        := comparison | NOT not                 sign    := primary | ('-' | '+') sign
comparison := sum | sum op sum | sum [NOT] IN '(' sum (',' sum)* ')' | sum NOT LIKE sum
primary    := literal | [name '.'] name | [name '.'] name '(' [or (',' or)*] ')' | '(' or ')'
```
-/

namespace TabularQuery

open TokenReader (Level)

/-! ### Operators -/

/-- The kinds of token that an operator is written with. -/
def BinaryOp.spellings : BinaryOp → List TokenKind
  | .add => [.plus]
  | .sub => [.minus]
  | .mul => [.star]
  | .div => [.slash]
  | .mod => [.percent]
  | .eq => [.eq, .eqEq]
  | .ne => [.ne, .bangEq]
  | .lt => [.lt]
  | .le => [.le]
  | .gt => [.gt]
  | .ge => [.ge]
  | .like => [.kwLike]
  | .and => [.kwAnd]
  | .or => [.kwOr]

/-- The level of the expressions that an operator makes. -/
def BinaryOp.level : BinaryOp → Level
  | .add | .sub => .sum
  | .mul | .div | .mod => .product
  | .eq | .ne | .lt | .le | .gt | .ge | .like => .comparison
  | .and => .and
  | .or => .or

namespace TokenReader.Level

/-- The next tighter level. -/
def tighter? : Level → Option Level
  | .or => some .and
  | .and => some .not
  | .not => some .comparison
  | .comparison => some .sum
  | .sum => some .product
  | .product => some .sign
  | .sign => some .primary
  | .primary => none

/-- How many levels are looser. -/
def depth : Level → Nat
  | .or => 0
  | .and => 1
  | .not => 2
  | .comparison => 3
  | .sum => 4
  | .product => 5
  | .sign => 6
  | .primary => 7

theorem depth_le (ℓ : Level) : ℓ.depth ≤ 7 := by cases ℓ <;> decide

theorem depth_tighter {ℓ ℓ' : Level} (h : ℓ.tighter? = some ℓ') : ℓ'.depth = ℓ.depth + 1 := by
  cases ℓ <;> cases h <;> rfl

end TokenReader.Level

namespace Grammar

/-! ### Lists, options and names -/

section Lists

variable {α : Type}

/-- Phrases with commas between them. -/
inductive CommaList (P : List Token → α → Prop) : List Token → List α → Prop
  | one {w : List Token} {a : α} (phrase : P w a) : CommaList P w [a]
  | more {u w : List Token} {t : Token} {a : α} {as : List α} (phrase : P u a) (comma : t.kind = .comma)
      (rest : CommaList P w as) : CommaList P (u ++ t :: w) (a :: as)

/-- What stands between the parentheses of a call: nothing, or phrases with commas between them. -/
inductive Arguments (P : List Token → α → Prop) : List Token → List α → Prop
  | none : Arguments P [] []
  | some {w : List Token} {as : List α} (list : CommaList P w as) : Arguments P w as

/-- A phrase after a keyword, or nothing. -/
inductive Clause (kind : TokenKind) (P : List Token → α → Prop) : List Token → Option α → Prop
  | none : Clause kind P [] none
  | some {t : Token} {w : List Token} {a : α} (keyword : t.kind = kind) (phrase : P w a) :
      Clause kind P (t :: w) (some a)

end Lists

/-- One identifier. -/
inductive NamePhrase : List Token → String → Prop
  | mk {t : Token} (identifier : t.kind = .identifier) : NamePhrase [t] (TokenReader.identifierName t.text)

inductive AliasPhrase : List Token → Option String → Prop
  | none : AliasPhrase [] none
  | bare {w : List Token} {a : String} (name : NamePhrase w a) : AliasPhrase w (some a)
  | as {t : Token} {w : List Token} {a : String} (keyword : t.kind = .kwAs) (name : NamePhrase w a) :
      AliasPhrase (t :: w) (some a)

/-! ### Literals -/

/-- Digits of a number in the 64-bit range. -/
inductive CountPhrase : List Token → Int64 → Prop
  | mk {t : Token} {n : Int64} (integer : t.kind = .integer) (value : n.toInt = Decimal.natOfDigits t.text.toList) :
      CountPhrase [t] n

inductive LiteralPhrase : List Token → Value → Prop
  | integer {w : List Token} {n : Int64} (count : CountPhrase w n) : LiteralPhrase w (.integer n)
  | real {t : Token} (real : t.kind = .real) : LiteralPhrase [t] (.real (TokenReader.realOfText t.text))
  | text {t : Token} (text : t.kind = .text) : LiteralPhrase [t] (.text (TokenReader.unquoted t.text))
  | true {t : Token} (keyword : t.kind = .kwTrue) : LiteralPhrase [t] (.boolean true)
  | false {t : Token} (keyword : t.kind = .kwFalse) : LiteralPhrase [t] (.boolean false)

/-- An argument of a schema call, in which a number may have a minus sign; the range is that of the number with it. -/
inductive ArgumentPhrase : List Token → Value → Prop
  | literal {w : List Token} {v : Value} (literal : LiteralPhrase w v) : ArgumentPhrase w v
  | negInteger {m t : Token} {n : Int64} (minus : m.kind = .minus) (integer : t.kind = .integer)
      (value : n.toInt = -Decimal.natOfDigits t.text.toList) : ArgumentPhrase [m, t] (.integer n)
  | negReal {m t : Token} (minus : m.kind = .minus) (real : t.kind = .real) :
      ArgumentPhrase [m, t] (.real (TokenReader.realOfText t.text).neg)

inductive CallPhrase : List Token → SchemaCall → Prop
  | mk {hash dot lparen rparen : Token} {u v w : List Token} {schema method : String} {args : List Value}
      (isHash : hash.kind = .hash) (schemaName : NamePhrase u schema) (isDot : dot.kind = .dot)
      (methodName : NamePhrase v method) (opens : lparen.kind = .lparen) (arguments : Arguments ArgumentPhrase w args)
      (closes : rparen.kind = .rparen) :
      CallPhrase (hash :: (u ++ dot :: (v ++ lparen :: (w ++ [rparen])))) ⟨schema, method, args⟩

/-! ### Expressions -/

/-- An alias and a dot before a name, or nothing. -/
inductive QualifierPhrase : List Token → Option String → Prop
  | none : QualifierPhrase [] none
  | some {dot : Token} {w : List Token} {a : String} (name : NamePhrase w a) (isDot : dot.kind = .dot) :
      QualifierPhrase (w ++ [dot]) (some a)

/-- Expressions of a level. -/
inductive ExprPhrase : Level → List Token → Expr → Prop
  | tighter {ℓ ℓ' : Level} {w : List Token} {e : Expr} (next : ℓ.tighter? = some ℓ') (phrase : ExprPhrase ℓ' w e) :
      ExprPhrase ℓ w e
  /-- Operators of a level other than the comparisons associate to the left. -/
  | binary {ℓ ℓ' : Level} {op : BinaryOp} {t : Token} {u v : List Token} {a b : Expr} (level : op.level = ℓ)
      (several : ℓ ≠ .comparison) (next : ℓ.tighter? = some ℓ') (left : ExprPhrase ℓ u a)
      (spelled : t.kind ∈ op.spellings) (right : ExprPhrase ℓ' v b) : ExprPhrase ℓ (u ++ t :: v) (.binary op a b)
  | not {t : Token} {w : List Token} {e : Expr} (keyword : t.kind = .kwNot) (operand : ExprPhrase .not w e) :
      ExprPhrase .not (t :: w) (.unary .not e)
  | compare {op : BinaryOp} {t : Token} {u v : List Token} {a b : Expr} (level : op.level = .comparison)
      (left : ExprPhrase .sum u a) (spelled : t.kind ∈ op.spellings) (right : ExprPhrase .sum v b) :
      ExprPhrase .comparison (u ++ t :: v) (.binary op a b)
  | notLike {not like : Token} {u v : List Token} {a b : Expr} (left : ExprPhrase .sum u a) (isNot : not.kind = .kwNot)
      (isLike : like.kind = .kwLike) (right : ExprPhrase .sum v b) :
      ExprPhrase .comparison (u ++ not :: like :: v) (.unary .not (.binary .like a b))
  | inList {t lparen rparen : Token} {u v : List Token} {a : Expr} {items : List Expr} (left : ExprPhrase .sum u a)
      (isIn : t.kind = .kwIn) (opens : lparen.kind = .lparen) (list : CommaList (ExprPhrase .sum) v items)
      (closes : rparen.kind = .rparen) : ExprPhrase .comparison (u ++ t :: lparen :: (v ++ [rparen])) (.inList a items)
  | notIn {not t lparen rparen : Token} {u v : List Token} {a : Expr} {items : List Expr} (left : ExprPhrase .sum u a)
      (isNot : not.kind = .kwNot) (isIn : t.kind = .kwIn) (opens : lparen.kind = .lparen)
      (list : CommaList (ExprPhrase .sum) v items) (closes : rparen.kind = .rparen) :
      ExprPhrase .comparison (u ++ not :: t :: lparen :: (v ++ [rparen])) (.unary .not (.inList a items))
  | minus {t : Token} {w : List Token} {e : Expr} (isMinus : t.kind = .minus) (operand : ExprPhrase .sign w e) :
      ExprPhrase .sign (t :: w) (.unary .neg e)
  /-- A plus sign leaves no trace. -/
  | plus {t : Token} {w : List Token} {e : Expr} (isPlus : t.kind = .plus) (operand : ExprPhrase .sign w e) :
      ExprPhrase .sign (t :: w) e
  | literal {w : List Token} {v : Value} (literal : LiteralPhrase w v) : ExprPhrase .primary w (.literal v)
  | column {u v : List Token} {qualifier : Option String} {name : String} (before : QualifierPhrase u qualifier)
      (isName : NamePhrase v name) : ExprPhrase .primary (u ++ v) (.column qualifier name)
  | call {lparen rparen : Token} {u v w : List Token} {qualifier : Option String} {name : String} {args : List Expr}
      (before : QualifierPhrase u qualifier) (isName : NamePhrase v name) (opens : lparen.kind = .lparen)
      (arguments : Arguments (ExprPhrase .or) w args) (closes : rparen.kind = .rparen) :
      ExprPhrase .primary (u ++ (v ++ lparen :: (w ++ [rparen]))) (.call qualifier name args)
  | parens {lparen rparen : Token} {w : List Token} {e : Expr} (opens : lparen.kind = .lparen)
      (inner : ExprPhrase .or w e) (closes : rparen.kind = .rparen) :
      ExprPhrase .primary (lparen :: (w ++ [rparen])) (.parens e)

/-- Induction on the length of a phrase, and for the same length on the tightness of its level. -/
theorem ExprPhrase.length_induction
    {motive : (ℓ : Level) → (u : List Token) → (e : Expr) → ExprPhrase ℓ u e → Prop}
    (step : ∀ {ℓ : Level} {u : List Token} {e : Expr} (h : ExprPhrase ℓ u e),
      (∀ {ℓ' : Level} {u' : List Token} {e' : Expr}, u'.length < u.length → (h' : ExprPhrase ℓ' u' e') →
        motive ℓ' u' e' h') →
      (∀ {ℓ' : Level}, ℓ.tighter? = some ℓ' → (h' : ExprPhrase ℓ' u e) → motive ℓ' u e h') → motive ℓ u e h)
    {ℓ : Level} {u : List Token} {e : Expr} (h : ExprPhrase ℓ u e) : motive ℓ u e h := by
  -- Eight for each token leaves room for the levels.
  generalize hn : 8 * u.length + (7 - ℓ.depth) = n
  induction n using Nat.strongRecOn generalizing ℓ u e with
  | ind n ih =>
    refine step h (fun hlt h' => ih _ (by omega) h' rfl) fun {ℓ'} next h' => ih _ ?_ h' rfl
    have hdepth := Level.depth_tighter next
    have hle := ℓ'.depth_le
    omega

/-! ### Queries -/

inductive ItemPhrase : List Token → SelectItem → Prop
  | star {t : Token} (isStar : t.kind = .star) : ItemPhrase [t] .star
  | field {u v : List Token} {e : Expr} {a : Option String} (expr : ExprPhrase .or u e)
      (hasAlias : AliasPhrase v a) : ItemPhrase (u ++ v) (.field e a)

inductive SourcePhrase : List Token → FromSource → Prop
  | schema {u v : List Token} {call : SchemaCall} {a : Option String} (isCall : CallPhrase u call)
      (hasAlias : AliasPhrase v a) : SourcePhrase (u ++ v) (.schema call a)
  | named {u v : List Token} {name : String} {a : Option String} (isName : NamePhrase u name)
      (hasAlias : AliasPhrase v a) : SourcePhrase (u ++ v) (.named name a)

inductive JoinWords : List Token → Prop
  | join {t : Token} (isJoin : t.kind = .kwJoin) : JoinWords [t]
  | inner {t t' : Token} (isInner : t.kind = .kwInner) (isJoin : t'.kind = .kwJoin) : JoinWords [t, t']

/-- Joins associate to the left. -/
inductive FromPhrase : List Token → FromSource → Prop
  | source {w : List Token} {s : FromSource} (source : SourcePhrase w s) : FromPhrase w s
  | join {on : Token} {u words v w : List Token} {l r : FromSource} {e : Expr} (left : FromPhrase u l)
      (join : JoinWords words) (right : SourcePhrase v r) (isOn : on.kind = .kwOn) (condition : ExprPhrase .or w e) :
      FromPhrase (u ++ (words ++ (v ++ on :: w))) (.join l r e)

/-- What follows GROUP. -/
inductive GroupPhrase : List Token → GroupBy → Prop
  | mk {t : Token} {u v : List Token} {keys : List Expr} {having : Option Expr} (isBy : t.kind = .kwBy)
      (list : CommaList (ExprPhrase .or) u keys) (clause : Clause .kwHaving (ExprPhrase .or) v having) :
      GroupPhrase (t :: (u ++ v)) ⟨keys, having⟩

inductive QueryPhrase : List Token → Query → Prop
  | mk {select fromWord : Token} {f s w g k t : List Token} {fields : List SelectItem} {source : FromSource}
      {filter : Option Expr} {groupBy : Option GroupBy} {skip take : Option Int64} (isSelect : select.kind = .kwSelect)
      (items : CommaList ItemPhrase f fields) (isFrom : fromWord.kind = .kwFrom) (sources : FromPhrase s source)
      (filters : Clause .kwWhere (ExprPhrase .or) w filter) (groups : Clause .kwGroup GroupPhrase g groupBy)
      (skips : Clause .kwSkip CountPhrase k skip) (takes : Clause .kwTake CountPhrase t take) :
      QueryPhrase (select :: (f ++ fromWord :: (s ++ (w ++ (g ++ (k ++ t))))))
        ⟨fields, source, filter, groupBy, skip, take⟩

inductive OperatorWords : List Token → SetOperator → Prop
  | union {t : Token} (keyword : t.kind = .kwUnion) : OperatorWords [t] .union
  | unionAll {t t' : Token} (keyword : t.kind = .kwUnion) (isAll : t'.kind = .kwAll) : OperatorWords [t, t'] .unionAll
  | except {t : Token} (keyword : t.kind = .kwExcept) : OperatorWords [t] .except
  | intersect {t : Token} (keyword : t.kind = .kwIntersect) : OperatorWords [t] .intersect

/-- Set operators associate to the left. -/
inductive SetPhrase : List Token → SetExpr → Prop
  | query {w : List Token} {q : Query} (query : QueryPhrase w q) : SetPhrase w (.query q)
  | operation {lparen rparen : Token} {u words v w : List Token} {l : SetExpr} {op : SetOperator} {keys : List String}
      {q : Query} (left : SetPhrase u l) (operator : OperatorWords words op) (opens : lparen.kind = .lparen)
      (names : CommaList NamePhrase v keys) (closes : rparen.kind = .rparen) (right : QueryPhrase w q) :
      SetPhrase (u ++ (words ++ lparen :: (v ++ rparen :: w))) (.operation op keys l (.query q))

inductive TablePhrase : List Token → NamedTable → Prop
  | mk {as lparen rparen : Token} {u w : List Token} {name : String} {body : SetExpr} (isName : NamePhrase u name)
      (isAs : as.kind = .kwAs) (opens : lparen.kind = .lparen) (set : SetPhrase w body)
      (closes : rparen.kind = .rparen) :
      TablePhrase (u ++ as :: lparen :: (w ++ [rparen])) ⟨name, body⟩

/-! ### Statements -/

inductive StatementPhrase : List Token → Statement → Prop
  | describe {t : Token} {w : List Token} {call : SchemaCall} (keyword : t.kind = .kwDesc)
      (isCall : CallPhrase w call) : StatementPhrase (t :: w) (.describe call)
  | query {u w : List Token} {tables : Option (List NamedTable)} {body : SetExpr}
      (defined : Clause .kwWith (CommaList TablePhrase) u tables) (set : SetPhrase w body) :
      StatementPhrase (u ++ w) (.query (tables.getD []) body)

def Semicolons (w : List Token) : Prop := ∀ t ∈ w, t.kind = .semicolon

/-- Statements with one semicolon or more between them, and any number after the last. -/
inductive StatementsPhrase : List Token → List Statement → Prop
  | last {u v : List Token} {x : Statement} (statement : StatementPhrase u x) (trailing : Semicolons v) :
      StatementsPhrase (u ++ v) [x]
  | more {u v w : List Token} {x : Statement} {xs : List Statement} (statement : StatementPhrase u x)
      (separators : Semicolons v) (separated : v ≠ []) (rest : StatementsPhrase w xs) :
      StatementsPhrase (u ++ (v ++ w)) (x :: xs)

/-- A whole input: at least one statement, and any number of semicolons before the first. -/
inductive RootPhrase : List Token → List Statement → Prop
  | mk {u w : List Token} {xs : List Statement} (leading : Semicolons u) (statements : StatementsPhrase w xs) :
      RootPhrase (u ++ w) xs

end Grammar

end TabularQuery
