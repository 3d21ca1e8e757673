import TabularQuery.Proofs.PhraseReading

/-!
Phrases are accepted: before a token that cannot go on with it, a reader passes exactly the phrase and gives what it
stands for. What can come after an expression of a level, and what one can start with, is finite and known; the loops of
the readers go round for as long as the phrase goes on, and their bounds are above its length.
-/

namespace TabularQuery

namespace TokenReader

open Grammar

/-- Before tokens of the kinds, the reader accepts phrases of at most `m` tokens. -/
def Accepts {α : Type} (p : TokenReader α) (P : List Token → α → Prop) (follow : List TokenKind) (m : Nat) : Prop :=
  ∀ u a v, u.length ≤ m → P u a → headKind v ∈ follow → Gives p a u v

/-! ### Lists, options and names -/

section Lists

variable {α β : Type} {p : TokenReader α} {P : List Token → α → Prop} {follow : List TokenKind} {u v w : List Token}

theorem gives_noItems (n : Nat) (hv : headKind v ≠ .comma) : Gives (moreItems p n) [] [] v := by
  cases n with
  | zero => exact .refl
  | succ n => exact .refuse (u := []) hv .refl

theorem gives_moreItems {as : List α} {t : Token} {n : Nat} (hp : Accepts p P follow w.length)
    (hlist : CommaList P w as) (ht : t.kind = .comma) (hn : w.length < n) (hcomma : .comma ∈ follow)
    (hv : headKind v ∈ follow) (hend : headKind v ≠ .comma) : Gives (moreItems p n) as (t :: w) v := by
  induction hlist generalizing t n with
  | one phrase =>
    cases n with
    | zero => cases hn
    | succ n => exact .accept ht ((hp _ _ v (Nat.le_refl _) phrase hv).last ((gives_noItems n hend).last .refl))
  | @more u w t' a as phrase comma rest ih =>
    cases n with
    | zero => cases hn
    | succ n =>
      simp only [List.length_append, List.length_cons] at hp hn
      have hitem : Gives p a u (t' :: w ++ v) := hp u a _ (by omega) phrase (by simpa [comma] using hcomma)
      have hrest : Gives (moreItems p n) as (t' :: w) v := ih (fun x b y hx => hp x b y (by omega)) comma (by omega)
      exact .accept ht (hitem.bind (hrest.last .refl))

theorem gives_commaList {as : List α} (hp : Accepts p P follow w.length) (hlist : CommaList P w as)
    (hcomma : .comma ∈ follow) (hv : headKind v ∈ follow) (hend : headKind v ≠ .comma) :
    Gives (commaList p) as w v := by
  cases hlist with
  | one phrase =>
    refine (hp _ _ v (Nat.le_refl _) phrase hv).last (.get fun s _ => ?_)
    exact (gives_noItems _ hend).last .refl
  | @more u w t a as phrase comma rest =>
    simp only [List.length_append, List.length_cons] at hp
    have hitem : Gives p a u (t :: w ++ v) := hp u a _ (by omega) phrase (by simpa [comma] using hcomma)
    refine hitem.bind (.get fun s hs => ?_)
    simp only [List.cons_append, List.length_cons, List.length_append] at hs
    have hrest : Gives (moreItems p s.fuel) as (t :: w) v :=
      gives_moreItems (fun x b y hx => hp x b y (by omega)) rest comma (by omega) hcomma hv hend
    exact hrest.last .refl

theorem headKind_commaList {as : List α} {first : List TokenKind} (hfirst : ∀ u a, P u a → headKind u ∈ first)
    (heof : .eof ∉ first) (hlist : CommaList P w as) : headKind w ∈ first := by
  cases hlist with
  | one phrase => exact hfirst _ _ phrase
  | more phrase comma rest => exact headKind_append (hfirst _ _ phrase) heof _

theorem gives_arguments {as : List α} {rparen : Token} {f : List α → TokenReader β} {b : β} {first : List TokenKind}
    (hp : Accepts p P follow w.length) (hfirst : ∀ u a, P u a → headKind u ∈ first)
    (hother : .eof ∉ first ∧ .rparen ∉ first) (harguments : Arguments P w as) (hcomma : .comma ∈ follow)
    (hrparen : .rparen ∈ follow) (closes : rparen.kind = .rparen) (hf : Gives (f as) b [rparen] v) :
    Gives (do if (← kind) = .rparen then pure [] >>= f else commaList p >>= f) b (w ++ [rparen]) v := by
  refine .kind ?_
  cases harguments with
  | none =>
    simp only [List.nil_append, List.cons_append, headKind_cons, closes, if_true]
    exact hf
  | some list =>
    have hhead : headKind (w ++ [rparen] ++ v) ≠ .rparen := by
      intro h
      have hmem := headKind_append (headKind_commaList hfirst hother.1 list) hother.1 ([rparen] ++ v)
      rw [← List.append_assoc, h] at hmem
      exact hother.2 hmem
    rw [if_neg hhead]
    refine (gives_commaList hp list hcomma ?_ ?_).bind hf
    · simpa [closes] using hrparen
    · simp [closes]

theorem gives_after? {k : TokenKind} {o : Option α} (hp : Accepts p P follow w.length) (h : Clause k P w o)
    (hv : headKind v ∈ follow) (hend : headKind v ≠ k) : Gives (after? k p) o w v := by
  cases h with
  | none => exact .refuse (u := []) hend .refl
  | some keyword phrase => exact .accept keyword (.map (hp _ _ v (by simp) phrase hv))

end Lists

section Names

variable {u v : List Token}

theorem gives_name {a : String} (h : NamePhrase u a) : Gives name a u v := by
  cases h with
  | mk identifier =>
    refine .kind ?_
    simp only [List.cons_append, headKind_cons, identifier, if_true]
    exact .map .takeText

theorem headKind_name {a : String} (h : NamePhrase u a) : headKind u ∈ [.identifier] := by
  cases h with
  | mk identifier => simp [identifier]

theorem gives_alias? {a : Option String} (h : AliasPhrase u a) (hv : headKind v ∉ [.kwAs, .identifier]) :
    Gives alias? a u v := by
  simp only [List.mem_cons, List.not_mem_nil, or_false, not_or] at hv
  cases h with
  | none =>
    refine .refuse (u := []) hv.1 (.kind (u := []) ?_)
    rw [List.nil_append, if_neg hv.2]
    exact .refl
  | bare name =>
    have hhead := headKind_append (headKind_name name) (by decide) v
    simp only [List.mem_singleton] at hhead
    refine .refuse (by simp [hhead]) (.kind ?_)
    rw [if_pos hhead]
    exact .map (gives_name name)
  | as keyword name => exact .accept keyword (.map (gives_name name))

theorem headKind_alias {a : Option String} (h : AliasPhrase u a) :
    headKind (u ++ v) ∈ [.kwAs, .identifier] ∨ headKind (u ++ v) = headKind v := by
  cases h with
  | none => exact .inr rfl
  | bare name =>
    have hhead := headKind_append (headKind_name name) (by decide) v
    simp only [List.mem_singleton] at hhead
    simp [hhead]
  | as keyword name => simp [keyword]

/-! ### Literals -/

theorem gives_integer {t : Token} {n : Int64} {negative : Bool} (h : n.toInt = signedValue negative t) :
    Gives (integer negative) n [t] v := by
  intro stop after _
  rw [List.singleton_append, integer_showing, Decimal.int64?_eq_some_iff.mpr h]
  rfl

theorem gives_literal {a : Value} (h : LiteralPhrase u a) : Gives literal a u v := by
  cases h with
  | integer count =>
    obtain @⟨t, n, integer, value⟩ := count
    refine .refuse (by simp [integer]) (.kind ?_)
    simp only [List.cons_append, headKind_cons, integer]
    exact .map (gives_integer value)
  | real real =>
    refine .refuse (by simp [real]) (.kind ?_)
    simp only [List.cons_append, headKind_cons, real]
    exact Gives.takeText.last .refl
  | text text =>
    refine .refuse (by simp [text]) (.kind ?_)
    simp only [List.cons_append, headKind_cons, text]
    exact .map .takeText
  | true keyword | false keyword =>
    refine .refuse (by simp [keyword]) (.kind ?_)
    simp only [List.cons_append, headKind_cons, keyword]
    exact .map .takeText

theorem gives_argument {a : Value} (h : ArgumentPhrase u a) : Gives literal a u v := by
  cases h with
  | literal h => exact gives_literal h
  | negInteger minus integer value =>
    refine .accept minus (.kind ?_)
    simp only [List.cons_append, headKind_cons, integer]
    exact .map (gives_integer value)
  | negReal minus real =>
    refine .accept minus (.kind ?_)
    simp only [List.cons_append, headKind_cons, real]
    exact Gives.takeText.last .refl

/-- What a literal can start with. -/
def literalFirst : List TokenKind := [.integer, .real, .text, .kwTrue, .kwFalse]

theorem headKind_literal {a : Value} (h : LiteralPhrase u a) : headKind u ∈ literalFirst := by
  cases h with
  | integer count =>
    obtain @⟨t, n, integer, value⟩ := count
    simp [integer, literalFirst]
  | real h | text h | true h | false h => simp [h, literalFirst]

theorem headKind_argument {a : Value} (h : ArgumentPhrase u a) : headKind u ∈ .minus :: literalFirst := by
  cases h with
  | literal h => exact List.mem_cons_of_mem _ (headKind_literal h)
  | negInteger minus | negReal minus => simp [minus]

theorem gives_schemaCall {call : SchemaCall} (h : CallPhrase u call) : Gives schemaCall call u v := by
  obtain @⟨hash, dot, lparen, rparen, u, v', w, schema, method, args, isHash, schemaName, isDot, methodName, opens,
    arguments, closes⟩ := h
  have hargument : Accepts literal ArgumentPhrase [.comma, .rparen] w.length := fun u a v _ h _ => gives_argument h
  refine .expect isHash ((gives_name schemaName).bind (.expect isDot ((gives_name methodName).bind (.expect opens ?_))))
  exact gives_arguments hargument (fun u a => headKind_argument) (by decide) arguments (by simp) (by simp) closes
    (.expect closes .refl)

theorem headKind_schemaCall {call : SchemaCall} (h : CallPhrase u call) : headKind u = .hash := by
  cases h with
  | mk isHash => exact isHash

end Names

/-! ### Levels of expressions -/

namespace Level

/-- What an expression of a level can start with. -/
def first : Level → List TokenKind
  | .primary => .identifier :: .lparen :: literalFirst
  | .comparison | .sum | .product | .sign => .minus :: .plus :: .identifier :: .lparen :: literalFirst
  | .or | .and | .not => .kwNot :: .minus :: .plus :: .identifier :: .lparen :: literalFirst

/-- What can come after a whole expression. -/
def followWhole : List TokenKind :=
  [.rparen, .comma, .kwAs, .identifier, .kwFrom, .kwJoin, .kwInner, .kwWhere, .kwGroup, .kwHaving, .kwSkip, .kwTake,
   .kwUnion, .kwExcept, .kwIntersect, .semicolon, .eof]

/-- What can come after an operand of AND. -/
def followOperand : List TokenKind := .kwAnd :: .kwOr :: followWhole

/-- What can come after an operand of a comparison. -/
def followSum : List TokenKind :=
  ([.eq, .eqEq, .ne, .bangEq, .lt, .le, .gt, .ge, .kwLike, .kwIn, .kwNot] : List TokenKind) ++ followOperand

/-- What can come after an expression of a level. -/
def follow : Level → List TokenKind
  | .or => followWhole
  | .and => .kwOr :: followWhole
  | .not | .comparison => followOperand
  | .sum => followSum
  | .product => .plus :: .minus :: followSum
  | .sign | .primary => .star :: .slash :: .percent :: .plus :: .minus :: followSum

end Level

theorem first_of_tighter {ℓ ℓ' : Level} (h : ℓ.tighter? = some ℓ') {k : TokenKind} (hk : k ∈ ℓ'.first) :
    k ∈ ℓ.first := by
  cases ℓ <;> cases h <;> revert k <;> decide

theorem eof_notMem_first (ℓ : Level) : .eof ∉ ℓ.first := by
  cases ℓ <;> decide

section Expressions

variable {ℓ ℓ' : Level} {u v : List Token} {e : Expr}

theorem headKind_reference {qualifier : Option String} {name : String} {w : List Token}
    (before : QualifierPhrase u qualifier) (isName : NamePhrase v name) : headKind (u ++ (v ++ w)) = .identifier := by
  cases before with
  | none => simpa using headKind_append (headKind_name isName) (by decide) w
  | some name => simpa using headKind_append (headKind_name name) (by decide) _

theorem headKind_expr {ℓ : Level} {u : List Token} {e : Expr} : ExprPhrase ℓ u e → headKind u ∈ ℓ.first
  | .tighter next phrase => first_of_tighter next (headKind_expr phrase)
  | .binary _ _ _ left _ _ => headKind_append (headKind_expr left) (eof_notMem_first _) _
  | .not keyword _ => by simp [keyword, Level.first]
  | .compare _ left _ _ | .notLike left _ _ _ | .inList left _ _ _ _ | .notIn left _ _ _ _ _ =>
    headKind_append (headKind_expr left) (eof_notMem_first _) _
  | .minus isMinus _ => by simp [isMinus, Level.first]
  | .plus isPlus _ => by simp [isPlus, Level.first]
  | .literal literal => by
    have hmem := headKind_literal literal
    simp [Level.first, hmem]
  | .column before isName => by
    have hhead := headKind_reference (w := []) before isName
    rw [List.append_nil] at hhead
    simp [hhead, Level.first]
  | .call before isName _ _ _ => by simp [headKind_reference before isName, Level.first]
  | .parens opens _ _ => by simp [opens, Level.first]

theorem leftAssoc_of_phrase {ℓ ℓ' : Level} {u : List Token} {e : Expr} (hℓ : ℓ ∈ [.or, .and, .sum, .product])
    (hnext : ℓ.tighter? = some ℓ') : ExprPhrase ℓ u e → LeftAssoc ℓ.opAt? (ExprPhrase ℓ') u e
  | .tighter next phrase => by
    cases Option.some.inj (hnext.symm.trans next)
    exact .one phrase
  | .binary hlevel several next left spelled right => by
    cases Option.some.inj (hnext.symm.trans next)
    exact .more (leftAssoc_of_phrase hℓ hnext left) (opAt?_eq_some_iff.mpr ⟨hlevel, several, spelled⟩) right
  | .not _ _ | .compare _ _ _ _ | .notLike _ _ _ _ | .inList _ _ _ _ _ | .notIn _ _ _ _ _ _ | .minus _ _ | .plus _ _
  | .literal _ | .column _ _ | .call _ _ _ _ _ | .parens _ _ _ => by simp at hℓ

section Operands

variable {p : TokenReader Expr} {P : List Token → Expr → Prop} {follow : List TokenKind}
  {op? : TokenKind → Option BinaryOp}

theorem enters_leftAssoc (hp : Accepts p P follow u.length) (hop : ∀ k op, op? k = some op → k ∈ follow)
    (h : LeftAssoc op? P u e) (hv : headKind v ∈ follow) :
    Enters (leftAssoc op? p) (fun n => moreOperands op? p n e) u v := by
  induction h generalizing v with
  | one operand => exact .start (moreOperands op? p) (hp _ _ v (Nat.le_refl _) operand hv)
  | @more t op u u' a b left operator right ih =>
    simp only [List.length_append, List.length_cons] at hp
    have hleft : Enters (leftAssoc op? p) (fun n => moreOperands op? p n a) u (t :: u' ++ v) :=
      ih (fun x c y hx => hp x c y (by omega)) (hop _ _ operator)
    have hright : Gives p b u' v := hp u' b v (by omega) right hv
    refine hleft.round (by simp) fun n => .kind ?_
    simp only [List.cons_append, headKind_cons, operator]
    exact .advance (hright.last .refl)

theorem gives_leftAssoc (hp : Accepts p P follow u.length) (hop : ∀ k op, op? k = some op → k ∈ follow)
    (h : LeftAssoc op? P u e) (hv : headKind v ∈ follow) (hend : op? (headKind v) = none) :
    Gives (leftAssoc op? p) e u v := by
  refine (enters_leftAssoc hp hop h hv).done fun n => .kind (u := []) ?_
  simp only [List.nil_append, hend]
  exact .refl

theorem gives_inItems {left : Expr} {items : List Expr} {lparen rparen : Token} (hp : Accepts p P follow u.length)
    (hrest : .comma ∈ follow ∧ .rparen ∈ follow) (opens : lparen.kind = .lparen) (list : CommaList P u items)
    (closes : rparen.kind = .rparen) : Gives (inItems p left) (.inList left items) (lparen :: (u ++ [rparen])) v := by
  refine .expect opens ((gives_commaList hp list hrest.1 ?_ ?_).bind (.expect closes .refl))
  · simpa [closes] using hrest.2
  · simp [closes]

theorem gives_comparison (hp : Accepts p (ExprPhrase .sum) Level.followSum u.length) (h : ExprPhrase .comparison u e)
    (hv : headKind v ∈ Level.followOperand) : Gives (comparison p) e u v := by
  have hop : ∀ k op, comparisonOp? k = some op → k ∈ Level.followSum := by
    intro k op h
    cases k <;> cases h <;> decide
  cases h with
  | tighter next phrase =>
    cases next
    have hnone : ∀ k ∈ Level.followOperand, comparisonOp? k = none ∧ k ≠ .kwIn ∧ k ≠ .kwNot := by decide
    obtain ⟨hother, hin, hnot⟩ := hnone _ hv
    refine (hp u e v (Nat.le_refl _) phrase (List.mem_append_right _ hv)).last ?_
    refine .kind (u := []) (.kind (u := []) (.anyNextKind fun k => ?_))
    rw [List.nil_append, hother]
    split
    next hsome => cases hsome
    next hkind => exact absurd hkind hin
    next hkind => exact absurd hkind hnot
    next hkind => exact absurd hkind hnot
    next => exact .refl
  | binary _ several => exact absurd rfl several
  | @compare op t u u' a b level left spelled right =>
    have hspelled := comparisonOp?_eq_some_iff.mpr ⟨level, spelled⟩
    simp only [List.length_append, List.length_cons] at hp
    have hleft : Gives p a u (t :: u' ++ v) := hp u a _ (by omega) left (hop _ _ hspelled)
    have hright : Gives p b u' v := hp u' b v (by omega) right (List.mem_append_right _ hv)
    refine hleft.bind (.kind (.kind (.nextKind ?_)))
    simp only [List.cons_append, headKind_cons, hspelled]
    exact .advance (hright.last .refl)
  | @notLike not like u u' a b left isNot isLike right =>
    simp only [List.length_append, List.length_cons] at hp
    have hleft : Gives p a u (not :: like :: u' ++ v) := hp u a _ (by omega) left (by simp [isNot, Level.followSum])
    have hright : Gives p b u' v := hp u' b v (by omega) right (List.mem_append_right _ hv)
    refine hleft.bind (.kind (.kind (.nextKind ?_)))
    simp only [List.cons_append, headKind_cons, isNot, isLike]
    exact .advance (.advance (hright.last .refl))
  | @inList t lparen rparen u u' a items left isIn opens list closes =>
    simp only [List.length_append, List.length_cons] at hp
    have hleft : Gives p a u (t :: lparen :: (u' ++ [rparen]) ++ v) :=
      hp u a _ (by omega) left (by simp [isIn, Level.followSum])
    refine hleft.bind (.kind (.kind (.nextKind ?_)))
    simp only [List.cons_append, headKind_cons, isIn]
    exact .advance (gives_inItems (fun x c y hx => hp x c y (by omega)) (by decide) opens list closes)
  | @notIn not t lparen rparen u u' a items left isNot isIn opens list closes =>
    simp only [List.length_append, List.length_cons] at hp
    have hleft : Gives p a u (not :: t :: lparen :: (u' ++ [rparen]) ++ v) :=
      hp u a _ (by omega) left (by simp [isNot, Level.followSum])
    refine hleft.bind (.kind (.kind (.nextKind ?_)))
    simp only [List.cons_append, headKind_cons, isNot, isIn]
    have hitems : Gives (inItems p a) (.inList a items) (lparen :: (u' ++ [rparen])) v :=
      gives_inItems (fun x c y hx => hp x c y (by omega)) (by decide) opens list closes
    exact .advance (.advance (hitems.last .refl))

theorem gives_callArgs {args : List Expr} {lparen rparen : Token}
    (hp : Accepts p (ExprPhrase .or) Level.followWhole u.length) (opens : lparen.kind = .lparen)
    (arguments : Arguments (ExprPhrase .or) u args) (closes : rparen.kind = .rparen) :
    Gives (callArgs p) args (lparen :: (u ++ [rparen])) v :=
  .expect opens (gives_arguments hp (fun _ _ => headKind_expr) (by decide) arguments (by decide) (by decide) closes
    (.expect closes .refl))

theorem gives_qualified {qualifier : Option String} {name : String} {u' w : List Token}
    (before : QualifierPhrase u qualifier) (isName : NamePhrase u' name) (hdot : headKind (w ++ v) ≠ .dot)
    (hrest : Gives (reference p qualifier name) e w v) : Gives (primary p) e (u ++ (u' ++ w)) v := by
  refine .kind ?_
  have hhead := headKind_reference (w := w ++ v) before isName
  simp only [List.append_assoc, hhead]
  cases before with
  | none =>
    refine (gives_name isName).bind (.kind ?_)
    rw [if_neg hdot]
    exact hrest
  | @some dot u a isFirst isDot =>
    rw [List.append_assoc, List.singleton_append]
    refine (gives_name isFirst).bind (.kind ?_)
    simp only [List.cons_append, headKind_cons, isDot, if_true]
    exact .advance ((gives_name isName).bind hrest)

theorem gives_primary (hp : Accepts p (ExprPhrase .or) Level.followWhole (u.length - 1)) (h : ExprPhrase .primary u e)
    (hv : headKind v ∈ Level.primary.follow) : Gives (primary p) e u v := by
  have hother : ∀ k ∈ Level.primary.follow, k ≠ .dot ∧ k ≠ .lparen := by decide
  cases h with
  | tighter next => cases next
  | binary _ _ next => cases next
  | literal isLiteral =>
    refine .kind ?_
    have hfirst := headKind_append (headKind_literal isLiteral) (by decide) v
    simp only [literalFirst, List.mem_cons, List.not_mem_nil, or_false] at hfirst
    rcases hfirst with h | h | h | h | h <;> rw [h] <;> exact .map (gives_literal isLiteral)
  | @column u u' qualifier name before isName =>
    have hreference : Gives (reference p qualifier name) (.column qualifier name) [] v := by
      refine .kind (u := []) ?_
      rw [List.nil_append, if_neg (hother _ hv).2]
      exact .refl
    simpa using gives_qualified (w := []) before isName (hother _ hv).1 hreference
  | @call lparen rparen u u' w qualifier name args before isName opens arguments closes =>
    simp only [List.length_append, List.length_cons, List.length_nil] at hp
    have hreference : Gives (reference p qualifier name) (.call qualifier name args) (lparen :: (w ++ [rparen])) v := by
      refine .kind ?_
      simp only [List.cons_append, headKind_cons, opens, if_true]
      exact .map (gives_callArgs (fun x c y hx => hp x c y (by omega)) opens arguments closes)
    exact gives_qualified before isName (by simp [opens]) hreference
  | @parens lparen rparen w e opens inner closes =>
    simp only [List.length_append, List.length_cons, List.length_nil] at hp
    have hinner : Gives p e w (rparen :: v) := hp w e _ (by omega) inner (by simp [closes, Level.followWhole])
    refine .kind ?_
    simp only [List.cons_append, headKind_cons, opens]
    exact .advance (hinner.bind (.expect closes .refl))

end Operands

theorem follow_of_tighter (h : ℓ.tighter? = some ℓ') {k : TokenKind} (hk : k ∈ ℓ.follow) : k ∈ ℓ'.follow := by
  cases ℓ <;> cases h <;> revert k <;> decide

theorem follow_of_opAt? (h : ℓ.tighter? = some ℓ') {k : TokenKind} {op : BinaryOp} (hop : ℓ.opAt? k = some op) :
    k ∈ ℓ'.follow := by
  cases ℓ <;> cases h <;> cases k <;> cases hop <;> decide

theorem opAt?_of_follow {k : TokenKind} (hk : k ∈ ℓ.follow) : ℓ.opAt? k = none := by
  cases ℓ <;> revert k <;> decide

theorem exprPhrase_ne_nil (h : ExprPhrase ℓ u e) : u ≠ [] := by
  intro hnil
  have hfirst := headKind_expr h
  rw [hnil] at hfirst
  exact eof_notMem_first ℓ hfirst

/-- A depth of eight for each token of a phrase, less the levels above, is enough for it. -/
theorem accepts_exprAt {n m : Nat} {ℓ : Level} (hn : 8 * m ≤ n + ℓ.depth) :
    Accepts (exprAt n ℓ) (ExprPhrase ℓ) ℓ.follow m := by
  induction n generalizing ℓ m with
  | zero =>
    intro u e v hu h hv
    have hdepth := ℓ.depth_le
    have hsome := List.length_pos_iff.mpr (exprPhrase_ne_nil h)
    omega
  | succ n ih =>
    intro u e v hu h hv
    have htighter : ∀ {ℓ' : Level}, ℓ.tighter? = some ℓ' →
        Accepts (exprAt n ℓ') (ExprPhrase ℓ') ℓ'.follow u.length := by
      intro ℓ' hnext
      have hdepth' := Level.depth_tighter hnext
      exact ih (by omega)
    have hpassed : ∀ ℓ' : Level, Accepts (exprAt n ℓ') (ExprPhrase ℓ') ℓ'.follow (u.length - 1) := by
      intro ℓ'
      have hdepth := ℓ.depth_le
      exact ih (by omega)
    have hassoc : ∀ {ℓ' : Level}, ℓ ∈ [.or, .and, .sum, .product] → ℓ.tighter? = some ℓ' →
        Gives (leftAssoc ℓ.opAt? (exprAt n ℓ')) e u v := fun hℓ hnext =>
      gives_leftAssoc (htighter hnext) (fun _ _ => follow_of_opAt? hnext) (leftAssoc_of_phrase hℓ hnext h)
        (follow_of_tighter hnext hv) (opAt?_of_follow hv)
    cases ℓ with
    | or => exact hassoc (by simp) rfl
    | and => exact hassoc (by simp) rfl
    | sum => exact hassoc (by simp) rfl
    | product => exact hassoc (by simp) rfl
    | comparison => exact gives_comparison (htighter rfl) h hv
    | primary => exact gives_primary (hpassed .or) h hv
    | not =>
      cases h with
      | tighter next phrase =>
        cases next
        have hfirst := headKind_append (headKind_expr phrase) (eof_notMem_first _) v
        have hnot : ∀ k ∈ Level.comparison.first, k ≠ .kwNot := by decide
        refine .refuse (hnot _ hfirst) ?_
        exact htighter rfl u e v (Nat.le_refl _) phrase hv
      | not keyword operand => exact .accept keyword (.map (hpassed .not _ _ v (by simp) operand hv))
      | @binary _ _ op _ _ _ _ _ level => cases op <;> cases level
    | sign =>
      cases h with
      | tighter next phrase =>
        cases next
        have hfirst := headKind_append (headKind_expr phrase) (eof_notMem_first _) v
        have hsign : ∀ k ∈ Level.primary.first, k ≠ .minus ∧ k ≠ .plus := by decide
        refine .refuse (hsign _ hfirst).1 (.refuse (hsign _ hfirst).2 ?_)
        exact htighter rfl u e v (Nat.le_refl _) phrase hv
      | @binary _ _ op _ _ _ _ _ level => cases op <;> cases level
      | minus isMinus operand => exact .accept isMinus (.map (hpassed .sign _ _ v (by simp) operand hv))
      | plus isPlus operand =>
        refine .refuse (by simp [isPlus]) (.accept isPlus ?_)
        exact hpassed .sign _ _ v (by simp) operand hv

theorem gives_expr (h : ExprPhrase .or u e) (hv : headKind v ∈ Level.followWhole) : Gives expr e u v := by
  refine .get fun s hs => ?_
  rw [List.length_append] at hs
  exact accepts_exprAt (m := u.length) (by omega) u e v (Nat.le_refl _) h hv

end Expressions

/-! ### Queries -/

section Queries

/-- What can come after a query. -/
def followQuery : List TokenKind := [.kwUnion, .kwExcept, .kwIntersect, .rparen, .semicolon, .eof]

/-- What can come after all sources of a query. -/
def followFrom : List TokenKind := .kwWhere :: .kwGroup :: .kwSkip :: .kwTake :: followQuery

/-- What can come after one of the sources of a query and its condition. -/
def followJoin : List TokenKind := .kwJoin :: .kwInner :: followFrom

variable {u v : List Token}

theorem accepts_expr (m : Nat) : Accepts expr (ExprPhrase .or) Level.followWhole m := fun _ _ _ _ => gives_expr

theorem headKind_clause {α : Type} {P : List Token → α → Prop} {k : TokenKind} {ks : List TokenKind} {o : Option α}
    (h : Clause k P u o) (hv : headKind v ∈ ks) : headKind (u ++ v) ∈ k :: ks := by
  cases h with
  | none => exact List.mem_cons_of_mem k hv
  | some keyword => simp [keyword]

theorem gives_selectItem {x : SelectItem} (h : ItemPhrase u x) (hv : headKind v ∈ [.comma, .kwFrom]) :
    Gives selectItem x u v := by
  cases h with
  | star isStar => exact .accept isStar .refl
  | @field u u' e a expr hasAlias =>
    have hfirst := headKind_append (headKind_expr expr) (eof_notMem_first _) (u' ++ v)
    have hstar : ∀ k ∈ Level.or.first, k ≠ .star := by decide
    have hafter : headKind (u' ++ v) ∈ Level.followWhole := by
      have hcommon : ∀ k ∈ [TokenKind.comma, .kwFrom], k ∈ Level.followWhole := by decide
      have hname : ∀ k ∈ [TokenKind.kwAs, .identifier], k ∈ Level.followWhole := by decide
      rcases headKind_alias (v := v) hasAlias with h | h
      · exact hname _ h
      · exact h ▸ hcommon _ hv
    have hnone : ∀ k ∈ [TokenKind.comma, .kwFrom], k ∉ [TokenKind.kwAs, .identifier] := by decide
    refine .refuse (hstar _ (by simpa using hfirst)) ?_
    exact (gives_expr expr hafter).bind ((gives_alias? hasAlias (hnone _ hv)).last .refl)

theorem gives_fromSource {x : FromSource} (h : SourcePhrase u x) (hv : headKind v ∈ .kwOn :: followJoin) :
    Gives fromSource x u v := by
  have hnone : ∀ k ∈ .kwOn :: followJoin, k ∉ [TokenKind.kwAs, .identifier] := by decide
  refine .kind ?_
  cases h with
  | @schema u u' call a isCall hasAlias =>
    have hhead : headKind (u ++ u' ++ v) = .hash := by
      have hfirst := headKind_append (List.mem_singleton.mpr (headKind_schemaCall isCall)) (by decide) (u' ++ v)
      simpa using hfirst
    rw [if_pos hhead]
    exact (gives_schemaCall isCall).bind ((gives_alias? hasAlias (hnone _ hv)).last .refl)
  | @named u u' name a isName hasAlias =>
    have hhead : headKind (u ++ u' ++ v) ≠ .hash := by
      have hfirst := headKind_append (headKind_name isName) (by decide) (u' ++ v)
      rw [List.mem_singleton] at hfirst
      simp [hfirst]
    rw [if_neg hhead]
    exact (gives_name isName).bind ((gives_alias? hasAlias (hnone _ hv)).last .refl)

theorem gives_acceptJoin (h : JoinWords u) : Gives acceptJoin true u v := by
  cases h with
  | join isJoin =>
    refine .refuse (by simp [isJoin]) ?_
    rw [if_neg Bool.false_ne_true, ← bind_pure (accept .kwJoin)]
    exact .accept isJoin .refl
  | inner isInner isJoin => exact .accept isInner (.expect isJoin .refl)

theorem gives_noJoin (hv : headKind v ∈ followFrom) : Gives acceptJoin false [] v := by
  have hother : ∀ k ∈ followFrom, k ≠ .kwInner ∧ k ≠ .kwJoin := by decide
  refine .refuse (u := []) (hother _ hv).1 ?_
  rw [if_neg Bool.false_ne_true, ← bind_pure (accept .kwJoin)]
  exact .refuse (u := []) (hother _ hv).2 .refl

theorem enters_fromClause {x : FromSource} (h : FromPhrase u x) (hv : headKind v ∈ followJoin) :
    Enters fromClause (fun n => moreJoins n x) u v := by
  induction h generalizing v with
  | source source => exact .start moreJoins (gives_fromSource source (List.mem_cons_of_mem _ hv))
  | @join on u words u' w l r e left join right isOn condition ih =>
    have hcommon : ∀ k ∈ followJoin, k ∈ Level.followWhole := by decide
    have hwords : headKind (words ++ (u' ++ on :: w) ++ v) ∈ followJoin := by
      cases join with
      | join isJoin => simp [isJoin, followJoin]
      | inner isInner => simp [isInner, followJoin]
    have hsome : words ++ (u' ++ on :: w) ≠ [] := by simp
    refine (ih hwords).round hsome fun n => (gives_acceptJoin join).bind ?_
    refine (gives_fromSource right (by simp [isOn])).bind (.expect isOn ?_)
    exact (gives_expr condition (hcommon _ hv)).last .refl

theorem gives_fromClause {x : FromSource} (h : FromPhrase u x) (hv : headKind v ∈ followFrom) :
    Gives fromClause x u v := by
  refine (enters_fromClause h ?_).done fun n => (gives_noJoin hv).last .refl
  exact List.mem_cons_of_mem _ (List.mem_cons_of_mem _ hv)

theorem gives_groupBy {x : GroupBy} (h : GroupPhrase u x) (hv : headKind v ∈ .kwSkip :: .kwTake :: followQuery) :
    Gives groupBy x u v := by
  obtain @⟨t, u, u', keys, having, isBy, list, clause⟩ := h
  have hcommon : ∀ k ∈ .kwHaving :: .kwSkip :: .kwTake :: followQuery, k ∈ Level.followWhole ∧ k ≠ .comma := by decide
  have hother : ∀ k ∈ .kwSkip :: .kwTake :: followQuery, k ≠ .kwHaving := by decide
  have hkeys := hcommon _ (headKind_clause clause hv)
  have hclause := (hcommon _ (List.mem_cons_of_mem _ hv)).1
  refine .expect isBy ((gives_commaList (accepts_expr _) list (by decide) hkeys.1 hkeys.2).bind ?_)
  exact (gives_after? (accepts_expr _) clause hclause (hother _ hv)).last .refl

theorem gives_rowCount {n : Int64} (h : CountPhrase u n) : Gives rowCount n u v := by
  cases h with
  | mk isInteger value =>
    refine .kind ?_
    simp only [List.cons_append, headKind_cons, isInteger, if_true]
    exact gives_integer value

theorem gives_query {x : Query} (h : QueryPhrase u x) (hv : headKind v ∈ followQuery) : Gives query x u v := by
  obtain @⟨select, fromWord, f, s, w, g, k, t, fields, source, filter, grouping, skip, take, isSelect, items, isFrom,
    sources, filters, groups, skips, takes⟩ := h
  -- what is seen after each clause, from the last to the first
  have htake : headKind (t ++ v) ∈ .kwTake :: followQuery := headKind_clause takes hv
  have hskip : headKind (k ++ t ++ v) ∈ .kwSkip :: .kwTake :: followQuery := by
    rw [List.append_assoc]
    exact headKind_clause skips htake
  have hgroup : headKind (g ++ (k ++ t) ++ v) ∈ .kwGroup :: .kwSkip :: .kwTake :: followQuery := by
    rw [List.append_assoc]
    exact headKind_clause groups hskip
  have hfilter : headKind (w ++ (g ++ (k ++ t)) ++ v) ∈ followFrom := by
    rw [List.append_assoc]
    exact headKind_clause filters hgroup
  have hwhole : ∀ k ∈ .kwGroup :: .kwSkip :: .kwTake :: followQuery, k ∈ Level.followWhole ∧ k ≠ .kwWhere := by decide
  have hgrouped : ∀ k ∈ .kwSkip :: .kwTake :: followQuery, k ≠ .kwGroup := by decide
  have hskipped : ∀ k ∈ .kwTake :: followQuery, k ≠ .kwSkip := by decide
  have htaken : ∀ k ∈ followQuery, k ≠ .kwTake := by decide
  have hitems : Accepts selectItem ItemPhrase [.comma, .kwFrom] f.length := fun _ _ _ _ => gives_selectItem
  have hgroups : Accepts groupBy GroupPhrase (.kwSkip :: .kwTake :: followQuery) g.length :=
    fun _ _ _ _ => gives_groupBy
  have hcounts : ∀ m, Accepts rowCount CountPhrase (.kwTake :: followQuery) m := fun _ _ _ _ _ h _ => gives_rowCount h
  refine .expect isSelect ((gives_commaList hitems items (by simp) (by simp [isFrom]) (by simp [isFrom])).bind ?_)
  refine .expect isFrom ((gives_fromClause sources hfilter).bind ?_)
  refine (gives_after? (accepts_expr _) filters (hwhole _ hgroup).1 (hwhole _ hgroup).2).bind ?_
  refine (gives_after? hgroups groups hskip (hgrouped _ hskip)).bind ?_
  refine (gives_after? (hcounts _) skips htake (hskipped _ htake)).bind ?_
  exact (gives_after? (hcounts _) takes (List.mem_cons_of_mem _ hv) (htaken _ hv)).last .refl

theorem gives_setOperator? {op : SetOperator} (h : OperatorWords u op) (hv : headKind v ≠ .kwAll) :
    Gives setOperator? (some op) u v := by
  cases h with
  | union keyword => exact .accept keyword (.refuse (u := []) hv .refl)
  | unionAll keyword isAll => exact .accept keyword (.accept isAll .refl)
  | except keyword => exact .refuse (by simp [keyword]) (.accept keyword .refl)
  | intersect keyword =>
    exact .refuse (by simp [keyword]) (.refuse (by simp [keyword]) (.accept keyword .refl))

theorem gives_noOperator (hv : headKind v ∈ [.rparen, .semicolon, .eof]) : Gives setOperator? none [] v := by
  have hother : ∀ k ∈ [TokenKind.rparen, .semicolon, .eof], k ≠ .kwUnion ∧ k ≠ .kwExcept ∧ k ≠ .kwIntersect := by decide
  obtain ⟨hunion, hexcept, hintersect⟩ := hother _ hv
  exact .refuse (u := []) hunion (.refuse (u := []) hexcept (.refuse (u := []) hintersect .refl))

theorem enters_setExpr {x : SetExpr} (h : SetPhrase u x) (hv : headKind v ∈ followQuery) :
    Enters setExpr (fun n => moreSets n x) u v := by
  induction h generalizing v with
  | query isQuery => exact .start (fun n q => moreSets n (.query q)) (gives_query isQuery hv)
  | @operation lparen rparen u words names w l op keys q left operator opens list closes right ih =>
    have hwords : headKind (words ++ lparen :: (names ++ rparen :: w) ++ v) ∈ followQuery := by
      cases operator with
      | union h | unionAll h | except h | intersect h => simp [h, followQuery]
    have hnames : Accepts name NamePhrase [.comma, .rparen] names.length := fun _ _ _ _ h _ => gives_name h
    refine (ih hwords).round (by simp) fun n => (gives_setOperator? operator (by simp [opens])).bind ?_
    refine .expect opens ((gives_commaList hnames list (by simp) (by simp [closes]) (by simp [closes])).bind ?_)
    exact .expect closes ((gives_query right hv).last .refl)

theorem gives_setExpr {x : SetExpr} (h : SetPhrase u x) (hv : headKind v ∈ [.rparen, .semicolon, .eof]) :
    Gives setExpr x u v := by
  have hcommon : ∀ k ∈ [TokenKind.rparen, .semicolon, .eof], k ∈ followQuery := by decide
  exact (enters_setExpr h (hcommon _ hv)).done fun n => (gives_noOperator hv).last .refl

theorem gives_namedTable {x : NamedTable} (h : TablePhrase u x) : Gives namedTable x u v := by
  obtain @⟨as, lparen, rparen, u, w, name, body, isName, isAs, opens, set, closes⟩ := h
  refine (gives_name isName).bind (.expect isAs (.expect opens ?_))
  exact (gives_setExpr set (by simp [closes])).bind (.expect closes .refl)

/-! ### Statements -/

theorem headKind_set {x : SetExpr} (h : SetPhrase u x) : headKind u = .kwSelect := by
  induction h with
  | query query =>
    cases query with
    | mk isSelect => exact isSelect
  | operation left _ _ _ _ _ ih => simpa using headKind_append (List.mem_singleton.mpr ih) (by decide) _

theorem gives_statement {x : Statement} (h : StatementPhrase u x) (hv : headKind v ∈ [.semicolon, .eof]) :
    Gives statement x u v := by
  cases h with
  | describe keyword isCall =>
    refine .accept keyword (.kind ?_)
    have hhead := headKind_append (List.mem_singleton.mpr (headKind_schemaCall isCall)) (by decide) v
    rw [if_pos (List.mem_singleton.mp hhead)]
    exact .map (gives_schemaCall isCall)
  | @query u w tables body defined set =>
    have hselect : headKind (w ++ v) ∈ [.kwSelect] :=
      headKind_append (List.mem_singleton.mpr (headKind_set set)) (by decide) v
    have hother : ∀ k ∈ [TokenKind.kwWith, .kwSelect], k ≠ .kwDesc := by decide
    have hcommon : ∀ k ∈ [TokenKind.semicolon, .eof], k ∈ [TokenKind.rparen, .semicolon, .eof] := by decide
    have htables : Accepts (commaList namedTable) (CommaList TablePhrase) [.kwSelect] u.length := by
      intro x a y _ h hy
      have htable : Accepts namedTable TablePhrase [.comma, .kwSelect] x.length := fun _ _ _ _ h _ => gives_namedTable h
      exact gives_commaList htable h (by simp) (List.mem_cons_of_mem _ hy) (by simp [List.mem_singleton.mp hy])
    refine .refuse (hother _ (by simpa using headKind_clause defined hselect)) ?_
    refine (gives_after? htables defined hselect (by simp [List.mem_singleton.mp hselect])).bind ?_
    exact (gives_setExpr set (hcommon _ hv)).last .refl

theorem headKind_statement {x : Statement} (h : StatementPhrase u x) : headKind u ∈ [.kwDesc, .kwWith, .kwSelect] := by
  cases h with
  | describe keyword => simp [keyword]
  | query defined set =>
    have hhead := headKind_clause defined (List.mem_singleton.mpr (headKind_set set))
    exact List.mem_cons_of_mem _ hhead

theorem gives_skipSemicolons {n : Nat} (hu : Semicolons u) (hn : u.length < n) (hv : headKind v ≠ .semicolon) :
    Gives (skipSemicolons n) () u v := by
  induction u generalizing n with
  | nil =>
    cases n with
    | zero => cases hn
    | succ n => exact .refuse (u := []) hv .refl
  | cons t u ih =>
    obtain ⟨ht, hu⟩ := List.forall_mem_cons.mp hu
    cases n with
    | zero => cases hn
    | succ n =>
      rw [List.length_cons] at hn
      exact .accept ht (ih hu (by omega))

theorem gives_noStatements {n : Nat} (hu : Semicolons u) (hn : 0 < n) : Gives (statements n) [] u [] := by
  cases n with
  | zero => cases hn
  | succ n =>
    refine .get fun s hs => ?_
    refine (gives_skipSemicolons hu (by simpa using hs) (by simp)).last (.kind (u := []) ?_)
    exact .refl

theorem gives_moreStatements {n : Nat} {lead : List Token} {x : Statement} {xs : List Statement}
    (hlead : Semicolons lead) (hx : StatementPhrase u x) (hv : headKind v ∈ [.semicolon, .eof])
    (hrest : Gives (statements n) xs v []) : Gives (statements (n + 1)) (x :: xs) (lead ++ (u ++ v)) [] := by
  have hfirst : headKind (u ++ v) ∈ [.kwDesc, .kwWith, .kwSelect] :=
    headKind_append (headKind_statement hx) (by decide) v
  have hother : ∀ k ∈ [TokenKind.kwDesc, .kwWith, .kwSelect], k ≠ .semicolon ∧ k ≠ .eof := by decide
  have hseparated : ∀ k ∈ [TokenKind.semicolon, .eof], (k ≠ .eof && k ≠ .semicolon) ≠ true := by decide
  obtain ⟨hsemicolon, heof⟩ := hother _ hfirst
  rw [← List.append_nil v] at hv hsemicolon heof
  refine .get fun s hs => ?_
  simp only [List.append_nil, List.length_append] at hs
  refine (gives_skipSemicolons hlead (by omega) (by simpa using hsemicolon)).bind (.kind ?_)
  rw [if_neg (by simpa using heof)]
  refine (gives_statement hx hv).bind (.kind (.kind ?_))
  rw [if_neg (hseparated _ hv)]
  exact hrest.last .refl

theorem headKind_semicolons (hu : Semicolons u) : headKind u ∈ [.semicolon, .eof] := by
  cases u with
  | nil => simp
  | cons t u => simp [hu t (by simp)]

theorem gives_statements {n : Nat} {lead : List Token} {xs : List Statement} (h : StatementsPhrase u xs)
    (hlead : Semicolons lead) (hn : u.length < n) : Gives (statements n) xs (lead ++ u) [] := by
  induction h generalizing lead n with
  | @last u v x statement trailing =>
    cases n with
    | zero => cases hn
    | succ n =>
      have hsome := List.length_pos_iff.mpr (statementPhrase_ne_nil statement)
      rw [List.length_append] at hn
      exact gives_moreStatements hlead statement (headKind_semicolons trailing) (gives_noStatements trailing (by omega))
  | @more u v w x xs statement separators separated rest ih =>
    cases n with
    | zero => cases hn
    | succ n =>
      have hsome := List.length_pos_iff.mpr (statementPhrase_ne_nil statement)
      simp only [List.length_append] at hn
      refine gives_moreStatements hlead statement ?_ (ih separators (by omega))
      cases v with
      | nil => exact absurd rfl separated
      | cons t v => simp [separators t (by simp)]

/-- A whole input that is a phrase is accepted. -/
theorem gives_root {xs : List Statement} (h : RootPhrase u xs) : Gives root xs u [] := by
  obtain @⟨lead, u, xs, leading, phrase⟩ := h
  have hsome : xs.isEmpty = false := by cases phrase <;> rfl
  refine .get fun s hs => ?_
  simp only [List.append_nil, List.length_append] at hs
  refine (gives_statements phrase leading (by omega)).last ?_
  rw [hsome]
  exact .refl

end Queries

end TokenReader

end TabularQuery
