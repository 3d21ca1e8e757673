import TabularQuery.Proofs.TokenRuns

/-!
What the readers of queries pass are phrases of what they give. From streams that show the same tokens, with whatever
bounds on their loops and on the depth of their descent come of the streams' lengths, they end the same way. The bounds
are never met: a loop goes round once for each token at most, and a descent through all levels passes a token.
-/

namespace TabularQuery

namespace TokenReader

open Grammar

variable {α β : Type} {w : List Token}

/-! ### Lists, options and names -/

section Lists

variable {p p' : TokenReader α} {P : List Token → α → Prop}

theorem reads_moreItems {n n' : Nat} (hp : ∀ v, v.length ≤ w.length → Reads p p' P v) (hn : w.length < n)
    (hn' : w.length < n') {u : List Token} {a : α} (ha : P u a) :
    Reads (moreItems p n) (moreItems p' n') (fun x as => CommaList P (u ++ x) (a :: as)) w := by
  induction n generalizing w n' u a with
  | zero => cases hn
  | succ n ih =>
    cases n' with
    | zero => cases hn'
    | succ n' =>
      refine .accept (by simp) (fun t v hw ht => ?_) fun _ => ?_
      · simp only [hw, List.length_cons] at hp hn hn'
        refine (hp v (by omega)).bind fun b u' v' hv hb => ?_
        simp only [hv, List.length_append] at hp hn hn'
        have hrest : Reads (moreItems p n) (moreItems p' n') (fun x as => CommaList P (u' ++ x) (b :: as)) v' :=
          ih (fun x hx => hp x (by omega)) (by omega) (by omega) hb
        refine hrest.bind fun bs u'' v'' _ hbs => .pure ?_
        simpa using CommaList.more ha ht hbs
      · apply Reads.pure
        simpa using CommaList.one ha

theorem reads_commaList (hp : ∀ v, v.length ≤ w.length → Reads p p' P v) :
    Reads (commaList p) (commaList p') (CommaList P) w := by
  refine (hp w (Nat.le_refl _)).bind fun a u v hw ha => ?_
  simp only [hw, List.length_append] at hp
  refine Reads.get fun s s' hs hs' => ?_
  have hrest := reads_moreItems (fun x hx => hp x (by omega)) hs hs' ha
  refine hrest.bind fun as u' v' _ has => .pure ?_
  simpa using has

theorem reads_arguments {f f' : List α → TokenReader β} {R : List Token → β → Prop}
    (hp : ∀ v, v.length ≤ w.length → Reads p p' P v)
    (hf : ∀ as u v, w = u ++ v → Arguments P u as → Reads (f as) (f' as) (fun x b => R (u ++ x) b) v) :
    Reads (do if (← kind) = .rparen then pure [] >>= f else commaList p >>= f)
      (do if (← kind) = .rparen then pure [] >>= f' else commaList p' >>= f') R w := by
  refine Reads.kind ?_
  split
  · exact hf [] [] w rfl .none
  · exact (reads_commaList hp).bind fun as u v hw has => hf as u v hw (.some has)

theorem reads_after? {k : TokenKind} (hk : k ≠ .eof) (hp : ∀ v, v.length ≤ w.length → Reads p p' P v) :
    Reads (after? k p) (after? k p') (Clause k P) w := by
  refine .accept hk (fun t v hw ht => ?_) fun _ => .pure .none
  refine .map ((hp v (by simp [hw])).mono fun u a ha => ?_)
  exact .some ht ha

end Lists

theorem reads_name : Reads name name NamePhrase w := by
  refine Reads.kind ?_
  cases w with
  | nil => exact .fail _
  | cons t v =>
    by_cases ht : t.kind = .identifier
    · simp only [headKind_cons, ht, if_true]
      refine .map (Reads.takeText.mono fun u a hu => ?_)
      obtain ⟨rfl, rfl⟩ := hu
      exact .mk ht
    · simp only [headKind_cons, ht, if_false]
      exact .fail _

theorem reads_alias? : Reads alias? alias? AliasPhrase w := by
  refine .accept (by simp) (fun t v _ ht => ?_) fun _ => ?_
  · exact .map (reads_name.mono fun u a ha => .as ht ha)
  · refine Reads.kind ?_
    split
    · exact .map (reads_name.mono fun u a ha => .bare ha)
    · exact .pure .none

/-! ### Literals -/

/-- The number that a token's digits stand for, with or without a minus sign. -/
def signedValue (negative : Bool) (t : Token) : Int :=
  if negative then -(Decimal.natOfDigits t.text.toList : Int) else Decimal.natOfDigits t.text.toList

theorem integer_showing (negative : Bool) (stop : Token) (after : List Token) (t : Token) :
    integer negative (.showing stop after (t :: w)) = match Decimal.int64? (signedValue negative t) with
      | some n => .ok n (.showing stop after w)
      | none => fail .integerInRange (.showing stop after (t :: w)) := by
  unfold integer signedValue
  simp only [bind_apply, get_apply, TokenStream.current_showing]
  generalize Decimal.int64? _ = n
  cases n <;> simp [advance]

theorem reads_integer {t : Token} (negative : Bool) : Reads (integer negative) (integer negative)
    (fun u n => u = [t] ∧ n.toInt = signedValue negative t) (t :: w) := by
  intro stop after after' hstop
  rw [integer_showing, integer_showing]
  cases hn : Decimal.int64? (signedValue negative t) with
  | some n => exact .inl ⟨n, [t], w, rfl, ⟨rfl, Decimal.int64?_eq_some_iff.mp hn⟩, rfl, rfl⟩
  | none => exact Reads.fail .integerInRange stop after after' hstop

theorem reads_literal : Reads literal literal ArgumentPhrase w := by
  refine .accept (by simp) (fun m v _ hm => ?_) fun _ => ?_
  · refine Reads.kind ?_
    cases v with
    | nil => exact .fail _
    | cons t v =>
      rw [headKind_cons]
      split
      · rename_i ht
        refine .map ((reads_integer true).mono fun u n hu => ?_)
        obtain ⟨rfl, hn⟩ := hu
        exact .negInteger hm ht hn
      · rename_i ht
        refine Reads.takeText.bind fun a u v _ hu => .pure ?_
        obtain ⟨rfl, rfl⟩ := hu
        exact .negReal hm ht
      · exact .fail _
  · refine Reads.kind ?_
    cases w with
    | nil => exact .fail _
    | cons t v =>
      rw [headKind_cons]
      split
      · rename_i ht
        refine .map ((reads_integer false).mono fun u n hu => ?_)
        obtain ⟨rfl, hn⟩ := hu
        exact .literal (.integer (.mk ht hn))
      · rename_i ht
        refine Reads.takeText.bind fun a u v _ hu => .pure ?_
        obtain ⟨rfl, rfl⟩ := hu
        exact .literal (.real ht)
      · rw [if_neg Bool.false_ne_true]
        split
        · rename_i ht
          refine .map (Reads.takeText.mono fun u a hu => ?_)
          obtain ⟨rfl, rfl⟩ := hu
          exact .literal (.text ht)
        · rename_i ht
          refine .map (Reads.takeText.mono fun u a hu => ?_)
          obtain ⟨rfl, rfl⟩ := hu
          exact .literal (.true ht)
        · rename_i ht
          refine .map (Reads.takeText.mono fun u a hu => ?_)
          obtain ⟨rfl, rfl⟩ := hu
          exact .literal (.false ht)
        · exact .fail _

theorem reads_unsigned (hw : headKind w ≠ .minus) : Reads literal literal LiteralPhrase w := by
  refine reads_literal.imp fun u v a huv ha => ?_
  subst huv
  cases ha with
  | literal h => exact h
  | negInteger hminus => exact absurd hminus hw
  | negReal hminus => exact absurd hminus hw

theorem reads_schemaCall : Reads schemaCall schemaCall CallPhrase w := by
  refine (Reads.expect (by simp)).bind fun _ u₁ w₁ _ h₁ => ?_
  refine reads_name.bind fun schema u₂ w₂ _ h₂ => ?_
  refine (Reads.expect (by simp)).bind fun _ u₃ w₃ _ h₃ => ?_
  refine reads_name.bind fun method u₄ w₄ _ h₄ => ?_
  refine (Reads.expect (by simp)).bind fun _ u₅ w₅ _ h₅ => ?_
  refine reads_arguments (fun _ _ => reads_literal) fun args u₆ w₆ _ h₆ => ?_
  refine (Reads.expect (by simp)).bind fun _ u₇ w₇ _ h₇ => .pure ?_
  obtain ⟨hash, rfl, isHash⟩ := h₁
  obtain ⟨dot, rfl, isDot⟩ := h₃
  obtain ⟨lparen, rfl, opens⟩ := h₅
  obtain ⟨rparen, rfl, closes⟩ := h₇
  simpa using CallPhrase.mk isHash h₂ isDot h₄ opens h₆ closes

/-! ### Expressions -/

/-- Operands with operators between them, taken together from the left. -/
inductive LeftAssoc (op? : TokenKind → Option BinaryOp) (P : List Token → Expr → Prop) : List Token → Expr → Prop
  | one {w : List Token} {e : Expr} (operand : P w e) : LeftAssoc op? P w e
  | more {t : Token} {op : BinaryOp} {u v : List Token} {a b : Expr} (left : LeftAssoc op? P u a)
      (operator : op? t.kind = some op) (right : P v b) : LeftAssoc op? P (u ++ t :: v) (.binary op a b)

/-- The operators that associate to the left at a level. -/
def Level.opAt? : Level → TokenKind → Option BinaryOp
  | .or => orOp?
  | .and => andOp?
  | .sum => sumOp?
  | .product => productOp?
  | .not | .comparison | .sign | .primary => fun _ => none

theorem opAt?_eq_some_iff {ℓ : Level} {k : TokenKind} {op : BinaryOp} :
    ℓ.opAt? k = some op ↔ op.level = ℓ ∧ ℓ ≠ .comparison ∧ k ∈ op.spellings := by
  constructor
  · intro h
    cases ℓ with
    | or => cases k <;> cases h; decide
    | and => cases k <;> cases h; decide
    | sum | product => cases k <;> cases h <;> decide
    | not | comparison | sign | primary => cases h
  · rintro ⟨rfl, hother, hk⟩
    cases op with
    | eq | ne | lt | le | gt | ge | like => exact absurd rfl hother
    | _ =>
      cases List.mem_singleton.mp hk
      rfl

theorem comparisonOp?_eq_some_iff {k : TokenKind} {op : BinaryOp} :
    comparisonOp? k = some op ↔ op.level = .comparison ∧ k ∈ op.spellings := by
  constructor
  · intro h
    cases k <;> cases h <;> decide
  · rintro ⟨hlevel, hk⟩
    cases op with
    | add | sub | mul | div | mod | and | or => cases hlevel
    | _ =>
      simp only [BinaryOp.spellings, List.mem_cons, List.not_mem_nil, or_false] at hk
      rcases hk with rfl | rfl <;> rfl

theorem phrase_of_leftAssoc {ℓ ℓ' : Level} (hnext : ℓ.tighter? = some ℓ') {e : Expr}
    (h : LeftAssoc ℓ.opAt? (ExprPhrase ℓ') w e) : ExprPhrase ℓ w e := by
  induction h with
  | one operand => exact .tighter hnext operand
  | more _ operator right ih =>
    obtain ⟨hlevel, hother, hk⟩ := opAt?_eq_some_iff.mp operator
    exact .binary hlevel hother hnext ih hk right

section Expressions

variable {p p' : TokenReader Expr} {P : List Token → Expr → Prop} {op? : TokenKind → Option BinaryOp}

theorem reads_moreOperands {n n' : Nat} (heof : op? .eof = none) (hp : ∀ v, v.length ≤ w.length → Reads p p' P v)
    (hn : w.length < n) (hn' : w.length < n') {u : List Token} {a : Expr} (ha : LeftAssoc op? P u a) :
    Reads (moreOperands op? p n a) (moreOperands op? p' n' a) (fun x e => LeftAssoc op? P (u ++ x) e) w := by
  induction n generalizing w n' u a with
  | zero => cases hn
  | succ n ih =>
    cases n' with
    | zero => cases hn'
    | succ n' =>
      refine Reads.kind ?_
      split
      · rename_i op hop
        cases w with
        | nil => rw [headKind_nil, heof] at hop; cases hop
        | cons t v =>
          simp only [List.length_cons] at hp hn hn'
          refine Reads.advance ?_
          refine (hp v (by omega)).bind fun b u₂ v₂ hv hb => ?_
          simp only [hv, List.length_append] at hp hn hn'
          have hmore : LeftAssoc op? P (u ++ t :: u₂) (.binary op a b) := .more ha hop hb
          refine (ih (fun x hx => hp x (by omega)) (by omega) (by omega) hmore).mono fun x e he => ?_
          simpa using he
      · apply Reads.pure
        simpa using ha

theorem reads_leftAssoc (heof : op? .eof = none) (hp : ∀ v, v.length ≤ w.length → Reads p p' P v) :
    Reads (leftAssoc op? p) (leftAssoc op? p') (LeftAssoc op? P) w := by
  refine (hp w (Nat.le_refl _)).bind fun a u v hw ha => ?_
  simp only [hw, List.length_append] at hp
  exact Reads.get fun s s' hs hs' => reads_moreOperands heof (fun x hx => hp x (by omega)) hs hs' (.one ha)

theorem reads_inItems {left : Expr} (hp : ∀ v, v.length ≤ w.length → Reads p p' (ExprPhrase .sum) v) :
    Reads (inItems p left) (inItems p' left) (fun x e => ∃ (lparen : Token) (v : List Token) (rparen : Token)
      (items : List Expr), x = lparen :: (v ++ [rparen]) ∧ lparen.kind = .lparen ∧
      CommaList (ExprPhrase .sum) v items ∧ rparen.kind = .rparen ∧ e = .inList left items) w := by
  refine (Reads.expect (by simp)).bind fun _ u₁ w₁ hw₁ h₁ => ?_
  refine (reads_commaList fun v hv => hp v (by simp [hw₁]; omega)).bind fun items u₂ w₂ _ h₂ => ?_
  refine (Reads.expect (by simp)).bind fun _ u₃ w₃ _ h₃ => .pure ?_
  obtain ⟨lparen, rfl, opens⟩ := h₁
  obtain ⟨rparen, rfl, closes⟩ := h₃
  exact ⟨lparen, u₂, rparen, items, by simp, opens, h₂, closes, rfl⟩

theorem reads_comparison (hp : ∀ v, v.length ≤ w.length → Reads p p' (ExprPhrase .sum) v) :
    Reads (comparison p) (comparison p') (ExprPhrase .comparison) w := by
  refine (hp w (Nat.le_refl _)).bind fun a u v hw ha => ?_
  simp only [hw, List.length_append] at hp
  have hself : ExprPhrase .comparison (u ++ []) a := by simpa using .tighter rfl ha
  refine Reads.kind (Reads.kind (Reads.nextKind (fun hv k k' => ?_) fun t v' hv => ?_))
  · subst hv
    exact .pure hself
  subst hv
  simp only [headKind_cons, List.length_cons] at hp ⊢
  split
  · rename_i op hop
    obtain ⟨hlevel, hspelled⟩ := comparisonOp?_eq_some_iff.mp hop
    refine Reads.advance ?_
    refine (hp v' (by omega)).bind fun b u₂ v₂ _ hb => .pure ?_
    simpa using ExprPhrase.compare hlevel ha hspelled hb
  · rename_i _ hin
    refine Reads.advance ?_
    refine (reads_inItems fun x hx => hp x (by omega)).mono fun x e hx => ?_
    obtain ⟨lparen, y, rparen, items, rfl, opens, list, closes, rfl⟩ := hx
    exact .inList ha hin opens list closes
  · rename_i _ hnot hin
    cases v' with
    | nil => cases hin
    | cons t' v' =>
      simp only [headKind_cons, List.length_cons] at hin hp
      refine Reads.advance ?_
      refine Reads.advance ?_
      refine (reads_inItems fun x hx => hp x (by omega)).bind fun e u₃ v₃ _ hu₃ => .pure ?_
      obtain ⟨lparen, y, rparen, items, rfl, opens, list, closes, rfl⟩ := hu₃
      simpa using ExprPhrase.notIn ha hnot hin opens list closes
  · rename_i _ hnot hlike
    cases v' with
    | nil => cases hlike
    | cons t' v' =>
      simp only [headKind_cons, List.length_cons] at hlike hp
      refine Reads.advance ?_
      refine Reads.advance ?_
      refine (hp v' (by omega)).bind fun b u₃ v₃ _ hb => .pure ?_
      simpa using ExprPhrase.notLike ha hnot hlike hb
  · exact .pure hself

theorem reads_reference {qualifier : Option String} {name : String} {u v : List Token}
    (hp : ∀ v, v.length < w.length → Reads p p' (ExprPhrase .or) v) (hqualifier : QualifierPhrase u qualifier)
    (hname : NamePhrase v name) : Reads (reference p qualifier name) (reference p' qualifier name)
      (fun x e => ExprPhrase .primary (u ++ (v ++ x)) e) w := by
  refine Reads.kind ?_
  split
  · refine .map ?_
    refine (Reads.expect (by simp)).bind fun _ u₁ w₁ hw₁ h₁ => ?_
    obtain ⟨lparen, rfl, opens⟩ := h₁
    simp only [hw₁, List.length_append, List.length_singleton] at hp
    refine reads_arguments (fun x hx => hp x (by omega)) fun args u₂ w₂ _ h₂ => ?_
    refine (Reads.expect (by simp)).bind fun _ u₃ w₃ _ h₃ => .pure ?_
    obtain ⟨rparen, rfl, closes⟩ := h₃
    simpa using ExprPhrase.call hqualifier hname opens h₂ closes
  · apply Reads.pure
    simpa using ExprPhrase.column hqualifier hname

theorem reads_primary (hp : ∀ v, v.length < w.length → Reads p p' (ExprPhrase .or) v) :
    Reads (primary p) (primary p') (ExprPhrase .primary) w := by
  refine Reads.kind ?_
  cases w with
  | nil => exact .fail _
  | cons t v =>
    simp only [List.length_cons] at hp
    have hliteral : headKind (t :: v) ≠ .minus →
        Reads (Expr.literal <$> literal) (Expr.literal <$> literal) (ExprPhrase .primary) (t :: v) :=
      fun ht => .map ((reads_unsigned ht).mono fun u a => .literal)
    rw [headKind_cons]
    split
    iterate 5 next ht => exact hliteral (by simp [ht])
    next ht =>
      refine Reads.advance ?_
      refine (hp v (by omega)).bind fun e u₁ w₁ _ he => ?_
      refine (Reads.expect (by simp)).bind fun _ u₂ w₂ _ h₂ => .pure ?_
      obtain ⟨rparen, rfl, closes⟩ := h₂
      simpa using ExprPhrase.parens ht he closes
    next ht =>
      refine reads_name.bind fun first u₁ w₁ hw₁ hfirst => ?_
      have hlength : w₁.length ≤ v.length := by
        have hcount := congrArg List.length hw₁
        cases hfirst
        simp at hcount
        omega
      refine Reads.kind ?_
      split
      · rename_i hdot
        cases w₁ with
        | nil => cases hdot
        | cons dot w₁ =>
          simp only [List.length_cons] at hlength
          refine Reads.advance ?_
          refine reads_name.bind fun second u₂ w₂ hw₂ hsecond => ?_
          simp only [hw₂, List.length_append] at hlength
          refine (reads_reference (fun x hx => hp x (by omega)) (.some hfirst hdot) hsecond).mono fun x e he => ?_
          simpa using he
      · exact reads_reference (fun x hx => hp x (by omega)) .none hfirst
    · exact .fail _

theorem reads_exprAt {n n' : Nat} {ℓ : Level} (hn : 8 * (w.length + 1) ≤ n + ℓ.depth)
    (hn' : 8 * (w.length + 1) ≤ n' + ℓ.depth) : Reads (exprAt n ℓ) (exprAt n' ℓ) (ExprPhrase ℓ) w := by
  have hdepth := ℓ.depth_le
  induction n generalizing n' ℓ w with
  | zero => omega
  | succ n ih =>
    cases n' with
    | zero => omega
    | succ n' =>
      have htighter : ∀ {ℓ' : Level}, ℓ.tighter? = some ℓ' → ∀ v, v.length ≤ w.length →
          Reads (exprAt n ℓ') (exprAt n' ℓ') (ExprPhrase ℓ') v := by
        intro ℓ' hnext v hv
        have hdepth' := Level.depth_tighter hnext
        exact ih (by omega) (by omega) ℓ'.depth_le
      have hpassed : ∀ {ℓ' : Level}, ∀ v, v.length < w.length → Reads (exprAt n ℓ') (exprAt n' ℓ') (ExprPhrase ℓ') v :=
        fun {ℓ'} v hv => ih (by omega) (by omega) ℓ'.depth_le
      cases ℓ with
      | or | and | sum | product =>
        exact (reads_leftAssoc rfl (htighter rfl)).mono fun u e h => phrase_of_leftAssoc rfl h
      | not =>
        refine .accept (by simp) (fun t v hw ht => ?_) fun _ => ?_
        · exact .map ((hpassed v (by simp [hw])).mono fun u e => .not ht)
        · exact (htighter rfl w (Nat.le_refl _)).mono fun u e => .tighter rfl
      | comparison => exact reads_comparison (htighter rfl)
      | sign =>
        refine .accept (by simp) (fun t v hw ht => ?_) fun _ => .accept (by simp) (fun t v hw ht => ?_) fun _ => ?_
        · exact .map ((hpassed v (by simp [hw])).mono fun u e => .minus ht)
        · exact (hpassed v (by simp [hw])).mono fun u e => .plus ht
        · exact (htighter rfl w (Nat.le_refl _)).mono fun u e => .tighter rfl
      | primary => exact reads_primary hpassed

theorem reads_expr : Reads expr expr (ExprPhrase .or) w :=
  Reads.get fun s s' hs hs' => reads_exprAt (by simp only [Level.depth]; omega) (by simp only [Level.depth]; omega)

end Expressions

/-! ### Queries -/

theorem reads_selectItem : Reads selectItem selectItem ItemPhrase w := by
  refine .accept (by simp) (fun t v _ ht => .pure (.star ht)) fun _ => ?_
  refine reads_expr.bind fun e u v _ he => ?_
  refine reads_alias?.bind fun a u' v' _ ha => .pure ?_
  simpa using ItemPhrase.field he ha

theorem reads_fromSource : Reads fromSource fromSource SourcePhrase w := by
  refine Reads.kind ?_
  split
  · refine reads_schemaCall.bind fun call u v _ hcall => ?_
    refine reads_alias?.bind fun a u' v' _ ha => .pure ?_
    simpa using SourcePhrase.schema hcall ha
  · refine reads_name.bind fun name u v _ hname => ?_
    refine reads_alias?.bind fun a u' v' _ ha => .pure ?_
    simpa using SourcePhrase.named hname ha

theorem reads_acceptJoin : Reads acceptJoin acceptJoin (fun u joins => if joins then JoinWords u else u = []) w := by
  refine .accept (by simp) (fun t v _ ht => ?_) fun _ => ?_
  · refine (Reads.expect (by simp)).bind fun _ u v' _ hu => .pure ?_
    obtain ⟨t', rfl, ht'⟩ := hu
    exact .inner ht ht'
  · rw [if_neg Bool.false_ne_true, ← bind_pure (accept .kwJoin)]
    refine .accept (by simp) (fun t v _ ht => .pure ?_) fun _ => .pure rfl
    exact .join ht

theorem reads_moreJoins {n n' : Nat} (hn : w.length < n) (hn' : w.length < n') {u : List Token} {l : FromSource}
    (hl : FromPhrase u l) : Reads (moreJoins n l) (moreJoins n' l) (fun x s => FromPhrase (u ++ x) s) w := by
  induction n generalizing w n' u l with
  | zero => cases hn
  | succ n ih =>
    cases n' with
    | zero => cases hn'
    | succ n' =>
      refine reads_acceptJoin.bind fun joins words v hw hjoins => ?_
      cases joins with
      | false =>
        obtain rfl : words = [] := hjoins
        apply Reads.pure
        simpa using hl
      | true =>
        have hwords : 0 < words.length := by cases hjoins <;> simp
        simp only [hw, List.length_append] at hn hn'
        refine reads_fromSource.bind fun r u₁ w₁ hw₁ hr => ?_
        refine (Reads.expect (by simp)).bind fun _ u₂ w₂ hw₂ h₂ => ?_
        obtain ⟨on, rfl, isOn⟩ := h₂
        refine reads_expr.bind fun e u₃ w₃ hw₃ he => ?_
        simp only [hw₁, hw₂, hw₃, List.length_append] at hn hn'
        have hjoin := FromPhrase.join hl hjoins hr isOn he
        refine (ih (by omega) (by omega) hjoin).mono fun x s hs => ?_
        simpa using hs

theorem reads_fromClause : Reads fromClause fromClause FromPhrase w :=
  reads_fromSource.bind fun _ _ _ _ hs => Reads.get fun _ _ hn hn' => reads_moreJoins hn hn' (.source hs)

theorem reads_groupBy : Reads groupBy groupBy GroupPhrase w := by
  refine (Reads.expect (by simp)).bind fun _ u₁ w₁ _ h₁ => ?_
  refine (reads_commaList fun _ _ => reads_expr).bind fun keys u₂ w₂ _ hkeys => ?_
  refine (reads_after? (by simp) fun _ _ => reads_expr).bind fun having u₃ w₃ _ hhaving => .pure ?_
  obtain ⟨t, rfl, isBy⟩ := h₁
  simpa using GroupPhrase.mk isBy hkeys hhaving

theorem reads_rowCount : Reads rowCount rowCount CountPhrase w := by
  refine Reads.kind ?_
  cases w with
  | nil => exact .fail _
  | cons t v =>
    split
    · rename_i ht
      refine (reads_integer false).mono fun u n hu => ?_
      obtain ⟨rfl, hn⟩ := hu
      exact .mk ht hn
    · exact .fail _

theorem reads_query : Reads query query QueryPhrase w := by
  refine (Reads.expect (by simp)).bind fun _ u₁ w₁ _ h₁ => ?_
  refine (reads_commaList fun _ _ => reads_selectItem).bind fun fields u₂ w₂ _ hfields => ?_
  refine (Reads.expect (by simp)).bind fun _ u₃ w₃ _ h₃ => ?_
  refine reads_fromClause.bind fun source u₄ w₄ _ hsource => ?_
  refine (reads_after? (by simp) fun _ _ => reads_expr).bind fun filter u₅ w₅ _ hfilter => ?_
  refine (reads_after? (by simp) fun _ _ => reads_groupBy).bind fun grouping u₆ w₆ _ hgrouping => ?_
  refine (reads_after? (by simp) fun _ _ => reads_rowCount).bind fun skip u₇ w₇ _ hskip => ?_
  refine (reads_after? (by simp) fun _ _ => reads_rowCount).bind fun take u₈ w₈ _ htake => .pure ?_
  obtain ⟨select, rfl, isSelect⟩ := h₁
  obtain ⟨fromWord, rfl, isFrom⟩ := h₃
  simpa using QueryPhrase.mk isSelect hfields isFrom hsource hfilter hgrouping hskip htake

theorem reads_setOperator? : Reads setOperator? setOperator?
    (fun u op? => match op? with | some op => OperatorWords u op | none => u = []) w := by
  refine .accept (by simp) (fun t v _ ht => ?_) fun _ => ?_
  · refine .accept (by simp) (fun t' v' _ ht' => .pure ?_) fun _ => .pure ?_
    · exact .unionAll ht ht'
    · exact .union ht
  refine .accept (by simp) (fun t v _ ht => .pure ?_) fun _ => ?_
  · exact .except ht
  refine .accept (by simp) (fun t v _ ht => .pure ?_) fun _ => .pure rfl
  exact .intersect ht

theorem reads_moreSets {n n' : Nat} (hn : w.length < n) (hn' : w.length < n') {u : List Token} {l : SetExpr}
    (hl : SetPhrase u l) : Reads (moreSets n l) (moreSets n' l) (fun x s => SetPhrase (u ++ x) s) w := by
  induction n generalizing w n' u l with
  | zero => cases hn
  | succ n ih =>
    cases n' with
    | zero => cases hn'
    | succ n' =>
      refine reads_setOperator?.bind fun op? words v hw hop => ?_
      cases op? with
      | none =>
        obtain rfl : words = [] := hop
        apply Reads.pure
        simpa using hl
      | some op =>
        have hwords : 0 < words.length := by cases hop <;> simp
        simp only [hw, List.length_append] at hn hn'
        refine (Reads.expect (by simp)).bind fun _ u₁ w₁ hw₁ h₁ => ?_
        obtain ⟨lparen, rfl, opens⟩ := h₁
        refine (reads_commaList fun _ _ => reads_name).bind fun keys u₂ w₂ hw₂ hkeys => ?_
        refine (Reads.expect (by simp)).bind fun _ u₃ w₃ hw₃ h₃ => ?_
        obtain ⟨rparen, rfl, closes⟩ := h₃
        refine reads_query.bind fun q u₄ w₄ hw₄ hq => ?_
        simp only [hw₁, hw₂, hw₃, hw₄, List.length_append] at hn hn'
        have hset := SetPhrase.operation hl hop opens hkeys closes hq
        refine (ih (by omega) (by omega) hset).mono fun x s hs => ?_
        simpa using hs

theorem reads_setExpr : Reads setExpr setExpr SetPhrase w :=
  reads_query.bind fun _ _ _ _ hq => Reads.get fun _ _ hn hn' => reads_moreSets hn hn' (.query hq)

theorem reads_namedTable : Reads namedTable namedTable TablePhrase w := by
  refine reads_name.bind fun name u₁ w₁ _ hname => ?_
  refine (Reads.expect (by simp)).bind fun _ u₂ w₂ _ h₂ => ?_
  refine (Reads.expect (by simp)).bind fun _ u₃ w₃ _ h₃ => ?_
  refine reads_setExpr.bind fun body u₄ w₄ _ hbody => ?_
  refine (Reads.expect (by simp)).bind fun _ u₅ w₅ _ h₅ => .pure ?_
  obtain ⟨as, rfl, isAs⟩ := h₂
  obtain ⟨lparen, rfl, opens⟩ := h₃
  obtain ⟨rparen, rfl, closes⟩ := h₅
  simpa using TablePhrase.mk hname isAs opens hbody closes

/-! ### Statements -/

theorem reads_statement : Reads statement statement StatementPhrase w := by
  refine .accept (by simp) (fun t v _ ht => ?_) fun _ => ?_
  · refine Reads.kind ?_
    split
    · exact .map (reads_schemaCall.mono fun u call => .describe ht)
    · exact .fail _
  · have hdefined := reads_after? (k := .kwWith) (w := w) (by simp) fun _ _ =>
      reads_commaList fun _ _ => reads_namedTable
    refine hdefined.bind fun tables u v _ htables => ?_
    refine reads_setExpr.bind fun body u' v' _ hbody => .pure ?_
    simpa using StatementPhrase.query htables hbody

theorem reads_skipSemicolons {n n' : Nat} (hn : w.length < n) (hn' : w.length < n') :
    Reads (skipSemicolons n) (skipSemicolons n') (fun u _ => Semicolons u ∧ (u = [] → headKind w ≠ .semicolon)) w := by
  induction n generalizing w n' with
  | zero => cases hn
  | succ n ih =>
    cases n' with
    | zero => cases hn'
    | succ n' =>
      refine .accept (by simp) (fun t v hw ht => ?_) fun hw => .pure ⟨nofun, fun _ => hw⟩
      simp only [hw, List.length_cons] at hn hn'
      exact (ih (by omega) (by omega)).mono fun u _ hu => ⟨List.forall_mem_cons.mpr ⟨ht, hu.1⟩, nofun⟩

end TokenReader

namespace Grammar

theorem setPhrase_ne_nil {w : List Token} {s : SetExpr} (h : SetPhrase w s) : w ≠ [] := by
  induction h with
  | query h => cases h; simp
  | operation left _ _ _ _ _ ih => simp

theorem statementPhrase_ne_nil {w : List Token} {x : Statement} (h : StatementPhrase w x) : w ≠ [] := by
  cases h with
  | describe => simp
  | query _ set => simp [setPhrase_ne_nil set]

/-- Statements that are passed in `w`: none, or some that are not before a semicolon or the end, after all
semicolons. -/
structure Passed (w u : List Token) (xs : List Statement) : Prop where
  ends : ∃ v, w = u ++ v ∧ headKind v = .eof
  phrase : ∃ lead rest, u = lead ++ rest ∧ Semicolons lead ∧
    (xs = [] ∧ rest = [] ∨ StatementsPhrase rest xs ∧ (lead = [] → headKind w ≠ .semicolon ∧ headKind w ≠ .eof))

end Grammar

namespace TokenReader

open Grammar

variable {w : List Token}

theorem reads_statements {n n' : Nat} (hn : w.length < n) (hn' : w.length < n') :
    Reads (statements n) (statements n') (Passed w) w := by
  induction n generalizing w n' with
  | zero => cases hn
  | succ n ih =>
    cases n' with
    | zero => cases hn'
    | succ n' =>
      refine Reads.get fun s s' hs hs' => ?_
      refine (reads_skipSemicolons hs hs').bind fun _ lead w₁ hw₁ hlead => ?_
      refine Reads.kind ?_
      by_cases heof : headKind w₁ = .eof
      · simp only [heof, if_true]
        exact .pure ⟨⟨w₁, by simpa using hw₁, heof⟩, lead, [], rfl, hlead.1, .inl ⟨rfl, rfl⟩⟩
      · simp only [heof, if_false]
        refine reads_statement.bind fun x u₂ w₂ hw₂ hx => ?_
        refine Reads.kind (Reads.kind ?_)
        split
        · exact (Reads.fail (P := fun _ _ => False) .separator).bind fun _ _ _ _ h => h.elim
        · rename_i hseparated
          have hpassed := List.length_pos_iff.mpr (statementPhrase_ne_nil hx)
          simp only [hw₁, hw₂, List.length_append] at hn hn'
          have hrest : Reads (statements n) (statements n') (Passed w₂) w₂ := ih (by omega) (by omega)
          refine hrest.bind fun xs u₃ w₃ _ hxs => .pure ?_
          obtain ⟨⟨v, hv, hveof⟩, lead', rest, rfl, hlead', hphrase⟩ := hxs
          refine ⟨⟨v, ?_, hveof⟩, lead, u₂ ++ (lead' ++ rest), by simp, hlead.1, .inr ⟨?_, ?_⟩⟩
          · simp [hw₁, hw₂, hv]
          · rcases hphrase with ⟨rfl, rfl⟩ | ⟨hphrase, hfirst⟩
            · simpa using StatementsPhrase.last hx hlead'
            · refine .more hx hlead' (fun hnone => ?_) hphrase
              simp [hfirst hnone] at hseparated
          · intro hnone
            subst hnone
            rw [List.nil_append] at hw₁
            subst hw₁
            exact ⟨hlead.2 rfl, heof⟩

/-- The whole input is read, up to the first end in it. -/
theorem reads_root : Reads root root (fun u xs => RootPhrase u xs ∧ ∃ v, w = u ++ v ∧ headKind v = .eof) w := by
  refine Reads.get fun s s' hs hs' => ?_
  refine (reads_statements hs hs').bind fun xs u v hw hxs => ?_
  obtain ⟨hends, lead, rest, rfl, hlead, hphrase⟩ := hxs
  split
  · exact .fail _
  · rename_i hsome
    refine .pure ?_
    rw [List.append_nil]
    refine ⟨?_, hends⟩
    rcases hphrase with ⟨rfl, -⟩ | ⟨hphrase, -⟩
    · exact absurd rfl hsome
    · exact .mk hlead hphrase

end TokenReader

end TabularQuery
