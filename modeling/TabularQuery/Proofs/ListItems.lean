import TabularQuery.Proofs.JoinedTexts

/-!
Items of a list after IN. They are read at the level of sums, so that of the texts that stand for expressions by
themselves only those of sums may be written in a list; any other has to be put in parentheses. Which these are is told
by the outermost operator.
-/

namespace TabularQuery

open Grammar
open TokenReader (Level Gives)
open TokenStream (showing)

/-! ### Phrases that start alike -/

theorem TokenStream.showing_injective (stop : Token) {v v' : List Token} (h : showing stop [] v = showing stop [] v') :
    v = v' := by
  have hrow : ∀ w : List Token, (showing stop [] w).current :: (showing stop [] w).rest = w ++ [stop] := by
    intro w
    cases w <;> rfl
  have hrows : v ++ [stop] = v' ++ [stop] := by rw [← hrow, ← hrow, h]
  exact List.append_cancel_right hrows

section Unique

variable {α : Type} {u u' v v' : List Token}

theorem TokenReader.Gives.unique {p : TokenReader α} {a a' : α} (h : Gives p a u v) (h' : Gives p a' u' v')
    (hrow : u ++ v = u' ++ v') : a = a' ∧ u = u' ∧ v = v' := by
  let stop : Token := ⟨.eof, "", 0, 0, ⟨1, 1⟩⟩
  have hend := h stop [] rfl
  rw [hrow, h' stop [] rfl] at hend
  obtain ⟨rfl, hv⟩ := EStateM.Result.ok.inj hend
  obtain rfl := TokenStream.showing_injective stop hv
  exact ⟨rfl, List.append_cancel_right hrow, rfl⟩

theorem exprPhrase_unique {ℓ : Level} {e e' : Expr} (h : ExprPhrase ℓ u e) (h' : ExprPhrase ℓ u' e')
    (hv : headKind v ∈ ℓ.follow) (hv' : headKind v' ∈ ℓ.follow) (hrow : u ++ v = u' ++ v') :
    e = e' ∧ u = u' ∧ v = v' := by
  have haccepts : TokenReader.Accepts (TokenReader.exprAt (8 * max u.length u'.length) ℓ) (ExprPhrase ℓ) ℓ.follow
      (max u.length u'.length) := TokenReader.accepts_exprAt (Nat.le_add_right _ _)
  exact (haccepts u e v (Nat.le_max_left _ _) h hv).unique (haccepts u' e' v' (Nat.le_max_right _ _) h' hv') hrow

theorem gives_items {items : List Expr} {rparen : Token} {n : Nat} (h : CommaList (ExprPhrase .or) u items)
    (hn : u.length ≤ n) (closes : rparen.kind = .rparen) :
    Gives (TokenReader.commaList (TokenReader.exprAt (8 * n) .or)) items u (rparen :: v) := by
  have haccepts : TokenReader.Accepts (TokenReader.exprAt (8 * n) .or) (ExprPhrase .or) Level.followWhole u.length :=
    TokenReader.accepts_exprAt (by omega)
  exact TokenReader.gives_commaList haccepts h (by decide) (by simp [closes, Level.followWhole]) (by simp [closes])

theorem commaList_unique {items items' : List Expr} {rparen rparen' : Token} (h : CommaList (ExprPhrase .or) u items)
    (h' : CommaList (ExprPhrase .or) u' items') (closes : rparen.kind = .rparen) (closes' : rparen'.kind = .rparen)
    (hrow : u ++ rparen :: v = u' ++ rparen' :: v') : items = items' ∧ u = u' ∧ rparen :: v = rparen' :: v' :=
  (gives_items h (Nat.le_max_left u.length u'.length) closes).unique
    (gives_items h' (Nat.le_max_right u.length u'.length) closes') hrow

end Unique

/-! ### Sums -/

namespace Expr

/-- Is the outermost operator, if there is one, tighter than the comparisons? -/
def isSum : Expr → Bool
  | .binary op _ _ => 4 ≤ op.level.depth
  | .unary .not _ | .inList _ _ => false
  | _ => true

end Expr

theorem TokenReader.Level.depth_injective : Function.Injective Level.depth := by
  intro ℓ ℓ' h
  cases ℓ <;> cases ℓ' <;> first | rfl | cases h

theorem isSum_of_phrase {ℓ : Level} {u : List Token} {e : Expr} (hℓ : 4 ≤ ℓ.depth) : ExprPhrase ℓ u e → e.isSum
  | .tighter next phrase => isSum_of_phrase (by rw [Level.depth_tighter next]; omega) phrase
  | .binary level _ _ _ _ _ => by
    subst level
    exact decide_eq_true hℓ
  | .not _ _ | .compare _ _ _ _ | .notLike _ _ _ _ | .inList _ _ _ _ _ | .notIn _ _ _ _ _ _ => absurd hℓ (by decide)
  | .plus _ operand => isSum_of_phrase hℓ operand
  | .minus _ _ | .literal _ | .column _ _ | .call _ _ _ _ _ | .parens _ _ _ => rfl

theorem sum_of_isSum {ℓ : Level} {u : List Token} {e : Expr} (hℓ : ℓ.depth ≤ 4) (hsum : e.isSum) :
    ExprPhrase ℓ u e → ExprPhrase .sum u e
  | h@(.tighter next phrase) => by
    by_cases hself : ℓ = .sum
    · exact hself ▸ h
    · have hlooser : ℓ.depth ≠ 4 := Level.depth_injective.ne hself
      exact sum_of_isSum (by rw [Level.depth_tighter next]; omega) hsum phrase
  | h@(.binary level _ _ _ _ _) => by
    have htight := of_decide_eq_true hsum
    rw [level] at htight
    obtain rfl : ℓ = .sum := Level.depth_injective (Nat.le_antisymm hℓ htight)
    exact h
  | .compare level _ _ _ => by
    have htight := of_decide_eq_true hsum
    rw [level] at htight
    exact absurd htight (by decide)
  | .not _ _ | .notLike _ _ _ _ | .inList _ _ _ _ _ | .notIn _ _ _ _ _ _ => nomatch hsum
  | .minus _ _ | .plus _ _ | .literal _ | .column _ _ | .call _ _ _ _ _ | .parens _ _ _ => absurd hℓ (by decide)

section Lists

variable {α : Type} {P Q : List Token → α → Prop} {w : List Token} {as : List α}

theorem Grammar.CommaList.imp (h : CommaList P w as) (hP : ∀ u, ∀ a ∈ as, P u a → Q u a) : CommaList Q w as := by
  induction h with
  | one phrase => exact .one (hP _ _ List.mem_cons_self phrase)
  | more phrase comma rest ih =>
    exact .more (hP _ _ List.mem_cons_self phrase) comma (ih fun u a ha => hP u a (List.mem_cons_of_mem _ ha))

theorem Grammar.CommaList.forall {R : α → Prop} (h : CommaList P w as) (hR : ∀ u a, P u a → R a) : ∀ a ∈ as, R a := by
  induction h with
  | one phrase => exact List.forall_mem_singleton.mpr (hR _ _ phrase)
  | more phrase comma rest ih => exact List.forall_mem_cons.mpr ⟨hR _ _ phrase, ih⟩

end Lists

theorem or_of_comparison {u : List Token} {e : Expr} (h : ExprPhrase .comparison u e) : ExprPhrase .or u e :=
  .tighter rfl (.tighter rfl (.tighter rfl h))

/-! ### Lists -/

/-- IN, or NOT IN where the answer is the opposite one. -/
inductive InWords : (negated : Bool) → List Token → Prop
  | isIn {t : Token} (isIn : t.kind = .kwIn) : InWords false [t]
  | notIn {not t : Token} (isNot : not.kind = .kwNot) (isIn : t.kind = .kwIn) : InWords true [not, t]

/-- The test for the items of a list, or the opposite one. -/
def Expr.listed (negated : Bool) (x : Expr) (items : List Expr) : Expr :=
  if negated then .unary .not (.inList x items) else .inList x items

section Listed

variable {u v w words : List Token} {lparen rparen : Token} {negated : Bool} {x e : Expr} {items : List Expr}

theorem InWords.phrase (hwords : InWords negated words) (left : ExprPhrase .sum u x) (opens : lparen.kind = .lparen)
    (list : CommaList (ExprPhrase .sum) v items) (closes : rparen.kind = .rparen) :
    ExprPhrase .comparison (u ++ (words ++ lparen :: (v ++ [rparen]))) (.listed negated x items) := by
  cases hwords with
  | isIn isIn => exact .inList left isIn opens list closes
  | notIn isNot isIn => exact .notIn left isNot isIn opens list closes

theorem InWords.head (hwords : InWords negated words) (w : List Token) : headKind (words ++ w) ∈ [.kwIn, .kwNot] := by
  cases hwords with
  | isIn isIn => simp [isIn]
  | notIn isNot => simp [isNot]

theorem followOperand_of_spelled {op : BinaryOp} (hloose : op.level.depth < 3) :
    ∀ k ∈ op.spellings, k ∈ Level.followOperand := by
  cases op with
  | or | and => decide
  | add | sub | mul | div | mod | eq | ne | lt | le | gt | ge | like => exact absurd hloose (by decide)

/-- An expression that does not start with NOT starts with a comparison. -/
theorem comparison_start {ℓ : Level} {w : List Token} {e : Expr} (hℓ : ℓ.depth ≤ 3) (hnot : headKind w ≠ .kwNot) :
    ExprPhrase ℓ w e → ∃ u v a, w = u ++ v ∧ ExprPhrase .comparison u a ∧ headKind v ∈ Level.followOperand
  | h@(.tighter next phrase) => by
    by_cases hself : ℓ = .comparison
    · exact ⟨w, [], e, (List.append_nil w).symm, hself ▸ h, by decide⟩
    · have hlooser : ℓ.depth ≠ 3 := Level.depth_injective.ne hself
      exact comparison_start (by rw [Level.depth_tighter next]; omega) hnot phrase
  | @Grammar.ExprPhrase.binary _ _ op t w₁ w₂ _ _ level several _ left spelled _ => by
    have hfirst : headKind w₁ ≠ .kwNot := by
      obtain ⟨t₁, w₁, rfl⟩ := List.exists_cons_of_ne_nil (TokenReader.exprPhrase_ne_nil left)
      exact hnot
    obtain ⟨u, v, a, rfl, hphrase, hv⟩ := comparison_start hℓ hfirst left
    refine ⟨u, v ++ t :: w₂, a, List.append_assoc _ _ _, hphrase, ?_⟩
    cases v with
    | cons t₁ v => exact hv
    | nil =>
      have hloose : ℓ.depth < 3 := Nat.lt_of_le_of_ne hℓ (Level.depth_injective.ne several)
      exact followOperand_of_spelled (level ▸ hloose) _ spelled
  | .not keyword _ => absurd keyword hnot
  | h@(.compare _ _ _ _) | h@(.notLike _ _ _ _) | h@(.inList _ _ _ _ _) | h@(.notIn _ _ _ _ _ _) =>
    ⟨_, [], _, (List.append_nil _).symm, h, by decide⟩
  | .minus _ _ | .plus _ _ | .literal _ | .column _ _ | .call _ _ _ _ _ | .parens _ _ _ => absurd hℓ (by decide)

theorem list_of_phrase (left : ExprPhrase .sum u x) (hw : headKind w ∈ [.kwIn, .kwNot])
    (h : ExprPhrase .or (u ++ w) e) :
    (∃ (negated : Bool) (words : List Token) (lparen : Token) (v : List Token) (rparen : Token) (items : List Expr)
      (after : List Token), w = words ++ lparen :: (v ++ rparen :: after) ∧ InWords negated words ∧
      lparen.kind = .lparen ∧ CommaList (ExprPhrase .sum) v items ∧ rparen.kind = .rparen) ∨
    ∃ (not like : Token) (after : List Token), w = not :: like :: after ∧ like.kind = .kwLike := by
  have hnot : headKind (u ++ w) ≠ .kwNot := by
    have hfirst := headKind_append (TokenReader.headKind_expr left) (TokenReader.eof_notMem_first _) w
    have hother : ∀ k ∈ Level.sum.first, k ≠ .kwNot := by decide
    exact hother _ hfirst
  have hfollow : headKind w ∈ Level.sum.follow := by
    have hsum : ∀ k ∈ [TokenKind.kwIn, .kwNot], k ∈ Level.sum.follow := by decide
    exact hsum _ hw
  obtain ⟨u', after, a, hrow, hphrase, hafter⟩ := comparison_start (by decide) hnot h
  -- the operand on the left is the one given, since what comes after it can follow a sum
  have hrest : ∀ {u₁ w₁ : List Token} {b : Expr}, ExprPhrase .sum u₁ b → u' = u₁ ++ w₁ →
      headKind (w₁ ++ after) ∈ Level.sum.follow → w = w₁ ++ after := by
    rintro u₁ w₁ b left' rfl hw₁
    exact (exprPhrase_unique left left' hfollow hw₁ (hrow.trans (List.append_assoc _ _ _))).2.2
  cases hphrase with
  | tighter next phrase =>
    cases next
    have hother : ∀ k ∈ Level.followOperand, k ∉ [TokenKind.kwIn, .kwNot] := by decide
    rw [hrest phrase (List.append_nil _).symm (List.mem_append_right _ hafter)] at hw
    exact absurd hw (hother _ hafter)
  | binary _ several => exact absurd rfl several
  | @compare op t _ v _ _ level left' spelled right =>
    have hkinds : ∀ k ∈ op.spellings, k ∈ Level.sum.follow ∧ k ∉ [TokenKind.kwIn, .kwNot] := by
      cases op <;> cases level <;> decide
    rw [hrest left' rfl (hkinds _ spelled).1] at hw
    exact absurd hw (hkinds _ spelled).2
  | notLike left' isNot isLike right =>
    have hw' := hrest left' rfl (by simp [isNot, Level.follow, Level.followSum])
    exact .inr ⟨_, _, _, hw', isLike⟩
  | inList left' isIn opens list closes =>
    have hw' := hrest left' rfl (by simp [isIn, Level.follow, Level.followSum])
    exact .inl ⟨false, _, _, _, _, _, after, by simpa using hw', .isIn isIn, opens, list, closes⟩
  | notIn left' isNot isIn opens list closes =>
    have hw' := hrest left' rfl (by simp [isNot, Level.follow, Level.followSum])
    exact .inl ⟨true, _, _, _, _, _, after, by simpa using hw', .notIn isNot isIn, opens, list, closes⟩

theorem InWords.unique {words' : List Token} {lparen' : Token} {negated' : Bool} (h : InWords negated words)
    (h' : InWords negated' words') (hrow : words ++ lparen :: v = words' ++ lparen' :: w) : v = w := by
  cases h <;> cases h' <;> simp_all

/-- Where the items are expressions by themselves, the list is one of sums or is not read at all. -/
theorem listed_phrase_iff (left : ExprPhrase .sum u x) (hwords : InWords negated words) (opens : lparen.kind = .lparen)
    (list : CommaList (ExprPhrase .or) v items) (closes : rparen.kind = .rparen) :
    ExprPhrase .or (u ++ (words ++ lparen :: (v ++ [rparen]))) e ↔
      e = .listed negated x items ∧ ∀ item ∈ items, item.isSum := by
  have hphrase : (∀ item ∈ items, item.isSum) →
      ExprPhrase .or (u ++ (words ++ lparen :: (v ++ [rparen]))) (.listed negated x items) := by
    intro hsums
    have hlist : CommaList (ExprPhrase .sum) v items :=
      list.imp fun u item hitem => sum_of_isSum (by decide) (hsums item hitem)
    exact or_of_comparison (hwords.phrase left opens hlist closes)
  constructor
  · intro h
    have hsums : ∀ item ∈ items, item.isSum := by
      obtain ⟨negated', words', lparen', v', rparen', items', after, hrow, hwords', opens', list', closes'⟩ |
        ⟨not, like, after, hrow, isLike⟩ := list_of_phrase left (hwords.head _) h
      · have hv := hwords.unique hwords' hrow
        have hlist' : CommaList (ExprPhrase .or) v' items' := list'.imp fun u item _ phrase =>
          or_of_comparison (.tighter rfl phrase)
        obtain ⟨rfl, -, -⟩ := commaList_unique list hlist' closes closes' hv
        exact list'.forall fun u item phrase => isSum_of_phrase (by decide) phrase
      · cases hwords <;> simp_all
    exact ⟨(exprPhrase_unique h (hphrase hsums) (v := []) (by decide) (by decide) rfl).1, hsums⟩
  · rintro ⟨rfl, hsums⟩
    exact hphrase hsums

end Listed

/-! ### Texts of lists -/

section Texts

variable {left : String} {x : Expr} {texts : List String} {items : List Expr} {r : List Char}

theorem spells_in : Spells "IN".toList (InWords false) (' ' :: r) := by
  refine (Spells.lexeme (lexeme_keyword (k := .kwIn) "IN" (by decide) (by decide) ends_space.notWord) (by decide)).mono ?_
  rintro u ⟨t, rfl, isIn, -⟩
  exact .isIn isIn

theorem spells_notIn : Spells "NOT IN".toList (InWords true) (' ' :: r) := by
  have htext : "NOT IN".toList = "NOT".toList ++ (' ' :: "IN".toList) := by decide
  rw [htext]
  refine (Spells.lexeme (lexeme_keyword (k := .kwNot) "NOT" (by decide) (by decide) ends_space.notWord)
    (by decide)).append ?_
  rintro u ⟨not, rfl, isNot, -⟩
  refine .space (spells_in.mono ?_)
  rintro v ⟨isIn⟩
  exact .notIn isNot isIn

theorem readExpr?_listed {words : String} {negated : Bool}
    (hwords : ∀ r, Spells words.toList (InWords negated) (' ' :: r)) (hleft : StandsFor .sum left x)
    (hitems : List.Forall₂ (StandsFor .or) texts items) (hsome : texts ≠ []) :
    readExpr? .or (left ++ " " ++ words ++ " (" ++ ", ".intercalate texts ++ ")") =
      if items.all Expr.isSum then some (.listed negated x items) else none := by
  have hsome' : items ≠ [] := by
    rintro rfl
    exact hsome (List.forall₂_nil_right_iff.mp hitems)
  have hread : List.Forall₂ (fun text item => ∀ r, Ends r → Spells text.toList (ExprPhrase .or · item) r) texts items := by
    refine hitems.imp fun _ _ hitem r hr => ?_
    exact hitem.spells hr
  have htext : (left ++ " " ++ words ++ " (" ++ ", ".intercalate texts ++ ")").toList =
      left.toList ++ (' ' :: (words.toList ++ (' ' :: (['('] ++ ((", ".intercalate texts).toList ++ [')']))))) := by
    simp
  have hspells : Spells (left ++ " " ++ words ++ " (" ++ ", ".intercalate texts ++ ")").toList
      (fun w => ∀ e, ExprPhrase .or w e ↔ e = .listed negated x items ∧ ∀ item ∈ items, item.isSum) [] := by
    rw [htext]
    refine (hleft.spells ends_space).append fun u hu => .space ?_
    refine (hwords _).append fun v hv => .space ?_
    refine (spells_commaList hread hsome' ends_rparen).enclosed.mono ?_
    rintro w ⟨lparen, rparen, w, rfl, opens, list, closes⟩ e
    exact listed_phrase_iff hu hv opens list closes
  obtain ⟨w, stop, htokens, -, hphrase⟩ := hspells.tokenize
  apply Option.ext
  intro e
  rw [readExpr?_eq_some_iff htokens, hphrase e, ← List.all_eq_true]
  split
  · next hsums => simp [hsums, eq_comm]
  · next hother => simp [hother]

theorem StandsFor.parens {text : String} {e : Expr} (h : StandsFor .or text e) :
    StandsFor .or ("(" ++ text ++ ")") (.parens e) := by
  apply Spells.standsFor
  have htext : ("(" ++ text ++ ")").toList = ['('] ++ (text.toList ++ [')']) := by simp
  rw [htext]
  refine (h.spells ends_rparen).enclosed.mono ?_
  rintro w ⟨lparen, rparen, w, rfl, opens, hw, closes⟩
  have hphrase : ExprPhrase .primary (lparen :: (w ++ [rparen])) (.parens e) := .parens opens hw closes
  exact or_of_comparison (.tighter rfl (.tighter rfl (.tighter rfl (.tighter rfl hphrase))))

theorem standsFor_parens (h : List.Forall₂ (StandsFor .or) texts items) :
    List.Forall₂ (StandsFor .or) (texts.map fun text => "(" ++ text ++ ")") (items.map .parens) := by
  rw [List.forall₂_map_left_iff, List.forall₂_map_right_iff]
  exact h.imp fun _ _ hitem => hitem.parens

/-- After a sum, a list of texts of expressions is read as the list of the expressions if each is a sum, and else is not
read. In parentheses all of them are. -/
theorem in_list_read_iff_sums (hleft : StandsFor .sum left x) (hitems : List.Forall₂ (StandsFor .or) texts items)
    (hsome : texts ≠ []) :
    readExpr? .or (left ++ " IN (" ++ ", ".intercalate texts ++ ")") =
      (if items.all Expr.isSum then some (.inList x items) else none) ∧
    readExpr? .or (left ++ " NOT IN (" ++ ", ".intercalate texts ++ ")") =
      (if items.all Expr.isSum then some (.unary .not (.inList x items)) else none) ∧
    let enclosed := ", ".intercalate (texts.map fun text => "(" ++ text ++ ")")
    readExpr? .or (left ++ " IN (" ++ enclosed ++ ")") = some (.inList x (items.map .parens)) ∧
      readExpr? .or (left ++ " NOT IN (" ++ enclosed ++ ")") = some (.unary .not (.inList x (items.map .parens))) := by
  have hin : left ++ " IN (" = left ++ " " ++ "IN" ++ " (" := by simp [String.append_assoc]
  have hnotIn : left ++ " NOT IN (" = left ++ " " ++ "NOT IN" ++ " (" := by simp [String.append_assoc]
  have hparens := standsFor_parens hitems
  have hsome' : (texts.map fun text => "(" ++ text ++ ")") ≠ [] := by simpa using hsome
  have hsums : (items.map Expr.parens).all Expr.isSum = true := by simp [Expr.isSum]
  rw [hin, hnotIn]
  refine ⟨?_, ?_, ?_, ?_⟩
  · exact readExpr?_listed (fun _ => spells_in) hleft hitems hsome
  · exact readExpr?_listed (fun _ => spells_notIn) hleft hitems hsome
  · exact (readExpr?_listed (fun _ => spells_in) hleft hparens hsome').trans (if_pos hsums)
  · exact (readExpr?_listed (fun _ => spells_notIn) hleft hparens hsome').trans (if_pos hsums)

/-- A comparison in a call is no obstacle, nor are signs and comments. -/
theorem in_list_read_iff_sums_nested :
    let left := "a + 1"
    let texts := ["f(b = 1) * 3", "/* c */ -d"]
    ∃ x items, StandsFor .sum left x ∧ List.Forall₂ (StandsFor .or) texts items ∧ x.text = "a + 1" ∧
      items.map Expr.text = ["f(b = 1) * 3", "-d"] ∧
      readExpr? .or (left ++ " IN (" ++ ", ".intercalate texts ++ ")") = some (.inList x items) ∧
      readExpr? .or (left ++ " NOT IN (" ++ ", ".intercalate texts ++ ")") = some (.unary .not (.inList x items)) := by
  intro left texts
  obtain ⟨x, hx, hxtext⟩ : ∃ x, StandsFor .sum left x ∧ x.text = "a + 1" :=
    exists_standsFor (by decide +kernel)
  obtain ⟨e, he, hevalue⟩ : ∃ e, StandsFor .or "f(b = 1) * 3" e ∧ (e.text, e.isSum) = ("f(b = 1) * 3", true) :=
    exists_standsFor (by decide +kernel)
  obtain ⟨e', he', hevalue'⟩ : ∃ e', StandsFor .or "/* c */ -d" e' ∧ (e'.text, e'.isSum) = ("-d", true) :=
    exists_standsFor (by decide +kernel)
  have hitems : List.Forall₂ (StandsFor .or) texts [e, e'] := .cons he (.cons he' .nil)
  obtain ⟨hetext, hesum⟩ := Prod.mk.inj hevalue
  obtain ⟨hetext', hesum'⟩ := Prod.mk.inj hevalue'
  have hsums : [e, e'].all Expr.isSum = true := by simp [hesum, hesum']
  obtain ⟨hin, hnotIn, -, -⟩ := in_list_read_iff_sums hx hitems (by decide)
  rw [if_pos hsums] at hin hnotIn
  exact ⟨x, [e, e'], hx, hitems, hxtext, by simp [hetext, hetext'], hin, hnotIn⟩

/-- A comparison is an expression that cannot be written in a list: `b IN (n = 1)` is not read. -/
theorem comparison_not_listed :
    ¬ ∀ (left : String) (x : Expr) (texts : List String) (items : List Expr), StandsFor .sum left x →
      List.Forall₂ (StandsFor .or) texts items → texts ≠ [] →
      readExpr? .or (left ++ " IN (" ++ ", ".intercalate texts ++ ")") = some (.inList x items) := by
  intro h
  obtain ⟨x, hx, -⟩ : ∃ x, StandsFor .sum "b" x ∧ x.text = "b" := exists_standsFor (by decide +kernel)
  obtain ⟨e, he, -⟩ : ∃ e, StandsFor .or "n = 1" e ∧ e.text = "n = 1" :=
    exists_standsFor (by decide +kernel)
  have hread := h "b" x ["n = 1"] [e] hx (.cons he .nil) (by decide)
  have hnone : (readExpr? .or ("b" ++ " IN (" ++ ", ".intercalate ["n = 1"] ++ ")")).isNone = true := by decide +kernel
  rw [hread] at hnone
  cases hnone

end Texts

end TabularQuery
