import TabularQuery.Proofs.Parsing
import TabularQuery.Proofs.TokenSpans
import TabularQuery.Query.Print

/-!
Texts of expressions are read back. An expression is printed without parentheses of its own, so that its text is a
phrase of the level that it was read at, or of the level of NOT where it was written with NOT after its first operand.
Two minus signs in a row would begin a comment.
-/

namespace TabularQuery

open Grammar
open TokenReader (Level)

namespace Expr

def isNeg : Expr → Bool
  | .unary .neg _ => true
  | _ => false

mutual

/-- Is there no minus sign directly under another? -/
def noDoubleNeg : Expr → Bool
  | .literal _ | .column _ _ => true
  | .call _ _ args => noDoubleNegs args
  | .binary _ left right => left.noDoubleNeg && right.noDoubleNeg
  | .unary .neg e => !e.isNeg && e.noDoubleNeg
  | .unary .not e => e.noDoubleNeg
  | .inList e items => e.noDoubleNeg && noDoubleNegs items
  | .parens e => e.noDoubleNeg

def noDoubleNegs : List Expr → Bool
  | [] => true
  | e :: es => e.noDoubleNeg && noDoubleNegs es

end

end Expr

/-- A token whose text is printed as it was read: no real number, and of the names only words. -/
structure PlainToken (t : Token) : Prop where
  notReal : t.kind ≠ .real
  name : t.kind = .identifier → IsName t.text

/-- The end of a text, or what can stand after an expression in one. -/
def Ends (r : List Char) : Prop := ∀ c ∈ r.head?, c ∈ [' ', ')', ',']

/-- The text of the expression is a phrase of the level. -/
def Written (ℓ : Level) (e : Expr) : Prop := ∀ r, Ends r → Spells e.text.toList (fun u => ExprPhrase ℓ u e) r

/-! ### Names and literals -/

section Atoms

variable {r : List Char} {w : List Token}

theorem ends_space : Ends (' ' :: r) := by simp [Ends]

theorem ends_rparen : Ends (')' :: r) := by simp [Ends]

theorem ends_comma : Ends (',' :: r) := by simp [Ends]

theorem Ends.notWord (h : Ends r) : ∀ c ∈ r.head?, isWordChar c = false := by
  have hother : ∀ c ∈ [' ', ')', ','], isWordChar c = false := by
    intro c hc
    simp only [List.mem_cons, List.not_mem_nil, or_false] at hc
    rcases hc with rfl | rfl | rfl <;> decide
  exact fun c hc => hother c (h c hc)

variable {name text : String} {c : Char} {k : TokenKind} {qualifier : Option String} {n : Int64}

theorem identifierName_of_isName (h : IsName name) : TokenReader.identifierName name = name := by
  obtain ⟨c, cs, hname, hc⟩ := h.start
  unfold TokenReader.identifierName
  split
  · next hbracket =>
    rw [hname] at hbracket
    cases hbracket
    cases hc
  · rfl

theorem isName_of_phrase (h : NamePhrase w name) (hplain : ∀ t ∈ w, PlainToken t) : IsName name := by
  obtain @⟨t, identifier⟩ := h
  have hname := (hplain t (by simp)).name identifier
  rw [identifierName_of_isName hname]
  exact hname

theorem spells_name (h : IsName name) (hr : ∀ c ∈ r.head?, isWordChar c = false) :
    Spells name.toList (fun w => NamePhrase w name) r := by
  refine (Spells.lexeme (lexeme_name h hr) (by simp)).mono fun w hw => ?_
  obtain ⟨t, rfl, hkind, htext⟩ := hw
  rw [String.ofList_toList] at htext
  have hphrase := NamePhrase.mk hkind
  rwa [htext, identifierName_of_isName h] at hphrase

theorem spells_qualified (hqualifier : ∀ a ∈ qualifier, IsName a)
    (hname : IsName name) (hr : ∀ c ∈ r.head?, isWordChar c = false) :
    Spells (Expr.qualified qualifier name).toList
      (fun w => ∃ u v, w = u ++ v ∧ QualifierPhrase u qualifier ∧ NamePhrase v name) r := by
  cases qualifier with
  | none => exact (spells_name hname hr).mono fun v hv => ⟨[], v, rfl, .none, hv⟩
  | some a =>
    have htext : (Expr.qualified (some a) name).toList = a.toList ++ (['.'] ++ name.toList) := by simp [Expr.qualified]
    have hdot : ∀ c ∈ (['.'] ++ name.toList ++ r).head?, isWordChar c = false := by simp; decide
    rw [htext]
    refine (spells_name (hqualifier a rfl) hdot).append fun u hu => ?_
    refine (Spells.mark (k := .dot) (by simp)).append fun v hv => ?_
    obtain ⟨dot, rfl, isDot⟩ := hv
    refine (spells_name hname hr).mono fun w hw => ?_
    exact ⟨u ++ [dot], w, by simp, .some hu isDot, hw⟩

theorem isName_of_qualifier (h : QualifierPhrase w qualifier)
    (hplain : ∀ t ∈ w, PlainToken t) : ∀ a ∈ qualifier, IsName a := by
  cases h with
  | none => exact nofun
  | some name isDot =>
    rintro a ⟨⟩
    exact isName_of_phrase name fun t ht => hplain t (by simp [ht])

theorem unquoted_quoted (text : String) : TokenReader.unquoted (Text.quoted text) = text := by
  simp [TokenReader.unquoted, Text.quoted, Text.singleQuotes_doubleQuotes]

theorem digits_count (h : CountPhrase w n) :
    ∃ m : Nat, n.toInt = m ∧ (toString n.toInt).toList = Nat.toDigits 10 m := by
  obtain @⟨t, n, integer, value⟩ := h
  have hrepr : ∀ m : Nat, toString (m : Int) = m.repr := fun _ => rfl
  exact ⟨_, value, by rw [value, hrepr, Nat.toList_repr]⟩

theorem isDigit_of_mem_toDigits {m : Nat} (h : c ∈ Nat.toDigits 10 m) : c.isDigit :=
  Nat.isDigit_of_mem_toDigits (by decide) (by decide) h

theorem head_toDigits (m : Nat) (cs : List Char) : (Nat.toDigits 10 m ++ cs).head? ≠ some '-' := by
  obtain ⟨c, l, hcons⟩ := List.exists_cons_of_ne_nil (Nat.toDigits_ne_nil (b := 10) (n := m))
  have hc : c.isDigit := isDigit_of_mem_toDigits (m := m) (by simp [hcons])
  rw [hcons]
  rintro ⟨⟩
  cases hc

theorem spells_digits (m : Nat) (hr : Ends r) : Spells (Nat.toDigits 10 m)
    (fun w => ∃ t : Token, w = [t] ∧ t.kind = .integer ∧ Decimal.natOfDigits t.text.toList = m) r := by
  have hdigits : Decimal.natOfDigits (Nat.toDigits 10 m) = m := Nat.ofDigitChars_toDigits (by decide) (by decide)
  have hother : ∀ c ∈ [' ', ')', ','], c.isDigit = false ∧ c ≠ '.' := by
    intro c hc
    simp only [List.mem_cons, List.not_mem_nil, or_false] at hc
    rcases hc with rfl | rfl | rfl <;> decide
  have hlexeme : Lexeme .integer (Nat.toDigits 10 m) r :=
    lexeme_digits Nat.toDigits_ne_nil (fun c => isDigit_of_mem_toDigits) fun c hc => hother c (hr c hc)
  refine (Spells.lexeme hlexeme (by simp)).mono fun w hw => ?_
  obtain ⟨t, hw, hkind, ht⟩ := hw
  exact ⟨t, hw, hkind, by rw [ht, String.toList_ofList, hdigits]⟩

theorem spells_count (h : CountPhrase w n) (hr : Ends r) :
    Spells (toString n.toInt).toList (fun w => CountPhrase w n) r := by
  obtain ⟨m, hm, htext⟩ := digits_count h
  rw [htext]
  refine (spells_digits m hr).mono fun w hw => ?_
  obtain ⟨t, rfl, hkind, hvalue⟩ := hw
  exact .mk hkind (by rw [hvalue, hm])

theorem lexeme_keyword (upper : String)
    (hletters : text.toList ≠ [] ∧ text.toList.all isWordStart = true)
    (hupper : text.toList.map Char.toUpper = upper.toList ∧ TokenKind.keywords.lookup upper = some k)
    (hr : ∀ c ∈ r.head?, isWordChar c = false) : Lexeme k text.toList r := by
  obtain rfl := ofWord_of_upper hupper.1 hupper.2
  obtain ⟨hsome, hletters⟩ := hletters
  rw [List.all_eq_true] at hletters
  obtain ⟨c, cs, hcons⟩ := List.exists_cons_of_ne_nil hsome
  exact lexeme_word ⟨c, cs, hcons, hletters c (by simp [hcons])⟩
    (fun c hc => isWordChar_of_isWordStart (hletters c hc)) hr

theorem spells_word (upper : String)
    (hletters : text.toList ≠ [] ∧ text.toList.all isWordStart = true)
    (hupper : text.toList.map Char.toUpper = upper.toList ∧ TokenKind.keywords.lookup upper = some k) (hk : k ≠ .eof)
    (hr : ∀ c ∈ r.head?, isWordChar c = false) : Spells text.toList (fun w => ∃ t : Token, w = [t] ∧ t.kind = k) r := by
  refine (Spells.lexeme (lexeme_keyword upper hletters hupper hr) hk).mono fun w hw => ?_
  obtain ⟨t, hw, hkind, -⟩ := hw
  exact ⟨t, hw, hkind⟩

theorem spells_boolean (b : Bool) (hr : Ends r) :
    Spells (Value.boolean b).literalText.toList (fun w => LiteralPhrase w (.boolean b)) r := by
  cases b with
  | true =>
    refine (spells_word (k := .kwTrue) "TRUE" (by decide) (by decide) (by simp) hr.notWord).mono fun w hw => ?_
    obtain ⟨t, rfl, hkind⟩ := hw
    exact .true hkind
  | false =>
    refine (spells_word (k := .kwFalse) "FALSE" (by decide) (by decide) (by simp) hr.notWord).mono fun w hw => ?_
    obtain ⟨t, rfl, hkind⟩ := hw
    exact .false hkind

theorem spells_text (text : String) (hr : Ends r) :
    Spells (Text.quoted text).toList (fun w => LiteralPhrase w (.text text)) r := by
  have hquote : r.head? ≠ some '\'' := fun h => absurd (hr _ h) (by decide)
  refine (Spells.lexeme (lexeme_quoted _ hquote) (by simp)).mono fun w hw => ?_
  obtain ⟨t, rfl, hkind, htext⟩ := hw
  have hphrase := LiteralPhrase.text hkind
  rwa [htext, String.ofList_toList, unquoted_quoted] at hphrase

theorem spells_literal {v : Value} (h : LiteralPhrase w v) (hplain : ∀ t ∈ w, PlainToken t) (hr : Ends r) :
    Spells v.literalText.toList (fun w => LiteralPhrase w v) r := by
  cases h with
  | integer count => exact (spells_count count hr).mono fun w => .integer
  | @real t isReal => exact absurd isReal (hplain t (by simp)).notReal
  | text => exact spells_text _ hr
  | true => exact spells_boolean true hr
  | false => exact spells_boolean false hr

end Atoms

/-! ### Lists -/

section Lists

variable {α : Type} {P : List Token → α → Prop} {texts : List String} {as : List α} {r : List Char}

/-- Texts that are read as the items, whatever ends them, are with commas between them read as the list. -/
theorem spells_commaList (h : List.Forall₂ (fun text a => ∀ r, Ends r → Spells text.toList (P · a) r) texts as)
    (hsome : as ≠ []) (hr : Ends r) : Spells (", ".intercalate texts).toList (CommaList P · as) r := by
  induction h with
  | nil => exact absurd rfl hsome
  | @cons text a texts as ha has ih =>
    cases has with
    | nil =>
      rw [String.intercalate_singleton]
      exact (ha r hr).mono fun u hu => .one hu
    | @cons text' a' texts as ha' has =>
      have htext : (", ".intercalate (text :: text' :: texts)).toList =
          text.toList ++ ([','] ++ (' ' :: (", ".intercalate (text' :: texts)).toList)) := by
        simp [String.intercalate_cons_cons]
      rw [htext]
      refine (ha _ ends_comma).append fun u hu => ?_
      refine (Spells.mark (k := .comma) (by simp)).append fun v hv => .space ?_
      obtain ⟨comma, rfl, isComma⟩ := hv
      exact (ih (List.cons_ne_nil _ _)).mono fun w hw => .more hu isComma hw

theorem spells_arguments (h : List.Forall₂ (fun text a => ∀ r, Ends r → Spells text.toList (P · a) r) texts as)
    (hr : Ends r) : Spells (", ".intercalate texts).toList (Arguments P · as) r := by
  by_cases hsome : as = []
  · subst hsome
    cases h
    refine Spells.nil.mono fun u hu => ?_
    rw [hu]
    exact .none
  · exact (spells_commaList h hsome hr).mono fun _ => .some

end Lists

/-! ### Expressions -/

section Expressions

variable {ℓ ℓ' : Level} {e a b : Expr} {r : List Char}

theorem spells_operator (op : BinaryOp) :
    Spells op.symbol.toList (fun w => ∃ t : Token, w = [t] ∧ t.kind ∈ op.spellings) (' ' :: r) := by
  have hspace : ∀ c ∈ (' ' :: r).head?, isWordChar c = false := ends_space.notWord
  have hword : ∀ k upper, op.spellings = [k] → k ≠ .eof →
      (op.symbol.toList ≠ [] ∧ op.symbol.toList.all isWordStart = true) →
      (op.symbol.toList.map Char.toUpper = upper.toList ∧ TokenKind.keywords.lookup upper = some k) →
      Spells op.symbol.toList (fun w => ∃ t : Token, w = [t] ∧ t.kind ∈ op.spellings) (' ' :: r) := by
    intro k upper hspelled hk hletters hupper
    refine (spells_word upper hletters hupper hk hspace).mono fun w hw => ?_
    obtain ⟨t, hw, rfl⟩ := hw
    exact ⟨t, hw, by simp [hspelled]⟩
  have hmark : ∀ k ∈ op.spellings, k ≠ .eof → Lexeme k op.symbol.toList (' ' :: r) →
      Spells op.symbol.toList (fun w => ∃ t : Token, w = [t] ∧ t.kind ∈ op.spellings) (' ' :: r) := by
    intro k hspelled hk h
    refine (Spells.lexeme h hk).mono fun w hw => ?_
    obtain ⟨t, hw, rfl, -⟩ := hw
    exact ⟨t, hw, hspelled⟩
  cases op with
  | like => exact hword .kwLike "LIKE" rfl (by simp) (by decide) (by decide)
  | and => exact hword .kwAnd "AND" rfl (by simp) (by decide) (by decide)
  | or => exact hword .kwOr "OR" rfl (by simp) (by decide) (by decide)
  | add => exact hmark .plus (by decide) (by simp) (lexeme_of_splitToken rfl (by decide) nofun nofun)
  | sub => exact hmark .minus (by decide) (by simp) (lexeme_of_splitToken rfl (by decide) (by simp) nofun)
  | mul => exact hmark .star (by decide) (by simp) (lexeme_of_splitToken rfl (by decide) nofun nofun)
  | div => exact hmark .slash (by decide) (by simp) (lexeme_of_splitToken rfl (by decide) nofun (by simp))
  | mod => exact hmark .percent (by decide) (by simp) (lexeme_of_splitToken rfl (by decide) nofun nofun)
  | eq => exact hmark .eq (by decide) (by simp) (lexeme_of_splitToken rfl (by decide) nofun nofun)
  | ne => exact hmark .ne (by decide) (by simp) (lexeme_of_splitToken rfl (by decide) nofun nofun)
  | lt => exact hmark .lt (by decide) (by simp) (lexeme_of_splitToken rfl (by decide) nofun nofun)
  | le => exact hmark .le (by decide) (by simp) (lexeme_of_splitToken rfl (by decide) nofun nofun)
  | gt => exact hmark .gt (by decide) (by simp) (lexeme_of_splitToken rfl (by decide) nofun nofun)
  | ge => exact hmark .ge (by decide) (by simp) (lexeme_of_splitToken rfl (by decide) nofun nofun)

theorem Written.looser (h : Written ℓ' e) (hnext : ℓ.tighter? = some ℓ') : Written ℓ e :=
  fun r hr => (h r hr).mono fun _ hu => .tighter hnext hu

variable {op : BinaryOp} {es args : List Expr} {qualifier : Option String} {name : String} {w u : List Token} {v : Value}

theorem written_binary {ℓ₁ ℓ₂ : Level} (ha : Written ℓ₁ a) (hb : Written ℓ₂ b)
    (hphrase : ∀ (u v : List Token) (t : Token), ExprPhrase ℓ₁ u a → t.kind ∈ op.spellings → ExprPhrase ℓ₂ v b →
      ExprPhrase ℓ (u ++ t :: v) (.binary op a b)) : Written ℓ (.binary op a b) := by
  intro r hr
  have htext : (Expr.binary op a b).text.toList =
      a.text.toList ++ (' ' :: (op.symbol.toList ++ (' ' :: b.text.toList))) := by simp [Expr.text]
  rw [htext]
  refine (ha _ ends_space).append fun u hu => .space ?_
  refine (spells_operator op).append fun v hv => .space ?_
  obtain ⟨t, rfl, ht⟩ := hv
  refine (hb r hr).mono fun w hw => ?_
  simpa using hphrase u w t hu ht hw

theorem written_compare (hlevel : op.level = .comparison) (ha : Written .sum a) (hb : Written .sum b) :
    Written .comparison (.binary op a b) :=
  written_binary ha hb fun _ _ _ hu ht hv => .compare hlevel hu ht hv

theorem written_not (h : Written .not e) : Written .not (.unary .not e) := by
  intro r hr
  have htext : (Expr.unary .not e).text.toList = "not".toList ++ (' ' :: e.text.toList) := by simp [Expr.text]
  rw [htext]
  refine (spells_word (k := .kwNot) "NOT" (by decide) (by decide) (by simp) ends_space.notWord).append
    fun v hv => .space ?_
  obtain ⟨t, rfl, ht⟩ := hv
  exact (h r hr).mono fun w hw => .not ht hw

theorem written_neg (h : Written .sign e) (hhead : ∀ r, (e.text.toList ++ r).head? ≠ some '-') :
    Written .sign (.unary .neg e) := by
  intro r hr
  have htext : (Expr.unary .neg e).text.toList = ['-'] ++ e.text.toList := by simp [Expr.text]
  rw [htext]
  refine (Spells.lexeme (lexeme_minus (hhead r)) (by simp)).append fun v hv => ?_
  obtain ⟨t, rfl, ht, -⟩ := hv
  exact (h r hr).mono fun w hw => .minus ht hw

theorem written_parens (h : Written .or e) : Written .primary (.parens e) := by
  intro r hr
  have htext : (Expr.parens e).text.toList = ['('] ++ (e.text.toList ++ [')']) := by simp [Expr.text]
  rw [htext]
  refine (h _ ends_rparen).enclosed.mono fun w hw => ?_
  obtain ⟨lparen, rparen, u, rfl, opens, hu, closes⟩ := hw
  exact .parens opens hu closes

theorem spells_texts (h : ∀ e ∈ es, Written ℓ e) :
    List.Forall₂ (fun text e => ∀ r, Ends r → Spells text.toList (ExprPhrase ℓ · e) r) (Expr.texts es) es := by
  induction es with
  | nil => exact .nil
  | cons e es ih =>
    rw [List.forall_mem_cons] at h
    exact .cons h.1 (ih h.2)

theorem written_inList (h : Written .sum e) (hsome : es ≠ []) (hes : ∀ e ∈ es, Written .sum e) :
    Written .comparison (.inList e es) := by
  intro r hr
  have htext : (Expr.inList e es).text.toList =
      e.text.toList ++ (' ' :: ("in".toList ++ (' ' :: (['('] ++
        ((", ".intercalate (Expr.texts es)).toList ++ [')']))))) := by simp [Expr.text]
  rw [htext]
  refine (h _ ends_space).append fun u hu => .space ?_
  refine (spells_word (k := .kwIn) "IN" (by decide) (by decide) (by simp) ends_space.notWord).append
    fun v hv => .space ?_
  obtain ⟨t, rfl, isIn⟩ := hv
  refine (spells_commaList (spells_texts hes) hsome ends_rparen).enclosed.mono fun w hw => ?_
  obtain ⟨lparen, rparen, w, rfl, opens, hw, closes⟩ := hw
  simpa using ExprPhrase.inList hu isIn opens hw closes

theorem written_call
    (hqualifier : ∀ a ∈ qualifier, IsName a) (hname : IsName name) (hargs : ∀ e ∈ args, Written .or e) :
    Written .primary (.call qualifier name args) := by
  intro r hr
  have htext : (Expr.call qualifier name args).text.toList = (Expr.qualified qualifier name).toList ++ (['('] ++
      ((", ".intercalate (Expr.texts args)).toList ++ [')'])) := by simp [Expr.text]
  have hparen : ∀ c ∈ (['('] ++ ((", ".intercalate (Expr.texts args)).toList ++ [')']) ++ r).head?,
      isWordChar c = false := by simp; decide
  rw [htext]
  refine (spells_qualified hqualifier hname hparen).append fun u hu => ?_
  obtain ⟨u, v, rfl, hu, hv⟩ := hu
  refine (spells_arguments (spells_texts hargs) ends_rparen).enclosed.mono fun w hw => ?_
  obtain ⟨lparen, rparen, w, rfl, opens, hw, closes⟩ := hw
  simpa using ExprPhrase.call hu hv opens hw closes

theorem written_column (hqualifier : ∀ a ∈ qualifier, IsName a)
    (hname : IsName name) : Written .primary (.column qualifier name) := by
  intro r hr
  refine (spells_qualified hqualifier hname hr.notWord).mono fun w hw => ?_
  obtain ⟨u, v, rfl, hu, hv⟩ := hw
  exact .column hu hv

theorem written_literal (h : LiteralPhrase w v) (hplain : ∀ t ∈ w, PlainToken t) :
    Written .primary (.literal v) :=
  fun _ hr => (spells_literal h hplain hr).mono fun _ => .literal

/-! ### What was read is printed so that it is read again -/

/-- The level that an expression's text has: NOT comes first in it. -/
def printed : Level → Level
  | .comparison => .not
  | ℓ => ℓ

theorem head_qualified (hqualifier : ∀ a ∈ qualifier, IsName a)
    (hname : IsName name) (cs : List Char) : ((Expr.qualified qualifier name).toList ++ cs).head? ≠ some '-' := by
  have hstart : ∀ {name : String}, IsName name → ∀ cs, (name.toList ++ cs).head? ≠ some '-' := by
    intro name h cs
    obtain ⟨c, l, hcons, hc⟩ := h.start
    rw [hcons]
    rintro ⟨⟩
    cases hc
  cases qualifier with
  | none => exact hstart hname cs
  | some a => simpa [Expr.qualified] using hstart (hqualifier a rfl) ('.' :: (name.toList ++ cs))

theorem head_literal (h : LiteralPhrase w v) (hplain : ∀ t ∈ w, PlainToken t)
    (cs : List Char) : (v.literalText.toList ++ cs).head? ≠ some '-' := by
  cases h with
  | integer count =>
    obtain ⟨m, -, htext⟩ := digits_count count
    simp only [Value.literalText, Value.render, htext]
    exact head_toDigits m cs
  | @real t isReal => exact absurd isReal (hplain t (by simp)).notReal
  | text => simp [Value.literalText, Text.quoted]
  | true | false => simp [Value.literalText, Value.render]

theorem head_primary (h : ExprPhrase .primary u e) (hplain : ∀ t ∈ u, PlainToken t) (cs : List Char) :
    (e.text.toList ++ cs).head? ≠ some '-' := by
  cases h with
  | tighter next => cases next
  | binary _ _ next => cases next
  | literal literal => exact head_literal literal hplain cs
  | column before isName =>
    have hqualifier := isName_of_qualifier before fun t ht => hplain t (by simp [ht])
    exact head_qualified hqualifier (isName_of_phrase isName fun t ht => hplain t (by simp [ht])) cs
  | call before isName opens arguments closes =>
    have hqualifier := isName_of_qualifier before fun t ht => hplain t (by simp [ht])
    have hname := isName_of_phrase isName fun t ht => hplain t (by simp [ht])
    simp only [Expr.text, String.toList_append, List.append_assoc]
    exact head_qualified hqualifier hname _
  | parens => simp [Expr.text]

theorem head_sign {u : List Token} {e : Expr} (hneg : e.isNeg = false) (cs : List Char)
    (hplain : ∀ t ∈ u, PlainToken t) : ExprPhrase .sign u e → (e.text.toList ++ cs).head? ≠ some '-'
  | .tighter next phrase => by
    cases next
    exact head_primary phrase hplain cs
  | @ExprPhrase.binary _ _ op _ _ _ _ _ hlevel _ _ _ _ _ => by cases op <;> cases hlevel
  | .minus _ _ => by cases hneg
  | .plus _ operand => head_sign hneg cs (fun t ht => hplain t (by simp [ht])) operand

theorem written_of_commaList
    (hitem : ∀ (u' : List Token) (e : Expr), u'.length ≤ u.length → ExprPhrase ℓ u' e → (∀ t ∈ u', PlainToken t) →
      e.noDoubleNeg → Written ℓ e)
    (h : CommaList (ExprPhrase ℓ) u es) (hplain : ∀ t ∈ u, PlainToken t) (hneg : Expr.noDoubleNegs es) :
    es ≠ [] ∧ ∀ e ∈ es, Written ℓ e := by
  induction h with
  | one phrase =>
    simp only [Expr.noDoubleNegs, Bool.and_true] at hneg
    exact ⟨List.cons_ne_nil _ _, List.forall_mem_singleton.mpr (hitem _ _ (Nat.le_refl _) phrase hplain hneg)⟩
  | @more u w t e es phrase comma rest ih =>
    simp only [Expr.noDoubleNegs, Bool.and_eq_true] at hneg
    simp only [List.length_append, List.length_cons] at hitem
    have hfirst : Written ℓ e := hitem u e (by omega) phrase (fun t ht => hplain t (by simp [ht])) hneg.1
    obtain ⟨-, hrest⟩ := ih (fun u' e' hle => hitem u' e' (by omega)) (fun t ht => hplain t (by simp [ht])) hneg.2
    exact ⟨List.cons_ne_nil _ _, List.forall_mem_cons.mpr ⟨hfirst, hrest⟩⟩

theorem printed_operand (hlevel : op.level = ℓ) (several : ℓ ≠ .comparison)
    (hnext : ℓ.tighter? = some ℓ') : printed ℓ = ℓ ∧ printed ℓ' = ℓ' := by
  subst hlevel
  cases op with
  | eq | ne | lt | le | gt | ge | like => exact absurd rfl several
  | add | sub | mul | div | mod | and | or =>
    cases hnext
    exact ⟨rfl, rfl⟩

/-- The text of an expression is a phrase of its level. -/
theorem written_of_phrase (h : ExprPhrase ℓ u e) (hplain : ∀ t ∈ u, PlainToken t) (hneg : e.noDoubleNeg) :
    Written (printed ℓ) e := by
  induction h using ExprPhrase.length_induction with
  | @step ℓ u e h hpart htighter =>
    cases h with
    | @tighter _ ℓ' _ _ next phrase =>
      have htext : Written (printed ℓ') e := htighter next phrase hplain hneg
      cases ℓ with
      | primary => cases next
      | not =>
        cases next
        exact htext
      | comparison =>
        cases next
        exact (htext.looser (ℓ := .comparison) rfl).looser rfl
      | or | and | sum | product | sign =>
        cases next
        exact htext.looser rfl
    | @binary _ ℓ' op t u v a b level several next left spelled right =>
      simp only [Expr.noDoubleNeg, Bool.and_eq_true, List.forall_mem_append, List.forall_mem_cons] at hneg hplain
      have hleft : Written (printed ℓ) a := hpart (by simp) left hplain.1 hneg.1
      have hright : Written (printed ℓ') b := hpart (by simp; omega) right hplain.2.2 hneg.2
      obtain ⟨hℓ, hℓ'⟩ := printed_operand level several next
      rw [hℓ] at hleft ⊢
      rw [hℓ'] at hright
      exact written_binary hleft hright fun u v t hu ht hv => .binary level several next hu ht hv
    | not keyword operand =>
      exact written_not (hpart (by simp) operand (List.forall_mem_cons.mp hplain).2 hneg)
    | @compare op t u v a b level left spelled right =>
      simp only [Expr.noDoubleNeg, Bool.and_eq_true, List.forall_mem_append, List.forall_mem_cons] at hneg hplain
      have hleft : Written .sum a := hpart (by simp) left hplain.1 hneg.1
      have hright : Written .sum b := hpart (by simp; omega) right hplain.2.2 hneg.2
      exact (written_compare level hleft hright).looser rfl
    | @notLike not like u v a b left isNot isLike right =>
      simp only [Expr.noDoubleNeg, Bool.and_eq_true, List.forall_mem_append, List.forall_mem_cons] at hneg hplain
      have hleft : Written .sum a := hpart (by simp) left hplain.1 hneg.1
      have hright : Written .sum b := hpart (by simp; omega) right hplain.2.2.2 hneg.2
      exact written_not ((written_compare rfl hleft hright).looser rfl)
    | @inList t lparen rparen u v a items left isIn opens list closes =>
      simp only [Expr.noDoubleNeg, Bool.and_eq_true, List.forall_mem_append, List.forall_mem_cons] at hneg hplain
      have hleft : Written .sum a := hpart (by simp) left hplain.1 hneg.1
      obtain ⟨hsome, hitems⟩ :=
        written_of_commaList (fun u' e' hle => hpart (by simp; omega)) list hplain.2.2.2.1 hneg.2
      exact (written_inList hleft hsome hitems).looser rfl
    | @notIn not t lparen rparen u v a items left isNot isIn opens list closes =>
      simp only [Expr.noDoubleNeg, Bool.and_eq_true, List.forall_mem_append, List.forall_mem_cons] at hneg hplain
      have hleft : Written .sum a := hpart (by simp) left hplain.1 hneg.1
      obtain ⟨hsome, hitems⟩ :=
        written_of_commaList (fun u' e' hle => hpart (by simp; omega)) list hplain.2.2.2.2.1 hneg.2
      exact written_not ((written_inList hleft hsome hitems).looser rfl)
    | minus isMinus operand =>
      simp only [Expr.noDoubleNeg, Bool.and_eq_true, Bool.not_eq_true', List.forall_mem_cons] at hneg hplain
      have hoperand := hpart (by simp) operand hplain.2 hneg.2
      exact written_neg hoperand fun r => head_sign hneg.1 r hplain.2 operand
    | plus isPlus operand => exact hpart (by simp) operand (List.forall_mem_cons.mp hplain).2 hneg
    | literal literal => exact written_literal literal hplain
    | column before isName =>
      obtain ⟨hbefore, hname⟩ := List.forall_mem_append.mp hplain
      exact written_column (isName_of_qualifier before hbefore) (isName_of_phrase isName hname)
    | @call lparen rparen u v w qualifier name args before isName opens arguments closes =>
      simp only [List.forall_mem_append, List.forall_mem_cons] at hplain
      have hargs : ∀ e ∈ args, Written .or e := by
        cases arguments with
        | none => exact nofun
        | some list =>
          exact (written_of_commaList (fun u' e' hle => hpart (by simp; omega)) list hplain.2.2.2.1 hneg).2
      exact written_call (isName_of_qualifier before hplain.1) (isName_of_phrase isName hplain.2.1) hargs
    | parens opens inner closes =>
      simp only [List.forall_mem_append, List.forall_mem_cons] at hplain
      exact written_parens (hpart (by rw [List.length_cons, List.length_append]; omega) inner hplain.2.1 hneg)

theorem phrase_of_expr {s' : TokenStream} {stop : Token} (hstop : stop.kind = .eof)
    (h : TokenReader.expr (.showing stop [] w) = .ok e s') : ∃ u v, w = u ++ v ∧ ExprPhrase .or u e := by
  rcases TokenReader.reads_expr (w := w) stop [] [] hstop with ⟨e', u, v, hw, hphrase, hok, -⟩ | ⟨err, v, -, herror, -⟩
  · rw [hok] at h
    cases h
    exact ⟨u, v, hw, hphrase⟩
  · rw [herror] at h
    cases h

/-- An expression that is read anywhere in a text with no real numbers and no names in brackets, and in which no minus
sign stands directly under another, is read again from its own text, which is used up by that. -/
theorem expression_text_reads_back {source : String} {toks before : List Token} {s s' : TokenStream}
    (htoks : tokenize source = .ok toks) (hreal : ∀ t ∈ toks, t.kind ≠ .real)
    (hbracket : ∀ t ∈ toks, t.kind = .identifier → t.text.toList.head? ≠ some '[')
    (hs : toks = before ++ s.current :: s.rest) (he : TokenReader.expr s = .ok e s') (hneg : e.noDoubleNeg) :
    ∃ again start stop, tokenize e.text = .ok again ∧ TokenStream.ofTokens? again = some start ∧
      stop.kind = .eof ∧ TokenReader.expr start = .ok e ⟨stop, []⟩ := by
  obtain ⟨body, last, s₁, rfl, hlast, hscans, -⟩ := Scanner.scans_of_tokens htoks
  obtain ⟨w, hw, rfl⟩ := TokenStream.showing_of_append hs
  obtain ⟨u, v, rfl, hphrase⟩ := phrase_of_expr hlast he
  have hplain : ∀ t ∈ u, PlainToken t := by
    intro t ht
    have hbody : t ∈ body := hw.subset (List.mem_append_left v ht)
    have htok : t ∈ body ++ [last] := List.mem_append_left _ hbody
    exact ⟨hreal t htok, fun hkind => hscans.isName hbody hkind (hbracket t htok hkind)⟩
  have hwritten : Written .or e := written_of_phrase hphrase hplain hneg
  obtain ⟨u', stop, htokens, hstop, hphrase'⟩ := (hwritten [] (by simp [Ends])).tokenize
  have hgives := TokenReader.gives_expr hphrase' (v := []) (by decide) stop [] hstop
  rw [List.append_nil] at hgives
  exact ⟨u' ++ [stop], .showing stop [] u', stop, htokens, TokenStream.ofTokens?_append stop [] u', hstop, hgives⟩

/-- NOT before and after an operand, quotes in a text, signs, a call without arguments, and operators in capitals. -/
theorem expression_text_reads_back_nested :
    let source := "NOT a.b NOT LIKE 'it''s' AND -f(1, (+ c)) * 2 IN (TRUE, 7 - -c) OR g() != 0"
    ∃ toks start rest e, tokenize source = .ok toks ∧ TokenStream.ofTokens? toks = some start ∧
      TokenReader.expr start = .ok e rest ∧
      e.text = "not not a.b like 'it''s' and -f(1, (c)) * 2 in (true, 7 - -c) or g() <> 0" ∧
      ∃ again start' stop, tokenize e.text = .ok again ∧ TokenStream.ofTokens? again = some start' ∧
        stop.kind = .eof ∧ TokenReader.expr start' = .ok e ⟨stop, []⟩ := by
  intro source
  have hvalue : ((tokenize source).toOption >>= fun toks => TokenStream.ofTokens? toks >>= fun start =>
      (TokenReader.expr.run' start).map fun e =>
        (e.noDoubleNeg && toks.all fun t => t.kind ≠ .real && t.text.toList.head? ≠ some '[', e.text)) =
      some (true, "not not a.b like 'it''s' and -f(1, (c)) * 2 in (true, 7 - -c) or g() <> 0") := by
    rw [tokenize_ofList]
    decide +kernel
  obtain ⟨toks, htoks, hvalue⟩ := Option.bind_eq_some_iff.mp hvalue
  obtain ⟨start, hstart, hvalue⟩ := Option.bind_eq_some_iff.mp hvalue
  obtain ⟨e, he, hvalue⟩ := Option.map_eq_some_iff.mp hvalue
  replace htoks := toOption_eq_some_iff.mp htoks
  obtain ⟨rest, he⟩ := run'_eq_some_iff.mp he
  obtain ⟨hplain, htext⟩ := Prod.mk.inj hvalue
  simp only [Bool.and_eq_true, decide_eq_true_eq, List.all_eq_true] at hplain
  have hfirst : toks = [] ++ start.current :: start.rest := by
    cases toks with
    | nil => cases hstart
    | cons t toks =>
      cases hstart
      rfl
  have hback := expression_text_reads_back htoks (fun t ht => (hplain.2 t ht).1) (fun t ht _ => (hplain.2 t ht).2)
    hfirst he hplain.1
  exact ⟨toks, start, rest, e, htoks, hstart, he, htext, hback⟩

end Expressions

end TabularQuery
