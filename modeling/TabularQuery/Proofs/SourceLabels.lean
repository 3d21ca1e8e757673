import Mathlib
import TabularQuery.Engine
import TabularQuery.Proofs.JoinedTexts
import TabularQuery.Proofs.StatementBinding
import TabularQuery.Source.Memory

/-!
Texts of schema calls. Two texts are shown for one: a description has the text of the call itself, in which the quotes
inside of a text argument are doubled, and a listing has a label, in which they are not. The first is always read as the
call again. The second is where there is no quote to double, and only there, which counting quotes shows: as many as an
argument has are doubled in any text that it is read from.
-/

namespace TabularQuery

open Grammar

/-! ### Names in lower case -/

section Lower

variable {c : Char} {cs : List Char} {name : String}

theorem toNat_lt_of_isWordChar (h : isWordChar c) : c.toNat < 0x80 := by
  unfold isWordChar Char.isAlphanum Char.isAlpha Char.isUpper Char.isLower Char.isDigit at h
  simp only [Bool.or_eq_true, Bool.and_eq_true, decide_eq_true_eq, UInt32.le_iff_toNat_le, ge_iff_le] at h
  rcases h with ((h | h) | h) | rfl
  · exact Nat.lt_of_le_of_lt h.2 (by decide)
  · exact Nat.lt_of_le_of_lt h.2 (by decide)
  · exact Nat.lt_of_le_of_lt h.2 (by decide)
  · decide

theorem lowerFrom_of_isWordChar (h : ∀ c ∈ cs, isWordChar c) (before : List Char) :
    Text.lowerFrom before cs = cs.map Char.toLower := by
  induction cs generalizing before with
  | nil => rfl
  | cons c cs ih =>
    rw [List.forall_mem_cons] at h
    have hascii := toNat_lt_of_isWordChar h.1
    have hsigma : c ≠ 'Σ' := by
      rintro rfl
      exact absurd hascii (by decide)
    rw [Text.lowerFrom, if_neg hsigma, Text.lowerChar, if_pos hascii, ih h.2]
    rfl

theorem IsName.toList_lower (h : IsName name) : (Text.lower name).toList = name.toList.map Char.toLower := by
  rw [Text.lower, String.toList_ofList, lowerFrom_of_isWordChar h.chars]

theorem isWordStart_toLower (h : isWordStart c) : isWordStart c.toLower := by
  simp only [isWordStart, Bool.or_eq_true, decide_eq_true_eq, Char.isAlpha_toLower_eq_isAlpha] at h ⊢
  rcases h with h | rfl
  · exact .inl h
  · exact .inr rfl

theorem isWordChar_toLower (h : isWordChar c) : isWordChar c.toLower := by
  simp only [isWordChar, Char.isAlphanum, Bool.or_eq_true, decide_eq_true_eq, Char.isAlpha_toLower_eq_isAlpha] at h ⊢
  rcases h with (h | h) | rfl
  · exact .inl (.inl h)
  · have hupper : ¬ c.isUpper := by
      simp only [Char.isDigit, Char.isUpper, Bool.and_eq_true, decide_eq_true_eq, UInt32.le_iff_toNat_le, ge_iff_le,
        not_and] at h ⊢
      intro hle
      exact absurd (Nat.le_trans hle h.2) (by decide)
    rw [Char.toLower_eq_of_not_isUpper hupper]
    exact .inl (.inr h)
  · exact .inr rfl

/-- Keywords have no case, so neither have the words that are none. -/
theorem IsName.lower (h : IsName name) : IsName (Text.lower name) := by
  obtain ⟨c, cs, hname, hc⟩ := h.start
  refine ⟨⟨c.toLower, cs.map Char.toLower, by rw [h.toList_lower, hname, List.map_cons], isWordStart_toLower hc⟩, ?_, ?_⟩
  · rw [h.toList_lower]
    exact List.forall_mem_map.mpr fun c hc => isWordChar_toLower (h.chars c hc)
  · have hupper : (Text.lower name).map Char.toUpper = name.map Char.toUpper := by
      apply String.toList_inj.mp
      simp only [String.toList_map, h.toList_lower, List.map_map, List.map_inj_left, Function.comp_apply]
      exact fun c _ => Char.toUpper_toLower_eq_toUpper c
    rw [TokenKind.ofWord, hupper]
    exact h.kind

theorem IsName.lower_lower (h : IsName name) : Text.lower (Text.lower name) = Text.lower name := by
  apply String.toList_inj.mp
  rw [h.lower.toList_lower, h.toList_lower, List.map_map]
  exact List.map_congr_left fun c _ => Char.toLower_toLower_eq_toLower c

end Lower

/-! ### Printed calls -/

section Printed

variable {r : List Char}

/-- The tokens of a printed integer: its digits, after a minus sign if it is negative. -/
inductive IntegerWords (n : Int) : List Token → Prop
  | digits {t : Token} (isInteger : t.kind = .integer) (value : n = Decimal.natOfDigits t.text.toList) : IntegerWords n [t]
  | negative {minus t : Token} (isMinus : minus.kind = .minus) (isInteger : t.kind = .integer) (isNegative : n < 0)
      (value : n = -Decimal.natOfDigits t.text.toList) : IntegerWords n [minus, t]

theorem spells_int (n : Int) (hr : Ends r) : Spells (toString n).toList (IntegerWords n) r := by
  cases n with
  | ofNat m =>
    have htext : (toString (Int.ofNat m)).toList = Nat.toDigits 10 m := Nat.toList_repr
    rw [htext]
    refine (spells_digits m hr).mono fun w hw => ?_
    obtain ⟨t, rfl, isInteger, hvalue⟩ := hw
    exact .digits isInteger (by rw [hvalue]; rfl)
  | negSucc m =>
    have htext : (toString (Int.negSucc m)).toList = ['-'] ++ Nat.toDigits 10 (m + 1) := by
      rw [← Nat.toList_repr]
      exact String.toList_append
    rw [htext]
    refine (Spells.lexeme (lexeme_minus (head_toDigits (m + 1) r)) (by simp)).append fun u hu => ?_
    obtain ⟨minus, rfl, isMinus, -⟩ := hu
    refine (spells_digits (m + 1) hr).mono fun w hw => ?_
    obtain ⟨t, rfl, isInteger, hvalue⟩ := hw
    exact .negative isMinus isInteger (Int.negSucc_lt_zero m) (by rw [hvalue]; rfl)

/-- Every integer is printed as an argument, the least one too: the range of an argument is that of the number with
its sign. -/
theorem spells_integer (n : Int64) (hr : Ends r) :
    Spells (toString n.toInt).toList (fun w => ArgumentPhrase w (.integer n)) r := by
  refine (spells_int n.toInt hr).mono fun w hw => ?_
  cases hw with
  | digits isInteger value => exact .literal (.integer (.mk isInteger value))
  | negative isMinus isInteger _ value => exact .negInteger isMinus isInteger value

theorem spells_argument {v : Value} (h : v.type ≠ .real) (hr : Ends r) :
    Spells v.literalText.toList (fun w => ArgumentPhrase w v) r := by
  cases v with
  | integer n => exact spells_integer n hr
  | real x => exact absurd rfl h
  | boolean b => exact (spells_boolean b hr).mono fun _ => .literal
  | text s => exact (spells_text s hr).mono fun _ => .literal

/-- A call whose names are words that are no keywords, with no real number among its arguments. -/
structure SchemaCall.Plain (c : SchemaCall) : Prop where
  schema : IsName c.schema
  method : IsName c.method
  args : ∀ v ∈ c.args, v.type ≠ .real

theorem SchemaCall.Plain.spells {c : SchemaCall} (h : c.Plain) : Spells c.text.toList (CallPhrase · c) r := by
  have htext : c.text.toList = ['#'] ++ (c.schema.toList ++ (['.'] ++ (c.method.toList ++ (['('] ++
      ((", ".intercalate (c.args.map Value.literalText)).toList ++ [')']))))) := by simp [SchemaCall.text]
  have hargs : List.Forall₂ (fun text v => ∀ r, Ends r → Spells text.toList (ArgumentPhrase · v) r)
      (c.args.map Value.literalText) c.args := by
    rw [List.forall₂_map_left_iff, List.forall₂_same]
    exact fun v hv r hr => spells_argument (h.args v hv) hr
  rw [htext]
  have hhash : ∀ r, Lexeme .hash ['#'] r := fun r => lexeme_of_splitToken rfl (by decide) nofun nofun
  refine (Spells.lexeme (hhash _) (by simp)).append fun u hu => ?_
  obtain ⟨hash, rfl, isHash, -⟩ := hu
  refine (spells_name h.schema (by simp; decide)).append fun u hu => ?_
  refine (Spells.mark (k := .dot) (by simp)).append fun v hv => ?_
  obtain ⟨dot, rfl, isDot⟩ := hv
  refine (spells_name h.method (by simp; decide)).append fun v hv => ?_
  refine (spells_arguments hargs ends_rparen).enclosed.mono fun w hw => ?_
  obtain ⟨lparen, rparen, w, rfl, opens, hw, closes⟩ := hw
  simpa using CallPhrase.mk isHash hu isDot hv opens hw closes

theorem Spells.describe {text : String} {c : SchemaCall} (h : Spells text.toList (CallPhrase · c) []) :
    TabularQuery.parse ("desc " ++ text) = .ok [.describe c] := by
  apply Spells.parse
  have htext : ("desc " ++ text).toList = "desc".toList ++ (' ' :: text.toList) := by simp
  rw [htext]
  refine (spells_word (k := .kwDesc) "DESC" (by decide) (by decide) (by simp) ends_space.notWord).append
    fun u hu => .space ?_
  obtain ⟨t, rfl, keyword⟩ := hu
  refine h.mono fun w hw => ?_
  have hnone : ∀ t ∈ ([] : List Token), t.kind = .semicolon := List.forall_mem_nil _
  simpa using RootPhrase.mk hnone (.last (.describe keyword hw) hnone)

end Printed

/-! ### Quotes -/

section Quotes

variable {c : Char} {cs : List Char} {s s₁ : Scanner} {w : List Token} {v : Value} {vs : List Value}

theorem splitQuote_doubled {split : Split} (h : splitQuote cs = some split) :
    ∃ text, split.taken = Text.doubleQuotes text ++ ['\''] := by
  fun_induction splitQuote cs generalizing split with
  | case1 cs ih =>
    obtain ⟨split, hsplit, rfl⟩ := Option.map_eq_some_iff.mp h
    obtain ⟨text, htext⟩ := ih hsplit
    exact ⟨'\'' :: text, by simp [Split.push, htext, Text.doubleQuotes]⟩
  | case2 cs hnot =>
    cases h
    exact ⟨[], rfl⟩
  | case3 c cs hnot hnot' ih =>
    obtain ⟨split, hsplit, rfl⟩ := Option.map_eq_some_iff.mp h
    obtain ⟨text, htext⟩ := ih hsplit
    have hc : c ≠ '\'' := by
      rintro rfl
      exact hnot' rfl
    exact ⟨c :: text, by simp [Split.push, htext, Text.doubleQuotes, hc]⟩
  | case4 => cases h

theorem quoted_of_splitToken {split : Split} (h : splitToken c cs = .ok (.text, split)) :
    ∃ text, String.ofList split.taken = Text.quoted text := by
  unfold splitToken at h
  split at h
  · have hnumber := splitNumber_kind (c :: cs)
    rw [Except.ok.inj h] at hnumber
    exact absurd rfl hnumber.1
  split at h
  · simp only [Except.ok.injEq, Prod.mk.injEq] at h
    exact absurd h.1 (ofWord_kind _).1
  split at h
  · split at h <;> cases h
  split at h
  · next hquote =>
    split at h
    · next split hsplit =>
      cases h
      obtain ⟨text, htext⟩ := splitQuote_doubled hsplit
      refine ⟨String.ofList text, String.toList_inj.mp ?_⟩
      simp [Split.push, hquote, htext, Text.quoted]
    · cases h
  split at h
  · next token htoken =>
    cases h
    exact absurd rfl (operator?_kind htoken).2.1
  · cases h

theorem Scanner.Scans.quoted (h : Scans s w s₁) : ∀ t ∈ w, t.kind = .text → ∃ text, t.text = Text.quoted text := by
  induction h with
  | none => exact List.forall_mem_nil _
  | more next notLast _ ih =>
    refine List.forall_mem_cons.mpr ⟨fun hkind => ?_, ih⟩
    cases calls_of_next next with
    | stop => exact absurd rfl notLast
    | token hrest hsplit =>
      cases hkind
      exact quoted_of_splitToken hsplit

/-- The number of quotes in the texts of tokens. -/
def quotesIn (w : List Token) : Nat := (w.map fun t => t.text.toList.count '\'').sum

theorem Scanner.Scans.quotesIn_le (h : Scans s w s₁) : quotesIn w ≤ s.rest.count '\'' := by
  induction h with
  | none => exact Nat.zero_le _
  | @more s s₁ s₂ t w next _ _ ih =>
    have hrest : s.rest = s.gap ++ (t.text.toList ++ s₁.rest) := by
      rw [← (calls_of_next next).rest_eq]
      exact (splitGap_whole .blank s.rest).symm
    rw [hrest, List.count_append, List.count_append, quotesIn, List.map_cons, List.sum_cons]
    exact Nat.le_add_left_of_le (Nat.add_le_add_left ih _)

theorem count_quoted (text : String) : (Text.quoted text).toList.count '\'' = 2 + 2 * text.toList.count '\'' := by
  have hdoubled : ∀ cs, (Text.doubleQuotes cs).count '\'' = 2 * cs.count '\'' := by
    intro cs
    induction cs with
    | nil => rfl
    | cons c cs ih =>
      by_cases hc : c = '\''
      · simp [Text.doubleQuotes, hc, ih]
        omega
      · simp [Text.doubleQuotes, hc, ih]
  simp [Text.quoted, hdoubled]
  omega

namespace Value

/-- The quotes around a value in a text, -/
def delimiters : Value → Nat
  | .text _ => 2
  | _ => 0

/-- and those inside of it. -/
def quotes : Value → Nat
  | .text s => s.toList.count '\''
  | _ => 0

/-- The quotes inside of an argument are doubled where it is read. -/
theorem quotes_argument (h : ArgumentPhrase w v) (hw : ∀ t ∈ w, t.kind = .text → ∃ text, t.text = Text.quoted text) :
    v.delimiters + 2 * v.quotes ≤ quotesIn w := by
  cases h with
  | literal phrase =>
    cases phrase with
    | @text t hkind =>
      obtain ⟨text, htext⟩ := hw t (by simp) hkind
      rw [htext, unquoted_quoted, quotesIn, List.map_singleton, List.sum_singleton, htext, count_quoted]
      exact Nat.le_refl _
    | _ => exact Nat.zero_le _
  | _ => exact Nat.zero_le _

theorem quotes_arguments (h : Arguments ArgumentPhrase w vs)
    (hw : ∀ t ∈ w, t.kind = .text → ∃ text, t.text = Text.quoted text) :
    (vs.map delimiters).sum + 2 * (vs.map quotes).sum ≤ quotesIn w := by
  cases h with
  | none => exact Nat.zero_le _
  | some list =>
    induction list with
    | one phrase => simpa using quotes_argument phrase hw
    | more phrase comma _ ih =>
      simp only [List.forall_mem_append, List.forall_mem_cons] at hw
      have hfirst := quotes_argument phrase hw.1
      have hrest := ih hw.2.2
      simp only [quotesIn, List.map_append, List.map_cons, List.sum_append, List.sum_cons] at hfirst hrest ⊢
      omega

/-- In a label they are not. -/
theorem count_argumentText (hv : v.type ≠ .real) :
    (SourceBinding.argumentText v).toList.count '\'' = v.delimiters + v.quotes := by
  cases v with
  | integer n =>
    have hdigits : ∀ m, (Nat.toDigits 10 m).count '\'' = 0 := by
      intro m
      refine List.count_eq_zero.mpr fun hquote => ?_
      cases isDigit_of_mem_toDigits hquote
    have hrepr : (toString n.toInt).toList.count '\'' = 0 := by
      cases n.toInt with
      | ofNat m => exact Nat.toList_repr ▸ hdigits m
      | negSucc m =>
        have htext : (toString (Int.negSucc m)).toList = '-' :: (m + 1).repr.toList := String.toList_append
        rw [htext, Nat.toList_repr, List.count_cons, hdigits]
        rfl
    exact hrepr
  | real x => exact absurd rfl hv
  | boolean b => cases b <;> decide
  | text text =>
    simp [SourceBinding.argumentText, delimiters, quotes]
    omega

end Value

end Quotes

/-! ### Labels -/

theorem Grammar.RootPhrase.arguments {u : List Token} {c : SchemaCall} (h : RootPhrase u [.describe c]) :
    ∃ before w after, u = before ++ (w ++ after) ∧ Arguments ArgumentPhrase w c.args := by
  cases h with
  | @mk before _ _ leading statements =>
    cases statements with
    | @last _ after _ statement trailing =>
      cases statement with
      | @describe t _ _ keyword isCall =>
        cases isCall with
        | @mk hash dot lparen rparen name method w _ _ _ isHash schemaName isDot methodName opens arguments closes =>
          refine ⟨before ++ (t :: hash :: (name ++ dot :: (method ++ [lparen]))), w, rparen :: after, ?_, arguments⟩
          simp
    | more statement separators separated rest => cases rest

theorem count_intercalate (texts : List String) :
    (", ".intercalate texts).toList.count '\'' = (texts.map fun text => text.toList.count '\'').sum := by
  induction texts with
  | nil => rfl
  | cons text texts ih =>
    cases texts with
    | nil => simp
    | cons text' texts =>
      rw [String.intercalate_cons_cons, List.map_cons, List.sum_cons, ← ih]
      simp

theorem IsName.count_quote {name : String} (h : IsName name) : name.toList.count '\'' = 0 := by
  refine List.count_eq_zero.mpr fun hquote => ?_
  cases h.chars _ hquote

/-- The two calls have the same method, the same arguments and, but for case, the same schema. -/
structure SchemaCall.Alike (c c' : SchemaCall) : Prop where
  schema : Text.lower c.schema = Text.lower c'.schema
  method : c.method = c'.method
  args : c.args = c'.args

namespace SourceBinding

/-- The source is that of the call, with the name of the schema in lower case. -/
structure Binds (b : SourceBinding) (c : SchemaCall) : Prop where
  schema : b.schemaName = Text.lower c.schema
  method : b.method = c.method
  args : b.args = c.args

variable {b : SourceBinding} {c c' : SchemaCall}

theorem Binds.count_text (h : b.Binds c) (hc : c.Plain) :
    b.text.toList.count '\'' = (c.args.map Value.delimiters).sum + (c.args.map Value.quotes).sum := by
  have hargs : ((c.args.map argumentText).map fun text => text.toList.count '\'').sum =
      (c.args.map fun v => v.delimiters + v.quotes).sum := by
    rw [List.map_map]
    exact congrArg List.sum (List.map_congr_left fun v hv => Value.count_argumentText (hc.args v hv))
  rw [text, h.schema, h.method, h.args]
  simp only [String.toList_append, List.count_append, count_intercalate, hargs, hc.schema.lower.count_quote,
    hc.method.count_quote, List.sum_map_add]
  simp

theorem Binds.quotes_eq_zero (h : b.Binds c) (hc : c.Plain) (hread : parse ("desc " ++ b.text) = .ok [.describe c'])
    (hsame : c'.args = c.args) : ∀ v ∈ c.args, v.quotes = 0 := by
  obtain ⟨u, s, hscans, hroot⟩ := scans_of_parse hread
  obtain ⟨before, w, after, rfl, hargs⟩ := hroot.arguments
  have hle := hscans.quotesIn_le
  have hquoted := hscans.quoted
  simp only [List.forall_mem_append] at hquoted
  have hdoubled := Value.quotes_arguments hargs hquoted.2.1
  have hcount : (Scanner.ofText ("desc " ++ b.text)).rest.count '\'' = b.text.toList.count '\'' := by
    simp [Scanner.ofText]
  rw [hcount, h.count_text hc] at hle
  rw [hsame] at hdoubled
  simp only [quotesIn, List.map_append, List.sum_append] at hle hdoubled
  have hzero : (c.args.map Value.quotes).sum = 0 := by omega
  exact fun v hv => List.sum_eq_zero_iff.mp hzero _ (List.mem_map_of_mem hv)

theorem argumentText_eq {v : Value} (hv : v.type ≠ .real) (hquotes : v.quotes = 0) : argumentText v = v.literalText := by
  have hdoubled : ∀ cs : List Char, '\'' ∉ cs → Text.doubleQuotes cs = cs := by
    intro cs hcs
    induction cs with
    | nil => rfl
    | cons c cs ih =>
      rw [List.mem_cons, not_or] at hcs
      rw [Text.doubleQuotes, if_neg (Ne.symm hcs.1), ih hcs.2]
  cases v with
  | integer | boolean => rfl
  | real => exact absurd rfl hv
  | text s =>
    rw [Value.literalText, Text.quoted, hdoubled _ (List.count_eq_zero.mp hquotes), String.ofList_toList]
    rfl

theorem Binds.reads (h : b.Binds c) (hc : c.Plain) (hquotes : ∀ v ∈ c.args, v.quotes = 0) :
    parse ("desc " ++ b.text) = .ok [.describe ⟨Text.lower c.schema, c.method, c.args⟩] := by
  have htext : b.text = SchemaCall.text ⟨Text.lower c.schema, c.method, c.args⟩ := by
    have hargs : c.args.map argumentText = c.args.map Value.literalText :=
      List.map_congr_left fun v hv => argumentText_eq (hc.args v hv) (hquotes v hv)
    rw [text, SchemaCall.text, h.schema, h.method, h.args, hargs]
  have hplain : SchemaCall.Plain ⟨Text.lower c.schema, c.method, c.args⟩ := ⟨hc.schema.lower, hc.method, hc.args⟩
  rw [htext]
  exact hplain.spells.describe

end SourceBinding

/-- The text of a description is read as the call that it describes. The label of a source in a listing, at its opening
and among the sources, is read as the call of the source, but for the case of the schema's name, exactly if no text among
the arguments has a quote in it. -/
theorem source_labels_read_back {c : SchemaCall} (hc : c.Plain) :
    parse ("desc " ++ c.text) = .ok [.describe c] ∧
    (∀ env s plan s', Bind.statement env (.describe c) s = .ok plan s' →
      ∃ name columns, plan = .describe name c.text columns) ∧
    (∀ b : SourceBinding, b.Binds c → ((∃ c', parse ("desc " ++ b.text) = .ok [.describe c'] ∧ c'.Alike c) ↔
      ∀ text, .text text ∈ c.args → '\'' ∉ text.toList)) ∧
    ∀ env aliasName s bound s', Bind.fromSource env (.schema c aliasName) s = .ok bound s' →
      ∀ source ∈ bound.2, ∀ g op g', Generate.opening source g = .ok op g' →
        ∃ b : SourceBinding, b.Binds c ∧ g'.sources = g.sources ++ [b] ∧
          op.comment = some (b.text ++ " " ++ source.aliasName) := by
  refine ⟨hc.spells.describe, fun env s plan s' h => ?_, fun b hb => ⟨?_, fun hquotes => ?_⟩, ?_⟩
  · obtain ⟨schema, columns, -, rfl, -⟩ := Bind.statement_describe_eq_ok_iff.mp h
    exact ⟨_, columns, rfl⟩
  · rintro ⟨c', hread, halike⟩ text htext
    exact List.count_eq_zero.mp (hb.quotes_eq_zero hc hread halike.args _ htext)
  · have hzero : ∀ v ∈ c.args, v.quotes = 0 := by
      intro v hv
      cases v with
      | text text => exact List.count_eq_zero.mpr (hquotes text hv)
      | _ => rfl
    exact ⟨_, hb.reads hc hzero, hc.schema.lower_lower, rfl, rfl⟩
  · intro env aliasName s bound s' h source hsource g op g' hopening
    obtain ⟨schema, columns, name, s₁, -, -, rfl, -⟩ := Bind.schema_eq_ok h
    obtain rfl := List.mem_singleton.mp hsource
    replace hopening := eq_ok_of_bind hopening rfl
    obtain ⟨rfl, rfl⟩ := pure_eq_ok.mp hopening
    exact ⟨_, ⟨rfl, rfl, rfl⟩, rfl, rfl⟩

/-- A text with a quote, the least integer and a schema in capital letters, and then the same without the quote. -/
theorem source_labels_read_back_least :
    let c (text : String) : SchemaCall := ⟨"Mem", "t", [.text text, .integer Int64.minValue, .boolean true]⟩
    (∀ text, (c text).Plain) ∧ (c "it's").text = "#Mem.t('it''s', -9223372036854775808, true)" ∧
    parse ("desc " ++ (c "it's").text) = .ok [.describe (c "it's")] ∧
    (∀ b : SourceBinding, b.Binds (c "it's") →
      ¬ ∃ c', parse ("desc " ++ b.text) = .ok [.describe c'] ∧ c'.Alike (c "it's")) ∧
    ∀ b : SourceBinding, b.Binds (c "its") → ∃ c', parse ("desc " ++ b.text) = .ok [.describe c'] ∧ c'.Alike (c "its") := by
  intro c
  have hkinds : TokenKind.ofWord "Mem" = .identifier ∧ TokenKind.ofWord "t" = .identifier := by decide +kernel
  have hschema : IsName "Mem" := ⟨⟨'M', ['e', 'm'], rfl, by decide⟩, by simp; decide, hkinds.1⟩
  have hmethod : IsName "t" := ⟨⟨'t', [], rfl, by decide⟩, by simp; decide, hkinds.2⟩
  have hplain : ∀ text, (c text).Plain := fun text => ⟨hschema, hmethod, by simp [c, Value.type]⟩
  obtain ⟨hread, -, hlabel, -⟩ := source_labels_read_back (hplain "it's")
  obtain ⟨-, -, hlabel', -⟩ := source_labels_read_back (hplain "its")
  refine ⟨hplain, by decide, hread, fun b hb halike => ?_, fun b hb => (hlabel' b hb).mpr ?_⟩
  · exact (hlabel b hb).mp halike "it's" (by simp [c]) (by decide)
  · intro text htext
    obtain rfl : text = "its" := by simpa [c] using htext
    decide

/-- A program does not always show its sources as they could be written: the quote in this label ends the text. -/
theorem quote_in_label_unread :
    ¬ ∀ (env : Environment) (text : String) (p : Program), compile env text = .ok p →
      ∀ b ∈ p.sources, ∃ c, parse ("desc " ++ b.text) = .ok [.describe c] ∧ b.Binds c := by
  intro hall
  let schema : MemorySchema := ⟨"m", [("t", ⟨[⟨"n", .integer⟩], [[.integer 1]]⟩)], .standard⟩
  have hlabels : (compile ⟨⟨[("m", schema.toSchema)]⟩, .empty⟩ "select n from #m.t('it''s') a").toOption.map
      (fun p => p.sources.map SourceBinding.text) = some ["#m.t('it's')"] := by
    rw [compile, parse, tokenize_ofList]
    decide +kernel
  have hunread : (parse ("desc " ++ "#m.t('it's')")).toOption.isNone = true := by
    rw [parse, tokenize_append]
    decide +kernel
  obtain ⟨p, hp, hlabels⟩ := Option.map_eq_some_iff.mp hlabels
  obtain ⟨b, hb, htext⟩ := List.mem_map.mp (hlabels ▸ List.mem_singleton_self "#m.t('it's')")
  obtain ⟨c, hread, -⟩ := hall _ _ p (toOption_eq_some_iff.mp hp) b hb
  rw [htext] at hread
  rw [hread] at hunread
  cases hunread

end TabularQuery
