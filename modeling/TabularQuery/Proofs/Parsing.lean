import TabularQuery.Proofs.PhraseAccepted

/-!
The parser and the grammar. What is parsed is what stands before the first end of the input, and whatever comes after it
makes no difference.
-/

namespace TabularQuery

open Grammar
open TokenStream (showing)

variable {body : List Token} {stop : Token}

theorem TokenStream.ofTokens?_append (stop : Token) (after body : List Token) :
    ofTokens? (body ++ stop :: after) = some (showing stop after body) := by
  cases body <;> rfl

theorem TokenStream.showing_of_append {s : TokenStream} {before body : List Token} {stop : Token}
    (h : body ++ [stop] = before ++ s.current :: s.rest) : ∃ w, w <:+ body ∧ s = showing stop [] w := by
  obtain ⟨current, rest⟩ := s
  rcases List.eq_nil_or_concat rest with rfl | ⟨l, last, rfl⟩
  · obtain ⟨-, hlast⟩ := List.append_inj' h rfl
    cases hlast
    exact ⟨[], List.nil_suffix, rfl⟩
  · rw [List.concat_eq_append, ← List.cons_append, ← List.append_assoc] at h
    obtain ⟨rfl, hlast⟩ := List.append_inj' h rfl
    cases hlast
    exact ⟨current :: l, List.suffix_append before _, by simp [showing]⟩

theorem parseTokens_append (stop : Token) (after body : List Token) :
    parseTokens (body ++ stop :: after) = match TokenReader.root (showing stop after body) with
      | .ok statements _ => .ok statements
      | .error e _ => .error e := by
  have hstream := TokenStream.ofTokens?_append stop after body
  cases hroot : TokenReader.root (showing stop after body) with
  | ok xs s | error e s => simp only [parseTokens, hstream, hroot]

/-- Two streams that show the same tokens are read to the same end: all of them, as a phrase, or up to an error about
the token that comes next. -/
theorem root_cases (hbody : ∀ t ∈ body, t.kind ≠ .eof) (hstop : stop.kind = .eof) (after after' : List Token) :
    (∃ xs, RootPhrase body xs ∧ TokenReader.root (showing stop after body) = .ok xs ⟨stop, after⟩ ∧
      TokenReader.root (showing stop after' body) = .ok xs ⟨stop, after'⟩) ∨
    ∃ e left, left <:+ body ∧ TokenReader.root (showing stop after body) = .error e (showing stop after left) ∧
      TokenReader.root (showing stop after' body) = .error e (showing stop after' left) ∧
      ∃ wanted, e = (left.head?.getD stop).unexpected wanted := by
  rcases TokenReader.reads_root (w := body) stop after after' hstop with
    ⟨xs, u, v, huv, ⟨hphrase, v', huv', heof⟩, hok, hok'⟩ | herror
  · have hv : v' = v := List.append_cancel_left (huv'.symm.trans huv)
    subst hv
    have hend : v' = [] := by
      cases v' with
      | nil => rfl
      | cons t v' => exact absurd heof (hbody t (by simp [huv]))
    subst hend
    rw [List.append_nil] at huv
    subst huv
    exact .inl ⟨xs, hphrase, hok, hok'⟩
  · exact .inr herror

theorem parseTokens_eq_ok_iff (hbody : ∀ t ∈ body, t.kind ≠ .eof) (hstop : stop.kind = .eof) (after : List Token)
    (xs : List Statement) : parseTokens (body ++ stop :: after) = .ok xs ↔ RootPhrase body xs := by
  rw [parseTokens_append]
  constructor
  · intro h
    rcases root_cases hbody hstop after after with ⟨ys, hphrase, hok, -⟩ | ⟨e, left, -, herror, -⟩
    · rw [hok] at h
      cases h
      exact hphrase
    · rw [herror] at h
      cases h
  · intro h
    have hroot := TokenReader.gives_root h stop after hstop
    rw [List.append_nil] at hroot
    rw [hroot]
    rfl

theorem parseTokens_after (hbody : ∀ t ∈ body, t.kind ≠ .eof) (hstop : stop.kind = .eof) (after after' : List Token) :
    parseTokens (body ++ stop :: after) = parseTokens (body ++ stop :: after') := by
  rw [parseTokens_append, parseTokens_append]
  rcases root_cases hbody hstop after after' with ⟨ys, -, hok, hok'⟩ | ⟨e, left, -, herror, herror', -⟩
  · rw [hok, hok']
  · rw [herror, herror']

theorem parseTokens_error {e : Error} (hbody : ∀ t ∈ body, t.kind ≠ .eof) (hstop : stop.kind = .eof)
    (h : parseTokens (body ++ [stop]) = .error e) :
    ∃ (earlier : List Token) (t : Token) (later : List Token) (wanted : Expectation),
      body ++ [stop] = earlier ++ t :: later ∧ e = t.unexpected wanted := by
  rw [parseTokens_append] at h
  rcases root_cases hbody hstop [] [] with ⟨xs, -, hok, -⟩ | ⟨e', left, hleft, herror, -, wanted, htoken⟩
  · rw [hok] at h
    cases h
  · rw [herror] at h
    cases h
    obtain ⟨earlier, rfl⟩ := hleft
    cases left with
    | nil => exact ⟨earlier, stop, [], wanted, by simp, htoken⟩
    | cons t left => exact ⟨earlier, t, left ++ [stop], wanted, by simp, htoken⟩

/-- The parser accepts exactly the phrases of the grammar, each of which stands for one list of statements. It comes to
an end by itself, since what comes after the end of the input, by whose length its loops are bounded, makes no
difference; and it stops at that end, or with an error at one of the tokens. -/
theorem parses_exactly_grammar (hbody : ∀ t ∈ body, t.kind ≠ .eof) (hstop : stop.kind = .eof) :
    (∀ after xs, parseTokens (body ++ stop :: after) = .ok xs ↔ RootPhrase body xs) ∧
    (∀ xs ys, RootPhrase body xs → RootPhrase body ys → xs = ys) ∧
    (∀ after, parseTokens (body ++ stop :: after) = parseTokens (body ++ [stop])) ∧
    ∀ after, (∃ xs, TokenReader.root (showing stop after body) = .ok xs ⟨stop, after⟩) ∨
      ∃ e left, left <:+ body ∧ TokenReader.root (showing stop after body) = .error e (showing stop after left) := by
  refine ⟨parseTokens_eq_ok_iff hbody hstop, ?_, fun after => parseTokens_after hbody hstop after [], ?_⟩
  · intro xs ys hxs hys
    rw [← parseTokens_eq_ok_iff hbody hstop []] at hxs hys
    exact Except.ok.inj (hxs.symm.trans hys)
  · intro after
    rcases root_cases hbody hstop after after with ⟨xs, -, hok, -⟩ | ⟨e, left, hleft, herror, -⟩
    · exact .inl ⟨xs, hok⟩
    · exact .inr ⟨e, left, hleft, herror⟩

/-- Semicolons around two statements, the least integer, a sign that leaves no trace, and aliases with and without their
keyword. -/
theorem parses_exactly_grammar_semicolons :
    RootPhrase ([(.semicolon, ";"), (.kwDesc, "desc"), (.hash, "#"), (.identifier, "m"), (.dot, "."),
        (.identifier, "t"), (.lparen, "("), (.minus, "-"), (.integer, "9223372036854775808"), (.rparen, ")"),
        (.semicolon, ";"), (.semicolon, ";"), (.kwSelect, "select"), (.plus, "+"), (.identifier, "x"),
        (.kwNot, "not"), (.kwIn, "in"), (.lparen, "("), (.integer, "1"), (.comma, ","), (.integer, "2"),
        (.plus, "+"), (.integer, "3"), (.rparen, ")"), (.kwAs, "as"), (.identifier, "y"), (.kwFrom, "from"),
        (.identifier, "t"), (.identifier, "u"), (.semicolon, ";")].map fun (k, text) => ⟨k, text, 0, 0, ⟨1, 1⟩⟩)
      [.describe ⟨"m", "t", [.integer Int64.minValue]⟩,
        .query [] (.query ⟨[.field (.unary .not (.inList (.column none "x") [.literal (.integer 1),
          .binary .add (.literal (.integer 2)) (.literal (.integer 3))])) (some "y")],
          .named "t" (some "u"), none, none, none, none⟩)] :=
  have hstop : (⟨.eof, "", 0, 0, ⟨1, 1⟩⟩ : Token).kind = .eof := rfl
  ((parses_exactly_grammar (by decide) hstop).1 [] _).mp rfl

end TabularQuery
