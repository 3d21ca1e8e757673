import TabularQuery.Proofs.Parsing
import TabularQuery.Proofs.TokenSpans

/-!
Places of tokens and of syntax errors. A place is true if its line counts the line feeds before it and its column the
characters since the last one. Scanners keep their place true over gaps, strings and all other tokens but bracketed
identifiers: a line feed in one of these is passed as a character of the line. So the place of a token lags behind by as
many lines as line feeds are hidden in bracketed identifiers before it, and it is true exactly if there are none. The
same holds of the places in syntax errors, which are those of the tokens or characters that they are about.
-/

namespace TabularQuery

/-! ### True places -/

/-- The place of what follows `before`. -/
def Position.after (before : List Char) : Position :=
  ⟨1 + before.count '\n', 1 + (before.reverse.takeWhile (· ≠ '\n')).length⟩

namespace Scanner

theorem after_concat (before : List Char) (c : Char) :
    Position.after (before ++ [c]) = placeAfter true (Position.after before) c := by
  by_cases hc : c = '\n'
  · simp [Position.after, placeAfter, hc, Nat.add_assoc]
  · simp [Position.after, placeAfter, hc]
    omega

theorem after_append (before cs : List Char) :
    Position.after (before ++ cs) = cs.foldl (placeAfter true) (Position.after before) := by
  induction cs generalizing before with
  | nil => rw [List.append_nil, List.foldl_nil]
  | cons c cs ih => rw [List.append_cons, ih, after_concat, List.foldl_cons]

theorem line_foldl (lines : Bool) (cs : List Char) (p : Position) :
    (cs.foldl (placeAfter lines) p).line = p.line + if lines then cs.count '\n' else 0 := by
  induction cs generalizing p with
  | nil => simp
  | cons c cs ih =>
    rw [List.foldl_cons, ih]
    cases lines with
    | false => simp [placeAfter]
    | true =>
      by_cases hc : c = '\n'
      · simp [placeAfter, hc]
        omega
      · simp [placeAfter, hc]

theorem foldl_placeAfter {cs : List Char} (h : '\n' ∉ cs) (p : Position) :
    cs.foldl (placeAfter false) p = cs.foldl (placeAfter true) p := by
  induction cs generalizing p with
  | nil => rfl
  | cons c cs ih =>
    simp only [List.mem_cons, not_or] at h
    obtain ⟨hc, hcs⟩ := h
    have hplace : placeAfter false p c = placeAfter true p c := by
      simp [placeAfter, Ne.symm hc]
    rw [List.foldl_cons, List.foldl_cons, ih hcs, hplace]

end Scanner

/-! ### Places that lag behind -/

/-- The place of what follows `before` is so many lines short, and true if it is short of none. -/
structure Position.Lags (p : Position) (before : List Char) (missed : Nat) : Prop where
  line : p.line + missed = (after before).line
  eq_after : missed = 0 → p = after before

section Lags

variable {p : Position} {before : List Char} {missed : Nat}

theorem Position.Lags.eq_after_iff (h : p.Lags before missed) : p = after before ↔ missed = 0 := by
  constructor
  · intro hp
    have hline := h.line
    rw [hp] at hline
    omega
  · exact h.eq_after

theorem Position.line_after_append (before cs : List Char) :
    (after (before ++ cs)).line = (after before).line + cs.count '\n' := by
  rw [after, List.count_append, ← Nat.add_assoc]
  rfl

theorem Position.Lags.lines (h : p.Lags before missed) (cs : List Char) :
    (cs.foldl (Scanner.placeAfter true) p).Lags (before ++ cs) missed where
  line := by
    rw [Scanner.line_foldl, if_pos rfl, line_after_append, ← h.line]
    omega
  eq_after hmissed := by
    rw [h.eq_after hmissed, Scanner.after_append]

theorem Position.Lags.noLines (h : p.Lags before missed) (cs : List Char) :
    (cs.foldl (Scanner.placeAfter false) p).Lags (before ++ cs) (missed + cs.count '\n') where
  line := by
    rw [Scanner.line_foldl, line_after_append, ← h.line]
    simp
    omega
  eq_after hmissed := by
    have hnone : '\n' ∉ cs := List.count_eq_zero.mp (by omega)
    rw [h.eq_after (by omega), Scanner.foldl_placeAfter hnone, Scanner.after_append]

end Lags

/-- The line feeds in a bracketed identifier. -/
def Token.hiddenLineFeeds (t : Token) : Nat :=
  if t.text.toList.head? = some '[' then t.text.toList.count '\n' else 0

/-- The line feeds in the bracketed identifiers among some tokens. -/
def hiddenLineFeeds : List Token → Nat
  | [] => 0
  | t :: tokens => t.hiddenLineFeeds + hiddenLineFeeds tokens

namespace Scanner

section Lags

variable {source : String} {before : List Char} {missed : Nat} {s s₁ : Scanner} {t : Token} {u : List Token}

theorem Calls.place_eq (h : Calls s (.ok t) s₁) : t.place = s.skipGap.place := by
  cases h <;> rfl

theorem lags_skipGap (h : s.place.Lags before missed) : s.skipGap.place.Lags (before ++ s.gap) missed :=
  h.lines s.gap

/-- Over a token the place falls behind by the line feeds that are hidden in it. -/
theorem Calls.lags (h : Calls s (.ok t) s₁) (hplace : s.place.Lags before missed) :
    s₁.place.Lags (before ++ s.gap ++ t.text.toList) (missed + t.hiddenLineFeeds) := by
  have hgap := lags_skipGap hplace
  cases h with
  | stop hrest =>
    rw [String.toList_empty, List.append_nil]
    exact hgap
  | @token c cs kind split hrest hsplit =>
    obtain ⟨l, htaken, -⟩ := splitToken_taken hsplit
    rw [Token.hiddenLineFeeds, String.toList_ofList]
    by_cases hc : c = '['
    · have hhead : split.taken.head? = some '[' := by rw [htaken, hc, List.head?_cons]
      rw [if_pos hhead]
      simpa [pass, hc] using hgap.noLines split.taken
    · have hhead : split.taken.head? ≠ some '[' := by simpa [htaken] using hc
      rw [if_neg hhead]
      simpa [pass, hc] using hgap.lines split.taken

theorem Scans.lags (h : Scans s u s₁) (hpassed : Passed source before s) (hplace : s.place.Lags before missed) :
    ∃ taken, Passed source taken s₁ ∧ s₁.place.Lags taken (missed + hiddenLineFeeds u) := by
  induction h generalizing before missed with
  | none => exact ⟨before, hpassed, hplace⟩
  | @more s s₁ s₂ t u next notLast rest ih =>
    have hcalls := calls_of_next next
    obtain ⟨taken, hpassed, hplace⟩ := ih (hpassed.token hcalls) (hcalls.lags hplace)
    rw [Nat.add_assoc] at hplace
    exact ⟨taken, hpassed, hplace⟩

/-- What a scanner of a text has passed after some tokens, and how its place lags behind. -/
theorem Scans.lags_ofText (h : Scans (ofText source) u s) :
    ∃ before, Passed source before s ∧ s.place.Lags before (hiddenLineFeeds u) := by
  have hplace : (ofText source).place.Lags [] 0 := ⟨rfl, fun _ => rfl⟩
  obtain ⟨before, hpassed, hlags⟩ := h.lags (passed_ofText source) hplace
  rw [Nat.zero_add] at hlags
  exact ⟨before, hpassed, hlags⟩

end Lags

end Scanner

/-! ### Syntax errors -/

/-- The error is about what the rest of the text begins with, and gives its place. -/
inductive Error.PointsTo : Error → Position → (rest : List Char) → Prop
  | identifierUnclosed {p : Position} {cs : List Char} : PointsTo (.identifierUnclosed p) p ('[' :: cs)
  | textUnclosed {p : Position} {cs : List Char} : PointsTo (.textUnclosed p) p ('\'' :: cs)
  | characterUnexpected {p : Position} {c : Char} {cs : List Char} :
      PointsTo (.characterUnexpected (shownChar c) p) p (c :: cs)
  | tokenUnexpected {p : Position} {wanted : Expectation} {text : String} {rest : List Char} (hsome : text ≠ "")
      (hrest : text.toList <+: rest) : PointsTo (.tokenUnexpected wanted p (some text)) p rest
  | endUnexpected {p : Position} {wanted : Expectation} : PointsTo (.tokenUnexpected wanted p none) p []

theorem Scanner.Calls.pointsTo {s s₁ : Scanner} {e : Error} (h : Calls s (.error e) s₁) :
    e.PointsTo s.skipGap.place s.skipGap.rest := by
  cases h with
  | fault hrest hfault =>
    rw [hrest]
    rcases splitToken_fault hfault with ⟨rfl, rfl⟩ | ⟨rfl, rfl⟩ | rfl
    · exact .identifierUnclosed
    · exact .textUnclosed
    · exact .characterUnexpected

theorem Scanner.Calls.unexpected_pointsTo {s s₁ : Scanner} {t : Token} (h : Calls s (.ok t) s₁) (wanted : Expectation) :
    (t.unexpected wanted).PointsTo s.skipGap.place s.skipGap.rest := by
  cases h with
  | stop hrest =>
    rw [hrest]
    exact .endUnexpected
  | @token c cs kind split hrest hsplit =>
    obtain ⟨hwhole, hsome⟩ := splitToken_whole hsplit
    have hkind := splitToken_ne_eof hsplit
    rw [Token.unexpected, if_neg hkind, hrest, ← hwhole, Split.whole]
    apply Error.PointsTo.tokenUnexpected
    · simpa using hsome
    · rw [String.toList_ofList]
      exact List.prefix_append _ _

theorem pointsTo_of_parse {source : String} {e : Error} (h : parse source = .error e) :
    ∃ earlier s, Scanner.Scans (.ofText source) earlier s ∧ e.PointsTo s.skipGap.place s.skipGap.rest := by
  cases htokens : tokenize source with
  | error e' =>
    rw [parse, htokens] at h
    cases h
    obtain ⟨earlier, s, s₁, hscans, hnext⟩ := Scanner.scans_of_tokens_error htokens
    exact ⟨earlier, s, hscans, (Scanner.calls_of_next hnext).pointsTo⟩
  | ok tokens =>
    rw [parse, htokens] at h
    obtain ⟨body, stop, s, rfl, hstop, hscans, -⟩ := Scanner.scans_of_tokens htokens
    obtain ⟨earlier, t, later, wanted, heq, rfl⟩ := parseTokens_error hscans.kind_ne_eof hstop h
    rw [heq] at htokens
    obtain ⟨s₁, s₂, hscans, hnext⟩ := Scanner.scans_of_append htokens
    exact ⟨earlier, s₁, hscans, (Scanner.calls_of_next hnext).unexpected_pointsTo wanted⟩

/-! ### Texts -/

/-- The text before the next token or fault of a scanner, and how the place there lags behind. -/
theorem Scanner.Scans.place_skipGap {source : String} {s : Scanner} {earlier : List Token}
    (h : Scans (ofText source) earlier s) : ∃ before : String, source = before ++ String.ofList s.skipGap.rest ∧
      before.utf8ByteSize = s.skipGap.offset ∧ s.skipGap.place.Lags before.toList (hiddenLineFeeds earlier) := by
  obtain ⟨before, hpassed, hplace⟩ := h.lags_ofText
  have hgap := hpassed.skipGap
  refine ⟨String.ofList (before ++ s.gap), ?_, ?_, ?_⟩
  · rw [← String.ofList_append, ← hgap.text, String.ofList_toList]
  · rw [utf8ByteSize_ofList, hgap.offset]
  · rw [String.toList_ofList]
    exact lags_skipGap hplace

/-- Places in a text lag behind by the line feeds that are hidden in bracketed identifiers, and are true exactly if
there are none. This holds of the place of every token, the last one included, with the identifiers before it; and of the
place in every syntax error, which is that of the token or the character that the error is about. -/
theorem places_lag_behind (source : String) :
    (∀ earlier t later, tokenize source = .ok (earlier ++ t :: later) →
      ∃ before after, source = before ++ t.text ++ after ∧ before.utf8ByteSize = t.start ∧
        t.place.line + hiddenLineFeeds earlier = (Position.after before.toList).line ∧
        (t.place = Position.after before.toList ↔ hiddenLineFeeds earlier = 0)) ∧
    ∀ e, parse source = .error e →
      ∃ earlier s before after p, Scanner.Scans (.ofText source) earlier s ∧ source = before ++ after ∧
        before.utf8ByteSize = s.skipGap.offset ∧ e.PointsTo p after.toList ∧
        p.line + hiddenLineFeeds earlier = (Position.after before.toList).line ∧
        (p = Position.after before.toList ↔ hiddenLineFeeds earlier = 0) := by
  constructor
  · intro earlier t later h
    obtain ⟨s, s₁, hscans, hnext⟩ := Scanner.scans_of_append h
    have hcalls := Scanner.calls_of_next hnext
    obtain ⟨before, hsource, hsize, hlags⟩ := hscans.place_skipGap
    rw [hcalls.rest_eq, String.ofList_append, String.ofList_toList, ← String.append_assoc] at hsource
    rw [← hcalls.place_eq] at hlags
    exact ⟨before, _, hsource, hsize.trans hcalls.start_eq.symm, hlags.line, hlags.eq_after_iff⟩
  · intro e h
    obtain ⟨earlier, s, hscans, hpoints⟩ := pointsTo_of_parse h
    obtain ⟨before, hsource, hsize, hlags⟩ := hscans.place_skipGap
    rw [← String.toList_ofList (l := s.skipGap.rest)] at hpoints
    exact ⟨earlier, s, before, _, _, hscans, hsource, hsize, hpoints, hlags.line, hlags.eq_after_iff⟩

/-- Line feeds in a string, in a comment and after one, and characters of two bytes: the place of the end is true. -/
theorem places_lag_behind_nowhere :
    let source := "/*é\n*/ select 'é\n' --\n as"
    ∃ earlier t before after, tokenize source = .ok (earlier ++ [t]) ∧ hiddenLineFeeds earlier = 0 ∧
      source = before ++ t.text ++ after ∧ before.utf8ByteSize = t.start ∧ t.place = ⟨4, 4⟩ ∧
      t.place = Position.after before.toList := by
  intro source
  have hvalue : (tokenize source).toOption.map (fun tokens =>
      (tokens.getLast?.map Token.place, hiddenLineFeeds tokens.dropLast)) = some (some ⟨4, 4⟩, 0) := by
    rw [tokenize_ofList]
    decide +kernel
  obtain ⟨tokens, htokens, hplaces⟩ := Option.map_eq_some_iff.mp hvalue
  obtain ⟨hlast, hhidden⟩ := Prod.mk.inj hplaces
  obtain ⟨t, ht, hplace⟩ := Option.map_eq_some_iff.mp hlast
  replace htokens := toOption_eq_some_iff.mp htokens
  rw [← List.dropLast_append_getLast? t ht] at htokens
  obtain ⟨before, after, hsource, hsize, -, htrue⟩ := (places_lag_behind source).1 _ t [] htokens
  exact ⟨_, t, before, after, htokens, hhidden, hsource, hsize, hplace, htrue.mpr hhidden⟩

/-- After a line feed in brackets the places of tokens are not true. -/
theorem bracketed_line_feed_missed :
    ¬ ∀ (source : String) (tokens : List Token) (t : Token), tokenize source = .ok tokens → t ∈ tokens →
      ∀ before after, source = before ++ after → before.utf8ByteSize = t.start →
        t.place = Position.after before.toList := by
  intro h
  have hvalue : (tokenize "[a\nb] x").toOption.map (fun tokens => tokens.map fun t => (t.start, t.place)) =
      some [(0, ⟨1, 1⟩), (6, ⟨1, 7⟩), (7, ⟨1, 8⟩)] := by
    rw [tokenize_ofList]
    decide +kernel
  obtain ⟨tokens, htokens, hplaces⟩ := Option.map_eq_some_iff.mp hvalue
  have hmem : (6, ⟨1, 7⟩) ∈ tokens.map fun t => (t.start, t.place) := by
    rw [hplaces]
    decide
  obtain ⟨t, ht, hplace⟩ := List.mem_map.mp hmem
  obtain ⟨hstart, hplace⟩ := Prod.mk.inj hplace
  have htrue := h _ tokens t (toOption_eq_some_iff.mp htokens) ht "[a\nb] " "x" rfl (by rw [hstart]; rfl)
  rw [hplace] at htrue
  exact absurd htrue (by decide)

end TabularQuery
