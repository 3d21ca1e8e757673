import TabularQuery.Proofs.Action
import TabularQuery.Proofs.Grammar

/-!
Runs of readers of tokens. A stream shows a row of tokens, then the end of the input, and then perhaps more. Readers
bound their loops by the length of the whole stream; `Reads` says that this does not matter: whatever comes after the
end, a reader comes to the same value or the same error, with the same tokens left, and what it has passed is a phrase
of the value. `Gives` says that a reader passes a given row and comes to a given value. The rules below follow the ways
in which readers are put together.
-/

namespace TabularQuery

/-- The kind of the first token of a row, after which comes the end of the input. -/
def headKind : List Token → TokenKind
  | [] => .eof
  | t :: _ => t.kind

@[simp] theorem headKind_nil : headKind [] = .eof := rfl

@[simp] theorem headKind_cons (t : Token) (w : List Token) : headKind (t :: w) = t.kind := rfl

theorem headKind_append {u : List Token} {first : List TokenKind} (h : headKind u ∈ first) (heof : .eof ∉ first)
    (v : List Token) : headKind (u ++ v) ∈ first := by
  cases u with
  | nil => exact absurd h heof
  | cons t u => exact h

namespace TokenStream

/-- The stream that shows the tokens and then the stop. -/
def showing (stop : Token) (after : List Token) : List Token → TokenStream
  | [] => ⟨stop, after⟩
  | t :: w => ⟨t, w ++ stop :: after⟩

variable {stop : Token} (after : List Token)

theorem kind_showing (hstop : stop.kind = .eof) (w : List Token) : (showing stop after w).kind = headKind w := by
  cases w with
  | nil => exact hstop
  | cons t w => rfl

theorem nextKind_showing (hstop : stop.kind = .eof) (t : Token) (w : List Token) :
    (showing stop after (t :: w)).nextKind = headKind w := by
  cases w with
  | nil => exact hstop
  | cons t' w => rfl

@[simp] theorem current_showing (t : Token) (w : List Token) : (showing stop after (t :: w)).current = t := rfl

@[simp] theorem advance_showing (t : Token) (w : List Token) :
    (showing stop after (t :: w)).advance = showing stop after w := by
  cases w <;> rfl

theorem length_lt_fuel (w : List Token) : w.length < (showing stop after w).fuel := by
  cases w <;> simp [showing, fuel]

end TokenStream

open TokenStream (showing)

/-- The error of a reader that wanted something else in the place of a token. -/
def Token.unexpected (wanted : Expectation) (t : Token) : Error :=
  .tokenUnexpected wanted t.place (if t.kind = .eof then none else some t.text)

namespace TokenReader

/-! ### Runs up to what follows -/

section Rules

variable {α β : Type} {p p' : TokenReader α} {P Q : List Token → α → Prop} {w : List Token}

/-- From streams that show `w`, the two readers come to the same value, with a phrase of it passed, or to the same
error, which is about the token that they have come to. -/
def Reads (p p' : TokenReader α) (P : List Token → α → Prop) (w : List Token) : Prop :=
  ∀ (stop : Token) (after after' : List Token), stop.kind = .eof →
    (∃ a u v, w = u ++ v ∧ P u a ∧ p (showing stop after w) = .ok a (showing stop after v) ∧
      p' (showing stop after' w) = .ok a (showing stop after' v)) ∨
    ∃ e v, v <:+ w ∧ p (showing stop after w) = .error e (showing stop after v) ∧
      p' (showing stop after' w) = .error e (showing stop after' v) ∧
      ∃ wanted, e = (v.head?.getD stop).unexpected wanted

theorem Reads.imp (h : Reads p p' P w) (hP : ∀ u v a, w = u ++ v → P u a → Q u a) : Reads p p' Q w := by
  intro stop after after' hstop
  rcases h stop after after' hstop with ⟨a, u, v, hw, ha, hok⟩ | herror
  · exact .inl ⟨a, u, v, hw, hP u v a hw ha, hok⟩
  · exact .inr herror

theorem Reads.mono (h : Reads p p' P w) (hP : ∀ u a, P u a → Q u a) : Reads p p' Q w :=
  h.imp fun u _ a _ => hP u a

theorem Reads.pure {a : α} (h : P [] a) : Reads (pure a) (pure a) P w :=
  fun _ _ _ _ => .inl ⟨a, [], w, rfl, h, rfl, rfl⟩

/-- One reader after another: what the second passes continues what the first has passed. -/
theorem Reads.bind {f f' : α → TokenReader β} {R : List Token → β → Prop} (hp : Reads p p' P w)
    (hf : ∀ a u v, w = u ++ v → P u a → Reads (f a) (f' a) (fun x b => R (u ++ x) b) v) :
    Reads (p >>= f) (p' >>= f') R w := by
  intro stop after after' hstop
  rcases hp stop after after' hstop with ⟨a, u, v, rfl, ha, hok, hok'⟩ | ⟨e, v, hv, herror, herror', htoken⟩
  · rcases hf a u v rfl ha stop after after' hstop with
      ⟨b, u', v', rfl, hb, hok₁, hok₁'⟩ | ⟨e, v', hv', herror, herror', htoken⟩
    · refine .inl ⟨b, u ++ u', v', (List.append_assoc u u' v').symm, hb, ?_, ?_⟩
      · rw [bind_apply, hok]
        exact hok₁
      · rw [bind_apply, hok']
        exact hok₁'
    · refine .inr ⟨e, v', hv'.trans (List.suffix_append u v), ?_, ?_, htoken⟩
      · rw [bind_apply, hok]
        exact herror
      · rw [bind_apply, hok']
        exact herror'
  · refine .inr ⟨e, v, hv, ?_, ?_, htoken⟩
    · rw [bind_apply, herror]
    · rw [bind_apply, herror']

theorem Reads.map {g : α → β} {R : List Token → β → Prop} (h : Reads p p' (fun u a => R u (g a)) w) :
    Reads (g <$> p) (g <$> p') R w := by
  intro stop after after' hstop
  rcases h stop after after' hstop with ⟨a, u, v, hw, ha, hok, hok'⟩ | ⟨e, v, hv, herror, herror', htoken⟩
  · refine .inl ⟨g a, u, v, hw, ha, ?_, ?_⟩
    · rw [map_apply, hok]
    · rw [map_apply, hok']
  · refine .inr ⟨e, v, hv, ?_, ?_, htoken⟩
    · rw [map_apply, herror]
    · rw [map_apply, herror']

theorem Reads.fail (wanted : Expectation) : Reads (fail wanted) (fail wanted) P w := by
  intro stop after after' hstop
  refine .inr ⟨(w.head?.getD stop).unexpected wanted, w, List.suffix_refl w, ?_, ?_, wanted, rfl⟩
  · cases w <;> rfl
  · cases w <;> rfl

theorem Reads.kind {f f' : TokenKind → TokenReader α} (h : Reads (f (headKind w)) (f' (headKind w)) P w) :
    Reads (kind >>= f) (kind >>= f') P w := by
  intro stop after after' hstop
  have hkind : ∀ (g : TokenKind → TokenReader α) (after : List Token),
      (TokenReader.kind >>= g) (showing stop after w) = g (headKind w) (showing stop after w) := by
    intro g after
    rw [← TokenStream.kind_showing after hstop w]
    rfl
  rw [hkind, hkind]
  exact h stop after after' hstop

theorem Reads.nextKind {f f' : TokenKind → TokenReader α} (hnil : w = [] → ∀ k k', Reads (f k) (f' k') P w)
    (hcons : ∀ t v, w = t :: v → Reads (f (headKind v)) (f' (headKind v)) P w) :
    Reads (nextKind >>= f) (nextKind >>= f') P w := by
  intro stop after after' hstop
  cases w with
  | nil => exact hnil rfl _ _ stop after after' hstop
  | cons t v =>
    have hkind : ∀ (g : TokenKind → TokenReader α) (after : List Token),
        (TokenReader.nextKind >>= g) (showing stop after (t :: v)) = g (headKind v) (showing stop after (t :: v)) := by
      intro g after
      rw [← TokenStream.nextKind_showing after hstop t v]
      rfl
    rw [hkind, hkind]
    exact hcons t v rfl stop after after' hstop

/-- A look at the whole stream, whose length bounds a loop: it is above the number of tokens. -/
theorem Reads.get {f f' : TokenStream → TokenReader α}
    (h : ∀ s s', w.length < s.fuel → w.length < s'.fuel → Reads (f s) (f' s') P w) :
    Reads (get >>= f) (get >>= f') P w :=
  fun stop after after' hstop =>
    h _ _ (TokenStream.length_lt_fuel after w) (TokenStream.length_lt_fuel after' w) stop after after' hstop

theorem Reads.advance {f f' : Unit → TokenReader α} {t : Token}
    (h : Reads (f ()) (f' ()) (fun x a => P (t :: x) a) w) : Reads (advance >>= f) (advance >>= f') P (t :: w) := by
  have hadvance : Reads TokenReader.advance TokenReader.advance (fun u _ => u = [t]) (t :: w) := by
    intro stop after after' _
    refine .inl ⟨(), [t], w, rfl, rfl, ?_, ?_⟩
    · rw [TokenReader.advance, modify_apply, TokenStream.advance_showing]
    · rw [TokenReader.advance, modify_apply, TokenStream.advance_showing]
  refine hadvance.bind fun _ u v hv hu => ?_
  subst hu
  obtain rfl : w = v := List.tail_eq_of_cons_eq hv
  exact h

theorem Reads.takeText {t : Token} : Reads takeText takeText (fun u a => u = [t] ∧ a = t.text) (t :: w) := by
  intro stop after after' _
  refine .inl ⟨t.text, [t], w, rfl, ⟨rfl, rfl⟩, ?_, ?_⟩
  · simp [TokenReader.takeText, TokenReader.advance]
  · simp [TokenReader.takeText, TokenReader.advance]

theorem Reads.accept {k : TokenKind} {f f' : Bool → TokenReader α} (hk : k ≠ .eof)
    (hyes : ∀ t v, w = t :: v → t.kind = k → Reads (f true) (f' true) (fun x a => P (t :: x) a) v)
    (hno : headKind w ≠ k → Reads (f false) (f' false) P w) : Reads (accept k >>= f) (accept k >>= f') P w := by
  by_cases h : headKind w = k
  · cases w with
    | nil => exact absurd h.symm hk
    | cons t v =>
      have haccept : Reads (TokenReader.accept k) (TokenReader.accept k) (fun u a => u = [t] ∧ a = true) (t :: v) := by
        intro stop after after' hstop
        refine .inl ⟨true, [t], v, rfl, ⟨rfl, rfl⟩, ?_, ?_⟩
        · simp [TokenReader.accept, TokenReader.advance, TokenStream.kind_showing _ hstop, h]
        · simp [TokenReader.accept, TokenReader.advance, TokenStream.kind_showing _ hstop, h]
      refine haccept.bind fun a u v' hv hu => ?_
      obtain ⟨rfl, rfl⟩ := hu
      obtain ⟨-, rfl⟩ := List.cons.inj hv
      exact hyes t v rfl h
  · have haccept : Reads (TokenReader.accept k) (TokenReader.accept k) (fun u a => u = [] ∧ a = false) w := by
      intro stop after after' hstop
      refine .inl ⟨false, [], w, rfl, ⟨rfl, rfl⟩, ?_, ?_⟩
      · simp [TokenReader.accept, TokenStream.kind_showing _ hstop, h]
      · simp [TokenReader.accept, TokenStream.kind_showing _ hstop, h]
    refine haccept.bind fun a u v hv hu => ?_
    obtain ⟨rfl, rfl⟩ := hu
    rw [List.nil_append] at hv
    subst hv
    exact hno h

theorem Reads.expect {k : TokenKind} (hk : k ≠ .eof) :
    Reads (expect k) (expect k) (fun u _ => ∃ t, u = [t] ∧ t.kind = k) w := by
  unfold TokenReader.expect
  refine Reads.accept hk (fun t v _ ht => ?_) fun _ => ?_
  · exact .pure ⟨t, rfl, ht⟩
  · exact .fail _

end Rules

/-! ### Runs that pass a given row -/

section Passing

variable {α β : Type} {p q : TokenReader α} {r : TokenReader β} {a : α} {u u' v : List Token} {t : Token}
  {k : TokenKind}

/-- Where `u` and then `v` are shown, the reader passes `u` and goes on as the other. -/
def Leads (p q : TokenReader α) (u v : List Token) : Prop :=
  ∀ (stop : Token) (after : List Token), stop.kind = .eof → p (showing stop after (u ++ v)) = q (showing stop after v)

/-- Where `u` and then `v` are shown, the reader passes `u` and gives the value. -/
def Gives (p : TokenReader α) (a : α) (u v : List Token) : Prop := Leads p (pure a) u v

theorem Leads.refl : Leads p p [] v := fun _ _ _ => rfl

theorem Gives.bind {f : α → TokenReader β} (hp : Gives p a u (u' ++ v)) (hf : Leads (f a) r u' v) :
    Leads (p >>= f) r (u ++ u') v := by
  intro stop after hstop
  rw [bind_apply, List.append_assoc, hp stop after hstop]
  exact hf stop after hstop

theorem Gives.last {f : α → TokenReader β} (hp : Gives p a u v) (hf : Leads (f a) r [] v) : Leads (p >>= f) r u v := by
  intro stop after hstop
  rw [bind_apply, hp stop after hstop]
  exact hf stop after hstop

theorem Leads.map {g : α → β} (hp : Gives p a u v) : Leads (g <$> p) (pure (g a)) u v := by
  intro stop after hstop
  rw [map_apply, hp stop after hstop]
  rfl

theorem Leads.kind {f : TokenKind → TokenReader α} (h : Leads (f (headKind (u ++ v))) q u v) :
    Leads (kind >>= f) q u v := by
  intro stop after hstop
  have hrun := h stop after hstop
  rw [← TokenStream.kind_showing after hstop] at hrun
  exact hrun

theorem Leads.nextKind {f : TokenKind → TokenReader α} (h : Leads (f (headKind (u ++ v))) q (t :: u) v) :
    Leads (nextKind >>= f) q (t :: u) v := by
  intro stop after hstop
  have hrun := h stop after hstop
  rw [← TokenStream.nextKind_showing after hstop t] at hrun
  exact hrun

/-- A look past the first token that makes no difference. -/
theorem Leads.anyNextKind {f : TokenKind → TokenReader α} (h : ∀ k, Leads (f k) q u v) :
    Leads (TokenReader.nextKind >>= f) q u v :=
  fun stop after hstop => h _ stop after hstop

theorem Leads.get {f : TokenStream → TokenReader α} (h : ∀ s, (u ++ v).length < s.fuel → Leads (f s) q u v) :
    Leads (get >>= f) q u v :=
  fun stop after hstop => h _ (TokenStream.length_lt_fuel after (u ++ v)) stop after hstop

theorem Leads.advance {f : Unit → TokenReader α} (h : Leads (f ()) q u v) : Leads (advance >>= f) q (t :: u) v := by
  intro stop after hstop
  have hrun := h stop after hstop
  rw [bind_apply, TokenReader.advance, modify_apply, List.cons_append, TokenStream.advance_showing]
  exact hrun

theorem Leads.accept {f : Bool → TokenReader α} (ht : t.kind = k) (h : Leads (f true) q u v) :
    Leads (accept k >>= f) q (t :: u) v := by
  intro stop after hstop
  have hrun := h stop after hstop
  simpa [TokenReader.accept, TokenReader.advance, TokenStream.kind_showing _ hstop, ht] using hrun

theorem Leads.refuse {f : Bool → TokenReader α} (hk : headKind (u ++ v) ≠ k) (h : Leads (f false) q u v) :
    Leads (TokenReader.accept k >>= f) q u v := by
  intro stop after hstop
  have hrun := h stop after hstop
  simpa [TokenReader.accept, TokenStream.kind_showing _ hstop, hk] using hrun

theorem Leads.expect {f : Unit → TokenReader α} (ht : t.kind = k) (h : Leads (f ()) q u v) :
    Leads (expect k >>= f) q (t :: u) v := by
  have hexpect : Gives (TokenReader.expect k) () [t] (u ++ v) := Leads.accept ht .refl
  exact hexpect.bind h

theorem Gives.takeText : Gives takeText t.text [t] v := by
  intro stop after _
  simp [TokenReader.takeText, TokenReader.advance]

/-- The reader comes to the loop after `u`, with a bound on its rounds above the number of tokens that are left. -/
def Enters (p : TokenReader α) (loop : Nat → TokenReader α) (u v : List Token) : Prop :=
  ∀ (stop : Token) (after : List Token), stop.kind = .eof →
    ∃ n, v.length < n ∧ p (showing stop after (u ++ v)) = loop n (showing stop after v)

theorem Enters.start (loop : Nat → α → TokenReader β) (h : Gives p a u v) :
    Enters (do let x ← p; loop (← get).fuel x) (fun n => loop n a) u v := by
  intro stop after hstop
  refine ⟨(showing stop after v).fuel, TokenStream.length_lt_fuel after v, ?_⟩
  rw [bind_apply, h stop after hstop]
  rfl

theorem Enters.round {loop loop' : Nat → TokenReader α} (h : Enters p loop u (u' ++ v)) (hsome : u' ≠ [])
    (hround : ∀ n, Leads (loop (n + 1)) (loop' n) u' v) : Enters p loop' (u ++ u') v := by
  intro stop after hstop
  obtain ⟨n, hn, hrun⟩ := h stop after hstop
  have hpassed := List.length_pos_iff.mpr hsome
  rw [List.length_append] at hn
  cases n with
  | zero => omega
  | succ n =>
    refine ⟨n, by omega, ?_⟩
    rw [List.append_assoc, hrun, hround n stop after hstop]

theorem Enters.done {loop : Nat → TokenReader α} (h : Enters p loop u v) (hdone : ∀ n, Leads (loop (n + 1)) q [] v) :
    Leads p q u v := by
  intro stop after hstop
  obtain ⟨n, hn, hrun⟩ := h stop after hstop
  cases n with
  | zero => cases hn
  | succ n => exact hrun.trans (hdone n stop after hstop)

end Passing

end TokenReader

end TabularQuery
