import Mathlib.Data.Finset.Max
import TabularQuery.Proofs.Effects

/-!
Ways through the code of a procedure. An instruction leads from its address to the next one or to its jump target,
and a walk goes along. What a loop lives on is a supply: the rows that a cursor still has before it, or the groups
after the current one. Moving on takes from a supply; opening a cursor or going back to the first group fills it up.
A procedure winds down if every walk that comes back to its start takes from some supply that it does not fill up.
For that it is enough that every jump back goes to the head of a loop, which is left for good or is passed at the
cost of the loop's supply.
-/

namespace TabularQuery

/-! ### Ways through the code -/

/-- The ways in which an instruction can go on. -/
def Opcode.flows (opcode : Opcode) : List Flow :=
  match opcode with
  | .halt => [.halt]
  | .goto => [.jump]
  | _ => if opcode.isJump then [.next, .jump] else [.next]

namespace Procedure

/-- From one address the instruction there leads to another. -/
def Leads (p : Procedure) (a : Nat) (flow : Flow) (b : Nat) : Prop :=
  ∃ op, p.code[a]? = some op ∧ flow ∈ op.opcode.flows ∧ flow ≠ .halt ∧ Machine.following op flow (some a) = some b

/-- One instruction leads to the next; the walk lists their addresses with the ways they go on. -/
inductive Walk (p : Procedure) : Nat → List (Nat × Flow) → Nat → Prop
  | nil (a : Nat) : Walk p a [] a
  | cons {a b c : Nat} {flow : Flow} {w : List (Nat × Flow)} (leads : p.Leads a flow b) (rest : Walk p b w c) :
      Walk p a ((a, flow) :: w) c

end Procedure

/-- What a loop lives on. -/
inductive Supply where
  /-- The rows before a cursor. -/
  | cursor (c : Nat)
  /-- The groups after the current one. -/
  | grouping (g : Nat)
  deriving DecidableEq

namespace Instruction

/-- The supply from which the instruction takes when it goes on in this way. -/
def takesFrom (op : Instruction) (flow : Flow) : Option Supply :=
  match op.opcode, flow with
  | .next, .next => (place? op.p1).map .cursor
  | .nextGroup, .jump => (place? op.p1).map .grouping
  | _, _ => none

theorem opcode_of_takesFrom {op : Instruction} {flow : Flow} {s : Supply} (h : op.takesFrom flow = some s) :
    op.opcode = .next ∧ flow = .next ∨ op.opcode = .nextGroup ∧ flow = .jump := by
  unfold takesFrom at h
  split at h
  · exact .inl ⟨by assumption, rfl⟩
  · exact .inr ⟨by assumption, rfl⟩
  · cases h

/-- The supply that the instruction fills up. -/
def fillsUp (op : Instruction) : Option Supply :=
  match op.opcode with
  | .openSource | .openTable => (place? op.p1).map .cursor
  | .resetGroups | .groupKey | .rewindGroups => (place? op.p1).map .grouping
  | _ => none

end Instruction

/-- Every walk that comes back to its start takes from a supply which it does not fill up. -/
def Procedure.WindsDown (p : Procedure) : Prop :=
  ∀ a w, p.Walk a w a → w ≠ [] → ∃ s,
    (∃ site ∈ w, ∃ op, p.code[site.1]? = some op ∧ op.takesFrom site.2 = some s) ∧
    ∀ site ∈ w, ∀ op, p.code[site.1]? = some op → op.fillsUp ≠ some s

namespace Machine

/-- Whenever the action succeeds, it gives one of these. -/
structure Gives (x : MachineAction α) (values : List α) : Prop where
  mem : ∀ {m a m'}, x m = .ok a m' → a ∈ values

section Flows

variable {α β : Type} {x : MachineAction α} {f : α → MachineAction β} {as : List α} {bs : List β}

theorem Gives.pure {a : α} (h : a ∈ as) : Gives (Pure.pure a) as where
  mem hx := by
    obtain ⟨rfl, -⟩ := pure_eq_ok.mp hx
    exact h

theorem Gives.bind (h : ∀ a, Gives (f a) bs) : Gives (x >>= f) bs where
  mem hx := by
    obtain ⟨a, m₁, -, hf⟩ := bind_eq_ok.mp hx
    exact (h a).mem hf

theorem Gives.jumpIf (taken : Bool) : Gives (Pure.pure (Flow.jumpIf taken)) [.next, .jump] := by
  cases taken <;> exact .pure (by decide)

end Flows

theorem exec_flows (ctx : RunContext) (op : Instruction) : Gives (exec ctx op) op.opcode.flows := by
  obtain ⟨opcode, p1, p2, p3, operand, comment⟩ := op
  change Gives _ opcode.flows
  cases opcode with
  | halt | goto => exact .pure (by decide)
  | pushBool | add | subtract | multiply | divide | remainder | eq | ne | lt | le | gt | ge =>
    exact .bind fun _ => .pure (by decide)
  | addImm | setInteger | pushInt | not | openTable | resetGroups | addIndex | copyRow =>
    exact .bind fun _ => .bind fun _ => .pure (by decide)
  | negate | concat | like | groupKey | makeRecord => exact .bind fun _ => .bind fun _ => .bind fun _ => .pure (by decide)
  | aggregateValue =>
    exact .bind fun _ => .bind fun _ => .bind fun _ => .bind fun _ => .bind fun _ => .pure (by decide)
  | accumulate =>
    exact .bind fun _ => .bind fun _ => .bind fun _ => .bind fun _ => .bind fun _ => .bind fun _ => .bind fun _ =>
      .pure (by decide)
  | ifTrue | ifNot | ifNotPos | found | notFound => exact .bind fun _ => .jumpIf _
  | next => exact .bind fun _ => .bind fun _ => .bind fun _ => .jumpIf _
  | ifPos =>
    refine .bind fun n => ?_
    split
    · exact .bind fun _ => .pure (by decide)
    · exact .pure (by decide)
  | pushReal | pushText =>
    unfold exec
    dsimp only
    split <;> exact .bind fun _ => .pure (by decide)
  | function =>
    unfold exec
    dsimp only
    split
    · exact .bind fun _ => .bind fun _ => .bind fun _ => .pure (by decide)
    · exact .bind fun _ => .pure (by decide)
  | column =>
    refine .bind fun row => ?_
    dsimp only
    split <;> exact .bind fun _ => .pure (by decide)
  | openSource | createTable =>
    unfold exec
    dsimp only
    split
    · exact .bind fun _ => .pure (by decide)
    · exact .bind fun _ => .bind fun _ => .pure (by decide)
  | rewindGroups =>
    refine .bind fun g => ?_
    split
    · exact .pure (by decide)
    · exact .bind fun _ => .pure (by decide)
  | nextGroup =>
    rw [exec_nextGroup_eq ctx rfl]
    refine .bind fun g => ?_
    split
    · exact .bind fun _ => .pure (by decide)
    · exact .pure (by decide)

end Machine

/-! ### Walks -/

namespace Procedure

variable {p : Procedure} {a b c : Nat} {flow : Flow} {w w₁ w₂ : List (Nat × Flow)} {site : Nat × Flow}

theorem Walk.append (h : p.Walk a w₁ b) (h' : p.Walk b w₂ c) : p.Walk a (w₁ ++ w₂) c := by
  induction h with
  | nil => exact h'
  | cons leads _ ih => exact .cons leads (ih h')

theorem Walk.split (h : p.Walk a (w₁ ++ w₂) c) : ∃ b, p.Walk a w₁ b ∧ p.Walk b w₂ c := by
  induction w₁ generalizing a with
  | nil => exact ⟨a, .nil a, h⟩
  | cons site w₁ ih =>
    cases h with
    | cons leads rest =>
      obtain ⟨b, hfirst, hsecond⟩ := ih rest
      exact ⟨b, .cons leads hfirst, hsecond⟩

theorem Walk.from_site (h : p.Walk a (w₁ ++ site :: w₂) c) :
    p.Walk a w₁ site.1 ∧ ∃ b, p.Leads site.1 site.2 b ∧ p.Walk b w₂ c := by
  obtain ⟨b, hfirst, hsecond⟩ := h.split
  cases hsecond with
  | cons leads rest => exact ⟨hfirst, _, leads, rest⟩

theorem Walk.exists_last (h : p.Walk a w c) (hw : w ≠ []) : ∃ site ∈ w, p.Leads site.1 site.2 c := by
  obtain ⟨before, site, rfl⟩ := List.eq_nil_or_concat w |>.resolve_left hw
  rw [List.concat_eq_append] at h ⊢
  obtain ⟨-, b, leads, rest⟩ := h.from_site
  cases rest
  exact ⟨site, by simp, leads⟩

/-- From `l` on no instruction leads back before it. -/
def ClosedFrom (p : Procedure) (l : Nat) : Prop :=
  ∀ a flow b, l ≤ a → p.Leads a flow b → l ≤ b

theorem Walk.le_of_closedFrom {l : Nat} (h : p.Walk a w c) (hclosed : p.ClosedFrom l) (hl : l ≤ a) : l ≤ c := by
  induction h with
  | nil => exact hl
  | cons leads _ ih => exact ih (hclosed _ _ _ hl leads)

/-! ### Heads of loops -/

/-- At `a` begins a loop that ends before `l` and lives on the supply: what comes after is left for good, nothing in
the loop fills the supply up, and whoever goes on from the head inside the loop, or else whoever comes back to
it, takes from the supply. -/
structure Head (p : Procedure) (a l : Nat) (s : Supply) : Prop where
  lt : a < l
  closed : p.ClosedFrom l
  keeps : ∀ b op, a ≤ b → b < l → p.code[b]? = some op → op.fillsUp ≠ some s
  takes : (∀ flow b op, p.code[a]? = some op → p.Leads a flow b → a ≤ b → b < l → op.takesFrom flow = some s) ∨
    ∀ flow b op, p.code[b]? = some op → a ≤ b → b < l → p.Leads b flow a → op.takesFrom flow = some s

/-- A walk around the head of a loop stays in the loop. -/
theorem Walk.lt_of_closedFrom {l : Nat} (h : p.Walk a w c) (hclosed : p.ClosedFrom l) (hc : c < l) (hsite : site ∈ w) :
    site.1 < l := by
  obtain ⟨before, after, rfl⟩ := List.append_of_mem hsite
  obtain ⟨-, b, leads, rest⟩ := h.from_site
  by_contra hge
  have hb := hclosed _ _ _ (Nat.not_lt.mp hge) leads
  exact absurd (rest.le_of_closedFrom hclosed hb) (Nat.not_le.mpr hc)

/-- A walk from the head of a loop back to it takes from the loop's supply. -/
theorem Head.exists_taking {l : Nat} {s : Supply} (h : p.Head a l s) (hwalk : p.Walk a ((a, flow) :: w) a)
    (hle : ∀ site ∈ (a, flow) :: w, a ≤ site.1) :
    ∃ site ∈ (a, flow) :: w, ∃ op, p.code[site.1]? = some op ∧ op.takesFrom site.2 = some s := by
  rcases h.takes with htakes | htakes
  · obtain ⟨b, leads, rest⟩ : ∃ b, p.Leads a flow b ∧ p.Walk b w a := by
      cases hwalk with
      | cons leads rest => exact ⟨_, leads, rest⟩
    have ⟨op, hop, _⟩ := leads
    refine ⟨_, List.mem_cons_self, op, hop, htakes flow b op hop leads ?_ ?_⟩
    · cases rest with
      | nil => exact Nat.le_refl a
      | cons => exact hle _ (List.mem_cons_of_mem _ List.mem_cons_self)
    · by_contra hge
      exact absurd (rest.le_of_closedFrom h.closed (Nat.not_lt.mp hge)) (Nat.not_le.mpr h.lt)
  · obtain ⟨site, hsite, leads⟩ := hwalk.exists_last (List.cons_ne_nil _ _)
    have ⟨op, hop, _⟩ := leads
    exact ⟨site, hsite, op, hop,
      htakes site.2 site.1 op hop (hle site hsite) (hwalk.lt_of_closedFrom h.closed h.lt hsite) leads⟩

/-- If every way back goes to the head of a loop, the procedure winds down. -/
theorem windsDown_of_heads (h : ∀ b flow a, p.Leads b flow a → a ≤ b → ∃ l s, p.Head a l s) : p.WindsDown := by
  intro a w hwalk hw
  -- The walk is turned so that it starts at its lowest address, to which it can only come back by a way back.
  obtain ⟨low, hmem, hlow⟩ : ∃ low ∈ w, ∀ site ∈ w, low.1 ≤ site.1 :=
    Multiset.exists_min_image Prod.fst (s := (w : Multiset (Nat × Flow))) (by simpa using hw)
  obtain ⟨before, after, rfl⟩ := List.append_of_mem hmem
  obtain ⟨hbefore, b, leads, hafter⟩ := hwalk.from_site
  have hturned : p.Walk low.1 (low :: (after ++ before)) low.1 := .cons leads (hafter.append hbefore)
  have hsame : ∀ site, site ∈ low :: (after ++ before) ↔ site ∈ before ++ low :: after := by
    intro site
    simp only [List.mem_cons, List.mem_append]
    tauto
  have hle : ∀ site ∈ low :: (after ++ before), low.1 ≤ site.1 := fun site hsite => hlow site ((hsame site).mp hsite)
  obtain ⟨last, hlast, hback⟩ := hturned.exists_last (List.cons_ne_nil _ _)
  obtain ⟨l, s, hhead⟩ := h _ _ _ hback (hle last hlast)
  obtain ⟨site, hsite, htakes⟩ := hhead.exists_taking hturned hle
  refine ⟨s, ⟨site, (hsame site).mp hsite, htakes⟩, fun site hsite op hop => ?_⟩
  have hsite' := (hsame site).mpr hsite
  exact hhead.keeps site.1 op (hle site hsite') (hturned.lt_of_closedFrom hhead.closed hhead.lt hsite') hop

end Procedure

end TabularQuery
