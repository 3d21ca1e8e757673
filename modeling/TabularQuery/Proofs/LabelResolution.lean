import Mathlib
import TabularQuery.Program.Assembler
import TabularQuery.Proofs.Action

/-!
Labels of a procedure and the addresses that take their place. A procedure is written by a list of calls in any order. A
label is bound by the last call about it, if that call gives it an address: a later call may bind it again, or hand it out
as a new label, which is not bound then. Every result here is about all lists of calls; what one more call changes is said
once, and the rest goes by induction on the calls from the last one.
-/

namespace TabularQuery

/-- A jump with a label in the place of its target. -/
def Instruction.HasLabel (op : Instruction) : Prop := op.opcode.isJump = true ∧ op.p2 < 0

namespace Assembler

/-! ### Calls -/

inductive Call where
  | newLabel
  | place (label : Int)
  | bindLabel (label : Int) (address : Nat)
  | emit (op : Instruction)
  | comment (text : String)

def step (a : Assembler) : Call → Assembler
  | .newLabel => a.newLabel.2
  | .place label => a.place label
  | .bindLabel label address => a.bindLabel label address
  | .emit op => a.emit op
  | .comment text => a.comment text

def run (a : Assembler) (calls : List Call) : Assembler := calls.foldl step a

theorem run_append (a : Assembler) (before after : List Call) : a.run (before ++ after) = (a.run before).run after :=
  List.foldl_append

theorem run_concat (a : Assembler) (calls : List Call) (c : Call) : a.run (calls ++ [c]) = (a.run calls).step c :=
  List.foldl_concat _ _ _ _

namespace Call

def isEmit : Call → Bool
  | emit _ => true
  | _ => false

def isNewLabel : Call → Bool
  | newLabel => true
  | _ => false

/-- Does the call, after that many instructions, bind the label to the address? -/
def Binds (emitted : Nat) (label : Int) (address : Nat) : Call → Prop
  | place l => l = label ∧ emitted = address
  | bindLabel l n => l = label ∧ n = address
  | _ => False

/-- Does the call, after that many new labels, bind the label or hand it out? New labels go down from -1. -/
def IsAbout (made : Nat) (label : Int) : Call → Prop
  | newLabel => label = Int.negSucc made
  | place l => l = label
  | bindLabel l _ => l = label
  | _ => False

end Call

/-- The number of instructions that the calls add. -/
def emitted (calls : List Call) : Nat := calls.countP Call.isEmit

/-- The number of labels that the calls make. -/
def made (calls : List Call) : Nat := calls.countP Call.isNewLabel

theorem emitted_concat (calls : List Call) (c : Call) : emitted (calls ++ [c]) = emitted calls + c.isEmit.toNat := by
  cases c <;> simp [emitted, Call.isEmit]

theorem made_concat (calls : List Call) (c : Call) : made (calls ++ [c]) = made calls + c.isNewLabel.toNat := by
  cases c <;> simp [made, Call.isNewLabel]

/-- A call binds the label to the address, and no call after it binds the label or hands it out. -/
def BoundLast (calls : List Call) (label : Int) (address : Nat) : Prop :=
  ∃ before c after, calls = before ++ c :: after ∧ c.Binds (emitted before) label address ∧
    ∀ mid d rest, after = mid ++ d :: rest → ¬ d.IsAbout (made (before ++ c :: mid)) label

/-- The comment that the calls give to an instruction before them: the last one before the next instruction. -/
def remark : List Call → Option String
  | [] => none
  | .emit _ :: _ => none
  | .comment text :: rest => (remark rest).or (some text)
  | _ :: rest => remark rest

/-! ### What one more call changes -/

section Concat

variable {calls : List Call} {c : Call} {label : Int} {n : Nat}

theorem not_boundLast_nil : ¬ BoundLast [] label n := by
  rintro ⟨before, c, after, hcalls, -⟩
  simp at hcalls

theorem boundLast_concat : BoundLast (calls ++ [c]) label n ↔
    c.Binds (emitted calls) label n ∨ BoundLast calls label n ∧ ¬ c.IsAbout (made calls) label := by
  constructor
  · rintro ⟨before, c', after, hcalls, hbinds, hlast⟩
    rcases List.eq_nil_or_concat after with rfl | ⟨after, d, rfl⟩
    · obtain ⟨rfl, rfl⟩ := List.append_singleton_inj.mp hcalls
      exact .inl hbinds
    · rw [List.concat_eq_append, ← List.cons_append, ← List.append_assoc] at hcalls
      obtain ⟨rfl, rfl⟩ := List.append_singleton_inj.mp hcalls
      refine .inr ⟨⟨before, c', after, rfl, hbinds, fun mid d rest hafter => ?_⟩, hlast after c [] List.concat_eq_append⟩
      exact hlast mid d (rest ++ [c]) (by simp [hafter])
  · rintro (hbinds | ⟨⟨before, c', after, rfl, hbinds, hlast⟩, hc⟩)
    · exact ⟨calls, c, [], rfl, hbinds, by simp⟩
    · refine ⟨before, c', after ++ [c], by simp, hbinds, fun mid d rest hafter => ?_⟩
      rcases List.eq_nil_or_concat rest with rfl | ⟨rest, d', rfl⟩
      · obtain ⟨rfl, rfl⟩ := List.append_singleton_inj.mp hafter
        exact hc
      · rw [List.concat_eq_append, ← List.cons_append, ← List.append_assoc] at hafter
        exact hlast mid d rest (List.append_singleton_inj.mp hafter).1

end Concat

section Step

variable (a : Assembler) {c : Call} {label : Int}

theorem name_step : (a.step c).name = a.name := by
  cases c with
  | comment text =>
    rw [step, comment]
    split <;> rfl
  | _ => rfl

theorem address_step : (a.step c).address = a.address + c.isEmit.toNat := by
  cases c with
  | emit op => exact List.length_append
  | comment text =>
    rw [step, comment]
    split
    · rfl
    · next op hop =>
      obtain ⟨code, hcode⟩ := List.getLast?_eq_some_iff.mp hop
      simp [address, hcode, Call.isEmit]
  | _ => rfl

theorem fresh_step : (a.step c).fresh = a.fresh - c.isNewLabel.toNat := by
  cases c with
  | newLabel => rfl
  | comment text =>
    rw [step, comment]
    split <;> simp [Call.isNewLabel]
  | _ => exact (Int.sub_zero _).symm

theorem target?_of_labels {a b : Assembler} {l : Int} {bound : Option Int} (h : b.labels = (l, bound) :: a.labels) :
    b.target? label = if label = l then bound else a.target? label := by
  rw [target?, h]
  by_cases hl : label = l
  · subst hl
    rw [List.lookup_cons_self, if_pos rfl]
    rfl
  · rw [List.lookup_cons, beq_false_of_ne hl, if_neg hl]
    rfl

theorem target?_bindLabel {l t : Int} {n : Nat} : (a.bindLabel l n).target? label = some t ↔
    (∃ m : Nat, (l = label ∧ n = m) ∧ t = Int.bmod m UInt32.size) ∨ a.target? label = some t ∧ ¬ l = label := by
  have htarget : (a.bindLabel l n).target? label = if label = l then _ else a.target? label := target?_of_labels rfl
  rw [htarget]
  by_cases hl : label = l
  · simp [hl, eq_comm]
  · simp [hl, Ne.symm hl]

theorem target?_step {t : Int} {made : Nat} (hfresh : a.fresh = Int.negSucc made) :
    (a.step c).target? label = some t ↔
      (∃ n : Nat, c.Binds a.address label n ∧ t = Int.bmod n UInt32.size) ∨
        a.target? label = some t ∧ ¬ c.IsAbout made label := by
  cases c with
  | newLabel =>
    have htarget : (a.step .newLabel).target? label = if label = a.fresh then none else a.target? label :=
      target?_of_labels rfl
    rw [htarget, hfresh]
    by_cases hl : label = Int.negSucc made <;> simp [hl, Call.Binds, Call.IsAbout]
  | place l => exact a.target?_bindLabel
  | bindLabel l n => exact a.target?_bindLabel
  | emit op => simp [step, emit, target?, Call.Binds, Call.IsAbout]
  | comment text =>
    have hlabels : (a.comment text).labels = a.labels := by
      rw [comment]
      split <;> rfl
    simp [step, target?, hlabels, Call.Binds, Call.IsAbout]

end Step

/-! ### After all calls -/

section Run

variable (name : String) (calls : List Call)

theorem name_run (a : Assembler) : (a.run calls).name = a.name := by
  induction calls using List.reverseRecOn with
  | nil => rfl
  | append_singleton calls c ih => rw [run_concat, name_step, ih]

theorem address_run : ((start name).run calls).address = emitted calls := by
  induction calls using List.reverseRecOn with
  | nil => rfl
  | append_singleton calls c ih => rw [run_concat, address_step, ih, emitted_concat]

theorem fresh_run : ((start name).run calls).fresh = Int.negSucc (made calls) := by
  induction calls using List.reverseRecOn with
  | nil => rfl
  | append_singleton calls c ih =>
    rw [run_concat, fresh_step, ih, made_concat]
    omega

/-- The address of a label is the one to which the calls bound it last. -/
theorem target?_run {label t : Int} : ((start name).run calls).target? label = some t ↔
    ∃ n : Nat, BoundLast calls label n ∧ t = Int.bmod n UInt32.size := by
  induction calls using List.reverseRecOn with
  | nil => exact ⟨nofun, fun ⟨n, hn, _⟩ => absurd hn not_boundLast_nil⟩
  | append_singleton calls c ih =>
    rw [run_concat, target?_step _ (fresh_run name calls), ih, address_run]
    simp only [boundLast_concat, or_and_right, exists_or, and_right_comm, exists_and_right]

end Run

/-! ### Instructions -/

/-- An instruction stays where it is added. The calls after it can only give it a comment. -/
theorem code_run_emit (a : Assembler) (op : Instruction) (after : List Call) : ∃ rest,
    ((a.emit op).run after).code = a.code ++ { op with comment := (remark after).or op.comment } :: rest := by
  induction after generalizing a op with
  | nil => exact ⟨[], rfl⟩
  | cons c after ih =>
    cases c with
    | newLabel => exact ih a.newLabel.2 op
    | place label => exact ih (a.bindLabel label (a.emit op).address) op
    | bindLabel label n => exact ih (a.bindLabel label n) op
    | emit op' =>
      obtain ⟨rest, hrest⟩ := ih (a.emit op) op'
      refine ⟨{ op' with comment := (remark after).or op'.comment } :: rest, hrest.trans ?_⟩
      simp [emit, remark]
    | comment text =>
      have hcomment : (a.emit op).comment text = a.emit { op with comment := some text } := by simp [comment, emit]
      obtain ⟨rest, hrest⟩ := ih a { op with comment := some text }
      refine ⟨rest, ?_⟩
      rw [run, List.foldl_cons, step, hcomment]
      refine hrest.trans ?_
      simp [remark]

theorem code_at {name : String} {calls before after : List Call} {op : Instruction}
    (h : calls = before ++ .emit op :: after) :
    ((start name).run calls).code[emitted before]? = some { op with comment := (remark after).or op.comment } := by
  obtain ⟨rest, hrest⟩ := code_run_emit ((start name).run before) op after
  have hrun : (start name).run calls = (((start name).run before).emit op).run after := by
    rw [h, run_append]
    rfl
  rw [hrun, hrest, ← address_run name before]
  exact List.getElem?_append_right (Nat.le_refl _) |>.trans (by simp)

theorem exists_emit_of_lt {calls : List Call} {i : Nat} (h : i < emitted calls) :
    ∃ (before : List Call) (op : Instruction) (after : List Call), calls = before ++ .emit op :: after ∧ emitted before = i := by
  induction calls using List.reverseRecOn with
  | nil => cases h
  | append_singleton calls c ih =>
    by_cases hi : i < emitted calls
    · obtain ⟨before, op, after, rfl, hbefore⟩ := ih hi
      exact ⟨before, op, after ++ [c], by simp, hbefore⟩
    · rw [emitted_concat] at h
      cases c with
      | emit op => exact ⟨calls, op, [], rfl, Nat.le_antisymm (Nat.not_lt.mp hi) (Nat.le_of_lt_succ h)⟩
      | _ => exact absurd h hi

theorem exists_emit_of_code {name : String} {calls : List Call} {i : Nat} {op : Instruction}
    (h : ((start name).run calls).code[i]? = some op) : ∃ (before : List Call) (op' : Instruction) (after : List Call),
      calls = before ++ .emit op' :: after ∧ emitted before = i ∧ op = { op' with comment := (remark after).or op'.comment } := by
  have hi : i < emitted calls := by
    rw [← address_run name calls]
    exact (List.getElem?_eq_some_iff.mp h).1
  obtain ⟨before, op', after, hcalls, rfl⟩ := exists_emit_of_lt hi
  exact ⟨before, op', after, hcalls, rfl, Option.some.inj (h.symm.trans (code_at hcalls))⟩

/-! ### Resolution -/

section Resolve

variable {a : Assembler} {place : Nat} {op : Instruction}

theorem resolve_ok {op' : Instruction} (h : a.resolve place op = .ok op') : op' = { op with p2 := op'.p2 } ∧
    (op.HasLabel → a.target? op.p2 = some op'.p2) ∧ (¬ op.HasLabel → op'.p2 = op.p2) := by
  unfold resolve at h
  split at h
  · next hlabel =>
    have hlabel : op.HasLabel := by simpa [Instruction.HasLabel] using hlabel
    split at h
    · next address htarget =>
      cases h
      exact ⟨rfl, fun _ => htarget, fun hnot => absurd hlabel hnot⟩
    · cases h
  · next hlabel =>
    have hlabel : ¬ op.HasLabel := by simpa [Instruction.HasLabel] using hlabel
    cases h
    exact ⟨rfl, fun his => absurd his hlabel, fun _ => rfl⟩

theorem resolve_error {e : Error} (h : a.resolve place op = .error e) :
    op.HasLabel ∧ a.target? op.p2 = none ∧ e = .labelUnbound op.p2 a.name place op.opcode.name := by
  unfold resolve at h
  split at h
  · next hlabel =>
    split at h
    · cases h
    · next htarget =>
      cases h
      exact ⟨by simpa [Instruction.HasLabel] using hlabel, htarget, rfl⟩
  · cases h

theorem resolveAll_ok {ops ops' : List Instruction} (h : a.resolveAll place ops = .ok ops') :
    ops'.length = ops.length ∧
      ∀ i op, ops[i]? = some op → ∃ op', a.resolve (place + i) op = .ok op' ∧ ops'[i]? = some op' := by
  induction ops generalizing place ops' with
  | nil =>
    cases h
    exact ⟨rfl, by simp⟩
  | cons op ops ih =>
    obtain ⟨op', hop, h⟩ := except_bind_eq_ok.mp h
    obtain ⟨rest, hrest, h⟩ := except_bind_eq_ok.mp h
    cases h
    obtain ⟨hlength, hall⟩ := ih hrest
    refine ⟨congrArg Nat.succ hlength, fun i x hx => ?_⟩
    cases i with
    | zero =>
      cases hx
      exact ⟨op', hop, rfl⟩
    | succ i =>
      obtain ⟨x', hx', hat⟩ := hall i x hx
      exact ⟨x', by rwa [Nat.add_right_comm] at hx', hat⟩

theorem resolveAll_error {ops : List Instruction} {e : Error} (h : a.resolveAll place ops = .error e) :
    ∃ i op, ops[i]? = some op ∧ a.resolve (place + i) op = .error e := by
  induction ops generalizing place with
  | nil => cases h
  | cons op ops ih =>
    rw [resolveAll] at h
    cases hop : a.resolve place op with
    | error e' =>
      rw [hop] at h
      cases h
      exact ⟨0, op, rfl, hop⟩
    | ok op' =>
      cases hrest : a.resolveAll (place + 1) ops with
      | error e' =>
        rw [hop, hrest] at h
        cases h
        obtain ⟨i, x, hx, hfails⟩ := ih hrest
        exact ⟨i + 1, x, hx, by rwa [Nat.add_right_comm] at hfails⟩
      | ok rest =>
        rw [hop, hrest] at h
        cases h

end Resolve

section Finish

variable {name : String} {calls before after : List Call} {op : Instruction}

theorem BoundLast.address_lt {label : Int} {n size : Nat} (h : BoundLast calls label n) (hsize : emitted calls < size)
    (haddress : ∀ l m, .bindLabel l m ∈ calls → m < size) : n < size := by
  obtain ⟨before, c, after, rfl, hbinds, -⟩ := h
  cases c with
  | place l =>
    obtain ⟨-, rfl⟩ := hbinds
    rw [emitted, List.countP_append] at hsize
    exact Nat.lt_of_le_of_lt (Nat.le_add_right _ _) hsize
  | bindLabel l m =>
    obtain ⟨-, rfl⟩ := hbinds
    exact haddress l m (List.mem_append_right _ List.mem_cons_self)
  | _ => exact hbinds.elim

theorem bmod_of_lt {n : Nat} (h : n < 2 ^ 31) : Int.bmod n UInt32.size = n := by
  have hsize : UInt32.size = 2 ^ 32 := rfl
  exact Int.bmod_eq_of_le (by omega) (by omega)

theorem finish_ok {p : Procedure} (h : ((start name).run calls).finish = .ok p)
    (hcalls : calls = before ++ .emit op :: after) : ∃ target : Int,
      p.code[emitted before]? = some { op with p2 := target, comment := (remark after).or op.comment } ∧
      (op.HasLabel → ∃ n : Nat, BoundLast calls op.p2 n ∧ target = Int.bmod n UInt32.size) ∧
      (¬ op.HasLabel → target = op.p2) := by
  obtain ⟨ops, hops, h⟩ := except_bind_eq_ok.mp h
  cases h
  obtain ⟨op', hresolve, hat⟩ := (resolveAll_ok hops).2 _ _ (code_at hcalls)
  obtain ⟨hsame, hlabelled, hother⟩ := resolve_ok hresolve
  rw [hsame, ← List.getElem?_toArray] at hat
  exact ⟨op'.p2, hat, fun hlabel => (target?_run name calls).mp (hlabelled hlabel), hother⟩

theorem finish_error {e : Error} (h : ((start name).run calls).finish = .error e) :
    ∃ (before : List Call) (op : Instruction) (after : List Call), calls = before ++ .emit op :: after ∧ op.HasLabel ∧
      (¬ ∃ n, BoundLast calls op.p2 n) ∧ e = .labelUnbound op.p2 name (emitted before) op.opcode.name := by
  obtain ⟨i, op, hcode, hresolve⟩ : ∃ i op, ((start name).run calls).code[i]? = some op ∧
      ((start name).run calls).resolve (0 + i) op = .error e := by
    refine resolveAll_error ?_
    rw [finish] at h
    cases hops : ((start name).run calls).resolveAll 0 ((start name).run calls).code with
    | ok ops =>
      rw [hops] at h
      cases h
    | error e' =>
      rw [hops] at h
      cases h
      rfl
  obtain ⟨before, op, after, hcalls, rfl, rfl⟩ := exists_emit_of_code hcode
  obtain ⟨hlabel, hnone, rfl⟩ := resolve_error hresolve
  refine ⟨before, op, after, hcalls, hlabel, ?_, by rw [name_run, Nat.zero_add]; rfl⟩
  rintro ⟨n, hn⟩
  have hsome := (target?_run name calls).mpr ⟨n, hn, rfl⟩
  exact Option.some_ne_none _ (hsome.symm.trans hnone)

end Finish

end Assembler

end TabularQuery
