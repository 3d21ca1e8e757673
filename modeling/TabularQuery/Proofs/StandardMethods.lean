import TabularQuery.Proofs.ExprBinding
import TabularQuery.Proofs.Faults

/-!
The standard library keeps its promises. Every function, handed arguments of its parameter types,
gives a value of its result type or fails for a reason that lies in the data; every accumulator takes
what its parameters let pass.
-/

namespace TabularQuery

namespace Scalar

variable {F : Failures} {name : String} {result : ColumnType} {f : ScalarFunction}

theorem regular_none (h : Keeps F (fun v => v.type = result) (f [])) : BoundFunction.RegularIn F ⟨name, [], result, f⟩ := by
  intro args hargs
  obtain rfl := List.map_eq_nil_iff.mp hargs
  exact h

theorem regular_one {ty : ColumnType} (h : ∀ v : Value, v.type = ty → Keeps F (fun v => v.type = result) (f [v])) :
    BoundFunction.RegularIn F ⟨name, [ty], result, f⟩ := by
  intro args hargs
  obtain ⟨v, rfl, hv⟩ := List.map_eq_singleton_iff.mp hargs
  exact h v hv

theorem regular_two {ty₁ ty₂ : ColumnType}
    (h : ∀ v w : Value, v.type = ty₁ → w.type = ty₂ → Keeps F (fun v => v.type = result) (f [v, w])) :
    BoundFunction.RegularIn F ⟨name, [ty₁, ty₂], result, f⟩ := by
  intro args hargs
  obtain ⟨v, rest, rfl, hv, hrest⟩ := List.map_eq_cons_iff.mp hargs
  obtain ⟨w, rfl, hw⟩ := List.map_eq_singleton_iff.mp hrest
  exact h v w hv hw

theorem regular_substring : BoundFunction.RegularIn F
    ⟨name, [.text, .integer, .integer], .text, substring⟩ := by
  intro args hargs
  obtain ⟨v, rest, rfl, hv, hrest⟩ := List.map_eq_cons_iff.mp hargs
  obtain ⟨start, rest, rfl, hstart, hrest⟩ := List.map_eq_cons_iff.mp hrest
  obtain ⟨count, rfl, hcount⟩ := List.map_eq_singleton_iff.mp hrest
  cases v <;> cases hv
  cases start <;> cases hstart
  cases count <;> cases hcount
  exact Keeps.ok rfl

theorem keeps_toInteger (hF : ∀ s, toInteger [.text s] = .error (.notAnInteger s) → F.Has (.notAnInteger s))
    (s : String) : Keeps F (fun v => v.type = .integer) (toInteger [.text s]) := by
  have hs := hF s
  rw [toInteger] at hs ⊢
  split
  · exact Keeps.ok rfl
  · rename_i hnone
    rw [hnone] at hs
    exact Keeps.error (hs rfl)

theorem keeps_magnitude (n : Int) : Keeps F (fun v => v.type = .integer) (magnitude n) := by
  unfold magnitude
  split
  · exact Keeps.ok rfl
  · exact Keeps.error (F.ordinary _ rfl)

theorem regular_text (h : ∀ s, Keeps F (fun v => v.type = result) (f [.text s])) :
    BoundFunction.RegularIn F ⟨name, [.text], result, f⟩ := by
  refine regular_one fun v hv => ?_
  obtain ⟨s, rfl⟩ := Value.exists_text hv
  exact h s

theorem regular_texts (h : ∀ s t, Keeps F (fun v => v.type = result) (f [.text s, .text t])) :
    BoundFunction.RegularIn F ⟨name, [.text, .text], result, f⟩ := by
  refine regular_two fun v w hv hw => ?_
  obtain ⟨s, rfl⟩ := Value.exists_text hv
  obtain ⟨t, rfl⟩ := Value.exists_text hw
  exact h s t

theorem regular_integer (h : ∀ n, Keeps F (fun v => v.type = result) (f [.integer n])) :
    BoundFunction.RegularIn F ⟨name, [.integer], result, f⟩ := by
  refine regular_one fun v hv => ?_
  cases v <;> cases hv
  exact h _

theorem regular_real (h : ∀ x, Keeps F (fun v => v.type = result) (f [.real x])) :
    BoundFunction.RegularIn F ⟨name, [.real], result, f⟩ := by
  refine regular_one fun v hv => ?_
  cases v <;> cases hv
  exact h _

end Scalar

namespace Catalog

open Scalar

/-- Every function of the standard library keeps to its signature, and `ToInt` alone has failures that are not ordinary. -/
theorem standard_regularIn {F : Failures} {f : BoundFunction} (h : standard.Offers f)
    (hF : f.name = "ToInt" → f.params = [.text] →
      ∀ s, toInteger [.text s] = .error (.notAnInteger s) → F.Has (.notAnInteger s)) : f.RegularIn F := by
  obtain ⟨m, hm, hf⟩ := h
  simp only [standard, standardMethods, List.mem_cons, List.not_mem_nil, or_false] at hm
  rcases hm with rfl | rfl | rfl | rfl | rfl | rfl | rfl | rfl | rfl | rfl | rfl | rfl | rfl | rfl | rfl |
    rfl | rfl | rfl | rfl | rfl | rfl | rfl <;> cases hf
  · exact regular_text fun _ => Keeps.ok rfl
  · exact regular_text fun _ => Keeps.ok rfl
  · exact regular_text fun _ => Keeps.ok rfl
  · exact regular_text fun _ => Keeps.ok rfl
  · exact regular_substring
  · exact regular_texts fun _ _ => Keeps.ok rfl
  · exact regular_texts fun _ _ => Keeps.ok rfl
  · exact regular_integer fun n => keeps_magnitude n.toInt.natAbs
  · exact regular_real fun _ => Keeps.ok rfl
  · refine regular_two fun v w hv hw => ?_
    cases v <;> cases hv
    cases w <;> cases hw
    exact Keeps.ok rfl
  · exact regular_one fun _ _ => Keeps.ok rfl
  · exact regular_one fun _ _ => Keeps.ok rfl
  · exact regular_one fun _ _ => Keeps.ok rfl
  · exact regular_text (keeps_toInteger (hF rfl rfl))
  · exact regular_integer fun _ => Keeps.ok rfl
  · exact regular_none (Keeps.ok rfl)

theorem standard_regular {f : BoundFunction} (h : standard.Offers f) : f.Regular :=
  standard_regularIn h fun _ _ _ _ => rfl

end Catalog

/-! ### Accumulators -/

theorem Catalog.standardAccumulators_params : ∀ a ∈ standardAccumulators, a.params.length = 1 ∧
    (a.aggregate = .count ∨ a.aggregate = .values ∨ a.params = [.real]) := by
  decide

theorem Catalog.standard_reads {ty : ColumnType} {a : AccumulatorMethod} (h : standard.Reads ty a) :
    ty = a.aggregate.resultType := by
  have hall : ∀ m ∈ standardMethods, m.isAggregate = true → ∀ a ∈ standardAccumulators,
      sameName a.name (m.accumulator?.getD "") = true → m.result = a.aggregate.resultType := by decide +kernel
  obtain ⟨ha, m, hm, hkind, rfl, hname⟩ := h
  exact hall m hm hkind a ha hname

theorem Catalog.standard_accumulates {a : AccumulatorMethod} (h : a ∈ standard.accumulators) :
    a.Regular := by
  intro args state hargs hstate
  obtain ⟨hlen, hkind⟩ := standardAccumulators_params a h
  have hone : args.length = 1 := by rw [← hlen, ← hargs, List.length_map]
  obtain ⟨v, rfl⟩ := List.length_eq_one_iff.mp hone
  rcases hkind with hkind | hkind | hreal
  · rw [hkind] at hstate
    cases state <;> cases hstate
    exact ⟨_, rfl⟩
  · rw [hkind] at hstate
    cases state <;> cases hstate
    exact ⟨_, rfl⟩
  · have hv : v.type = .real := by simpa [hreal] using hargs
    cases v <;> cases hv
    cases state <;> exact ⟨_, rfl⟩

end TabularQuery
