import Mathlib.Data.List.Induction
import Mathlib.Data.List.Nodup
import TabularQuery.Method.Catalog
import TabularQuery.Proofs.Action

/-!
Catalogs as sets of items. An item takes the place of an earlier one with its key, that is with its name in either case,
its parameters and its class; so each key is there once, and what a call finds does not depend on where items stand.
Registering in another order and walking through another catalog in any order make no difference to it.
-/

namespace TabularQuery

/-! ### Lists with one item for each key -/

section Keyed

variable {α κ : Type} [DecidableEq κ] {key : α → κ} {items items' new : List α} {item : α}

/-- Adds an item at the end, in the place of one with its key. -/
def replaceBy (key : α → κ) (items : List α) (item : α) : List α :=
  items.filter (fun old => key old ≠ key item) ++ [item]

/-- Adding some items to a list drops what has one of their keys, and then puts what they come to by themselves behind
it. -/
theorem foldl_replaceBy (key : α → κ) (items new : List α) :
    new.foldl (replaceBy key) items =
      items.filter (fun old => key old ∉ new.map key) ++ new.foldl (replaceBy key) [] := by
  induction new using List.reverseRecOn with
  | nil => simp
  | append_singleton new item ih =>
    rw [List.foldl_append, List.foldl_append, ih]
    simp only [List.foldl_cons, List.foldl_nil, replaceBy, List.filter_append, List.filter_filter, List.append_assoc]
    congr 1
    refine List.filter_congr fun old _ => Bool.eq_iff_iff.mpr ?_
    simp only [Bool.and_eq_true, decide_eq_true_eq, List.map_append, List.map_singleton, List.mem_append,
      List.mem_singleton, not_or, and_comm]

theorem mem_keys_foldl_replaceBy {k : κ} : k ∈ (new.foldl (replaceBy key) []).map key ↔ k ∈ new.map key := by
  induction new using List.reverseRecOn with
  | nil => rfl
  | append_singleton new item ih =>
    rw [List.foldl_append, List.foldl_cons, List.foldl_nil, replaceBy, List.map_append, List.map_append,
      List.mem_append, List.mem_append, ← ih]
    simp only [List.mem_map, List.mem_filter, decide_eq_true_eq, List.mem_singleton, exists_eq_left]
    grind

theorem nodup_keys_replaceBy (h : (items.map key).Nodup) : ((replaceBy key items item).map key).Nodup := by
  rw [replaceBy, List.map_append, List.map_singleton, List.nodup_append]
  refine ⟨h.sublist (List.filter_sublist.map key), List.nodup_singleton _, ?_⟩
  intro k hk k' hk' heq
  obtain ⟨old, hold, rfl⟩ := List.mem_map.mp hk
  rw [List.mem_singleton.mp hk'] at heq
  exact of_decide_eq_true (List.mem_filter.mp hold).2 heq

theorem nodup_keys_foldl_replaceBy (key : α → κ) (new : List α) :
    ((new.foldl (replaceBy key) []).map key).Nodup := by
  induction new using List.reverseRecOn with
  | nil => exact List.nodup_nil
  | append_singleton new item ih =>
    rw [List.foldl_append]
    exact nodup_keys_replaceBy ih

theorem sublist_foldl_replaceBy (key : α → κ) (new : List α) : (new.foldl (replaceBy key) []).Sublist new := by
  induction new using List.reverseRecOn with
  | nil => exact List.Sublist.refl []
  | append_singleton new item ih =>
    rw [List.foldl_append]
    exact (List.filter_sublist.trans ih).append (List.Sublist.refl [item])

theorem foldl_replaceBy_of_nodup (h : (new.map key).Nodup) : new.foldl (replaceBy key) [] = new := by
  induction new using List.reverseRecOn with
  | nil => rfl
  | append_singleton new item ih =>
    rw [List.map_append, List.map_singleton, List.nodup_append] at h
    rw [List.foldl_append, ih h.1, List.foldl_cons, List.foldl_nil, replaceBy]
    congr 1
    refine List.filter_eq_self.mpr fun old hold => decide_eq_true ?_
    exact h.2.2 _ (List.mem_map_of_mem hold) _ (List.mem_singleton_self _)

theorem mem_foldl_replaceBy (h : key item ∉ new.map key) :
    item ∈ new.foldl (replaceBy key) (replaceBy key items item) := by
  rw [foldl_replaceBy]
  exact List.mem_append_left _ (List.mem_filter.mpr ⟨List.mem_append_right _ (List.mem_singleton_self _), by simpa using h⟩)

theorem foldl_replaceBy_perm (h : items.Perm items') (new : List α) :
    (new.foldl (replaceBy key) items).Perm (new.foldl (replaceBy key) items') := by
  rw [foldl_replaceBy, foldl_replaceBy key items']
  exact (h.filter _).append_right _

/-- Adding the items of a list, in any order, is adding what they were made of. -/
theorem foldl_replaceBy_walked {walked : List α} (hwalked : walked.Perm (new.foldl (replaceBy key) []))
    (items : List α) : (walked.foldl (replaceBy key) items).Perm (new.foldl (replaceBy key) items) := by
  have hkeys : (walked.map key).Nodup := (hwalked.map key).nodup_iff.mpr (nodup_keys_foldl_replaceBy key new)
  have hsame : ∀ k, k ∈ walked.map key ↔ k ∈ new.map key := fun k =>
    (hwalked.map key).mem_iff.trans mem_keys_foldl_replaceBy
  rw [foldl_replaceBy, foldl_replaceBy key items new, foldl_replaceBy_of_nodup hkeys]
  simp only [hsame]
  exact hwalked.append_left _

end Keyed

section Finding

variable {α : Type} {p : α → Bool} {xs ys : List α}

theorem find?_eq_some_of_only {x : α} (hx : x ∈ xs) (hp : p x = true) (honly : ∀ y ∈ xs, p y = true → y = x) :
    xs.find? p = some x := by
  cases h : xs.find? p with
  | none => exact absurd hp (List.find?_eq_none.mp h x hx)
  | some y => rw [honly y (List.mem_of_find?_eq_some h) (List.find?_some h)]

theorem find?_perm (h : xs.Perm ys) (honly : ∀ x ∈ xs, ∀ y ∈ xs, p x = true → p y = true → x = y) :
    xs.find? p = ys.find? p := by
  cases hx : xs.find? p with
  | none => exact (List.find?_eq_none.mpr fun y hy => List.find?_eq_none.mp hx y (h.mem_iff.mpr hy)).symm
  | some x =>
    have hmem := List.mem_of_find?_eq_some hx
    have hp := List.find?_some hx
    exact (find?_eq_some_of_only (h.mem_iff.mp hmem) hp fun y hy hpy => honly y (h.mem_iff.mpr hy) x hmem hpy hp).symm

end Finding

namespace Catalog

/-! ### Items -/

/-- The key of a method or an accumulator: its name in lower case, its parameters, and of a method whether it is an
aggregate. Those with one key cannot stand side by side. -/
def itemKey : Method ⊕ AccumulatorMethod → (String × List ColumnType × Bool) ⊕ (String × List ColumnType)
  | .inl m => .inl (Text.lower m.name, m.params, m.isAggregate)
  | .inr a => .inr (Text.lower a.name, a.params)

def items (c : Catalog) : List (Method ⊕ AccumulatorMethod) := c.methods.map .inl ++ c.accumulators.map .inr

def add (c : Catalog) : Method ⊕ AccumulatorMethod → Catalog
  | .inl m => c.register m
  | .inr a => c.registerAccumulator a

section Items

variable {c c' : Catalog}

@[simp] theorem inl_mem_items {m : Method} : .inl m ∈ c.items ↔ m ∈ c.methods := by simp [items]

@[simp] theorem inr_mem_items {a : AccumulatorMethod} : .inr a ∈ c.items ↔ a ∈ c.accumulators := by simp [items]

theorem filterMap_getLeft?_items (c : Catalog) : c.items.filterMap Sum.getLeft? = c.methods := by
  simp [items, List.filterMap_append, List.filterMap_map, Function.comp_def]

theorem filterMap_getRight?_items (c : Catalog) : c.items.filterMap Sum.getRight? = c.accumulators := by
  simp [items, List.filterMap_append, List.filterMap_map, Function.comp_def]

theorem items_add (c : Catalog) (item : Method ⊕ AccumulatorMethod) :
    (c.add item).items.Perm (replaceBy itemKey c.items item) := by
  cases item with
  | inl m =>
    have hother : ((c.accumulators.map Sum.inr).filter fun old => itemKey old ≠ itemKey (.inl m)) =
        c.accumulators.map Sum.inr := by simp [itemKey]
    have hsame : ((c.methods.map Sum.inl).filter fun old => itemKey old ≠ itemKey (.inl m)) =
        (c.methods.filter fun old => !replaces m old).map Sum.inl := by
      rw [List.filter_map]
      refine congrArg _ (List.filter_congr fun old _ => ?_)
      simp [replaces, sameName, itemKey, Bool.or_assoc]
    unfold replaceBy items
    rw [List.filter_append, hother, hsame, add, register, List.map_append, List.append_assoc, List.append_assoc]
    exact List.perm_append_comm.append_left _
  | inr a =>
    have hother : ((c.methods.map Sum.inl).filter fun old => itemKey old ≠ itemKey (.inr a)) =
        c.methods.map Sum.inl := by simp [itemKey]
    have hsame : ((c.accumulators.map Sum.inr).filter fun old => itemKey old ≠ itemKey (.inr a)) =
        (c.accumulators.filter fun old => !(sameName old.name a.name && old.params = a.params)).map Sum.inr := by
      rw [List.filter_map]
      refine congrArg _ (List.filter_congr fun old _ => ?_)
      simp [sameName, itemKey]
    unfold replaceBy items
    rw [List.filter_append, hother, hsame, add, registerAccumulator, List.map_append, List.append_assoc]
    exact .refl _

theorem items_foldl_add (c : Catalog) (new : List (Method ⊕ AccumulatorMethod)) :
    (new.foldl add c).items.Perm (new.foldl (replaceBy itemKey) c.items) := by
  induction new generalizing c with
  | nil => exact .refl _
  | cons item new ih => exact (ih (c.add item)).trans (foldl_replaceBy_perm (c.items_add item) new)

theorem extend_eq_foldl (c d : Catalog) : c.extend d = d.items.foldl add c := by
  rw [items, List.foldl_append, List.foldl_map, List.foldl_map]
  rfl

/-- No two items have the same key, and properties are without parameters. -/
structure Distinct (c : Catalog) : Prop where
  keys : (c.items.map itemKey).Nodup
  properties : ∀ m ∈ c.methods, m.isProperty = true → m.params = []

/-- The items of one catalog are those of the other, in whatever order. -/
def SameItems (c c' : Catalog) : Prop := c.items.Perm c'.items

theorem SameItems.methods (h : SameItems c c') : c.methods.Perm c'.methods := by
  rw [← c.filterMap_getLeft?_items, ← c'.filterMap_getLeft?_items]
  exact h.filterMap _

theorem SameItems.accumulators (h : SameItems c c') : c.accumulators.Perm c'.accumulators := by
  rw [← c.filterMap_getRight?_items, ← c'.filterMap_getRight?_items]
  exact h.filterMap _

end Items

/-- Every name has the same meaning in both catalogs: what is found, that nothing is, or that too much is. -/
structure Agree (c c' : Catalog) : Prop where
  method (name : String) (args : List ColumnType) : c.resolveMethod name args = c'.resolveMethod name args
  aggregate (name : String) (args : List ColumnType) : c.resolveAggregate? name args = c'.resolveAggregate? name args
  accumulator (name : String) (args : List ColumnType) :
    c.resolveAccumulator name args = c'.resolveAccumulator name args
  property (name : String) : c.resolveProperty? name = c'.resolveProperty? name

/-! ### Look-up without an order -/

section Selection

variable {α : Type} {params : α → List ColumnType} {candidates candidates' : List α} {args : List ColumnType}

theorem selectOverload_perm (name : String) (h : candidates.Perm candidates')
    (honly : ∀ a ∈ candidates, ∀ b ∈ candidates, params a = params b → a = b) (args : List ColumnType) :
    selectOverload name params candidates args = selectOverload name params candidates' args := by
  have hexact : candidates.find? (fun a => params a = args) = candidates'.find? (fun a => params a = args) := by
    refine find?_perm h fun a ha b hb hpa hpb => honly a ha b hb ?_
    exact (of_decide_eq_true hpa).trans (of_decide_eq_true hpb).symm
  unfold selectOverload
  rw [hexact]
  cases candidates'.find? (fun a => params a = args) with
  | some a => rfl
  | none =>
    dsimp only
    generalize hfits : candidates.filter _ = fits
    generalize hfits' : candidates'.filter _ = fits'
    have hperm : fits.Perm fits' := by
      rw [← hfits, ← hfits']
      exact h.filter _
    rcases fits with _ | ⟨a, _ | ⟨b, rest⟩⟩
    · rw [List.nil_perm.mp hperm]
    · rw [List.singleton_perm.mp hperm]
    · rcases fits' with _ | ⟨a', _ | ⟨b', rest'⟩⟩
      · cases hperm.length_eq
      · cases hperm.length_eq
      · rfl

/-- A candidate with exactly the types of the arguments is taken, whatever else would accept them. -/
theorem selectOverload_exact (name : String) (honly : ∀ a ∈ candidates, ∀ b ∈ candidates, params a = params b → a = b)
    {a : α} (ha : a ∈ candidates) : selectOverload name params candidates (params a) = .ok (some a) := by
  have hexact : candidates.find? (fun b => params b = params a) = some a :=
    find?_eq_some_of_only ha (decide_eq_true rfl) fun b hb hparams => honly b hb a ha (of_decide_eq_true hparams)
  rw [selectOverload, hexact]

end Selection

theorem isAggregate_of_isScalar {m : Method} (h : m.isScalar = true) : m.isAggregate = false := by
  unfold Method.isScalar at h
  unfold Method.isAggregate
  split at h <;> simp_all

theorem isAggregate_of_isProperty {m : Method} (h : m.isProperty = true) : m.isAggregate = false := by
  unfold Method.isProperty at h
  unfold Method.isAggregate
  split at h <;> simp_all

section Lookup

variable {c c' : Catalog} {name : String}

theorem Distinct.eq_of_params (hc : c.Distinct) {m m' : Method} (hm : m ∈ c.overloads name) (hm' : m' ∈ c.overloads name)
    (hkind : m.isAggregate = m'.isAggregate) (hparams : m.params = m'.params) : m = m' := by
  obtain ⟨hmem, hname⟩ := List.mem_filter.mp hm
  obtain ⟨hmem', hname'⟩ := List.mem_filter.mp hm'
  have hkey : itemKey (.inl m) = itemKey (.inl m') := by
    rw [itemKey, itemKey, of_decide_eq_true hname, of_decide_eq_true hname', hparams, hkind]
  exact Sum.inl.inj (List.inj_on_of_nodup_map hc.keys (inl_mem_items.mpr hmem) (inl_mem_items.mpr hmem') hkey)

theorem Distinct.accumulator_eq_of_params (hc : c.Distinct) {a b : AccumulatorMethod}
    (ha : a ∈ c.accumulators.filter fun a => sameName a.name name)
    (hb : b ∈ c.accumulators.filter fun a => sameName a.name name) (hparams : a.params = b.params) : a = b := by
  obtain ⟨hmem, hname⟩ := List.mem_filter.mp ha
  obtain ⟨hmem', hname'⟩ := List.mem_filter.mp hb
  have hkey : itemKey (.inr a) = itemKey (.inr b) := by
    rw [itemKey, itemKey, of_decide_eq_true hname, of_decide_eq_true hname', hparams]
  exact Sum.inr.inj (List.inj_on_of_nodup_map hc.keys (inr_mem_items.mpr hmem) (inr_mem_items.mpr hmem') hkey)

theorem Distinct.picked_eq_of_params (hc : c.Distinct) {p : Method → Bool} {b : Bool}
    (hp : ∀ {m : Method}, p m = true → m.isAggregate = b) {m m' : Method} (hm : m ∈ (c.overloads name).filter p)
    (hm' : m' ∈ (c.overloads name).filter p) (hparams : m.params = m'.params) : m = m' := by
  obtain ⟨hmem, hpicked⟩ := List.mem_filter.mp hm
  obtain ⟨hmem', hpicked'⟩ := List.mem_filter.mp hm'
  exact hc.eq_of_params hmem hmem' ((hp hpicked).trans (hp hpicked').symm) hparams

theorem Distinct.property_eq (hc : c.Distinct) {m m' : Method} (hm : m ∈ c.overloads name) (hm' : m' ∈ c.overloads name)
    (hproperty : m.isProperty = true) (hproperty' : m'.isProperty = true) : m = m' := by
  refine hc.eq_of_params hm hm' (by rw [isAggregate_of_isProperty hproperty, isAggregate_of_isProperty hproperty']) ?_
  rw [hc.properties m (List.mem_of_mem_filter hm) hproperty, hc.properties m' (List.mem_of_mem_filter hm') hproperty']

/-- Catalogs with the same items, each under a key of its own, give the same answers. -/
theorem SameItems.agree (h : SameItems c c') (hc : c.Distinct) : Agree c c' where
  method name args := by
    have hsame : c.resolveScalar? name args = c'.resolveScalar? name args :=
      selectOverload_perm name ((h.methods.filter _).filter _)
        (fun m hm m' hm' => hc.picked_eq_of_params isAggregate_of_isScalar hm hm') args
    rw [resolveMethod, resolveMethod, hsame]
  aggregate name args :=
    selectOverload_perm name ((h.methods.filter _).filter _) (fun m hm m' hm' => hc.picked_eq_of_params id hm hm') args
  accumulator name args := by
    have hperm := h.accumulators.filter fun a => sameName a.name name
    have hsame : selectOverload name AccumulatorMethod.params _ args = _ :=
      selectOverload_perm name hperm (fun a ha b hb => hc.accumulator_eq_of_params ha hb) args
    rw [resolveAccumulator, resolveAccumulator, hsame]
  property name := find?_perm (h.methods.filter _) fun m hm m' hm' => hc.property_eq hm hm'

section Exact

variable {m : Method} (hc : c.Distinct) (hm : m ∈ c.methods) (hname : sameName m.name name = true)
include hc hm hname

theorem Distinct.resolveMethod_exact (hscalar : m.isScalar = true) : c.resolveMethod name m.params = .ok m := by
  have hmem : m ∈ (c.overloads name).filter Method.isScalar :=
    List.mem_filter.mpr ⟨List.mem_filter.mpr ⟨hm, hname⟩, hscalar⟩
  have hfound : c.resolveScalar? name m.params = .ok (some m) :=
    selectOverload_exact name (fun a ha b hb => hc.picked_eq_of_params isAggregate_of_isScalar ha hb) hmem
  rw [resolveMethod, hfound]
  rfl

theorem Distinct.resolveAggregate?_exact (haggregate : m.isAggregate = true) :
    c.resolveAggregate? name m.params = .ok (some m) :=
  selectOverload_exact name (fun _ ha _ hb => hc.picked_eq_of_params id ha hb)
    (List.mem_filter.mpr ⟨List.mem_filter.mpr ⟨hm, hname⟩, haggregate⟩)

theorem Distinct.resolveProperty?_eq_some (hproperty : m.isProperty = true) : c.resolveProperty? name = some m :=
  have hmem : m ∈ c.overloads name := List.mem_filter.mpr ⟨hm, hname⟩
  find?_eq_some_of_only hmem hproperty fun _ hm' hproperty' => hc.property_eq hm' hmem hproperty' hproperty

end Exact

theorem Distinct.resolveAccumulator_exact (hc : c.Distinct) {a : AccumulatorMethod} (ha : a ∈ c.accumulators)
    (hname : sameName a.name name = true) : c.resolveAccumulator name a.params = .ok a := by
  have hmem : a ∈ c.accumulators.filter fun a => sameName a.name name := List.mem_filter.mpr ⟨ha, hname⟩
  have hfound : selectOverload name AccumulatorMethod.params _ a.params = .ok (some a) :=
    selectOverload_exact name (fun a ha b hb => hc.accumulator_eq_of_params ha hb) hmem
  rw [resolveAccumulator, hfound]
  rfl

end Lookup

/-! ### Entries -/

/-- What a caller registers. -/
inductive Entry where
  | scalar (name : String) (params : List ColumnType) (result : ColumnType) (function : ScalarFunction)
  | property (name : String) (result : ColumnType) (function : ScalarFunction)
  | aggregate (name : String) (params : List ColumnType) (result : ColumnType) (accumulator : String)
  | accumulator (entry : AccumulatorMethod)

def enter (c : Catalog) : Entry → Catalog
  | .scalar name params result f => c.registerScalar name params result f
  | .property name result f => c.registerProperty name result f
  | .aggregate name params result a => c.registerAggregate name params result a
  | .accumulator a => c.registerAccumulator a

/-- The catalog of some entries, registered one after the other. -/
def ofEntries (es : List Entry) : Catalog := es.foldl enter empty

namespace Entry

def item : Entry → Method ⊕ AccumulatorMethod
  | .scalar name params result f => .inl ⟨name, params, result, .scalar f⟩
  | .property name result f => .inl ⟨name, [], result, .property f⟩
  | .aggregate name params result a => .inl ⟨name, params, result, .aggregate a⟩
  | .accumulator a => .inr a

/-- The name in lower case and the parameters, and of a method whether it is an aggregate. -/
def key (e : Entry) : (String × List ColumnType × Bool) ⊕ (String × List ColumnType) := itemKey e.item

/-- Calls under the entry's name, in either case, and with exactly its parameters are calls of it. -/
def FoundIn (c : Catalog) : Entry → Prop
  | .scalar name params result f => ∀ called, sameName name called = true →
      c.resolveMethod called params = .ok ⟨name, params, result, .scalar f⟩
  | .property name result f => ∀ called, sameName name called = true →
      c.resolveProperty? called = some ⟨name, [], result, .property f⟩
  | .aggregate name params result a => ∀ called, sameName name called = true →
      c.resolveAggregate? called params = .ok (some ⟨name, params, result, .aggregate a⟩)
  | .accumulator a => ∀ called, sameName a.name called = true → c.resolveAccumulator called a.params = .ok a

theorem params_of_isProperty {e : Entry} {m : Method} (h : e.item = .inl m) (hm : m.isProperty = true) :
    m.params = [] := by
  cases e <;> cases h
  · cases hm
  · rfl
  · cases hm

end Entry

section Entries

variable {c c' d d' : Catalog} {es es' cs ds : List Entry}

theorem foldl_enter (c : Catalog) (es : List Entry) : es.foldl enter c = (es.map Entry.item).foldl add c := by
  rw [List.foldl_map]
  congr 1
  funext c e
  cases e <;> rfl

theorem items_foldl_enter (c : Catalog) (es : List Entry) :
    (es.foldl enter c).items.Perm ((es.map Entry.item).foldl (replaceBy itemKey) c.items) := by
  rw [foldl_enter]
  exact items_foldl_add _ _

theorem items_ofEntries (es : List Entry) :
    (ofEntries es).items.Perm ((es.map Entry.item).foldl (replaceBy itemKey) []) :=
  items_foldl_enter _ es

theorem ofEntries_append (es es' : List Entry) : ofEntries (es ++ es') = es'.foldl enter (ofEntries es) :=
  List.foldl_append

theorem ofEntries_perm (h : es.Perm es') (hkeys : (es.map Entry.key).Nodup) :
    SameItems (ofEntries es) (ofEntries es') := by
  have hitems : ∀ {es : List Entry}, (es.map Entry.key).Nodup → (ofEntries es).items.Perm (es.map Entry.item) := by
    intro es hkeys
    have hall := items_ofEntries es
    rwa [foldl_replaceBy_of_nodup (by rwa [List.map_map])] at hall
  exact ((hitems hkeys).trans (h.map _)).trans (hitems ((h.map _).nodup_iff.mp hkeys)).symm

/-- The catalog was made of the entries, in this order, which were registered or copied from other catalogs. Copying goes
through the other catalog in any order. -/
inductive Made : Catalog → List Entry → Prop
  | empty : Made .empty []
  | enter {c : Catalog} {es : List Entry} (h : Made c es) (e : Entry) : Made (c.enter e) (es ++ [e])
  | extend {c d walked : Catalog} {cs ds : List Entry} (hc : Made c cs) (hd : Made d ds)
      (hwalked : SameItems walked d) : Made (c.extend walked) (cs ++ ds)

/-- However a catalog was made, it has the items that registering makes. -/
theorem Made.sameItems (h : Made c es) : SameItems c (ofEntries es) := by
  induction h with
  | empty => exact .refl _
  | @enter c es _ e ih =>
    have henter := items_foldl_enter c [e]
    rw [SameItems, ofEntries_append]
    exact (henter.trans (foldl_replaceBy_perm ih _)).trans (items_foldl_enter _ [e]).symm
  | @extend c d walked cs ds _ _ hwalked ihc ihd =>
    have hwalk := (hwalked.trans ihd).trans (items_ofEntries ds)
    rw [SameItems, ofEntries_append, extend_eq_foldl]
    refine (items_foldl_add _ _).trans (.trans ?_ (items_foldl_enter _ ds).symm)
    exact (foldl_replaceBy_walked hwalk _).trans (foldl_replaceBy_perm ihc _)

theorem Made.perm (h : Made c es) : c.items.Perm ((es.map Entry.item).foldl (replaceBy itemKey) []) :=
  h.sameItems.trans (items_ofEntries es)

theorem Made.distinct (h : Made c es) : c.Distinct where
  keys := (h.perm.map _).nodup_iff.mpr (nodup_keys_foldl_replaceBy ..)
  properties m hm := by
    have hmem := (sublist_foldl_replaceBy ..).subset (h.perm.mem_iff.mp (inl_mem_items.mpr hm))
    obtain ⟨e, -, he⟩ := List.mem_map.mp hmem
    exact Entry.params_of_isProperty he

theorem Made.foldl_enter (h : Made c cs) (ds : List Entry) : Made (ds.foldl Catalog.enter c) (cs ++ ds) := by
  induction ds generalizing c cs with
  | nil => exact (List.append_nil cs).symm ▸ h
  | cons e ds ih =>
    rw [List.foldl_cons, List.append_cons]
    exact ih (h.enter e)

theorem Made.mem_items {before after : List Entry} {e : Entry} (h : Made c (before ++ e :: after))
    (hlast : e.key ∉ after.map Entry.key) : e.item ∈ c.items := by
  have hkey : itemKey e.item ∉ (after.map Entry.item).map itemKey := by rwa [List.map_map]
  rw [h.perm.mem_iff, List.map_append, List.map_cons, List.foldl_append, List.foldl_cons]
  exact mem_foldl_replaceBy hkey

theorem Made.foundIn {before after : List Entry} {e : Entry} (h : Made c (before ++ e :: after))
    (hlast : e.key ∉ after.map Entry.key) : e.FoundIn c := by
  cases e with
  | scalar name params result f =>
    exact fun called hname => h.distinct.resolveMethod_exact (inl_mem_items.mp (h.mem_items hlast)) hname rfl
  | property name result f =>
    exact fun called hname => h.distinct.resolveProperty?_eq_some (inl_mem_items.mp (h.mem_items hlast)) hname rfl
  | aggregate name params result a =>
    exact fun called hname => h.distinct.resolveAggregate?_exact (inl_mem_items.mp (h.mem_items hlast)) hname rfl
  | accumulator a =>
    exact fun called hname => h.distinct.resolveAccumulator_exact (inr_mem_items.mp (h.mem_items hlast)) hname

end Entries

/-- Look-up does not depend on the order in which entries were registered, as long as each has a key of its own. What has
exactly the types of the arguments is found, whatever else accepts them, unless a later entry took its place. And copying
the entries of a catalog, in whatever order, does what registering would do that it was made of. -/
theorem lookup_ignores_order :
    (∀ (c c' : Catalog) (es es' : List Entry), Made c es → Made c' es' → es.Perm es' → (es.map Entry.key).Nodup →
      Agree c c') ∧
    (∀ (c : Catalog) (before after : List Entry) (e : Entry), Made c (before ++ e :: after) →
      e.key ∉ after.map Entry.key → e.FoundIn c) ∧
    ∀ (c d walked : Catalog) (cs ds : List Entry), Made c cs → Made d ds → SameItems walked d →
      Agree (c.extend walked) (ds.foldl enter c) := by
  refine ⟨?_, fun c before after e => Made.foundIn, ?_⟩
  · intro c c' es es' hc hc' hperm hkeys
    have hsame : SameItems c c' := (hc.sameItems.trans (ofEntries_perm hperm hkeys)).trans hc'.sameItems.symm
    exact hsame.agree hc.distinct
  · intro c d walked cs ds hc hd hwalked
    have hextend := hc.extend hd hwalked
    have hsame : SameItems (c.extend walked) (ds.foldl enter c) :=
      hextend.sameItems.trans (hc.foldl_enter ds).sameItems.symm
    exact hsame.agree hextend.distinct

/-- Three methods of one name that all take two integers, and other entries of the name. -/
def pickEntries : List Entry :=
  [.scalar "Pick" [.integer, .integer] .integer Scalar.abs, .scalar "pick" [.real, .integer] .real Scalar.abs,
   .scalar "PICK" [.integer, .real] .real Scalar.abs, .property "Pick" .real Scalar.pi,
   .aggregate "Pick" [.integer, .integer] .real "SetPick", .accumulator ⟨"SetPick", [.real], .sum⟩]

theorem lookup_ignores_order_pick :
    ((pickEntries.map Entry.key).Nodup ∧ Agree (ofEntries pickEntries) (ofEntries pickEntries.reverse)) ∧
    (ofEntries pickEntries).resolveMethod "pICK" [.integer, .integer] =
      .ok ⟨"Pick", [.integer, .integer], .integer, .scalar Scalar.abs⟩ ∧
    Agree ((ofEntries (pickEntries.take 2)).extend (ofEntries pickEntries.reverse))
      (pickEntries.foldl enter (ofEntries (pickEntries.take 2))) := by
  have hkeys : (pickEntries.map Entry.key).Nodup := by decide
  have hperm : pickEntries.Perm pickEntries.reverse := (List.reverse_perm _).symm
  have hmade : ∀ es : List Entry, Made (ofEntries es) es := fun es => Made.empty.foldl_enter es
  refine ⟨⟨hkeys, ?_⟩, ?_, ?_⟩
  · exact lookup_ignores_order.1 _ _ _ _ (hmade _) (hmade _) hperm hkeys
  · exact lookup_ignores_order.2.1 _ [] pickEntries.tail _ (hmade pickEntries) (List.nodup_cons.mp hkeys).1 _ (by decide)
  · exact lookup_ignores_order.2.2 _ _ _ _ _ (hmade _) (hmade pickEntries) (ofEntries_perm hperm hkeys).symm

end Catalog

end TabularQuery
