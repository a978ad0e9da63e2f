import Mathlib.Tactic
import Mathlib.Data.List.Nodup
import Mathlib.Data.List.TakeWhile
import Mathlib.Algebra.BigOperators.Group.List.Basic

/-!
# Insertion-ordered dictionaries

A dictionary is an association list without repeated keys, read in insertion
order. Assigning to a present key keeps its position, assigning to an absent key
appends it, and removing a key closes the gap. Two dictionaries are equal when
they list the same pairs in the same order; agreement as maps is equality of
`get?` at every key.
-/
namespace Library

/-- An insertion-ordered finite map. -/
@[ext] structure Dict (κ : Type*) (ν : Type*) where
  items : List (κ × ν)
  nodup : (items.map Prod.fst).Nodup

namespace Dict

variable {κ ν : Type*}

/-- The dictionary without entries. -/
def empty : Dict κ ν := ⟨[], List.nodup_nil⟩

/-- The keys in insertion order. -/
def keys (d : Dict κ ν) : List κ := d.items.map Prod.fst

/-- The values in insertion order. -/
def values (d : Dict κ ν) : List ν := d.items.map Prod.snd

/-- The number of entries. -/
def size (d : Dict κ ν) : ℕ := d.items.length

@[simp] theorem items_empty : (empty : Dict κ ν).items = [] := rfl
@[simp] theorem keys_empty : (empty : Dict κ ν).keys = [] := rfl
@[simp] theorem values_empty : (empty : Dict κ ν).values = [] := rfl

theorem keys_nodup (d : Dict κ ν) : d.keys.Nodup := d.nodup

@[simp] theorem length_keys (d : Dict κ ν) : d.keys.length = d.size := by simp [keys, size]

/-- The size is a total in which every entry weighs one. -/
theorem size_eq_sum (d : Dict κ ν) : (d.size : ℤ) = (d.items.map (fun _ => (1 : ℤ))).sum := by
  simp [size]

/-- Keep the entries whose key satisfies `p`, in their order. -/
def filterKeys (d : Dict κ ν) (p : κ → Prop) [DecidablePred p] : Dict κ ν where
  items := d.items.filter (fun kv => p kv.1)
  nodup := d.nodup.sublist (List.filter_sublist.map _)

theorem mem_items_filterKeys {d : Dict κ ν} {p : κ → Prop} [DecidablePred p] {kv : κ × ν} :
    kv ∈ (d.filterKeys p).items ↔ kv ∈ d.items ∧ p kv.1 := by
  simp [filterKeys]

@[simp] theorem keys_filterKeys (d : Dict κ ν) (p : κ → Prop) [DecidablePred p] :
    (d.filterKeys p).keys = d.keys.filter p := by
  simp only [keys, filterKeys, List.filter_map]
  rfl

theorem filterKeys_filterKeys (d : Dict κ ν) (p q : κ → Prop) [DecidablePred p]
    [DecidablePred q] : (d.filterKeys p).filterKeys q = d.filterKeys (fun k => p k ∧ q k) := by
  ext1
  simp only [filterKeys, List.filter_filter]
  congr 1
  funext kv
  simp [Bool.and_comm]

theorem filterKeys_eq_self {d : Dict κ ν} {p : κ → Prop} [DecidablePred p]
    (h : ∀ k ∈ d.keys, p k) : d.filterKeys p = d := by
  ext1
  refine List.filter_eq_self.mpr fun kv hkv => ?_
  simpa using h kv.1 (List.mem_map_of_mem hkv)

/-- Rewrite every value in place. -/
def mapValues {μ : Type*} (f : ν → μ) (d : Dict κ ν) : Dict κ μ where
  items := d.items.map (fun kv => (kv.1, f kv.2))
  nodup := by
    rw [List.map_map]
    exact d.nodup

@[simp] theorem mapValues_id (d : Dict κ ν) : d.mapValues (fun v => v) = d := by
  ext1
  simp [mapValues]

theorem mapValues_mapValues {μ ρ : Type*} (f : ν → μ) (g : μ → ρ) (d : Dict κ ν) :
    (d.mapValues f).mapValues g = d.mapValues (fun v => g (f v)) := by
  ext1
  simp [mapValues, Function.comp_def]

@[simp] theorem keys_mapValues {μ : Type*} (f : ν → μ) (d : Dict κ ν) :
    (d.mapValues f).keys = d.keys := by
  simp [mapValues, keys, Function.comp_def]

theorem filterKeys_mapValues {μ : Type*} (f : ν → μ) (d : Dict κ ν) (p : κ → Prop)
    [DecidablePred p] : (d.mapValues f).filterKeys p = (d.filterKeys p).mapValues f := by
  ext1
  simp only [filterKeys, mapValues, List.filter_map]
  rfl

/-- Rename every key in place. -/
def mapKeys {κ' : Type*} (g : κ ↪ κ') (d : Dict κ ν) : Dict κ' ν where
  items := d.items.map (fun kv => (g kv.1, kv.2))
  nodup := by
    have hkeys : (d.items.map (fun kv => (g kv.1, kv.2))).map Prod.fst =
        (d.items.map Prod.fst).map g := by simp
    rw [hkeys]
    exact d.nodup.map g.injective

@[simp] theorem keys_mapKeys {κ' : Type*} (g : κ ↪ κ') (d : Dict κ ν) :
    (d.mapKeys g).keys = d.keys.map g := by
  simp [mapKeys, keys]

/-- What is kept and what is filtered out make up the total. -/
theorem sum_filterKeys {M : Type*} [AddCommMonoid M] (d : Dict κ ν) (p : κ → Prop)
    [DecidablePred p] (f : κ × ν → M) :
    ((d.items.filter (fun kv => p kv.1)).map f).sum +
      ((d.filterKeys (fun k => ¬ p k)).items.map f).sum = (d.items.map f).sum := by
  simp only [filterKeys]
  induction d.items with
  | nil => simp
  | cons kv l ih =>
    by_cases h : p kv.1
    · simp [h, ← ih, add_assoc]
    · simp [h, ← ih, add_left_comm]

section Lookup
variable [DecidableEq κ]

/-- The value stored under a key. -/
def get? (d : Dict κ ν) (k : κ) : Option ν := d.items.lookup k

/-- Remove a key when it is present. -/
def erase (d : Dict κ ν) (k : κ) : Dict κ ν := d.filterKeys (· ≠ k)

/-- The association list behind `insert`: replace in place, else append. -/
def insertItems (k : κ) (v : ν) : List (κ × ν) → List (κ × ν)
  | [] => [(k, v)]
  | (a, w) :: rest => if a = k then (k, v) :: rest else (a, w) :: insertItems k v rest

theorem insertItems_of_not_mem {k : κ} (v : ν) {l : List (κ × ν)}
    (h : k ∉ l.map Prod.fst) : insertItems k v l = l ++ [(k, v)] := by
  induction l with
  | nil => rfl
  | cons p l ih =>
    obtain ⟨a, w⟩ := p
    simp only [List.map_cons, List.mem_cons, not_or] at h
    rw [insertItems, if_neg (Ne.symm h.1), ih h.2, List.cons_append]

theorem map_fst_insertItems_of_mem {k : κ} (v : ν) {l : List (κ × ν)}
    (h : k ∈ l.map Prod.fst) : (insertItems k v l).map Prod.fst = l.map Prod.fst := by
  induction l with
  | nil => simp at h
  | cons p l ih =>
    obtain ⟨a, w⟩ := p
    by_cases hak : a = k
    · simp [insertItems, hak]
    · have hl : k ∈ l.map Prod.fst := by simpa [Ne.symm hak] using h
      simp [insertItems, hak, ih hl]

/-- Assign a value to a key. -/
def insert (d : Dict κ ν) (k : κ) (v : ν) : Dict κ ν where
  items := insertItems k v d.items
  nodup := by
    by_cases h : k ∈ d.items.map Prod.fst
    · rw [map_fst_insertItems_of_mem v h]
      exact d.nodup
    · rw [insertItems_of_not_mem v h, List.map_append]
      exact List.nodup_append.mpr ⟨d.nodup, by simp, by
        rintro a ha b hb rfl
        simp only [List.map_cons, List.map_nil, List.mem_singleton] at hb
        exact h (hb ▸ ha)⟩

@[simp] theorem get?_empty (k : κ) : (empty : Dict κ ν).get? k = none := rfl

theorem get?_eq_some_iff {d : Dict κ ν} {k : κ} {v : ν} :
    d.get? k = some v ↔ (k, v) ∈ d.items := by
  obtain ⟨l, hl⟩ := d
  simp only [get?]
  induction l with
  | nil => simp
  | cons p l ih =>
    obtain ⟨a, w⟩ := p
    simp only [List.map_cons, List.nodup_cons] at hl
    by_cases hka : k = a
    · subst hka
      simp only [List.lookup_cons_self, Option.some.injEq, List.mem_cons, Prod.mk.injEq, true_and]
      constructor
      · intro h
        exact Or.inl h.symm
      · rintro (h | h)
        · exact h.symm
        · exact absurd (List.mem_map.mpr ⟨_, h, rfl⟩) hl.1
    · have hne : (k == a) = false := by simpa using hka
      simp only [List.lookup_cons, hne, List.mem_cons, Prod.mk.injEq, hka, false_and, false_or]
      exact ih hl.2

theorem get?_of_items_eq {d : Dict κ ν} {pre post : List (κ × ν)} {k : κ} {v : ν}
    (h : d.items = pre ++ (k, v) :: post) : d.get? k = some v :=
  get?_eq_some_iff.mpr (h ▸ List.mem_append_right pre List.mem_cons_self)

theorem mem_keys_iff {d : Dict κ ν} {k : κ} : k ∈ d.keys ↔ ∃ v, d.get? k = some v := by
  simp [keys, get?_eq_some_iff]

theorem get?_eq_none_iff {d : Dict κ ν} {k : κ} : d.get? k = none ↔ k ∉ d.keys := by
  rw [mem_keys_iff, Option.eq_none_iff_forall_ne_some, not_exists]

theorem isSome_get? {d : Dict κ ν} {k : κ} : (d.get? k).isSome ↔ k ∈ d.keys := by
  rw [mem_keys_iff, Option.isSome_iff_exists]

theorem mem_keys_of_get? {d : Dict κ ν} {k : κ} {v : ν} (h : d.get? k = some v) : k ∈ d.keys :=
  mem_keys_iff.mpr ⟨v, h⟩

theorem mem_values_of_get? {d : Dict κ ν} {k : κ} {v : ν} (h : d.get? k = some v) :
    v ∈ d.values := List.mem_map.mpr ⟨_, get?_eq_some_iff.mp h, rfl⟩

theorem mem_values_iff {d : Dict κ ν} {v : ν} : v ∈ d.values ↔ ∃ k, d.get? k = some v := by
  simp [values, get?_eq_some_iff]

theorem get?_filterKeys (d : Dict κ ν) (p : κ → Prop) [DecidablePred p] (k : κ) :
    (d.filterKeys p).get? k = if p k then d.get? k else none := by
  refine Option.ext fun v => ?_
  rw [get?_eq_some_iff, mem_items_filterKeys]
  split <;> simp_all [get?_eq_some_iff]

@[simp] theorem get?_erase (d : Dict κ ν) (k j : κ) :
    (d.erase k).get? j = if j = k then none else d.get? j := by
  rw [erase, get?_filterKeys]
  split <;> simp_all

theorem mem_items_insert {d : Dict κ ν} {k : κ} {v : ν} {kv : κ × ν} :
    kv ∈ (d.insert k v).items ↔ kv = (k, v) ∨ kv ∈ d.items ∧ kv.1 ≠ k := by
  obtain ⟨l, hl⟩ := d
  simp only [insert]
  induction l with
  | nil => simp [insertItems]
  | cons p l ih =>
    obtain ⟨a, w⟩ := p
    simp only [List.map_cons, List.nodup_cons] at hl
    by_cases hak : a = k
    · subst hak
      simp only [insertItems, if_true, List.mem_cons]
      constructor
      · rintro (h | h)
        · exact Or.inl h
        · refine Or.inr ⟨Or.inr h, ?_⟩
          rintro rfl
          exact hl.1 (List.mem_map_of_mem h)
      · rintro (h | ⟨h | h, hne⟩)
        · exact Or.inl h
        · exact absurd (by rw [h]) hne
        · exact Or.inr h
    · simp only [insertItems, if_neg hak, List.mem_cons, ih hl.2]
      constructor
      · rintro (h | h | h)
        · exact Or.inr ⟨Or.inl h, by rw [h]; exact hak⟩
        · exact Or.inl h
        · exact Or.inr ⟨Or.inr h.1, h.2⟩
      · rintro (h | ⟨h | h, hne⟩)
        · exact Or.inr (Or.inl h)
        · exact Or.inl h
        · exact Or.inr (Or.inr ⟨h, hne⟩)

@[simp] theorem get?_insert (d : Dict κ ν) (k : κ) (v : ν) (j : κ) :
    (d.insert k v).get? j = if j = k then some v else d.get? j := by
  refine Option.ext fun w => ?_
  rw [get?_eq_some_iff, mem_items_insert]
  by_cases hjk : j = k
  · simp [hjk, eq_comm]
  · simp [hjk, get?_eq_some_iff]

theorem mem_keys_insert {d : Dict κ ν} {k : κ} {v : ν} {j : κ} :
    j ∈ (d.insert k v).keys ↔ j = k ∨ j ∈ d.keys := by
  rw [← isSome_get?, ← isSome_get?, get?_insert]
  split <;> simp_all

theorem mem_keys_erase {d : Dict κ ν} {k j : κ} :
    j ∈ (d.erase k).keys ↔ j ∈ d.keys ∧ j ≠ k := by
  simp [erase]

theorem items_erase (d : Dict κ ν) (k : κ) :
    (d.erase k).items = d.items.filter (fun kv => kv.1 ≠ k) := rfl

theorem keys_erase (d : Dict κ ν) (k : κ) : (d.erase k).keys = d.keys.filter (· ≠ k) :=
  keys_filterKeys d _

theorem erase_eq_self {d : Dict κ ν} {k : κ} (h : k ∉ d.keys) : d.erase k = d :=
  filterKeys_eq_self fun _ hj hjk => h (hjk ▸ hj)

theorem items_insert_of_not_mem {d : Dict κ ν} {k : κ} (v : ν) (h : k ∉ d.keys) :
    (d.insert k v).items = d.items ++ [(k, v)] := insertItems_of_not_mem v h

theorem keys_insert_of_not_mem {d : Dict κ ν} {k : κ} (v : ν) (h : k ∉ d.keys) :
    (d.insert k v).keys = d.keys ++ [k] := by
  simp [keys, items_insert_of_not_mem v h]

theorem keys_insert_of_mem {d : Dict κ ν} {k : κ} (v : ν) (h : k ∈ d.keys) :
    (d.insert k v).keys = d.keys := map_fst_insertItems_of_mem v h

theorem insertItems_map {κ' μ : Type*} [DecidableEq κ'] (g : κ ↪ κ') (f : ν → μ) (k : κ) (v : ν)
    (l : List (κ × ν)) :
    insertItems (g k) (f v) (l.map (Prod.map g f)) = (insertItems k v l).map (Prod.map g f) := by
  induction l with
  | nil => rfl
  | cons p l ih =>
    obtain ⟨a, w⟩ := p
    by_cases hak : a = k
    · simp [insertItems, hak]
    · simp [insertItems, hak, ih]

theorem get?_mapValues {μ : Type*} (f : ν → μ) (d : Dict κ ν) (k : κ) :
    (d.mapValues f).get? k = (d.get? k).map f := by
  refine Option.ext fun w => ?_
  simp [get?_eq_some_iff, mapValues]

theorem insert_mapValues {μ : Type*} (f : ν → μ) (d : Dict κ ν) (k : κ) (v : ν) :
    (d.mapValues f).insert k (f v) = (d.insert k v).mapValues f := by
  ext1
  exact insertItems_map (.refl κ) f k v d.items

theorem erase_mapValues {μ : Type*} (f : ν → μ) (d : Dict κ ν) (k : κ) :
    (d.mapValues f).erase k = (d.erase k).mapValues f := filterKeys_mapValues f d _

@[simp] theorem get?_mapKeys {κ' : Type*} [DecidableEq κ'] (g : κ ↪ κ') (d : Dict κ ν) (k : κ) :
    (d.mapKeys g).get? (g k) = d.get? k := by
  refine Option.ext fun v => ?_
  simp [get?_eq_some_iff, mapKeys]

theorem insert_mapKeys {κ' : Type*} [DecidableEq κ'] (g : κ ↪ κ') (d : Dict κ ν) (k : κ) (v : ν) :
    (d.mapKeys g).insert (g k) v = (d.insert k v).mapKeys g := by
  ext1
  exact insertItems_map g id k v d.items

/-- Insertion into a dictionary kept in key order, in front of the first key that is not
before `k`; a present key keeps its value. -/
def emplace (before : κ → κ → Bool) (d : Dict κ ν) (k : κ) (v : ν) : Dict κ ν :=
  if h : k ∈ d.keys then d
  else
    { items := d.items.takeWhile (fun kv => before kv.1 k) ++
        (k, v) :: d.items.dropWhile (fun kv => before kv.1 k)
      nodup := by
        have hperm : (d.items.takeWhile (fun kv => before kv.1 k) ++
            (k, v) :: d.items.dropWhile (fun kv => before kv.1 k)).Perm ((k, v) :: d.items) :=
          List.perm_middle.trans (by rw [List.takeWhile_append_dropWhile])
        rw [(hperm.map Prod.fst).nodup_iff, List.map_cons, List.nodup_cons]
        exact ⟨h, d.nodup⟩ }

theorem mem_items_emplace {before : κ → κ → Bool} {d : Dict κ ν} {k : κ} {v : ν} (h : k ∉ d.keys)
    {kv : κ × ν} : kv ∈ (d.emplace before k v).items ↔ kv = (k, v) ∨ kv ∈ d.items := by
  rw [emplace, dif_neg h]
  simp only [List.mem_append, List.mem_cons]
  rw [or_left_comm, ← List.mem_append, List.takeWhile_append_dropWhile]

theorem get?_emplace {before : κ → κ → Bool} {d : Dict κ ν} {k : κ} (v : ν) (h : k ∉ d.keys)
    (j : κ) : (d.emplace before k v).get? j = if j = k then some v else d.get? j := by
  split_ifs with hjk
  · rw [get?_eq_some_iff, mem_items_emplace h, hjk]
    exact Or.inl rfl
  · ext w
    simp [get?_eq_some_iff, mem_items_emplace h, hjk]

/-- A key behind all others is placed last. -/
theorem keys_emplace_last {before : κ → κ → Bool} {d : Dict κ ν} {k : κ} (v : ν) (h : k ∉ d.keys)
    (hlast : ∀ j ∈ d.keys, before j k = true) : (d.emplace before k v).keys = d.keys ++ [k] := by
  have hall : ∀ kv ∈ d.items, before kv.1 k = true := fun kv hkv =>
    hlast kv.1 (List.mem_map_of_mem hkv)
  rw [emplace, dif_neg h, keys]
  dsimp only
  rw [List.takeWhile_eq_self_iff.mpr hall, List.dropWhile_eq_nil_iff.mpr hall, List.map_append]
  rfl

/-- The dictionary with the given keys and no values, a key listed twice counting once. -/
def ofKeys (ks : List κ) : Dict κ Unit := ks.foldl (fun d k => d.insert k ()) empty

theorem ofKeys_keys (d : Dict κ Unit) : ofKeys d.keys = d := by
  suffices h : ∀ (ks : List κ) (acc : Dict κ Unit), (acc.keys ++ ks).Nodup →
      (ks.foldl (fun d k => d.insert k ()) acc).items =
        acc.items ++ ks.map (fun k => (k, ())) by
    ext1
    have := h d.keys empty (by simpa using d.keys_nodup)
    simpa [ofKeys, keys, Function.comp_def] using this
  intro ks
  induction ks with
  | nil => simp
  | cons k ks ih =>
    intro acc hnd
    have hk : k ∉ acc.keys := fun hmem =>
      List.disjoint_of_nodup_append hnd hmem List.mem_cons_self
    rw [List.foldl_cons, ih, items_insert_of_not_mem () hk]
    · simp
    · rw [keys_insert_of_not_mem () hk]
      simpa using hnd

/-- Removing a present entry takes its weight out of every additive total. -/
theorem sum_erase {d : Dict κ ν} {k : κ} {v : ν} (f : κ × ν → ℤ) (h : d.get? k = some v) :
    ((d.erase k).items.map f).sum = (d.items.map f).sum - f (k, v) := by
  rw [get?_eq_some_iff] at h
  obtain ⟨l, hl⟩ := d
  simp only [items_erase]
  induction l with
  | nil => simp at h
  | cons p l ih =>
    obtain ⟨a, w⟩ := p
    obtain ⟨hnot, hrest⟩ := List.nodup_cons.mp hl
    rcases List.mem_cons.mp h with heq | hmem
    · obtain ⟨rfl, rfl⟩ := Prod.mk.inj heq
      have hself : l.filter (fun kv => kv.1 ≠ k) = l := by
        refine List.filter_eq_self.mpr fun kv hkv => decide_eq_true ?_
        rintro rfl
        exact hnot (List.mem_map.mpr ⟨kv, hkv, rfl⟩)
      rw [List.filter_cons_of_neg (by simp), hself, List.map_cons, List.sum_cons]
      ring
    · have hak : a ≠ k := by
        rintro rfl
        exact hnot (List.mem_map.mpr ⟨_, hmem, rfl⟩)
      rw [List.filter_cons_of_pos (by simpa using hak), List.map_cons, List.sum_cons,
        ih hrest hmem, List.map_cons, List.sum_cons]
      ring

/-- Reassigning a present key replaces its weight in every additive total. -/
theorem sum_insert {d : Dict κ ν} {k : κ} {w : ν} (f : κ × ν → ℤ) (v : ν)
    (h : d.get? k = some w) :
    ((d.insert k v).items.map f).sum = (d.items.map f).sum - f (k, w) + f (k, v) := by
  rw [get?_eq_some_iff] at h
  obtain ⟨l, hl⟩ := d
  simp only [insert]
  induction l with
  | nil => simp at h
  | cons p l ih =>
    obtain ⟨a, u⟩ := p
    obtain ⟨hnot, hrest⟩ := List.nodup_cons.mp hl
    rcases List.mem_cons.mp h with heq | hmem
    · obtain ⟨rfl, rfl⟩ := Prod.mk.inj heq
      simp only [insertItems, if_true, List.map_cons, List.sum_cons]
      ring
    · have hak : a ≠ k := by
        rintro rfl
        exact hnot (List.mem_map.mpr ⟨_, hmem, rfl⟩)
      simp only [insertItems, if_neg hak, List.map_cons, List.sum_cons, ih hrest hmem]
      ring

/-- A new key adds its weight to every additive total. -/
theorem sum_insert_of_not_mem {d : Dict κ ν} {k : κ} (f : κ × ν → ℤ) (v : ν) (h : k ∉ d.keys) :
    ((d.insert k v).items.map f).sum = (d.items.map f).sum + f (k, v) := by
  rw [items_insert_of_not_mem v h]
  simp

theorem size_insert_of_mem {d : Dict κ ν} {k : κ} (v : ν) (h : k ∈ d.keys) :
    (d.insert k v).size = d.size := by
  rw [← length_keys, ← length_keys, keys_insert_of_mem v h]

theorem mem_values_insert {d : Dict κ ν} {k : κ} {v w : ν} (h : w ∈ (d.insert k v).values) :
    w = v ∨ w ∈ d.values := by
  obtain ⟨⟨j, u⟩, hmem, rfl⟩ := List.mem_map.mp h
  rcases mem_items_insert.mp hmem with heq | ⟨hold, _⟩
  · exact Or.inl (Prod.mk.inj heq).2
  · exact Or.inr (List.mem_map.mpr ⟨_, hold, rfl⟩)

/-- A total over the entries, as a sum over the keys. -/
theorem sum_items {M : Type*} [AddCommMonoid M] (d : Dict κ ν) (f : ν → M) :
    (d.items.map (fun kv => f kv.2)).sum = ∑ k ∈ d.keys.toFinset, ((d.get? k).map f).getD 0 := by
  rw [List.sum_toFinset _ d.keys_nodup, keys, List.map_map]
  refine congrArg List.sum (List.map_congr_left fun kv hkv => ?_)
  rw [Function.comp_apply, get?_eq_some_iff.mpr hkv]
  rfl

/-- Two dictionaries over the same keys have the same total when each key weighs the same. -/
theorem sum_congr {M μ : Type*} [AddCommMonoid M] {d : Dict κ ν} {d' : Dict κ μ} {f : ν → M}
    {g : μ → M} (hkeys : ∀ k, k ∈ d.keys ↔ k ∈ d'.keys)
    (hweight : ∀ {k v w}, d.get? k = some v → d'.get? k = some w → f v = g w) :
    (d.items.map (fun kv => f kv.2)).sum = (d'.items.map (fun kv => g kv.2)).sum := by
  rw [sum_items, sum_items]
  refine Finset.sum_congr (by ext k; simp [hkeys]) fun k hk => ?_
  obtain ⟨w, hw⟩ := mem_keys_iff.mp (List.mem_toFinset.mp hk)
  obtain ⟨v, hv⟩ := mem_keys_iff.mp ((hkeys k).mpr (mem_keys_of_get? hw))
  rw [hv, hw]
  exact hweight hv hw

theorem sum_emplace {M : Type*} [AddCommMonoid M] {before : κ → κ → Bool} {d : Dict κ ν} {k : κ}
    (v : ν) (h : k ∉ d.keys) (f : κ × ν → M) :
    ((d.emplace before k v).items.map f).sum = f (k, v) + (d.items.map f).sum := by
  have hperm : (d.emplace before k v).items.Perm ((k, v) :: d.items) := by
    rw [emplace, dif_neg h]
    exact List.perm_middle.trans (by rw [List.takeWhile_append_dropWhile])
  rw [(hperm.map f).sum_eq, List.map_cons, List.sum_cons]

end Lookup

end Dict

end Library
