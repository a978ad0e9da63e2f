import Mathlib.Data.Multiset.Count
import StateBraid.Mlx.PromptCache

/-!
# The exact storage of the patched MLX prompt cache

`LRUPromptCache` keeps its entries in a trie, in an order for each cache type, and in two
byte counters. `PromptCacheTransactionalStorage` moves all of them by hand, in `remove` and
in `_insert_snapshot`; here they are shown to stay totals over the same entries.
-/

namespace StateBraid.Mlx
open Library Policy Coordinator

/-- `CacheEntry`, and `PromptCacheEntrySnapshot` with the same fields. -/
structure CacheEntry (π : Type) where
  promptCache : π
  nbytes : ℤ
  cacheType : Role

/-- `LRUPromptCache`: the trie as a map on exact keys, `_lrus` in the order of `_ordering`
with each type's keys as a multiset, and the byte counters. -/
structure LRUPromptCache (N π : Type) where
  trie : Dict (CacheKey N) (CacheEntry π)
  lrus : Dict Role (Multiset (CacheKey N))
  nBytes : ℤ
  nBytesByType : Dict Role ℤ

variable {N π : Type} [DecidableEq N]

namespace LRUPromptCache

/-- A cache without entries that knows some types. -/
def new (types : List Role) : LRUPromptCache N π where
  trie := .empty
  lrus := (Dict.ofKeys types).mapValues (fun _ => 0)
  nBytes := 0
  nBytesByType := (Dict.ofKeys types).mapValues (fun _ => 0)

/-- The keys of one type. -/
def lruOf (s : LRUPromptCache N π) (cacheType : Role) : Multiset (CacheKey N) :=
  (s.lrus.get? cacheType).getD 0

/-- `len(self._lru)`: the keys of all types. -/
def lruLength (s : LRUPromptCache N π) : ℤ :=
  (s.lrus.items.map (fun kv => (kv.2.card : ℤ))).sum

/-- `_n_bytes_by_type.get(cache_type, 0)`. -/
def bytesOfType (s : LRUPromptCache N π) (cacheType : Role) : ℤ :=
  (s.nBytesByType.get? cacheType).getD 0

/-- A total over the stored entries. -/
def total (s : LRUPromptCache N π) (weight : CacheEntry π → ℤ) : ℤ :=
  (s.trie.items.map (fun kv => weight kv.2)).sum

/-- What an entry adds to the bytes of a type. -/
def bytesIn (cacheType : Role) (entry : CacheEntry π) : ℤ :=
  if entry.cacheType = cacheType then entry.nbytes else 0

/-! ## The operations -/

/-- The cache with another trie. -/
def setTrie (s : LRUPromptCache N π) (trie : Dict (CacheKey N) (CacheEntry π)) :
    LRUPromptCache N π := { s with trie := trie }

/-- `_lru.remove(model, tokens)`: one occurrence of the key, from the first type that has it. -/
def lruRemove (s : LRUPromptCache N π) (key : CacheKey N) : LRUPromptCache N π :=
  match s.lrus.items.find? (fun kv => 0 < kv.2.count key) with
  | none => s
  | some kv => { s with lrus := s.lrus.insert kv.1 (kv.2.erase key) }

/-- `_lru.push(model, tokens, cache_type)`. -/
def lruPush (s : LRUPromptCache N π) (key : CacheKey N) (cacheType : Role) : LRUPromptCache N π :=
  { s with lrus := s.lrus.insert cacheType (key ::ₘ s.lruOf cacheType) }

/-- Add to the byte counters, of which `_n_bytes_by_type` may lack the type. -/
def addBytes (s : LRUPromptCache N π) (nbytes : ℤ) (cacheType : Role) : LRUPromptCache N π :=
  { s with
    nBytes := s.nBytes + nbytes
    nBytesByType := s.nBytesByType.insert cacheType (s.bytesOfType cacheType + nbytes) }

/-- The first lines of `_insert_snapshot`: a new type gets an order and a byte counter. -/
def openType (s : LRUPromptCache N π) (cacheType : Role) : LRUPromptCache N π :=
  { s with
    lrus := if cacheType ∈ s.lrus.keys then s.lrus else s.lrus.insert cacheType 0
    nBytesByType :=
      if cacheType ∈ s.nBytesByType.keys then s.nBytesByType else s.nBytesByType.insert cacheType 0 }

/-- `capture`. -/
def capture (key : CacheKey N) : Exec PyError (LRUPromptCache N π) (Option (CacheEntry π)) :=
  Exec.gets (fun s => s.trie.get? key)

/-- `remove`. -/
def remove (key : CacheKey N) : Exec PyError (LRUPromptCache N π) Bool := do
  let found ← Exec.gets (fun s => s.trie.get? key)
  match found with
  | none => pure false
  | some entry => do
    Exec.modify (fun s => s.setTrie (s.trie.erase key))
    Exec.modify (fun s => s.lruRemove key)
    Exec.modify (fun s => s.addBytes (-entry.nbytes) entry.cacheType)
    pure true

/-- `_insert_snapshot`. -/
def insertSnapshot (key : CacheKey N) (snapshot : CacheEntry π) :
    Exec PyError (LRUPromptCache N π) Unit := do
  Exec.modify (fun s => s.openType snapshot.cacheType)
  let prev ← Exec.gets (fun s => s.trie.get? key)
  Exec.modify (fun s => s.setTrie (s.trie.insert key snapshot))
  if prev.isSome then
    Exec.raise (.runtimeError "exact storage insert unexpectedly replaced an entry")
  else do
    Exec.modify (fun s => s.lruPush key snapshot.cacheType)
    Exec.modify (fun s => s.addBytes snapshot.nbytes snapshot.cacheType)

/-- `restore`. -/
def restore (key : CacheKey N) (snapshot : CacheEntry π) :
    Exec PyError (LRUPromptCache N π) Unit := do
  let _ ← remove key
  insertSnapshot key snapshot

/-- `insert`, of a payload whose parts have these sizes. -/
def insert (partBytes : π → List ℕ) (key : CacheKey N) (promptCache : π) (cacheType : Role) :
    Exec PyError (LRUPromptCache N π) Unit :=
  restore key ⟨promptCache, ((partBytes promptCache).map Nat.cast).sum, cacheType⟩

/-! ## What they leave -/

/-- The cache without one entry. -/
def dropEntry (s : LRUPromptCache N π) (key : CacheKey N) : LRUPromptCache N π :=
  match s.trie.get? key with
  | none => s
  | some entry =>
    ((s.setTrie (s.trie.erase key)).lruRemove key).addBytes (-entry.nbytes) entry.cacheType

/-- The cache with one entry more. -/
def addEntry (s : LRUPromptCache N π) (key : CacheKey N) (entry : CacheEntry π) :
    LRUPromptCache N π :=
  (((s.openType entry.cacheType).setTrie (s.trie.insert key entry)).lruPush key
    entry.cacheType).addBytes entry.nbytes entry.cacheType

theorem lruRemove_trie (s : LRUPromptCache N π) (key : CacheKey N) :
    (s.lruRemove key).trie = s.trie := by
  unfold lruRemove
  split <;> rfl

@[simp] theorem dropEntry_get? (s : LRUPromptCache N π) (key j : CacheKey N) :
    (s.dropEntry key).trie.get? j = if j = key then none else s.trie.get? j := by
  unfold dropEntry
  split
  · rename_i hnone
    split_ifs with hj
    · rw [hj, hnone]
    · rfl
  · rw [addBytes, lruRemove_trie, setTrie, Dict.get?_erase]

@[simp] theorem addEntry_get? (s : LRUPromptCache N π) (key j : CacheKey N) (entry : CacheEntry π) :
    (s.addEntry key entry).trie.get? j = if j = key then some entry else s.trie.get? j :=
  Dict.get?_insert _ _ _ _

theorem remove_run (s : LRUPromptCache N π) (key : CacheKey N) :
    remove key s = (.ok (s.trie.get? key).isSome, s.dropEntry key) := by
  unfold remove dropEntry
  rw [Exec.gets_bind_apply]
  cases s.trie.get? key <;> rfl

/-- After its own removal a restore replaces nothing. -/
theorem insertSnapshot_run (s : LRUPromptCache N π) (key : CacheKey N) (snapshot : CacheEntry π) :
    insertSnapshot key snapshot (s.dropEntry key) =
      (.ok (), (s.dropEntry key).addEntry key snapshot) := by
  have hvacant : ((s.dropEntry key).openType snapshot.cacheType).trie.get? key = none := by
    rw [openType, dropEntry_get?, if_pos rfl]
  unfold insertSnapshot
  rw [Exec.modify_bind_apply, Exec.gets_bind_apply, hvacant]
  rfl

theorem restore_run (s : LRUPromptCache N π) (key : CacheKey N) (snapshot : CacheEntry π) :
    restore key snapshot s = (.ok (), (s.dropEntry key).addEntry key snapshot) := by
  unfold restore
  rw [Exec.bind_of_ok (remove_run s key), insertSnapshot_run]

theorem insert_run (partBytes : π → List ℕ) (s : LRUPromptCache N π) (key : CacheKey N)
    (promptCache : π) (cacheType : Role) : insert partBytes key promptCache cacheType s =
      (.ok (), (s.dropEntry key).addEntry key
        ⟨promptCache, ((partBytes promptCache).map Nat.cast).sum, cacheType⟩) :=
  restore_run s key _

/-! ## The counters are totals -/

/-- Every key stands once in the order of its own type and in no other, and the three
counters are totals over the entries. -/
structure Consistent (s : LRUPromptCache N π) : Prop where
  order : ∀ cacheType key, (s.lruOf cacheType).count key =
    if (s.trie.get? key).map CacheEntry.cacheType = some cacheType then 1 else 0
  length : s.lruLength = s.trie.size
  nBytes : s.nBytes = s.total CacheEntry.nbytes
  byType : ∀ cacheType, s.bytesOfType cacheType = s.total (bytesIn cacheType)

theorem new_consistent (types : List Role) : (new types : LRUPromptCache N π).Consistent where
  order cacheType key := by
    rw [lruOf, new, Dict.get?_mapValues]
    cases (Dict.ofKeys types).get? cacheType <;> rfl
  length := by simp [lruLength, new, Dict.mapValues, Dict.size, Function.comp_def]
  nBytes := rfl
  byType cacheType := by
    rw [bytesOfType, new, Dict.get?_mapValues]
    cases (Dict.ofKeys types).get? cacheType <;> rfl

theorem bytesOfType_addBytes {N π : Type} (s : LRUPromptCache N π) (nbytes : ℤ)
    (cacheType t : Role) :
    (s.addBytes nbytes cacheType).bytesOfType t =
      s.bytesOfType t + if cacheType = t then nbytes else 0 := by
  simp only [addBytes, bytesOfType, Dict.get?_insert, eq_comm (a := cacheType)]
  split_ifs with ht
  · rw [ht, Option.getD_some]
  · rw [add_zero]

/-! ### Removing -/

/-- A key that one type holds is taken out of that type. -/
theorem lruRemove_eq {s : LRUPromptCache N π} {key : CacheKey N} {t : Role}
    {keys : Multiset (CacheKey N)} (hget : s.lrus.get? t = some keys) (hpos : 0 < keys.count key)
    (honly : ∀ t' keys', s.lrus.get? t' = some keys' → 0 < keys'.count key → t' = t) :
    s.lruRemove key = { s with lrus := s.lrus.insert t (keys.erase key) } := by
  unfold lruRemove
  cases hfind : s.lrus.items.find? (fun kv => 0 < kv.2.count key) with
  | none =>
    have hnone := List.find?_eq_none.mp hfind (t, keys) (Dict.get?_eq_some_iff.mp hget)
    exact absurd (decide_eq_true hpos) hnone
  | some kv =>
    obtain ⟨t', keys'⟩ := kv
    have hget' := Dict.get?_eq_some_iff.mpr (List.mem_of_find?_eq_some hfind)
    have hpos' : 0 < keys'.count key := by simpa using List.find?_some hfind
    obtain rfl := honly t' keys' hget' hpos'
    rw [hget] at hget'
    cases hget'
    rfl

/-- The order that holds a stored key. -/
theorem Consistent.holds {s : LRUPromptCache N π} (h : s.Consistent) {key : CacheKey N}
    {entry : CacheEntry π} (hentry : s.trie.get? key = some entry) :
    ∃ keys, s.lrus.get? entry.cacheType = some keys ∧ keys.count key = 1 ∧
      ∀ t' keys', s.lrus.get? t' = some keys' → 0 < keys'.count key → t' = entry.cacheType := by
  have hcount := h.order entry.cacheType key
  rw [hentry, Option.map_some, if_pos rfl, lruOf] at hcount
  obtain ⟨keys, hkeys⟩ : ∃ keys, s.lrus.get? entry.cacheType = some keys := by
    cases hget : s.lrus.get? entry.cacheType with
    | none => simp [hget] at hcount
    | some keys => exact ⟨keys, rfl⟩
  refine ⟨keys, hkeys, by simpa [hkeys] using hcount, fun t' keys' hget' hpos => ?_⟩
  have hother := h.order t' key
  rw [lruOf, hget', Option.getD_some, hentry, Option.map_some] at hother
  split_ifs at hother with ht
  · exact (Option.some.inj ht).symm
  · omega

/-- Removing an entry takes its key out of the order of its type and its weight out of
every total. -/
structure Dropped (s s' : LRUPromptCache N π) (key : CacheKey N) (entry : CacheEntry π) :
    Prop where
  lruOf : ∀ t, s'.lruOf t = if t = entry.cacheType then (s.lruOf t).erase key else s.lruOf t
  lruLength : s'.lruLength = s.lruLength - 1
  total : ∀ weight : CacheEntry π → ℤ, s'.total weight = s.total weight - weight entry
  nBytes : s'.nBytes = s.nBytes - entry.nbytes
  byType : ∀ t, s'.bytesOfType t = s.bytesOfType t - bytesIn t entry

theorem Consistent.dropped {s : LRUPromptCache N π} (h : s.Consistent) {key : CacheKey N}
    {entry : CacheEntry π} (hentry : s.trie.get? key = some entry) :
    s.Dropped (s.dropEntry key) key entry := by
  obtain ⟨keys, hkeys, hcount, honly⟩ := h.holds hentry
  have hdrop : s.dropEntry key = (({ s with
      lrus := s.lrus.insert entry.cacheType (keys.erase key) } : LRUPromptCache N π).setTrie
        (s.trie.erase key)).addBytes (-entry.nbytes) entry.cacheType := by
    rw [LRUPromptCache.dropEntry, hentry]
    dsimp only
    rw [lruRemove_eq (s := s.setTrie (s.trie.erase key)) hkeys (by omega) honly]
    rfl
  rw [hdrop]
  constructor
  · intro t
    change ((s.lrus.insert entry.cacheType (keys.erase key)).get? t).getD 0 = _
    rw [Dict.get?_insert]
    split_ifs with ht
    · rw [ht, LRUPromptCache.lruOf, hkeys]
      rfl
    · rfl
  · have hmem : key ∈ keys := Multiset.count_pos.mp (by omega)
    have hcard := Multiset.card_erase_add_one hmem
    have hlength : ({ s with lrus := s.lrus.insert entry.cacheType (keys.erase key) } :
        LRUPromptCache N π).lruLength = s.lruLength - keys.card + (keys.erase key).card :=
      Dict.sum_insert _ _ hkeys
    refine Eq.trans hlength ?_
    omega
  · exact fun weight => Dict.sum_erase _ hentry
  · rfl
  · intro t
    rw [bytesOfType_addBytes]
    change s.bytesOfType t + _ = _
    rw [bytesIn, sub_eq_add_neg, apply_ite Neg.neg, neg_zero]

theorem Consistent.dropEntry {s : LRUPromptCache N π} (h : s.Consistent) (key : CacheKey N) :
    (s.dropEntry key).Consistent := by
  cases hentry : s.trie.get? key with
  | none =>
    rw [LRUPromptCache.dropEntry, hentry]
    exact h
  | some entry =>
    have hdropped := h.dropped hentry
    constructor
    · intro t k
      rw [dropEntry_get?, hdropped.lruOf]
      have hold := h.order t k
      by_cases hk : k = key
      · subst hk
        by_cases ht : t = entry.cacheType
        · rw [hentry, Option.map_some, ht, if_pos rfl] at hold
          simp [ht, hold]
        · simpa [hentry, ht, Ne.symm ht] using hold
      · by_cases ht : t = entry.cacheType
        · subst ht
          simpa [hk, Multiset.count_erase_of_ne hk] using hold
        · simpa [hk, ht] using hold
    · rw [hdropped.lruLength, h.length, Dict.size_eq_sum, Dict.size_eq_sum]
      exact (hdropped.total (fun _ => 1)).symm
    · rw [hdropped.total, ← h.nBytes, hdropped.nBytes]
    · intro t
      rw [hdropped.total, ← h.byType, hdropped.byType]

/-! ### Inserting -/

section OpenType

variable {N π : Type} (s : LRUPromptCache N π) (cacheType : Role)

theorem openType_mem : cacheType ∈ (s.openType cacheType).lrus.keys := by
  unfold openType
  dsimp only
  split_ifs with hmem
  · exact hmem
  · exact Dict.mem_keys_insert.mpr (Or.inl rfl)

@[simp] theorem openType_lruOf (t : Role) : (s.openType cacheType).lruOf t = s.lruOf t := by
  unfold openType lruOf
  dsimp only
  split_ifs with hmem
  · rfl
  · rw [Dict.get?_insert]
    split_ifs with ht
    · rw [ht, Dict.get?_eq_none_iff.mpr hmem]
      rfl
    · rfl

@[simp] theorem openType_lruLength : (s.openType cacheType).lruLength = s.lruLength := by
  unfold openType lruLength
  dsimp only
  split_ifs with hmem
  · rfl
  · rw [Dict.sum_insert_of_not_mem _ _ hmem]
    simp

@[simp] theorem openType_bytesOfType (t : Role) :
    (s.openType cacheType).bytesOfType t = s.bytesOfType t := by
  unfold openType bytesOfType
  dsimp only
  split_ifs with hmem
  · rfl
  · rw [Dict.get?_insert]
    split_ifs with ht
    · rw [ht, Dict.get?_eq_none_iff.mpr hmem]
      rfl
    · rfl

end OpenType

/-- A push makes one order longer by one. -/
theorem lruLength_lruPush {N π : Type} {s : LRUPromptCache N π} {cacheType : Role}
    (hmem : cacheType ∈ s.lrus.keys) (key : CacheKey N) :
    (s.lruPush key cacheType).lruLength = s.lruLength + 1 := by
  obtain ⟨keys, hkeys⟩ := Dict.mem_keys_iff.mp hmem
  have hlru : s.lruOf cacheType = keys := by rw [lruOf, hkeys, Option.getD_some]
  unfold lruPush lruLength
  rw [hlru, Dict.sum_insert _ _ hkeys, Multiset.card_cons]
  push_cast
  ring

theorem lruOf_lruPush {N π : Type} (s : LRUPromptCache N π) (key : CacheKey N)
    (cacheType t : Role) :
    (s.lruPush key cacheType).lruOf t =
      if t = cacheType then key ::ₘ s.lruOf cacheType else s.lruOf t := by
  unfold lruPush
  rw [lruOf, Dict.get?_insert]
  split_ifs <;> rfl

theorem Consistent.addEntry {s : LRUPromptCache N π} (h : s.Consistent) {key : CacheKey N}
    (hvacant : s.trie.get? key = none) (entry : CacheEntry π) :
    (s.addEntry key entry).Consistent := by
  have hnew : key ∉ s.trie.keys := Dict.get?_eq_none_iff.mp hvacant
  have htotal (weight : CacheEntry π → ℤ) :
      (s.addEntry key entry).total weight = s.total weight + weight entry :=
    Dict.sum_insert_of_not_mem _ entry hnew
  have hlru (t : Role) : (s.addEntry key entry).lruOf t =
      if t = entry.cacheType then key ::ₘ s.lruOf entry.cacheType else s.lruOf t := by
    change ((s.openType entry.cacheType).lruPush key entry.cacheType).lruOf t = _
    rw [lruOf_lruPush, openType_lruOf, openType_lruOf]
  constructor
  · intro t k
    rw [addEntry_get?, hlru]
    have hold := h.order t k
    by_cases hk : k = key
    · subst hk
      rw [hvacant] at hold
      have hself := h.order entry.cacheType k
      rw [hvacant] at hself
      by_cases ht : t = entry.cacheType
      · simp [ht, hself]
      · simpa [ht, Ne.symm ht] using hold
    · by_cases ht : t = entry.cacheType
      · subst ht
        simpa [hk, Multiset.count_cons_of_ne hk] using hold
      · simpa [hk, ht] using hold
  · have hsize := htotal (fun _ => 1)
    have hlength : (s.addEntry key entry).lruLength = s.lruLength + 1 := by
      change ((s.openType entry.cacheType).lruPush key entry.cacheType).lruLength = _
      rw [lruLength_lruPush (openType_mem s entry.cacheType), openType_lruLength]
    rw [hlength, h.length, Dict.size_eq_sum, Dict.size_eq_sum]
    exact hsize.symm
  · rw [htotal, ← h.nBytes]
    rfl
  · intro t
    rw [htotal, ← h.byType, LRUPromptCache.addEntry, bytesOfType_addBytes, bytesIn]
    change (s.openType entry.cacheType).bytesOfType t + _ = _
    rw [openType_bytesOfType]

end LRUPromptCache

end StateBraid.Mlx
