import StateBraid.Mlx.Storage
import StateBraid.Policy.Representation

/-!
# One account in two places

The policy prices an entry from its payload, and the storage does so again. Under a fault
that stops one storage call of an operation before it has an effect, both sides hold the
same keys with the same types and sizes after every call of the facade; so all totals of
the storage are the policy's.
-/

namespace StateBraid.Mlx
open Library Policy WorkingSetPolicy Coordinator

/-- The failure of one operation: how many storage calls come before it, and what the next
`remove` or `insert` raises instead of doing anything. -/
structure StorageFault where
  survives : ℕ
  error : PyError

/-- The prompt cache, and the fault still ahead in this operation. -/
structure FaultyStorage (N π : Type) where
  cache : LRUPromptCache N π
  fault : Option StorageFault

/-- What MLX-LM provides beside the exact storage. A read may return anything, but it leaves
the cache alone. -/
structure MlxLm (N π : Type) where
  partBytes : π → List ℕ
  fetchNearestCache : LRUPromptCache N π → N → List ℤ → Except PyError (Option π × List ℤ)
  canTrimPromptCache : π → Bool
  trimPromptCache : π → ℕ → π

variable {N π τ α : Type} [DecidableEq N]

namespace FaultyStorage

/-- A call on the cache. -/
def onCache (m : Exec PyError (LRUPromptCache N π) α) : Exec PyError (FaultyStorage N π) α :=
  Exec.zoom FaultyStorage.cache (fun cache s => { s with cache := cache }) m

/-- A `remove` or an `insert`, which meets the fault when it is due and uses it up. -/
def mutating (m : Exec PyError (LRUPromptCache N π) α) :
    Exec PyError (FaultyStorage N π) Unit := fun s =>
  match s.fault with
  | some ⟨0, e⟩ => (.error e, { s with fault := none })
  | some ⟨n + 1, e⟩ =>
    (do
      let _ ← onCache m
      pure ()) { s with fault := some ⟨n, e⟩ }
  | none =>
    (do
      let _ ← onCache m
      pure ()) s

/-- A call that always returns has its effect, or meets the fault and has none. -/
theorem mutating_spec {N π α : Type} {m : Exec PyError (LRUPromptCache N π) α} {result : α}
    {f : LRUPromptCache N π → LRUPromptCache N π} {s : FaultyStorage N π}
    (hm : m s.cache = (.ok result, f s.cache)) :
    Exec.Holds (fun _ s' => (s.fault = none → s'.fault = none) ∧ s'.cache = f s.cache)
      (fun e s' => s.fault = some ⟨0, e⟩ ∧ s'.fault = none ∧ s'.cache = s.cache)
      (mutating m s) := by
  have hrun (fault : Option StorageFault) :
      (do
        let _ ← onCache m
        pure () : Exec PyError (FaultyStorage N π) Unit) { s with fault := fault } =
          (.ok (), ⟨f s.cache, fault⟩) := by
    have honce : onCache m { s with fault := fault } = (.ok result, ⟨f s.cache, fault⟩) := by
      simp [onCache, Exec.zoom, hm]
    rw [Exec.bind_of_ok honce, Exec.pure_apply]
  unfold mutating
  split
  · rename_i e hfault
    exact ⟨hfault, rfl, rfl⟩
  · rename_i n e hfault
    rw [hrun]
    exact ⟨fun hnone => by simp [hfault] at hnone, rfl⟩
  · rename_i hfault
    have hself := hrun none
    rw [← hfault] at hself
    rw [hself]
    exact ⟨id, rfl⟩

end FaultyStorage

open FaultyStorage LRUPromptCache

namespace MlxLm

/-- `transactional_storage()` and the lookup, as the facade calls them. -/
def runtime (M : MlxLm N π) : Runtime N (FaultyStorage N π) π (CacheEntry π) where
  capture model tokens := onCache (LRUPromptCache.capture ⟨model, tokens⟩)
  restore model tokens snapshot := onCache (LRUPromptCache.restore ⟨model, tokens⟩ snapshot)
  remove model tokens := mutating (LRUPromptCache.remove ⟨model, tokens⟩)
  insert model tokens payload cacheType :=
    mutating (LRUPromptCache.insert M.partBytes ⟨model, tokens⟩ payload cacheType)
  fetchNearestCache model tokens := fun s => (M.fetchNearestCache s.cache model tokens, s)
  entryBytes payload := some ((M.partBytes payload).map Nat.cast)
  canTrimPromptCache := M.canTrimPromptCache
  trimPromptCache := M.trimPromptCache

/-- The size of a payload. -/
def payloadBytes (M : MlxLm N π) (payload : π) : ℤ := ((M.partBytes payload).map Nat.cast).sum

/-- The storage as a map of entries: consistent, and every entry of the size of its
payload. It is calm once its fault is used up. -/
def storageSpec (M : MlxLm N π) : MapSpec N (FaultyStorage N π) π (CacheEntry π) where
  view s := s.cache.trie.get?
  inv s := s.cache.Consistent ∧ ∀ key entry, s.cache.trie.get? key = some entry →
    entry.nbytes = M.payloadBytes entry.promptCache
  calm s := s.fault = none
  valid _ := True
  sound _ entry := entry.nbytes = M.payloadBytes entry.promptCache
  offered _ _ := True
  stored payload role := ⟨payload, M.payloadBytes payload, role⟩

section Laws

variable {M : MlxLm N π} {key : CacheKey N} {payload : π} {role : Role}
variable {s s' : FaultyStorage N π}

theorem remove_spec (M : MlxLm N π) (key : CacheKey N) (s : FaultyStorage N π) :
    Exec.Holds
      (fun _ s' => (s.fault = none → s'.fault = none) ∧ s'.cache = s.cache.dropEntry key)
      (fun e s' => s.fault = some ⟨0, e⟩ ∧ s'.fault = none ∧ s'.cache = s.cache)
      (M.runtime.backend.remove key s) :=
  mutating_spec (f := fun cache => cache.dropEntry key) (remove_run s.cache key)

theorem insert_spec (M : MlxLm N π) (key : CacheKey N) (payload : π) (role : Role)
    (s : FaultyStorage N π) :
    Exec.Holds
      (fun _ s' => (s.fault = none → s'.fault = none) ∧
        s'.cache = (s.cache.dropEntry key).addEntry key (M.storageSpec.stored payload role))
      (fun e s' => s.fault = some ⟨0, e⟩ ∧ s'.fault = none ∧ s'.cache = s.cache)
      (M.runtime.backend.insert key payload role s) :=
  mutating_spec (f := fun cache => (cache.dropEntry key).addEntry key
    (M.storageSpec.stored payload role)) (insert_run M.partBytes s.cache key payload role)

theorem restore_eq (M : MlxLm N π) (key : CacheKey N) (entry : CacheEntry π)
    (s : FaultyStorage N π) : M.runtime.backend.restore key entry s =
      (.ok (), { s with cache := (s.cache.dropEntry key).addEntry key entry }) := by
  change onCache (LRUPromptCache.restore key entry) s = _
  simp [onCache, Exec.zoom, restore_run]

theorem inv_congr (h : M.storageSpec.inv s) (hcache : s'.cache = s.cache) :
    M.storageSpec.inv s' ∧ ∀ k, M.storageSpec.view s' k = M.storageSpec.view s k := by
  obtain ⟨cache, fault⟩ := s
  obtain ⟨cache', fault'⟩ := s'
  obtain rfl : cache' = cache := hcache
  exact ⟨h, fun _ => rfl⟩

/-- Removing keeps the storage in order. -/
theorem inv_dropEntry {cache : LRUPromptCache N π} (key : CacheKey N) (h : M.storageSpec.inv s)
    (hcache : cache = s.cache.dropEntry key) : cache.Consistent ∧
      (∀ k entry, cache.trie.get? k = some entry →
        entry.nbytes = M.payloadBytes entry.promptCache) ∧
      ∀ k, cache.trie.get? k = if k = key then none else s.cache.trie.get? k := by
  subst hcache
  refine ⟨h.1.dropEntry key, fun k entry hk => ?_, fun k => dropEntry_get? _ _ _⟩
  rw [dropEntry_get?] at hk
  split_ifs at hk
  exact h.2 k entry hk

/-- And so does writing an entry of the right size. -/
theorem inv_addEntry {cache : LRUPromptCache N π} {entry : CacheEntry π}
    (h : M.storageSpec.inv s) (hentry : entry.nbytes = M.payloadBytes entry.promptCache)
    (hcache : cache = (s.cache.dropEntry key).addEntry key entry) : cache.Consistent ∧
      (∀ k e, cache.trie.get? k = some e → e.nbytes = M.payloadBytes e.promptCache) ∧
      ∀ k, cache.trie.get? k = if k = key then some entry else s.cache.trie.get? k := by
  obtain ⟨hconsistent, hsized, hget⟩ := inv_dropEntry key h rfl
  have hvacant : (s.cache.dropEntry key).trie.get? key = none := by rw [hget, if_pos rfl]
  have hadded (k : CacheKey N) :
      cache.trie.get? k = if k = key then some entry else s.cache.trie.get? k := by
    rw [hcache, addEntry_get?, hget]
    split_ifs <;> rfl
  subst hcache
  refine ⟨hconsistent.addEntry hvacant entry, fun k e hk => ?_, hadded⟩
  rw [hadded] at hk
  split_ifs at hk
  · cases hk
    exact hentry
  · exact h.2 k e hk

end Laws

/-- The exact storage obeys the laws of a map backend. -/
theorem storage_mapBackend (M : MlxLm N π) : MapBackend M.runtime.backend M.storageSpec where
  capture _ _ := rfl
  remove_ok {k s s'} _ hinv h := by
    have hspec := remove_spec M k s
    rw [h] at hspec
    obtain ⟨hconsistent, hsized, hget⟩ := inv_dropEntry k hinv hspec.2
    exact ⟨⟨hconsistent, hsized⟩, hget⟩
  remove_error {k s e s'} _ hinv h := by
    have hspec := remove_spec M k s
    rw [h] at hspec
    obtain ⟨hinv', hview⟩ := inv_congr hinv hspec.2.2
    exact ⟨hinv', hspec.2.1, fun j _ => hview j⟩
  insert_ok {k x r s s'} _ _ hinv _ h := by
    have hspec := insert_spec M k x r s
    rw [h] at hspec
    obtain ⟨hconsistent, hsized, hget⟩ := inv_addEntry hinv rfl hspec.2
    exact ⟨⟨hconsistent, hsized⟩, hget⟩
  insert_error {k x r s e s'} _ _ hinv _ h := by
    have hspec := insert_spec M k x r s
    rw [h] at hspec
    obtain ⟨hinv', hview⟩ := inv_congr hinv hspec.2.2
    exact ⟨hinv', hspec.2.1, fun j _ => hview j⟩
  remove_calm {k s} _ hcalm := by
    have hspec := remove_spec M k s
    rcases hrun : M.runtime.backend.remove k s with ⟨⟨e⟩ | ⟨⟨⟩⟩, s'⟩ <;> rw [hrun] at hspec
    · exact absurd hspec.1 (by simp [show s.fault = none from hcalm])
    · exact ⟨s', rfl, hspec.1 hcalm⟩
  restore_calm {k t s} _ hsound hinv hcalm _ := by
    have hrestore := restore_eq M k t s
    obtain ⟨hconsistent, hsized, hget⟩ := inv_addEntry hinv hsound rfl
    exact ⟨_, hrestore, ⟨hconsistent, hsized⟩, hcalm, hget⟩

end MlxLm

/-! ## Both sides hold the same -/

/-- The storage holds the residents of the policy, each with its role as the type and with
its size. -/
def Mirrors (v : CacheKey N → Option (CacheEntry π)) (p : WorkingSetPolicy N) : Prop :=
  ∀ k, (v k).map (fun entry => (entry.cacheType, entry.nbytes)) =
    (p.entries.get? k).map (fun e => (e.role, e.nbytes))

namespace Mirrors

variable {v : CacheKey N → Option (CacheEntry π)} {p q : WorkingSetPolicy N}

theorem congr (h : Mirrors v p) (hentries : q.entries = p.entries) : Mirrors v q := fun k => by
  rw [hentries]
  exact h k

theorem commit (h : Mirrors v p) {plan : AdmissionPlan N} (hacc : plan.accepted = true)
    {entry : CacheEntry π} (htype : entry.cacheType = plan.role)
    (hbytes : entry.nbytes = plan.nbytes) : Mirrors (installed v plan entry) (p.commit plan) := by
  intro k
  rw [installed, commit_get? p hacc]
  split_ifs
  · rw [Option.map_some, Option.map_some, htype, hbytes]
    rfl
  · rfl
  · exact h k

theorem commitTrim (h : Mirrors v p) (plan : TrimPlan N) :
    Mirrors (without v (plan.evictions.map Eviction.key)) (p.commitTrim plan) := by
  intro k
  rw [without, commitTrim_get?]
  simp only [evictedKeys, List.mem_toFinset]
  split_ifs
  · rfl
  · exact h k

theorem observeHit (h : Mirrors v p) (key : CacheKey N) : Mirrors v (p.observeHit key).2 := by
  intro k
  rw [h k, observeHit_get?, Option.map_map]
  congr 1
  funext e
  simp only [Function.comp_apply]
  split_ifs <;> rfl

end Mirrors

/-- The policy's own representation, the order of the storage, and the agreement of both. -/
structure Accounted (M : MlxLm N π) (c : CacheCoordinator N (FaultyStorage N π)) : Prop where
  represents : c.policy.Represents
  inv : M.storageSpec.inv c.backend
  mirrors : Mirrors c.backend.cache.trie.get? c.policy

namespace Accounted

variable {M : MlxLm N π} {c : CacheCoordinator N (FaultyStorage N π)}

/-- What a transaction shows of both sides. -/
theorem of_shows {v : CacheKey N → Option (CacheEntry π)} {q : WorkingSetPolicy N}
    (h : c.policy = q ∧ M.storageSpec.Shows v c.backend) (hrepresents : q.Represents)
    (hmirrors : Mirrors v q) : Accounted M c := by
  obtain ⟨rfl, hinv, rfl⟩ := h
  exact ⟨hrepresents, hinv, hmirrors⟩

/-- Only the entries of the policy count, not its probation. -/
theorem probed (h : Accounted M c) {q : WorkingSetPolicy N} (hsame : SameResidents c.policy q) :
    Accounted M { c with policy := q } :=
  ⟨h.represents.congr hsame, h.inv, h.mirrors.congr hsame.entries⟩

/-- An admission that was planned for the size of its payload. -/
theorem admitPlan (h : Accounted M c) {key : CacheKey N} {payload : π}
    {plan : AdmissionPlan N} (hplan : c.policy.Plans key (M.payloadBytes payload) plan) :
    Accounted M (Coordinator.admitPlan M.runtime.backend plan payload c).2 := by
  have hspec := M.storage_mapBackend.admit_spec plan payload (p := c.policy)
    (v := c.backend.cache.trie.get?) trivial (fun _ _ => trivial)
    (fun k _ entry hk => h.inv.2 k entry hk) c ⟨rfl, h.inv, rfl⟩
  revert hspec
  rcases Coordinator.admitPlan M.runtime.backend plan payload c with ⟨⟨e⟩ | ⟨accepted⟩, c'⟩
  · exact fun hsame => of_shows hsame h.represents h.mirrors
  rintro ⟨-, hboth⟩
  refine of_shows hboth (commit_represents h.represents plan) ?_
  split_ifs with hacc
  · have hnonneg : 0 ≤ M.payloadBytes payload := List.sum_nonneg (by simp)
    have hbytes : M.payloadBytes payload = plan.nbytes := by
      rw [hplan.nbytes hacc, max_eq_right hnonneg]
    exact h.mirrors.commit hacc rfl hbytes
  · rw [commit_rejected _ (by simpa using hacc)]
    exact h.mirrors

theorem trimTo (h : Accounted M c) (nSequences nBytes : Option ℤ) :
    Accounted M (Coordinator.trimTo M.runtime.backend nSequences nBytes c).2 := by
  unfold Coordinator.trimTo
  split
  swap
  · exact h
  rename_i plan hplan
  have hspec := M.storage_mapBackend.trim_spec plan (p := c.policy)
    (v := c.backend.cache.trie.get?) (fun _ _ => trivial)
    (fun k _ entry hk => h.inv.2 k entry hk) c ⟨rfl, h.inv, rfl⟩
  revert hspec
  rcases Coordinator.trim M.runtime.backend plan c with ⟨⟨e⟩ | ⟨trimmed⟩, c'⟩
  · exact fun hsame => of_shows hsame h.represents h.mirrors
  · exact fun hboth => of_shows hboth (commitTrim_represents h.represents plan)
      (h.mirrors.commitTrim plan)

/-- The facade and the storage compute one size. -/
theorem promptCacheNbytes_eq (M : MlxLm N π) (payload : π) :
    M.runtime.promptCacheNbytes payload = .ok (M.payloadBytes payload) := by
  have hparts : ((M.partBytes payload).map Nat.cast).map (max (0 : ℤ)) =
      (M.partBytes payload).map Nat.cast := by simp [Function.comp_def]
  rw [Runtime.promptCacheNbytes, MlxLm.payloadBytes, ← hparts]
  rfl

theorem admitEntry (h : Accounted M c) (key : CacheKey N) (payload : π) (role : Role)
    (predecessor : Option (CacheKey N)) :
    Accounted M (Coordinator.admitEntry M.runtime.backend key payload role
      (M.payloadBytes payload) predecessor c).2 := by
  rw [Coordinator.admitEntry, Exec.gets_bind_apply]
  exact h.admitPlan (h.represents.plans_admission key role _ predecessor)

theorem admitStableCandidate (h : Accounted M c) (key : CacheKey N) (payload : π) :
    Accounted M (Coordinator.admitStableCandidate M.runtime.backend key payload
      (M.payloadBytes payload) c).2 := by
  have hsame := c.policy.planStableCandidate_sameResidents key (M.payloadBytes payload)
  rw [admitStableCandidate_apply]
  rcases hplan : planStableCandidate key (M.payloadBytes payload) c.policy with
    ⟨⟨e⟩ | ⟨plan⟩, policy⟩ <;> rw [hplan] at hsame
  · exact h.probed hsame
  · exact (h.probed hsame).admitPlan (h.represents.plans_stable hplan)

/-- A read leaves the storage alone and credits at most a hit. -/
theorem fetchNearestCache (h : Accounted M c) (model : N) (tokens : List ℤ) :
    Accounted M (Mlx.fetchNearestCache M.runtime model tokens c).2 := by
  obtain ⟨result, hlookup⟩ : ∃ result, M.runtime.lookup model tokens c.backend =
      (result, c.backend) := by
    unfold Runtime.lookup
    rcases hfetch : M.fetchNearestCache c.backend.cache model tokens with e | found
    · have hrun : M.runtime.fetchNearestCache model tokens c.backend = (.error e, c.backend) := by
        rw [← hfetch]
        rfl
      exact ⟨_, Exec.bind_of_error hrun _⟩
    · have hrun : M.runtime.fetchNearestCache model tokens c.backend = (.ok found, c.backend) := by
        rw [← hfetch]
        rfl
      exact ⟨_, Exec.bind_of_ok hrun _⟩
  unfold Mlx.fetchNearestCache
  rw [Exec.bind_apply, onBackend, Exec.zoom, hlookup]
  cases result with
  | error e => exact h
  | ok observation =>
    obtain ⟨cacheNamespace, prompt, remaining, payload, key⟩ := observation
    cases payload with
    | none => exact h
    | some payload =>
      cases key with
      | none => exact h
      | some key =>
        exact ⟨observeHit_represents h.represents key, h.inv, h.mirrors.observeHit key⟩

theorem stepFacade (h : Accounted M c) (call : FacadeCall N π) :
    Accounted M (stepFacade M.runtime c call) := by
  cases call with
  | fetchNearestCache model tokens => exact h.fetchNearestCache model tokens
  | insertCache model tokens payload cacheType =>
    rw [Mlx.stepFacade, insertCache, promptCacheNbytes_eq, Exec.ofExcept_ok_bind_apply]
    exact h.admitEntry ⟨model, tokens⟩ payload cacheType none
  | insertStableCandidate model tokens payload =>
    rw [Mlx.stepFacade, insertStableCandidate, promptCacheNbytes_eq, Exec.ofExcept_ok_bind_apply]
    exact h.admitStableCandidate ⟨model, tokens⟩ payload
  | insertActiveSuccessor model tokens payload predecessorTokens =>
    rw [Mlx.stepFacade, insertActiveSuccessor, promptCacheNbytes_eq, Exec.ofExcept_ok_bind_apply]
    exact h.admitEntry ⟨model, tokens⟩ payload "active" (some ⟨model, predecessorTokens⟩)
  | trimTo nSequences nBytes => exact h.trimTo nSequences nBytes

end Accounted

/-! ## Runs -/

/-- One call of the facade under its fault. -/
def MlxLm.step (M : MlxLm N π) (c : CacheCoordinator N (FaultyStorage N π))
    (input : FacadeCall N π × Option StorageFault) : CacheCoordinator N (FaultyStorage N π) :=
  stepFacade M.runtime { c with backend := { c.backend with fault := input.2 } } input.1

/-- A run of the facade over a prompt cache without entries. -/
def MlxLm.run (M : MlxLm N π) (config : PolicyConfig) (types : List Role)
    (inputs : List (FacadeCall N π × Option StorageFault)) :
    CacheCoordinator N (FaultyStorage N π) :=
  inputs.foldl M.step ⟨.new config, .new types, none⟩

theorem MlxLm.run_accounted (M : MlxLm N π) (config : PolicyConfig) (types : List Role)
    (inputs : List (FacadeCall N π × Option StorageFault)) :
    Accounted M (M.run config types inputs) := by
  refine Run.foldl_invariant (I := Accounted M) (fun c input h => ?_) inputs _
    ⟨new_represents config, ⟨new_consistent types, ?_⟩, ?_⟩
  · exact Accounted.stepFacade
      (c := { c with backend := { c.backend with fault := input.2 } }) ⟨h.1, h.2, h.3⟩ input.1
  · simp [LRUPromptCache.new]
  · intro k
    rfl

/-- The storage's own counters, against the policy's and against its entries. -/
structure AccountsAlike (M : MlxLm N π) (c : CacheCoordinator N (FaultyStorage N π)) : Prop where
  entries : c.backend.cache.trie.size = c.policy.nSequences
  length : c.backend.cache.lruLength = c.policy.nSequences
  nBytes : c.backend.cache.nBytes = c.policy.nbytes
  byType : ∀ cacheType,
    c.backend.cache.bytesOfType cacheType = c.backend.cache.total (bytesIn cacheType)
  payloads : ∀ key entry, c.backend.cache.trie.get? key = some entry →
    entry.nbytes = M.payloadBytes entry.promptCache

theorem Accounted.accountsAlike {M : MlxLm N π} {c : CacheCoordinator N (FaultyStorage N π)}
    (h : Accounted M c) : AccountsAlike M c := by
  have hkeys (k : CacheKey N) :
      k ∈ c.backend.cache.trie.keys ↔ k ∈ c.policy.entries.keys := by
    have hk := congrArg Option.isSome (h.mirrors k)
    rw [Option.isSome_map, Option.isSome_map] at hk
    rw [← Dict.isSome_get?, ← Dict.isSome_get?, hk]
  have hbytes {k : CacheKey N} {entry : CacheEntry π} {e : EntryState N}
      (hentry : c.backend.cache.trie.get? k = some entry) (he : c.policy.entries.get? k = some e) :
      entry.nbytes = e.nbytes := by
    have hk := h.mirrors k
    rw [hentry, he] at hk
    exact (Prod.mk.inj (Option.some.inj hk)).2
  have hsize : c.backend.cache.trie.size = c.policy.nSequences := by
    have hones : (c.backend.cache.trie.size : ℤ) = c.policy.entries.size := by
      rw [Dict.size_eq_sum, Dict.size_eq_sum]
      exact Dict.sum_congr hkeys fun _ _ => rfl
    exact_mod_cast hones
  refine ⟨hsize, ?_, ?_, h.inv.1.byType, h.inv.2⟩
  · rw [h.inv.1.length, hsize]
  · rw [h.inv.1.nBytes, h.represents.total, residentBytes]
    exact Dict.sum_congr hkeys hbytes

/-- After any calls under any faults the storage counts what the policy counts. And whatever
the storage holds, an insert after its own removal replaces nothing. -/
theorem storage_accounts_like_policy (M : MlxLm N π) (config : PolicyConfig) (types : List Role)
    (inputs : List (FacadeCall N π × Option StorageFault)) :
    AccountsAlike M (M.run config types inputs) ∧
      ∀ (cache : LRUPromptCache N π) (key : CacheKey N) (snapshot : CacheEntry π),
        (insertSnapshot key snapshot (remove key cache).2).1 = .ok () :=
  ⟨(M.run_accounted config types inputs).accountsAlike, fun cache key snapshot => by
    rw [remove_run, insertSnapshot_run]⟩

end StateBraid.Mlx
