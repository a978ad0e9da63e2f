import StateBraid.Coordinator.FaultyMap
import StateBraid.LlamaCpp.Reuse
import StateBraid.Mlx.Generation

/-!
# The MLX prompt cache under the coordinator

The facade reads through the ordinary nearest-prefix lookup of the MLX prompt cache,
credits the prefix that served, and mutates through its exact storage. A request of
the server is one lookup followed by the generation-safety rule, which may look up a
second time through the same facade.
-/

namespace StateBraid.Mlx
open Library Policy Coordinator LlamaCpp

/-- What the facade calls in MLX-LM: exact storage, the nearest-prefix lookup, the sizes
of a payload's entries when it exposes them, and the two trim functions. -/
structure Runtime (N σ π τ : Type) where
  capture : N → List ℤ → Exec PyError σ (Option τ)
  restore : N → List ℤ → τ → Exec PyError σ Unit
  remove : N → List ℤ → Exec PyError σ Unit
  insert : N → List ℤ → π → Role → Exec PyError σ Unit
  fetchNearestCache : N → List ℤ → Exec PyError σ (Option π × List ℤ)
  entryBytes : π → Option (List ℤ)
  canTrimPromptCache : π → Bool
  trimPromptCache : π → ℕ → π

variable {N σ π τ : Type} [DecidableEq N]

namespace Runtime

/-- `MLXPromptCacheBackend`: keys are taken apart for the storage. -/
def backend (R : Runtime N σ π τ) : TransactionalBackend N σ π τ where
  capture key := R.capture key.cacheNamespace key.tokens
  restore key snapshot := R.restore key.cacheNamespace key.tokens snapshot
  remove key := R.remove key.cacheNamespace key.tokens
  insert key payload role := R.insert key.cacheNamespace key.tokens payload role
  forgetRemote := none

/-- `lookup`. -/
def lookup (R : Runtime N σ π τ) (cacheNamespace : N) (tokens : List ℤ) :
    Exec PyError σ (LookupObservation N π) := do
  let found ← R.fetchNearestCache cacheNamespace tokens
  Exec.ofExcept (LookupObservation.fromBackendResult cacheNamespace tokens found.1 found.2)

/-- The trim functions as calls; neither touches the prompt cache. -/
def cacheModule {ε s : Type} (R : Runtime N σ π τ) : CacheModule ε s π where
  canTrimPromptCache value := pure (R.canTrimPromptCache value)
  trimPromptCache value n := pure (R.trimPromptCache value n)

/-- `_prompt_cache_nbytes`. -/
def promptCacheNbytes (R : Runtime N σ π τ) (payload : π) : Except PyError ℤ :=
  match R.entryBytes payload with
  | some sizes => .ok (sizes.map (max 0)).sum
  | none => .error (.typeError "MLX prompt-cache payload must expose per-entry nbytes")

end Runtime

section Facade

variable (R : Runtime N σ π τ)

/-- `fetch_nearest_cache`: the matched prefix is credited when a payload was served. -/
def fetchNearestCache (model : N) (tokens : List ℤ) :
    Exec PyError (CacheCoordinator N σ) (Option π × List ℤ) := do
  let observation ← onBackend (R.lookup model tokens)
  match observation.payload, observation.matchedKey with
  | some _, some key =>
    let _ ← Coordinator.observeHit key
    pure (observation.payload, observation.remaining)
  | _, _ => pure (observation.payload, observation.remaining)

/-- `insert_cache`. -/
def insertCache (model : N) (tokens : List ℤ) (payload : π) (cacheType : Role) :
    Exec PyError (CacheCoordinator N σ) Bool := do
  let nbytes ← Exec.ofExcept (R.promptCacheNbytes payload)
  admitEntry R.backend ⟨model, tokens⟩ payload cacheType nbytes none

/-- `insert_stable_candidate`. -/
def insertStableCandidate (model : N) (tokens : List ℤ) (payload : π) :
    Exec PyError (CacheCoordinator N σ) Bool := do
  let nbytes ← Exec.ofExcept (R.promptCacheNbytes payload)
  admitStableCandidate R.backend ⟨model, tokens⟩ payload nbytes

/-- `insert_active_successor`. -/
def insertActiveSuccessor (model : N) (tokens : List ℤ) (payload : π)
    (predecessorTokens : List ℤ) : Exec PyError (CacheCoordinator N σ) Bool := do
  let nbytes ← Exec.ofExcept (R.promptCacheNbytes payload)
  admitEntry R.backend ⟨model, tokens⟩ payload "active" nbytes (some ⟨model, predecessorTokens⟩)

/-- A request of the server: the lookup, made safe for generation. -/
def request (model : N) (prompt : List ℤ) :
    Exec PyError (CacheCoordinator N σ) (Option π × List ℤ) := do
  let found ← fetchNearestCache R model prompt
  generationSafePromptCacheHit R.cacheModule (fetchNearestCache R) model prompt found.1 found.2

/-- A call of the facade. -/
inductive FacadeCall (N π : Type)
  | fetchNearestCache (model : N) (tokens : List ℤ)
  | insertCache (model : N) (tokens : List ℤ) (payload : π) (cacheType : Role)
  | insertStableCandidate (model : N) (tokens : List ℤ) (payload : π)
  | insertActiveSuccessor (model : N) (tokens : List ℤ) (payload : π)
      (predecessorTokens : List ℤ)
  | trimTo (nSequences nBytes : Option ℤ)

/-- The state a call leaves, whether it returned or raised. -/
def stepFacade (c : CacheCoordinator N σ) : FacadeCall N π → CacheCoordinator N σ
  | .fetchNearestCache model tokens => (fetchNearestCache R model tokens c).2
  | .insertCache model tokens payload cacheType =>
    (insertCache R model tokens payload cacheType c).2
  | .insertStableCandidate model tokens payload => (insertStableCandidate R model tokens payload c).2
  | .insertActiveSuccessor model tokens payload predecessorTokens =>
    (insertActiveSuccessor R model tokens payload predecessorTokens c).2
  | .trimTo nSequences nBytes => (trimTo R.backend nSequences nBytes c).2

/-- The states of the facade over a prompt cache that started as `b`. -/
inductive Reached (config : PolicyConfig) (b : σ) : CacheCoordinator N σ → Prop
  | start : Reached config b ⟨.new config, b⟩
  | call {c : CacheCoordinator N σ} (hc : Reached config b c) (op : FacadeCall N π) :
    Reached config b (stepFacade R c op)

end Facade

/-! ## What a lookup serves -/

/-- The token words the policy holds in a namespace. -/
def Resident (p : WorkingSetPolicy N) (model : N) (word : List ℤ) : Prop :=
  ⟨model, word⟩ ∈ p.entries.keys

instance (p : WorkingSetPolicy N) (model : N) (word : List ℤ) :
    Decidable (Resident p model word) :=
  inferInstanceAs (Decidable (_ ∈ p.entries.keys))

/-- What the facade relies on in a lookup: it returns the payload and the remainder of the
longest resident prefix, or nothing when there is none, and leaves the stored payloads
alone. A prefix is nonempty, as `from_backend_result` asks of a payload. -/
structure ServesNearest (R : Runtime N σ π τ) (stored : σ → CacheKey N → Option π)
    (c : CacheCoordinator N σ) : Prop where
  found : ∀ model query word, IsLongestPrefix (Resident c.policy model) query word →
    ∃ payload b', stored c.backend ⟨model, word⟩ = some payload ∧
      R.fetchNearestCache model query c.backend =
        (.ok (some payload, query.drop word.length), b') ∧ stored b' = stored c.backend
  missed : ∀ model query, (∀ word, ¬ IsLongestPrefix (Resident c.policy model) query word) →
    ∃ b', R.fetchNearestCache model query c.backend = (.ok (none, query), b') ∧
      stored b' = stored c.backend

/-- The hit counter of a resident. -/
def hitsOf (p : WorkingSetPolicy N) (k : CacheKey N) : Option ℕ :=
  (p.entries.get? k).map EntryState.hits

/-- One resident has one hit more, and nothing else has changed. -/
def CreditedOnce (p q : WorkingSetPolicy N) (key : CacheKey N) : Prop :=
  hitsOf q key = (hitsOf p key).map (· + 1) ∧ (hitsOf p key).isSome ∧
    ∀ k ≠ key, hitsOf q k = hitsOf p k

/-- The payload a request ends with is the resident's own, covering what the remainder
leaves out of the prompt, or the resident covers the whole prompt and gave its last token
back. -/
def UsesPayload (R : Runtime N σ π τ) (stored : CacheKey N → Option π) (prompt : List ℤ)
    (key : CacheKey N) (cache : π) (rest : List ℤ) : Prop :=
  (stored key = some cache ∧ key.tokens ++ rest = prompt) ∨
    ∃ payload, stored key = some payload ∧ key.tokens = prompt ∧
      R.canTrimPromptCache payload = true ∧ cache = R.trimPromptCache payload 1 ∧
      rest = lastToken prompt

/-- The request returns, and over the whole of it the counters change by one hit on the
resident it used, or not at all when it ends without a cache. -/
def TruthfulCredit (R : Runtime N σ π τ) (stored : σ → CacheKey N → Option π) (model : N)
    (prompt : List ℤ) (c : CacheCoordinator N σ) : Prop :=
  ∃ cache rest c', request R model prompt c = (.ok (cache, rest), c') ∧
    match cache with
    | none => ∀ k, hitsOf c'.policy k = hitsOf c.policy k
    | some payload => ∃ word,
        UsesPayload R (stored c.backend) prompt ⟨model, word⟩ payload rest ∧
        CreditedOnce c.policy c'.policy ⟨model, word⟩

section Lookup

variable {R : Runtime N σ π τ} {stored : σ → CacheKey N → Option π}
variable {c : CacheCoordinator N σ} {model : N} {query word : List ℤ}

theorem hitsOf_observeHit (p : WorkingSetPolicy N) (key k : CacheKey N) :
    hitsOf (p.observeHit key).2 k =
      if k = key then (hitsOf p k).map (· + 1) else hitsOf p k := by
  unfold hitsOf WorkingSetPolicy.observeHit
  split
  · rename_i hnone
    split_ifs with hk
    · rw [hk, hnone]
      rfl
    · rfl
  · rename_i entry hentry
    rw [Dict.get?_insert]
    split_ifs with hk
    · rw [hk, hentry]
      rfl
    · rfl

/-- Crediting a resident. -/
theorem creditedOnce_observeHit {p : WorkingSetPolicy N} {key : CacheKey N}
    (hkey : key ∈ p.entries.keys) : CreditedOnce p (p.observeHit key).2 key := by
  refine ⟨by rw [hitsOf_observeHit, if_pos rfl], ?_, fun k hk => ?_⟩
  · rw [hitsOf, Option.isSome_map, Dict.isSome_get?]
    exact hkey
  · rw [hitsOf_observeHit, if_neg hk]

theorem hits_observeHit_ne {p : WorkingSetPolicy N} {key : CacheKey N}
    (hkey : key ∈ p.entries.keys) : hitsOf (p.observeHit key).2 key ≠ hitsOf p key := by
  obtain ⟨n, hn⟩ := Option.isSome_iff_exists.mp (creditedOnce_observeHit hkey).2.1
  rw [hitsOf_observeHit, if_pos rfl, hn]
  simp

/-- Two residents credited in a row are not one credit. -/
theorem not_creditedOnce_of_two {p : WorkingSetPolicy N} {j k key : CacheKey N} (hjk : j ≠ k)
    (hj : j ∈ p.entries.keys) (hk : k ∈ p.entries.keys) :
    ¬ CreditedOnce p ((p.observeHit k).2.observeHit j).2 key := by
  intro h
  by_cases hkey : k = key
  · refine hits_observeHit_ne hj ?_
    have hsame := h.2.2 j (hkey ▸ hjk)
    rw [hitsOf_observeHit, if_pos rfl, hitsOf_observeHit, if_neg hjk] at hsame
    rw [hitsOf_observeHit, if_pos rfl, hsame]
  · refine hits_observeHit_ne hk ?_
    have hsame := h.2.2 k hkey
    rwa [hitsOf_observeHit, if_neg hjk.symm] at hsame

/-- What a lawful lookup returns passes the checks of the observation. -/
theorem fromBackendResult_found {N σ π : Type} {c : CacheCoordinator N σ} {model : N}
    {query word : List ℤ} {payload : π} (h : IsLongestPrefix (Resident c.policy model) query word) :
    LookupObservation.fromBackendResult model query (some payload) (query.drop word.length) =
      .ok ⟨model, query, query.drop word.length, some payload, some ⟨model, word⟩⟩ := by
  have hle := h.isPrefix.length_le
  have hpos := List.length_pos_iff.mpr h.nonempty
  have hlength : (query.drop word.length).length = query.length - word.length :=
    List.length_drop
  have hmatched : query.length - (query.length - word.length) = word.length := by omega
  simp only [LookupObservation.fromBackendResult, hlength, hmatched, h.take_length]
  rw [if_neg (by omega), if_neg (by simp), if_neg (by simp), if_neg fun hnil => hpos.ne' hnil.2,
    if_pos hpos.ne']

theorem fromBackendResult_missed {N π : Type} {model : N} {query : List ℤ} :
    LookupObservation.fromBackendResult model query (none : Option π) query =
      .ok ⟨model, query, query, none, none⟩ := by
  simp [LookupObservation.fromBackendResult]

/-- A lookup with a resident prefix credits the longest one. -/
theorem fetch_found (hc : ServesNearest R stored c)
    (h : IsLongestPrefix (Resident c.policy model) query word) :
    ∃ payload b', stored c.backend ⟨model, word⟩ = some payload ∧
      stored b' = stored c.backend ∧
      fetchNearestCache R model query c =
        (.ok (some payload, query.drop word.length),
          ⟨(c.policy.observeHit ⟨model, word⟩).2, b'⟩) := by
  obtain ⟨payload, b', hstored, hfetch, hkept⟩ := hc.found model query word h
  refine ⟨payload, b', hstored, hkept, ?_⟩
  have hlookup : R.lookup model query c.backend = (.ok ⟨model, query, query.drop word.length,
      some payload, some ⟨model, word⟩⟩, b') := by
    rw [Runtime.lookup, Exec.bind_of_ok hfetch, Exec.ofExcept_apply, fromBackendResult_found h]
  simp only [fetchNearestCache, Exec.bind_apply, onBackend, Exec.zoom, hlookup]
  rfl

/-- Any other lookup credits nothing. -/
theorem fetch_missed (hc : ServesNearest R stored c)
    (h : ∀ word, ¬ IsLongestPrefix (Resident c.policy model) query word) :
    ∃ b', stored b' = stored c.backend ∧
      fetchNearestCache R model query c = (.ok (none, query), { c with backend := b' }) := by
  obtain ⟨b', hfetch, hkept⟩ := hc.missed model query h
  refine ⟨b', hkept, ?_⟩
  have hlookup : R.lookup model query c.backend =
      (.ok ⟨model, query, query, none, none⟩, b') := by
    rw [Runtime.lookup, Exec.bind_of_ok hfetch, Exec.ofExcept_apply, fromBackendResult_missed]
  simp only [fetchNearestCache, Exec.bind_apply, onBackend, Exec.zoom, hlookup]
  rfl

theorem resident_observeHit (p : WorkingSetPolicy N) (key : CacheKey N) (model : N) :
    Resident (p.observeHit key).2 model = Resident p model := by
  funext word
  exact propext (observeHit_keys p key _)

/-! ## The credit of a request -/

section Request

variable {payload : π} {rest : List ℤ} {c₁ c₂ : CacheCoordinator N σ}

/-- A miss and a partial hit are what the request ends with. -/
theorem request_kept {found : Option π × List ℤ} (hkept : found.1 = none ∨ found.2 ≠ [])
    (hfetch : fetchNearestCache R model query c = (.ok found, c₁)) :
    request R model query c = (.ok found, c₁) := by
  rw [request, Exec.bind_of_ok hfetch]
  exact ensureGenerationSafe_kept (hkept.imp_right Or.inl)

/-- A trimmable exact hit gives its last token back. -/
theorem request_trimmed (hquery : query ≠ [])
    (hfetch : fetchNearestCache R model query c = (.ok (some payload, []), c₁))
    (hcan : R.canTrimPromptCache payload = true) :
    request R model query c =
      (.ok (some (R.trimPromptCache payload 1), lastToken query), c₁) := by
  have hasked : (pure (R.canTrimPromptCache payload) : Exec PyError (CacheCoordinator N σ) Bool) c₁ =
      (.ok true, c₁) := by rw [hcan, Exec.pure_apply]
  rw [request, Exec.bind_of_ok hfetch]
  exact ensureGenerationSafe_trimmed hquery hasked rfl

/-- Any other exact hit makes way for a second lookup. -/
theorem request_shorter {shorter : Option π × List ℤ} (hquery : query ≠ [])
    (hfetch : fetchNearestCache R model query c = (.ok (some payload, []), c₁))
    (hcan : R.canTrimPromptCache payload = false)
    (hagain : fetchNearestCache R model query.dropLast c₁ = (.ok shorter, c₂)) :
    request R model query c =
      (.ok (shorter.1, if shorter.1.isNone then query else shorter.2 ++ lastToken query), c₂) := by
  have hasked : (pure (R.canTrimPromptCache payload) : Exec PyError (CacheCoordinator N σ) Bool) c₁ =
      (.ok false, c₁) := by rw [hcan, Exec.pure_apply]
  rw [request, Exec.bind_of_ok hfetch]
  exact ensureGenerationSafe_shorter hquery hasked hagain

end Request

/-- A prompt that is resident under a payload which cannot be trimmed. -/
def HeldUntrimmable (R : Runtime N σ π τ) (stored : CacheKey N → Option π)
    (p : WorkingSetPolicy N) (model : N) (prompt : List ℤ) : Prop :=
  prompt ≠ [] ∧ Resident p model prompt ∧
    ∃ payload, stored ⟨model, prompt⟩ = some payload ∧ R.canTrimPromptCache payload = false

/-- No resident prefix: the prompt is recomputed and nobody is credited. -/
theorem truthful_of_missed (hc : ServesNearest R stored c)
    (h : ∀ word, ¬ IsLongestPrefix (Resident c.policy model) query word) :
    TruthfulCredit R stored model query c := by
  obtain ⟨b', -, hfetch⟩ := fetch_missed hc h
  exact ⟨none, query, { c with backend := b' }, request_kept (Or.inl rfl) hfetch, fun _ => rfl⟩

/-- A proper prefix is used as it is. -/
theorem truthful_of_partial (hc : ServesNearest R stored c)
    (h : IsLongestPrefix (Resident c.policy model) query word) (hne : word ≠ query) :
    TruthfulCredit R stored model query c := by
  obtain ⟨payload, b', hstored, -, hfetch⟩ := fetch_found hc h
  have hrest : query.drop word.length ≠ [] := fun hnil => hne (h.eq_of_drop_eq_nil hnil)
  exact ⟨some payload, query.drop word.length, ⟨(c.policy.observeHit ⟨model, word⟩).2, b'⟩,
    request_kept (Or.inr hrest) hfetch, word, Or.inl ⟨hstored, h.append_drop⟩,
    creditedOnce_observeHit h.mem⟩

/-- A trimmable payload of the whole prompt gives its last token back. -/
theorem truthful_of_trimmable (hc : ServesNearest R stored c)
    (h : IsLongestPrefix (Resident c.policy model) query query)
    (htrim : ¬ HeldUntrimmable R (stored c.backend) c.policy model query) :
    TruthfulCredit R stored model query c := by
  obtain ⟨payload, b', hstored, -, hfetch⟩ := fetch_found hc h
  have hcan : R.canTrimPromptCache payload = true := by
    by_contra hcan
    exact htrim ⟨h.nonempty, h.mem, payload, hstored, by simpa using hcan⟩
  rw [List.drop_length] at hfetch
  exact ⟨some (R.trimPromptCache payload 1), lastToken query,
    ⟨(c.policy.observeHit ⟨model, query⟩).2, b'⟩, request_trimmed h.nonempty hfetch hcan, query,
    Or.inr ⟨payload, hstored, rfl, hcan, rfl, rfl⟩, creditedOnce_observeHit h.mem⟩

/-- An untrimmable payload of the whole prompt is credited, and then another prefix is
looked up and credited too, or the prompt is recomputed. -/
theorem not_truthful_of_untrimmable (hc : ServesNearest R stored c)
    (hnext : ServesNearest R stored (fetchNearestCache R model query c).2)
    (h : HeldUntrimmable R (stored c.backend) c.policy model query) :
    ¬ TruthfulCredit R stored model query c := by
  obtain ⟨hquery, hmem, payload, hpayload, hcan⟩ := h
  have hself := IsLongestPrefix.self hmem hquery
  obtain ⟨payload', b', hstored, -, hfetch⟩ := fetch_found hc hself
  obtain rfl : payload = payload' := Option.some.inj (hpayload.symm.trans hstored)
  rw [List.drop_length] at hfetch
  rw [hfetch] at hnext
  rintro ⟨cache, rest, c', hrequest, hcredit⟩
  -- the second lookup, one token shorter, sees the same residents
  by_cases hshorter : ∃ word, IsLongestPrefix (Resident c.policy model) query.dropLast word
  · obtain ⟨word, hword⟩ := hshorter
    have hne : word ≠ query := fun he => by
      have hlength := hword.isPrefix.length_le
      have hpos := List.length_pos_iff.mpr hquery
      rw [he, List.length_dropLast] at hlength
      omega
    obtain ⟨payload₂, b₂, -, -, hagain⟩ :=
      fetch_found hnext ((resident_observeHit c.policy ⟨model, query⟩ model).symm ▸ hword)
    obtain ⟨hresult, rfl⟩ := Prod.mk.inj
      (hrequest.symm.trans (request_shorter hquery hfetch hcan hagain))
    obtain ⟨rfl, rfl⟩ := Prod.mk.inj (Except.ok.inj hresult)
    obtain ⟨used, -, hcredited⟩ := hcredit
    exact not_creditedOnce_of_two (fun he => hne (congrArg CacheKey.tokens he)) hword.mem hmem
      hcredited
  · obtain ⟨b₂, -, hagain⟩ := fetch_missed hnext fun word hword => hshorter
      ⟨word, (resident_observeHit c.policy ⟨model, query⟩ model) ▸ hword⟩
    obtain ⟨hresult, rfl⟩ := Prod.mk.inj
      (hrequest.symm.trans (request_shorter hquery hfetch hcan hagain))
    obtain ⟨rfl, rfl⟩ := Prod.mk.inj (Except.ok.inj hresult)
    exact hits_observeHit_ne hmem (hcredit _)

/-- Over a backend that serves the longest resident prefix, a request credits truthfully
exactly when the prompt is not held by a payload that cannot be trimmed. -/
theorem request_credit_iff {config : PolicyConfig} {b : σ}
    (hserves : ∀ c, Reached R config b c → ServesNearest R stored c)
    (hc : Reached R config b c) (model : N) (prompt : List ℤ) :
    TruthfulCredit R stored model prompt c ↔
      ¬ HeldUntrimmable R (stored c.backend) c.policy model prompt := by
  constructor
  · intro htruthful h
    exact not_truthful_of_untrimmable (hserves c hc)
      (hserves _ (.call hc (.fetchNearestCache model prompt))) h htruthful
  · intro hheld
    by_cases hhit : ∃ word, IsLongestPrefix (Resident c.policy model) prompt word
    · obtain ⟨word, hword⟩ := hhit
      by_cases hexact : word = prompt
      · rw [hexact] at hword
        exact truthful_of_trimmable (hserves c hc) hword hheld
      · exact truthful_of_partial (hserves c hc) hword hexact
    · exact truthful_of_missed (hserves c hc) fun word hword => hhit ⟨word, hword⟩

end Lookup

/-! ## A prompt cache that is a map

The coordinator's map with a nearest-prefix lookup. A payload says whether it can be
trimmed. -/

/-- The lookup searches the stored words of the namespace. -/
def nearestStored (s : FaultyMap N Bool) (model : N) (query : List ℤ) : Option (List ℤ) :=
  longestPrefix? (fun word => (s.values ⟨model, word⟩).isSome) query query.length

def mapRuntime : Runtime N (FaultyMap N Bool) Bool (Bool × Role) where
  capture model tokens := FaultyMap.backend.capture ⟨model, tokens⟩
  restore model tokens := FaultyMap.backend.restore ⟨model, tokens⟩
  remove model tokens := FaultyMap.backend.remove ⟨model, tokens⟩
  insert model tokens := FaultyMap.backend.insert ⟨model, tokens⟩
  fetchNearestCache model query := Exec.gets fun s =>
    match nearestStored s model query with
    | some word => ((s.values ⟨model, word⟩).map Prod.fst, query.drop word.length)
    | none => (none, query)
  entryBytes _ := some [1]
  canTrimPromptCache trimmable := trimmable
  trimPromptCache trimmable _ := trimmable

/-- The payloads of the map. -/
def storedPayload (s : FaultyMap N Bool) (key : CacheKey N) : Option Bool :=
  (s.values key).map Prod.fst

theorem mapRuntime_serves {c : CacheCoordinator N (FaultyMap N Bool)}
    {last : CacheKey N → Option (Bool × Role)} (h : AgreesWith FaultyMap.mapSpec last c) :
    ServesNearest mapRuntime storedPayload c := by
  have hresident (model : N) : (fun word => (c.backend.values ⟨model, word⟩).isSome = true) =
      Resident c.policy model := by
    funext word
    exact propext (h.agrees.isSome_iff ⟨model, word⟩)
  constructor
  · intro model query word hword
    cases hsearch : nearestStored c.backend model query with
    | none =>
      have hnone := not_isLongestPrefix_of_search hsearch word
      rw [hresident] at hnone
      exact absurd hword hnone
    | some found =>
      have hfound := isLongestPrefix_of_search hsearch
      rw [hresident] at hfound
      obtain rfl := hfound.unique hword
      obtain ⟨⟨payload, role⟩, hvalue, -⟩ := h.agrees.resident _ hword.mem
      have hvalue : c.backend.values ⟨model, found⟩ = some (payload, role) := hvalue
      refine ⟨payload, c.backend, by rw [storedPayload, hvalue]; rfl, ?_, rfl⟩
      simp only [mapRuntime, Exec.gets_apply, hsearch, hvalue, Option.map_some]
  · intro model query hnone
    cases hsearch : nearestStored c.backend model query with
    | some found =>
      have hfound := isLongestPrefix_of_search hsearch
      rw [hresident] at hfound
      exact absurd hfound (hnone found)
    | none =>
      refine ⟨c.backend, ?_, rfl⟩
      simp only [mapRuntime, Exec.gets_apply, hsearch]

/-- A call of the facade is an operation of the coordinator, or none at all. -/
theorem stepFacade_eq (c : CacheCoordinator N (FaultyMap N Bool)) (call : FacadeCall N Bool) :
    stepFacade mapRuntime c call = c ∨
      ∃ op, stepFacade mapRuntime c call = stepOperation FaultyMap.backend c op := by
  cases call with
  | fetchNearestCache model tokens =>
    obtain ⟨result, hlookup⟩ : ∃ result, mapRuntime.lookup model tokens c.backend =
        (result, c.backend) := ⟨_, rfl⟩
    rw [stepFacade, fetchNearestCache, Exec.bind_apply, onBackend, Exec.zoom, hlookup]
    cases result with
    | error e => exact Or.inl rfl
    | ok observation =>
      obtain ⟨model, prompt, remaining, payload, key⟩ := observation
      cases payload with
      | none => exact Or.inl rfl
      | some payload =>
        cases key with
        | none => exact Or.inl rfl
        | some key =>
          refine Or.inr ⟨.observeHit key, ?_⟩
          rw [stepOperation, perform, replyWith_state]
          rfl
  | insertCache model tokens payload cacheType =>
    refine Or.inr ⟨.admitEntry ⟨model, tokens⟩ payload cacheType 1 none, ?_⟩
    rw [stepOperation, perform, replyWith_state]
    rfl
  | insertStableCandidate model tokens payload =>
    refine Or.inr ⟨.admitStableCandidate ⟨model, tokens⟩ payload 1, ?_⟩
    rw [stepOperation, perform, replyWith_state]
    rfl
  | insertActiveSuccessor model tokens payload predecessorTokens =>
    refine Or.inr ⟨.admitEntry ⟨model, tokens⟩ payload "active" 1
      (some ⟨model, predecessorTokens⟩), ?_⟩
    rw [stepOperation, perform, replyWith_state]
    rfl
  | trimTo nSequences nBytes =>
    refine Or.inr ⟨.trimTo nSequences nBytes, ?_⟩
    rw [stepOperation, perform, replyWith_state]
    rfl

theorem mapRuntime_reached {config : PolicyConfig} {c : CacheCoordinator N (FaultyMap N Bool)}
    (hc : Reached mapRuntime config .empty c) :
    ∃ history, AgreesWith FaultyMap.mapSpec (lastAdmission history) c := by
  induction hc with
  | start => exact ⟨[], trivial, by simp [WorkingSetPolicy.new], fun _ _ => rfl⟩
  | call hc call ih =>
    rename_i c
    obtain ⟨history, hagrees⟩ := ih
    rcases stepFacade_eq c call with hsame | ⟨op, hop⟩
    · rw [hsame]
      exact ⟨history, hagrees⟩
    · rw [hop, stepOperation]
      have hstep := perform_agrees op hagrees
      rcases hrun : perform FaultyMap.backend op c with ⟨⟨e⟩ | ⟨reply⟩, c'⟩
      · rw [hrun] at hstep
        exact ⟨_, hstep⟩
      · rw [hrun] at hstep
        exact ⟨_, hstep⟩

theorem mapRuntime_serves_reached (config : PolicyConfig)
    (c : CacheCoordinator N (FaultyMap N Bool)) (hc : Reached mapRuntime config .empty c) :
    ServesNearest mapRuntime storedPayload c := by
  obtain ⟨history, hagrees⟩ := mapRuntime_reached hc
  exact mapRuntime_serves hagrees

namespace Sample

def config : PolicyConfig := PolicyConfig.new 4 8 ∅ none

/-- Two untrimmable payloads, one covering a prefix of the other's tokens. -/
def nested : CacheCoordinator String (FaultyMap String Bool) :=
  stepFacade mapRuntime
    (stepFacade mapRuntime ⟨.new config, .empty⟩ (.insertCache "m" [1] false "assistant"))
    (.insertCache "m" [1, 2] false "assistant")

theorem nested_reached : Reached mapRuntime config .empty nested := .call (.call .start _) _

end Sample

open Sample

/-- A request for one token more is credited truthfully. -/
theorem longer_request_truthful :
    TruthfulCredit mapRuntime storedPayload "m" [1, 2, 3] nested :=
  (request_credit_iff (mapRuntime_serves_reached config) nested_reached "m" [1, 2, 3]).mpr
    fun h => absurd h.2.1 (by decide +kernel)

/-- The request for the longer prompt credits both residents and uses the shorter one. -/
theorem nested_request_credits_two :
    Reached mapRuntime config .empty nested ∧
    (∀ c, Reached mapRuntime config .empty c →
      ServesNearest mapRuntime (storedPayload (N := String)) c) ∧
    ((request mapRuntime "m" [1, 2] nested).1 = .ok (some false, [2]) ∧
      hitsOf nested.policy ⟨"m", [1]⟩ = some 0 ∧ hitsOf nested.policy ⟨"m", [1, 2]⟩ = some 0 ∧
      hitsOf (request mapRuntime "m" [1, 2] nested).2.policy ⟨"m", [1]⟩ = some 1 ∧
      hitsOf (request mapRuntime "m" [1, 2] nested).2.policy ⟨"m", [1, 2]⟩ = some 1) ∧
    ¬ TruthfulCredit mapRuntime storedPayload "m" [1, 2] nested := by
  refine ⟨nested_reached, mapRuntime_serves_reached config,
    ⟨rfl, by decide +kernel, by decide +kernel, by decide +kernel, by decide +kernel⟩, ?_⟩
  have hserves := mapRuntime_serves_reached (N := String) config
  refine not_truthful_of_untrimmable (hserves nested nested_reached)
    (hserves _ (.call nested_reached (.fetchNearestCache "m" [1, 2])))
    ⟨by decide, by decide +kernel, false, by decide +kernel, rfl⟩

end StateBraid.Mlx
