import StateBraid.Coordinator.BackendInvariant
import StateBraid.LlamaCpp.HttpAdapter
import StateBraid.Mlx.PromptCache

/-!
# Requests in the MLX server

The batch loop of the patched server with StateBraid on. A request is looked up in the
namespace of its model and trust domain, becomes a row of `batch_results`, and from
then on the batch generator reports ends of segments and the end of the generation, in
any order among the requests under way. What a row may save is decided here; what the
cache keeps of it, by the coordinator.
-/

namespace StateBraid.Mlx
open Library Policy Coordinator LlamaCpp Managed

/-- `CacheNamespace`. -/
structure CacheNamespace (K : Type) where
  backendIdentity : K
  trustDomain : String
  deriving DecidableEq

variable {K σ π τ α : Type}

/-- `validate_trust_domain` of any value. -/
def validateDomain : Json → Except PyError String
  | .str value => validateTrustDomain value
  | _ => .error (.typeError "cache namespace must be a string")

/-- `make_cache_namespace`. -/
def makeCacheNamespace (backendIdentity : K) (trustDomain : Json) :
    Except PyError (CacheNamespace K) := do
  let trustDomain ← validateDomain trustDomain
  return ⟨backendIdentity, trustDomain⟩

/-- The trust domain a request asks for; `None` asks for the default. -/
def requestedDomain : Json → Json
  | .null => .str defaultTrustDomain
  | requested => requested

/-- `_statebraid_cache_namespace`. -/
def statebraidCacheNamespace (modelKey : K) (requestedNamespace : Json) :
    Except PyError (CacheNamespace K) :=
  makeCacheNamespace modelKey (requestedDomain requestedNamespace)

/-- `_statebraid_hybrid_checkpoint`. -/
def hybridCheckpoint (cacheKey prompt : List ℤ) : Prop := cacheKey.length + 1 = prompt.length

instance (cacheKey prompt : List ℤ) : Decidable (hybridCheckpoint cacheKey prompt) :=
  inferInstanceAs (Decidable (_ = _))

/-- An insertion through the facade. -/
inductive Insertion (N π : Type)
  | cache (cacheNamespace : N) (tokens : List ℤ) (payload : π) (cacheType : Role)
  | stable (cacheNamespace : N) (tokens : List ℤ) (payload : π)
  | active (cacheNamespace : N) (tokens : List ℤ) (payload : π) (predecessorTokens : List ℤ)

/-- The facade's own method. -/
def Insertion.perform {N : Type} [DecidableEq N] (R : Runtime N σ π τ) :
    Insertion N π → Exec PyError (CacheCoordinator N σ) Bool
  | .cache model tokens payload cacheType => insertCache R model tokens payload cacheType
  | .stable model tokens payload => insertStableCandidate R model tokens payload
  | .active model tokens payload predecessorTokens =>
    insertActiveSuccessor R model tokens payload predecessorTokens

/-- One call of an insertion: the last segment of its row that had ended, counted from zero,
and how the call ended. -/
structure Attempt (K π : Type) where
  segment : ℕ
  insertion : Insertion (CacheNamespace K) π
  result : Except PyError Bool

/-- A row of `batch_results`. `segmentTypes` lists the types still to come, the next one first.
`endedTypes` and `attempts` are history variables: the types already popped, in order, and the
insertions tried for this row. -/
structure Row (K π : Type) where
  cacheNamespace : CacheNamespace K
  prompt : List ℤ
  promptCacheCount : ℕ
  segmentTypes : List Role
  segmentCacheSaved : Bool
  endedTypes : List Role
  attempts : List (Attempt K π)

/-- `segment_types.pop()`, which leaves `segmentTypes`. -/
def Row.popSegment (row : Row K π) (cacheType : Role) (segmentTypes : List Role) : Row K π :=
  { row with segmentTypes := segmentTypes, endedTypes := row.endedTypes ++ [cacheType] }

/-- The row after one more insertion was tried for it. -/
def Row.note (row : Row K π) (insertion : Insertion (CacheNamespace K) π)
    (result : Except PyError Bool) : Row K π :=
  { row with attempts := row.attempts ++ [⟨row.endedTypes.length - 1, insertion, result⟩] }

/-- The prompt cache and the requests under way, by uid. -/
structure ResponseGenerator (K σ π : Type) where
  promptCache : CacheCoordinator (CacheNamespace K) σ
  batchResults : Dict ℕ (Row K π)

section Loop

variable [DecidableEq K] (R : Runtime (CacheNamespace K) σ π τ)

/-- A call of the prompt cache. -/
def onPromptCache (m : Exec PyError (CacheCoordinator (CacheNamespace K) σ) α) :
    Exec PyError (ResponseGenerator K σ π) α :=
  Exec.zoom ResponseGenerator.promptCache (fun c g => { g with promptCache := c }) m

/-- `batch_results[uid]`. -/
def getRow (uid : ℕ) : Exec PyError (ResponseGenerator K σ π) (Row K π) := fun g =>
  match g.batchResults.get? uid with
  | some row => (.ok row, g)
  | none => (.error (.keyError (toString uid)), g)

/-- Assign to fields of `batch_results[uid]`. -/
def modifyRow (uid : ℕ) (f : Row K π → Row K π) : Exec PyError (ResponseGenerator K σ π) Unit :=
  Exec.modify fun g => { g with
    batchResults := match g.batchResults.get? uid with
      | some row => g.batchResults.insert uid (f row)
      | none => g.batchResults }

/-- Insert for a row, and note how the call ended. -/
def insertFor (uid : ℕ) (insertion : Insertion (CacheNamespace K) π) :
    Exec PyError (ResponseGenerator K σ π) Bool := do
  let saved ← Exec.tryExcept (onPromptCache (insertion.perform R)) fun e => do
    modifyRow uid fun row => row.note insertion (.error e)
    Exec.raise e
  modifyRow uid fun row => row.note insertion (.ok saved)
  pure saved

/-- The start of a request: the lookup made safe for generation, and the new row. -/
def startRequest (uid : ℕ) (modelKey : K) (requestedNamespace : Json) (prompt : List ℤ)
    (segmentTypes : List Role) :
    Exec PyError (ResponseGenerator K σ π) (Option π × List ℤ) := do
  let cacheNamespace ← Exec.ofExcept (statebraidCacheNamespace modelKey requestedNamespace)
  let found ← onPromptCache (request R cacheNamespace prompt)
  Exec.modify fun g => { g with
    batchResults := g.batchResults.insert uid
      ⟨cacheNamespace, prompt, prompt.length - found.2.length, segmentTypes, false, [], []⟩ }
  pure found

/-- The first segment of a prompt that found nothing in the cache: the system prefix is a
candidate only, anything else is inserted. -/
def saveFirst (uid : ℕ) (row : Row K π) (cache : π) (cacheKey : List ℤ) (cacheType : Role) :
    Exec PyError (ResponseGenerator K σ π) Bool :=
  if cacheType = "system" then insertFor R uid (.stable row.cacheNamespace cacheKey cache)
  else do
    let _ ← insertFor R uid (.cache row.cacheNamespace cacheKey cache cacheType)
    pure true

/-- `if cold_prompt and not segment_cache_saved`, with what becomes of `saved_now`. -/
def saveCold (uid : ℕ) (row : Row K π) (cache : π) (cacheKey : List ℤ) (cacheType : Role) :
    Exec PyError (ResponseGenerator K σ π) Bool :=
  if row.promptCacheCount = 0 ∧ row.segmentCacheSaved = false then do
    let savedNow ← saveFirst R uid row cache cacheKey cacheType
    modifyRow uid fun row => { row with segmentCacheSaved := true }
    pure savedNow
  else pure false

/-- `if last_typed and not saved_now` at the generation-safe length: the active tail, in place
of the prefix that served the prompt. -/
def saveTail (uid : ℕ) (row : Row K π) (cache : π) (cacheKey : List ℤ) (segmentTypes : List Role)
    (savedNow : Bool) : Exec PyError (ResponseGenerator K σ π) Unit :=
  if segmentTypes = [] ∧ savedNow = false ∧ hybridCheckpoint cacheKey row.prompt then do
    let _ ← insertFor R uid (.active row.cacheNamespace cacheKey cache
      (row.prompt.take row.promptCacheCount))
    pure ()
  else pure ()

/-- The body of the loop over the rows that reached the end of a segment. -/
def saveSegment (uid : ℕ) (cache : π) (cacheKey : List ℤ) :
    Exec PyError (ResponseGenerator K σ π) Unit := do
  let row ← getRow uid
  match row.segmentTypes with
  | [] => pure ()
  | cacheType :: segmentTypes => do
    modifyRow uid fun row => row.popSegment cacheType segmentTypes
    if R.canTrimPromptCache cache then do
      let _ ← insertFor R uid (.cache row.cacheNamespace cacheKey cache cacheType)
      pure ()
    else do
      let savedNow ← saveCold R uid row cache cacheKey cacheType
      saveTail R uid row cache cacheKey segmentTypes savedNow

/-- The save at the end of a generation, of a cache that can be trimmed. -/
def saveFinished (uid : ℕ) (row : Row K π) (tokens : List ℤ) (cache : π) :
    Exec PyError (ResponseGenerator K σ π) Unit :=
  if R.canTrimPromptCache cache then do
    let _ ← insertFor R uid (.cache row.cacheNamespace tokens cache "assistant")
    pure ()
  else pure ()

/-- The end of a generation. -/
def finishRequest (uid : ℕ) (allTokens : Option (List ℤ)) (promptCache : Option π) :
    Exec PyError (ResponseGenerator K σ π) Unit := do
  let row ← getRow uid
  match promptCache, allTokens with
  | none, _ =>
    Exec.raise (.runtimeError "StateBraid generation result is missing prompt cache")
  | some _, none =>
    Exec.raise (.runtimeError "StateBraid generation result is missing token history")
  | some cache, some tokens => do
    saveFinished R uid row tokens cache
    Exec.modify fun g => { g with batchResults := g.batchResults.erase uid }

/-- What the batch loop handles: new requests, and the reports of the batch generator. -/
inductive BatchEvent (K π : Type)
  | start (uid : ℕ) (modelKey : K) (requestedNamespace : Json) (prompt : List ℤ)
      (segmentTypes : List Role)
  | endOfSegment (uid : ℕ) (cache : π) (cacheKey : List ℤ)
  | finish (uid : ℕ) (allTokens : Option (List ℤ)) (promptCache : Option π)
  | trimTo (nSequences nBytes : Option ℤ)

/-- The state an event leaves, whether its handling returned or raised. -/
def stepBatch (g : ResponseGenerator K σ π) : BatchEvent K π → ResponseGenerator K σ π
  | .start uid modelKey requestedNamespace prompt segmentTypes =>
    (startRequest R uid modelKey requestedNamespace prompt segmentTypes g).2
  | .endOfSegment uid cache cacheKey => (saveSegment R uid cache cacheKey g).2
  | .finish uid allTokens promptCache => (finishRequest R uid allTokens promptCache g).2
  | .trimTo nSequences nBytes => (onPromptCache (trimTo R.backend nSequences nBytes) g).2

/-- A server with an empty cache policy over a prompt cache in state `b`. -/
def ResponseGenerator.new (config : PolicyConfig) (b : σ) : ResponseGenerator K σ π :=
  ⟨⟨.new config, b⟩, .empty⟩

end Loop

/-! ## What a request is served -/

section Exactness

variable {N : Type} {origin : π → N × List ℤ}

/-- A result for `query`, `origin` being what a cache was computed from: the cache, if any, was
computed in the namespace from what the remainder leaves out of the query. -/
structure Served (origin : π → N × List ℤ) (model : N) (query : List ℤ)
    (found : Option π × List ℤ) : Prop where
  exact : LawfulResult (fun cache => (origin cache).2) query found
  isolated : ∀ cache, found.1 = some cache → (origin cache).1 = model

theorem fromBackendResult_served {model : N} {query rest : List ℤ} {payload : Option π}
    {observation : LookupObservation N π}
    (h : LookupObservation.fromBackendResult model query payload rest = .ok observation)
    (horigin : ∀ cache, payload = some cache →
      origin cache = (model, query.take (query.length - rest.length))) :
    Served origin model query (observation.payload, observation.remaining) := by
  simp only [LookupObservation.fromBackendResult] at h
  split at h
  · cases h
  split at h
  · cases h
  rename_i hsuffix
  split at h
  · cases h
  rename_i hnone
  split at h
  · cases h
  cases h
  have hsuffix : rest = query.drop (query.length - rest.length) := not_not.mp hsuffix
  refine ⟨?_, fun cache hcache => by rw [horigin cache hcache]⟩
  cases payload with
  | none =>
    have hzero : query.length - rest.length = 0 := by simpa using hnone
    rw [hzero, List.drop_zero] at hsuffix
    exact hsuffix
  | some cache =>
    change (origin cache).2 ++ rest = query
    rw [horigin cache rfl]
    calc query.take (query.length - rest.length) ++ rest =
        query.take (query.length - rest.length) ++ query.drop (query.length - rest.length) := by
          rw [← hsuffix]
      _ = query := List.take_append_drop _ _

variable [DecidableEq N]

/-- What the server relies on in MLX-LM. `origin` is what a cache was computed from: a namespace
and tokens. `I` says that the storage holds, under every key, only caches computed from it;
storing, restoring and removing keep that, whichever calls raise. A lookup then returns a cache
of the namespace that covers the query up to the remainder, and a trim takes the last token of
a cache away. -/
structure ExactRuntime (R : Runtime N σ π τ) (origin : π → N × List ℤ) (I : σ → Prop)
    (sound : CacheKey N → τ → Prop) : Prop where
  storage : BackendInvariant R.backend I
    (fun key payload => origin payload = (key.cacheNamespace, key.tokens)) sound
  lookup : ∀ model query, Exec.Triple I (R.fetchNearestCache model query)
    (fun found b => (∀ payload, found.1 = some payload →
      origin payload = (model, query.take (query.length - found.2.length))) ∧ I b) (fun _ => I)
  trims : ∀ payload, R.canTrimPromptCache payload = true →
    origin (R.trimPromptCache payload 1) = ((origin payload).1, (origin payload).2.dropLast)

variable {R : Runtime N σ π τ} {I : σ → Prop} {sound : CacheKey N → τ → Prop}

/-- The states whose storage satisfies `I`. -/
abbrev Storing (I : σ → Prop) (c : CacheCoordinator N σ) : Prop := I c.backend

/-- A lookup through the facade. -/
theorem fetch_served (h : ExactRuntime R origin I sound) (model : N) (query : List ℤ) :
    Exec.Triple (Storing I) (fetchNearestCache R model query)
      (fun found c => Served origin model query found ∧ Storing I c) (fun _ => Storing I) := by
  have hlookup : Exec.Triple (Storing I)
      (onBackend (R.lookup model query) : Exec PyError (CacheCoordinator N σ) _)
      (fun observation c =>
        Served origin model query (observation.payload, observation.remaining) ∧ Storing I c)
      (fun _ => Storing I) := by
    refine Exec.Triple.zoom fun c hc => ?_
    refine Exec.Triple.bind (h.lookup model query) (fun found b hb => ?_) c.backend hc
    rw [Exec.ofExcept_apply]
    cases hfrom : LookupObservation.fromBackendResult model query found.1 found.2 with
    | error e => exact hb.2
    | ok observation => exact ⟨fromBackendResult_served hfrom hb.1, hb.2⟩
  refine Exec.Triple.bind hlookup fun observation c hc => ?_
  obtain ⟨cacheNamespace, prompt, remaining, payload, matchedKey⟩ := observation
  cases payload with
  | none => exact hc
  | some cache =>
    cases matchedKey with
    | none => exact hc
    | some key => exact hc

/-- A second lookup that raises ends the request. -/
theorem ensureGenerationSafe_failed {ε s C T : Type} {canTrim : C → Exec ε s Bool}
    {trimOne : C → Exec ε s C} {fetchShorter : List T → Exec ε s (Option C × List T)} {c : C}
    {prompt : List T} {s₀ s₁ s₂ : s} {e : ε} (hprompt : prompt ≠ [])
    (hcan : canTrim c s₀ = (.ok false, s₁))
    (hfetch : fetchShorter prompt.dropLast s₁ = (.error e, s₂)) :
    ensureGenerationSafeExactHit (some c) [] prompt canTrim trimOne fetchShorter s₀ =
      (.error e, s₂) := by
  have h : ¬ (([] : List T) ≠ [] ∨ prompt = []) := by simpa using hprompt
  simp only [ensureGenerationSafeExactHit, if_neg h, Exec.bind_of_ok hcan, Bool.false_eq_true,
    if_false, Exec.bind_of_error hfetch]

/-- A request: at least one token is left to feed, and the cache covers the others. -/
theorem request_served (h : ExactRuntime R origin I sound) (model : N) (prompt : List ℤ) :
    Exec.Triple (Storing I) (request R model prompt)
      (fun found c => (Served origin model prompt found ∧ (prompt ≠ [] → found.2 ≠ [])) ∧
        Storing I c) (fun _ => Storing I) := by
  refine Exec.Triple.bind (fetch_served h model prompt) fun found c hc => ?_
  obtain ⟨cache, rest⟩ := found
  by_cases hkept : cache = none ∨ rest ≠ [] ∨ prompt = []
  · rw [generationSafePromptCacheHit, ensureGenerationSafe_kept hkept]
    refine ⟨⟨hc.1, fun hprompt => ?_⟩, hc.2⟩
    rcases hkept with rfl | hrest | hnil
    · have hrest : rest = prompt := hc.1.exact
      rwa [hrest]
    · exact hrest
    · exact absurd hnil hprompt
  obtain ⟨hhit, rfl, hprompt⟩ : cache ≠ none ∧ rest = [] ∧ prompt ≠ [] := by simpa using hkept
  obtain ⟨payload, rfl⟩ := Option.ne_none_iff_exists'.mp hhit
  have hcovers : (origin payload).2 = prompt := by
    simpa [LawfulResult, covered] using hc.1.exact
  let M : CacheModule PyError (CacheCoordinator N σ) π := R.cacheModule
  cases hcan : R.canTrimPromptCache payload with
  | true =>
    have hasked : M.canTrimPromptCache payload c = (.ok true, c) := congrArg (Except.ok ·, c) hcan
    have htrimmed : M.trimPromptCache payload 1 c = (.ok (R.trimPromptCache payload 1), c) := rfl
    have horigin := h.trims payload hcan
    rw [generationSafePromptCacheHit, ensureGenerationSafe_trimmed hprompt hasked htrimmed]
    refine ⟨⟨⟨?_, fun cache hcache => ?_⟩, fun _ => lastToken_ne_nil hprompt⟩, hc.2⟩
    · change (origin (R.trimPromptCache payload 1)).2 ++ lastToken prompt = prompt
      rw [horigin, hcovers, dropLast_append_lastToken]
    · cases hcache
      rw [horigin]
      exact hc.1.isolated payload rfl
  | false =>
    have hasked : M.canTrimPromptCache payload c = (.ok false, c) :=
      congrArg (Except.ok ·, c) hcan
    have hshorter := fetch_served h model prompt.dropLast c hc.2
    rcases hfetch : fetchNearestCache R model prompt.dropLast c with ⟨⟨e⟩ | ⟨prefixCache, left⟩, c'⟩
    · rw [hfetch] at hshorter
      rw [generationSafePromptCacheHit, ensureGenerationSafe_failed hprompt hasked hfetch]
      exact hshorter
    · rw [hfetch] at hshorter
      rw [generationSafePromptCacheHit, ensureGenerationSafe_shorter hprompt hasked hfetch]
      cases prefixCache with
      | none => exact ⟨⟨⟨rfl, fun _ hcache => by cases hcache⟩, fun hne => hne⟩, hshorter.2⟩
      | some found =>
        refine ⟨⟨⟨?_, fun cache hcache => hshorter.1.isolated cache hcache⟩, fun _ => ?_⟩,
          hshorter.2⟩
        · have hexact : (origin found).2 ++ left = prompt.dropLast := hshorter.1.exact
          change (origin found).2 ++ (left ++ lastToken prompt) = prompt
          rw [← List.append_assoc, hexact, dropLast_append_lastToken]
        · simp [lastToken_ne_nil hprompt]

/-- An insertion of a cache under what it was computed from. -/
def Insertion.Exact (origin : π → N × List ℤ) : Insertion N π → Prop
  | .cache model tokens payload _ => origin payload = (model, tokens)
  | .stable model tokens payload => origin payload = (model, tokens)
  | .active model tokens payload _ => origin payload = (model, tokens)

theorem ExactRuntime.insertion (h : ExactRuntime R origin I sound) {insertion : Insertion N π}
    (hexact : insertion.Exact origin) : Exec.Keeps (Storing I) (insertion.perform R) := by
  cases insertion with
  | cache model tokens payload cacheType =>
    have hfits : origin payload = (model, tokens) := hexact
    exact (Exec.Keeps.ofExcept _).bind fun nbytes => h.storage.admitEntry hfits _ nbytes none
  | stable model tokens payload =>
    have hfits : origin payload = (model, tokens) := hexact
    exact (Exec.Keeps.ofExcept _).bind fun nbytes => h.storage.admitStableCandidate hfits nbytes
  | active model tokens payload predecessorTokens =>
    have hfits : origin payload = (model, tokens) := hexact
    exact (Exec.Keeps.ofExcept _).bind fun nbytes => h.storage.admitEntry hfits _ nbytes _

end Exactness

/-! ## Requests under way -/

section Runs

variable {I : σ → Prop}

/-- What the server relies on in the batch generator: the cache it extracts at the end of a
segment was computed for the row from a prefix of its prompt, and the one it ends with from
all the tokens it reports. -/
def Extracted (origin : π → CacheNamespace K × List ℤ) (g : ResponseGenerator K σ π) :
    BatchEvent K π → Prop
  | .endOfSegment uid cache cacheKey => ∀ row, g.batchResults.get? uid = some row →
    origin cache = (row.cacheNamespace, cacheKey) ∧ cacheKey <+: row.prompt
  | .finish uid (some allTokens) (some cache) => ∀ row, g.batchResults.get? uid = some row →
    origin cache = (row.cacheNamespace, allTokens)
  | _ => True

/-- The servers whose storage satisfies `I`. -/
abbrev Keeping (I : σ → Prop) (g : ResponseGenerator K σ π) : Prop := I g.promptCache.backend

theorem keeps_onPromptCache {m : Exec PyError (CacheCoordinator (CacheNamespace K) σ) α}
    (hm : Exec.Keeps (Storing I) m) :
    Exec.Keeps (Keeping I) (onPromptCache m : Exec PyError (ResponseGenerator K σ π) α) :=
  Exec.Triple.zoom fun g hg => hm g.promptCache hg

theorem keeps_modifyRow (uid : ℕ) (f : Row K π → Row K π) :
    Exec.Keeps (Keeping (σ := σ) I) (modifyRow uid f) := Exec.Keeps.modify fun _ hg => hg

/-- The row an event is about. -/
theorem getRow_bind_keeps {uid : ℕ} {f : Row K π → Exec PyError (ResponseGenerator K σ π) α}
    {g : ResponseGenerator K σ π} (hg : Keeping I g)
    (hf : ∀ row, g.batchResults.get? uid = some row → Exec.Keeps (Keeping I) (f row)) :
    Keeping I ((getRow uid >>= f) g).2 := by
  rcases hrow : g.batchResults.get? uid with _ | row
  · have hmissing : getRow uid g = (.error (.keyError (toString uid)), g) := by
      simp only [getRow, hrow]
    rw [Exec.bind_of_error hmissing]
    exact hg
  · have hfound : getRow uid g = (.ok row, g) := by simp only [getRow, hrow]
    rw [Exec.bind_of_ok hfound]
    exact (hf row hrow).state hg

variable [DecidableEq K] {R : Runtime (CacheNamespace K) σ π τ}
variable {origin : π → CacheNamespace K × List ℤ} {sound : CacheKey (CacheNamespace K) → τ → Prop}

theorem keeps_insertFor (h : ExactRuntime R origin I sound) (uid : ℕ)
    (insertion : Insertion (CacheNamespace K) π) (hexact : insertion.Exact origin) :
    Exec.Keeps (Keeping I) (insertFor R uid insertion) := by
  refine Exec.Keeps.bind ?_ fun saved =>
    (keeps_modifyRow uid _).bind fun _ => Exec.Keeps.pure saved
  exact (keeps_onPromptCache (h.insertion hexact)).tryExcept fun e =>
    (keeps_modifyRow uid _).bind fun _ => Exec.Keeps.raise e

theorem keeps_saveCold (h : ExactRuntime R origin I sound) (uid : ℕ) {row : Row K π} {cache : π}
    {cacheKey : List ℤ} (horigin : origin cache = (row.cacheNamespace, cacheKey))
    (cacheType : Role) : Exec.Keeps (Keeping I) (saveCold R uid row cache cacheKey cacheType) := by
  unfold saveCold
  split
  · refine Exec.Keeps.bind ?_ fun savedNow =>
      (keeps_modifyRow uid _).bind fun _ => Exec.Keeps.pure savedNow
    unfold saveFirst
    split
    · exact keeps_insertFor h uid (.stable _ _ _) horigin
    · exact (keeps_insertFor h uid (.cache _ _ _ _) horigin).bind
        fun _ => Exec.Keeps.pure true
  · exact Exec.Keeps.pure false

theorem keeps_saveTail (h : ExactRuntime R origin I sound) (uid : ℕ) {row : Row K π} {cache : π}
    {cacheKey : List ℤ} (horigin : origin cache = (row.cacheNamespace, cacheKey))
    (segmentTypes : List Role) (savedNow : Bool) :
    Exec.Keeps (Keeping I) (saveTail R uid row cache cacheKey segmentTypes savedNow) := by
  unfold saveTail
  split
  · exact (keeps_insertFor h uid (.active _ _ _ _) horigin).bind
      fun _ => Exec.Keeps.pure ()
  · exact Exec.Keeps.pure ()

theorem saveSegment_keeps (h : ExactRuntime R origin I sound) {uid : ℕ} {cache : π}
    {cacheKey : List ℤ} {g : ResponseGenerator K σ π} (hg : Keeping I g)
    (hextracted : Extracted origin g (.endOfSegment uid cache cacheKey)) :
    Keeping I (saveSegment R uid cache cacheKey g).2 := by
  refine getRow_bind_keeps hg fun row hrow => ?_
  have horigin := (hextracted row hrow).1
  cases row.segmentTypes with
  | nil => exact Exec.Keeps.pure ()
  | cons cacheType segmentTypes =>
    refine (keeps_modifyRow uid _).bind fun _ => ?_
    split
    · exact (keeps_insertFor h uid (.cache _ _ _ _) horigin).bind
        fun _ => Exec.Keeps.pure ()
    · exact (keeps_saveCold h uid horigin cacheType).bind
        fun savedNow => keeps_saveTail h uid horigin segmentTypes savedNow

theorem finishRequest_keeps (h : ExactRuntime R origin I sound) {uid : ℕ}
    {allTokens : Option (List ℤ)} {promptCache : Option π} {g : ResponseGenerator K σ π}
    (hg : Keeping I g) (hextracted : Extracted origin g (.finish uid allTokens promptCache)) :
    Keeping I (finishRequest R uid allTokens promptCache g).2 := by
  refine getRow_bind_keeps hg fun row hrow => ?_
  cases promptCache with
  | none => exact Exec.Keeps.raise _
  | some cache =>
    cases allTokens with
    | none => exact Exec.Keeps.raise _
    | some tokens =>
      have horigin : origin cache = (row.cacheNamespace, tokens) := hextracted row hrow
      refine Exec.Keeps.bind ?_ fun _ => Exec.Keeps.modify fun _ hg => hg
      unfold saveFinished
      split
      · exact (keeps_insertFor h uid (.cache _ _ _ _) horigin).bind
          fun _ => Exec.Keeps.pure ()
      · exact Exec.Keeps.pure ()

/-- The start of a request, and the row it leaves. -/
theorem startRequest_served (h : ExactRuntime R origin I sound) (uid : ℕ) (modelKey : K)
    (requestedNamespace : Json) (prompt : List ℤ) (segmentTypes : List Role) :
    Exec.Triple (Keeping I)
      (startRequest R uid modelKey requestedNamespace prompt segmentTypes)
      (fun found g => (∃ cacheNamespace,
        statebraidCacheNamespace modelKey requestedNamespace = .ok cacheNamespace ∧
        (Served origin cacheNamespace prompt found ∧ (prompt ≠ [] → found.2 ≠ [])) ∧
        g.batchResults.get? uid = some ⟨cacheNamespace, prompt, prompt.length - found.2.length,
          segmentTypes, false, [], []⟩) ∧ Keeping I g)
      (fun _ => Keeping I) := by
  refine Exec.Triple.bind ((Exec.Triple.ofExcept _).weaken (fun _ hg => hg) (fun _ _ hg => hg)
    (fun _ _ hg => hg.2)) fun cacheNamespace => ?_
  intro g ⟨hnamespace, hg⟩
  refine Exec.Triple.bind (S := fun found g => (Served origin cacheNamespace prompt found ∧
    (prompt ≠ [] → found.2 ≠ [])) ∧ Keeping I g) ?_ (fun found => ?_) g hg
  · exact Exec.Triple.zoom fun g hg => request_served h cacheNamespace prompt g.promptCache hg
  · intro g' hg'
    exact ⟨⟨cacheNamespace, hnamespace, hg'.1, by simp⟩, hg'.2⟩

theorem stepBatch_keeps (h : ExactRuntime R origin I sound) {g : ResponseGenerator K σ π}
    {event : BatchEvent K π} (hg : Keeping I g) (hextracted : Extracted origin g event) :
    Keeping I (stepBatch R g event) := by
  cases event with
  | start uid modelKey requestedNamespace prompt segmentTypes =>
    exact Exec.Keeps.state ((startRequest_served h uid modelKey requestedNamespace prompt
      segmentTypes).weaken (fun _ hg => hg) (fun _ _ hg => hg.2) (fun _ _ hg => hg)) hg
  | endOfSegment uid cache cacheKey => exact saveSegment_keeps h hg hextracted
  | finish uid allTokens promptCache => exact finishRequest_keeps h hg hextracted
  | trimTo nSequences nBytes => exact (keeps_onPromptCache (h.storage.trimTo _ _)).state hg

/-- The runs of a server whose batch generator extracts what it was asked for. -/
abbrev Serving (R : Runtime (CacheNamespace K) σ π τ) (origin : π → CacheNamespace K × List ℤ)
    (config : PolicyConfig) (b : σ) : ResponseGenerator K σ π → Prop :=
  Run (stepBatch R) (Extracted origin) (.new config b)

/-- However the requests under way interleave, and whichever calls of the storage raise: a
request is handed a cache that was computed for its own model and trust domain from exactly the
tokens its remainder leaves out, at least one token is left to feed, and its row counts the
tokens it was spared. -/
theorem request_served_exactly (h : ExactRuntime R origin I sound) {config : PolicyConfig} {b : σ}
    (hb : I b) {g g' : ResponseGenerator K σ π} (hrun : Serving R origin config b g) (uid : ℕ)
    (modelKey : K) (requestedNamespace : Json) (prompt : List ℤ) (segmentTypes : List Role)
    {cache : Option π} {rest : List ℤ}
    (hstart : startRequest R uid modelKey requestedNamespace prompt segmentTypes g =
      (.ok (cache, rest), g')) :
    ∃ domain, validateDomain (requestedDomain requestedNamespace) = .ok domain ∧
      covered (fun cache => (origin cache).2) cache ++ rest = prompt ∧
      (prompt ≠ [] → rest ≠ []) ∧
      (∀ payload, cache = some payload → (origin payload).1 = ⟨modelKey, domain⟩) ∧
      g'.batchResults.get? uid = some ⟨⟨modelKey, domain⟩, prompt,
        (covered (fun cache => (origin cache).2) cache).length, segmentTypes, false, [], []⟩ := by
  have hg : Keeping I g := hrun.invariant hb fun _ _ hg hextracted =>
    stepBatch_keeps h hg hextracted
  obtain ⟨⟨cacheNamespace, hnamespace, ⟨hserved, hleft⟩, hrow⟩, -⟩ :=
    (startRequest_served h uid modelKey requestedNamespace prompt segmentTypes).ok hg hstart
  unfold statebraidCacheNamespace makeCacheNamespace at hnamespace
  cases hdomain : validateDomain (requestedDomain requestedNamespace) with
  | error e =>
    rw [hdomain] at hnamespace
    cases hnamespace
  | ok domain =>
    rw [hdomain] at hnamespace
    cases hnamespace
    have hexact : covered (fun cache => (origin cache).2) cache ++ rest = prompt := hserved.exact
    refine ⟨domain, rfl, hexact, hleft, hserved.isolated, ?_⟩
    have hcount : (covered (fun cache => (origin cache).2) cache).length =
        prompt.length - rest.length := by
      rw [← hexact, List.length_append, Nat.add_sub_cancel]
    rw [hrow, hcount]

end Runs

namespace Sample

/-- A cache that says what it was computed from, and whether it can be trimmed. -/
abbrev Traced (K : Type) := (CacheNamespace K × List ℤ) × Bool

variable [DecidableEq K]

/-- The coordinator's map with a nearest-prefix lookup, over traced caches. -/
def tracedRuntime : Runtime (CacheNamespace K) (FaultyMap (CacheNamespace K) (Traced K)) (Traced K)
    (Traced K × Role) where
  capture model tokens := FaultyMap.backend.capture ⟨model, tokens⟩
  restore model tokens := FaultyMap.backend.restore ⟨model, tokens⟩
  remove model tokens := FaultyMap.backend.remove ⟨model, tokens⟩
  insert model tokens := FaultyMap.backend.insert ⟨model, tokens⟩
  fetchNearestCache model query := Exec.gets fun s =>
    match longestPrefix? (fun word => (s.values ⟨model, word⟩).isSome) query query.length with
    | some word => ((s.values ⟨model, word⟩).map Prod.fst, query.drop word.length)
    | none => (none, query)
  entryBytes _ := some [1]
  canTrimPromptCache := Prod.snd
  trimPromptCache cache _ := ((cache.1.1, cache.1.2.dropLast), cache.2)

/-- A cache stored under a key was computed from it. -/
def Stored (key : CacheKey (CacheNamespace K)) (value : Traced K × Role) : Prop :=
  value.1.1 = (key.cacheNamespace, key.tokens)

def AllStored (s : FaultyMap (CacheNamespace K) (Traced K)) : Prop :=
  ∀ key value, s.values key = some value → Stored key value

theorem allStored_assign {s : FaultyMap (CacheNamespace K) (Traced K)} (hs : AllStored s)
    {key : CacheKey (CacheNamespace K)} {value : Option (Traced K × Role)}
    (hvalue : ∀ v, value = some v → Stored key v) : AllStored (s.assign key value) := by
  intro k v hk
  simp only [FaultyMap.assign] at hk
  split_ifs at hk with hkey
  · exact hkey ▸ hvalue v hk
  · exact hs k v hk

theorem keeps_call (m : MapCall (CacheNamespace K)) {key : CacheKey (CacheNamespace K)}
    {value : Option (Traced K × Role)} (hvalue : ∀ v, value = some v → Stored key v) :
    Exec.Keeps AllStored (FaultyMap.call m key value) := by
  refine Exec.Keeps.of_state fun s hs => ?_
  unfold FaultyMap.call
  dsimp only
  split
  · exact allStored_assign hs hvalue
  · exact allStored_assign hs hvalue
  · exact hs
  · exact allStored_assign hs hvalue

theorem tracedRuntime_exact : ExactRuntime (tracedRuntime (K := K)) Prod.fst AllStored Stored where
  storage :=
    { capture := fun key s hs => ⟨fun value hvalue => hs key value hvalue, hs⟩
      restore := fun key value hvalue => Exec.Keeps.modify fun s hs =>
        allStored_assign hs fun v hv => by cases hv; exact hvalue
      remove := fun key => keeps_call _ fun v hv => by cases hv
      insert := fun key payload role hfits => keeps_call _ fun v hv => by cases hv; exact hfits
      forget := fun key => keeps_call _ fun v hv => by cases hv }
  lookup model query s hs := by
    refine ⟨fun payload hpayload => ?_, hs⟩
    cases hsearch : longestPrefix? (fun word => (s.values ⟨model, word⟩).isSome) query
      query.length with
    | none => simp [hsearch] at hpayload
    | some word =>
      have hword := isLongestPrefix_of_search hsearch
      simp only [hsearch, Option.map_eq_some_iff] at hpayload ⊢
      obtain ⟨value, hvalue, rfl⟩ := hpayload
      have hstored : value.1.1 = (model, word) := hs ⟨model, word⟩ value hvalue
      have hlength : query.length - (query.drop word.length).length = word.length := by
        have hle := hword.isPrefix.length_le
        rw [List.length_drop]
        omega
      rw [hstored, hlength, hword.take_length]
  trims _ _ := rfl

/-- A cache of `[1, 2]` for one tenant, which cannot be trimmed. -/
def tenantCache : Traced String := ((⟨"m", "tenant-a"⟩, [1, 2]), false)

/-- The tenant's first request has come to the end of its only segment. -/
def warm : ResponseGenerator String (FaultyMap (CacheNamespace String) (Traced String))
    (Traced String) :=
  stepBatch tracedRuntime
    (stepBatch tracedRuntime (.new config .empty)
      (.start 0 "m" (.str "tenant-a") [1, 2, 3] ["active"]))
    (.endOfSegment 0 tenantCache [1, 2])

theorem started_row : (stepBatch tracedRuntime (.new config .empty)
    (.start 0 "m" (.str "tenant-a") [1, 2, 3] ["active"])).batchResults.get? 0 =
      some ⟨⟨"m", "tenant-a"⟩, [1, 2, 3], 0, ["active"], false, [], []⟩ := rfl

theorem warm_serving : Serving tracedRuntime Prod.fst config .empty warm := by
  refine (Run.start.next trivial).next fun row hrow => ?_
  rw [started_row] at hrow
  cases hrow
  exact ⟨rfl, by decide⟩

end Sample

/-- The tenant's next request is served its cache and replays one token. -/
theorem tenant_served_exactly :
    ∃ domain, validateDomain (requestedDomain (.str "tenant-a")) = .ok domain ∧
      covered (fun cache : Sample.Traced String => cache.1.2) (some Sample.tenantCache) ++ [3] =
        [1, 2, 3] ∧
      (([1, 2, 3] : List ℤ) ≠ [] → ([3] : List ℤ) ≠ []) ∧
      (∀ payload, some Sample.tenantCache = some payload → payload.1.1 = ⟨"m", domain⟩) ∧
      (startRequest Sample.tracedRuntime 1 "m" (.str "tenant-a") [1, 2, 3] ["active"]
        Sample.warm).2.batchResults.get? 1 = some ⟨⟨"m", domain⟩, [1, 2, 3],
          (covered (fun cache : Sample.Traced String => cache.1.2)
            (some Sample.tenantCache)).length, ["active"], false, [], []⟩ :=
  request_served_exactly Sample.tracedRuntime_exact (fun _ _ h => by cases h)
    Sample.warm_serving 1 "m" (.str "tenant-a") [1, 2, 3] ["active"] rfl

/-- Another tenant with the same prompt is served nothing. -/
example : (startRequest Sample.tracedRuntime 1 "m" (.str "tenant-b") [1, 2, 3] ["active"]
    Sample.warm).1 = .ok (none, [1, 2, 3]) := rfl

end StateBraid.Mlx
