import StateBraid.Coordinator.Operations
import StateBraid.Managed.Backend

/-!
# The managed prompt cache

`LlamaCppStateBraidPromptCache`: the policy, the registry and the server under one
facade. Its state is a coordinator whose backend is the whole world of the client, so
that a coordinator transaction and a request are steps on the same state.
-/
namespace StateBraid.Managed
open Library Policy Coordinator LlamaCpp

/-- The facade's state. -/
abbrev PromptCache := CacheCoordinator CacheNamespace World

/-- `LlamaCppManagedRestore`. -/
structure ManagedRestore where
  key : Key
  state : StateHandle
  candidateLcp : ℕ

/-- `CacheKey.from_tokens(self.namespace, tokens)`. -/
def cacheKey (A : Adapter) (tokens : List ℤ) : Key := ⟨A.cacheNamespace, tokens⟩

/-- `apply_remote_evictions`. -/
def applyRemoteEvictions (A : Adapter) (handles : List String) :
    Exec PyError PromptCache (List Key) := do
  let records ← Exec.gets (fun c => c.backend.records.items)
  let doomed := (records.filter (fun kv => kv.2.handle ∈ handles)).map Prod.fst
  if doomed = [] then pure []
  else do
    let removed ← Coordinator.forgetRemote (registry A) doomed
    let _ ← onBackend (flushDrops A)
    pure removed

/-- `if evicted: self.apply_remote_evictions(evicted)`. -/
def applyNotices (A : Adapter) (evicted : List String) : Exec PyError PromptCache Unit :=
  if evicted = [] then pure ()
  else do
    let _ ← applyRemoteEvictions A evicted
    pure ()

/-- The facade's `capture_current`. -/
def captureState (A : Adapter) (stateTokens : List ℤ) : Exec PyError PromptCache StateHandle := do
  let (state, evicted) ← onBackend (captureCurrent A (cacheKey A stateTokens))
  applyNotices A evicted
  pure state

/-- The `except` clause that both admissions share: an unbound state is queued. -/
def releaseUnbound (A : Adapter) (state : StateHandle) (e : PyError) :
    Exec PyError PromptCache Bool := do
  let bound ← Exec.gets (fun c => c.backend.bound)
  if state.handle ∉ bound then onBackend (discardUnbound A state)
  Exec.raise e

/-- The `finally` clause that mutations share. -/
def flushAfter (A : Adapter) : Exec PyError PromptCache Unit := do
  let _ ← onBackend (flushDrops A)
  pure ()

/-- `try … except … finally` around an admission: a rejected state is queued, one that an
exception left unbound too, and the queue is flushed in any case. -/
def guardedAdmission (A : Adapter) (state : StateHandle) (admission : Exec PyError PromptCache Bool) :
    Exec PyError PromptCache Bool :=
  Exec.tryFinally
    (Exec.tryExcept
      (do
        let accepted ← admission
        if accepted = false then onBackend (discardUnbound A state)
        pure accepted)
      (releaseUnbound A state))
    (flushAfter A)

/-- `admit_captured`. -/
def admitCaptured (A : Adapter) (stateTokens : List ℤ) (state : StateHandle) (role : Role)
    (predecessorTokens : Option (List ℤ)) : Exec PyError PromptCache Bool :=
  guardedAdmission A state
    (admitEntry (registry A) (cacheKey A stateTokens) state role state.nbytes
      (predecessorTokens.map (cacheKey A)))

/-- `capture_and_admit`. -/
def captureAndAdmit (A : Adapter) (stateTokens : List ℤ) (role : Role)
    (predecessorTokens : Option (List ℤ)) : Exec PyError PromptCache Bool := do
  let state ← captureState A stateTokens
  admitCaptured A stateTokens state role predecessorTokens

/-- The guarded body of `capture_stable_candidate`: notices first, then the admission. -/
def admitStable (A : Adapter) (key : Key) (state : StateHandle) (evicted : List String) :
    Exec PyError PromptCache Bool := do
  applyNotices A evicted
  admitStableCandidate (registry A) key state state.nbytes

/-- `capture_stable_candidate`. -/
def captureStableCandidate (A : Adapter) (stateTokens : List ℤ) : Exec PyError PromptCache Bool := do
  let key := cacheKey A stateTokens
  let (state, evicted) ← onBackend (captureCurrent A key)
  guardedAdmission A state (admitStable A key state evicted)

/-- `reconcile_orphans`. -/
def reconcileOrphans (A : Adapter) : Exec PyError PromptCache (List String) :=
  onBackend (reconcileOrphanedHandles A)

/-- `_token_lcp`. -/
def tokenLcp : List ℤ → List ℤ → ℕ
  | a :: left, b :: right => if a = b then tokenLcp left right + 1 else 0
  | _, _ => 0

/-- A candidate of `prepare`: matched tokens, whether the whole key matched, the negated
size, and the key. -/
structure Candidate where
  matched : ℕ
  whole : Bool
  negBytes : ℤ
  key : Key

/-- The order of `item[:3]`. -/
def Candidate.lt (a b : Candidate) : Bool :=
  a.matched < b.matched ∨
    (a.matched = b.matched ∧ ((a.whole = false ∧ b.whole = true) ∨
      (a.whole = b.whole ∧ a.negBytes < b.negBytes)))

/-- `max(candidates, key=...)`: the first of the greatest candidates. -/
def bestCandidate : List Candidate → Option Candidate
  | [] => none
  | c :: cs => some (cs.foldl (fun best c => if best.lt c then c else best) c)

/-- The candidates of a prompt, in the order of the policy's entries. -/
def candidates (A : Adapter) (p : WorkingSetPolicy CacheNamespace) (prompt : List ℤ) :
    List Candidate :=
  p.entries.items.filterMap (fun kv =>
    if kv.1.cacheNamespace ≠ A.cacheNamespace then none
    else
      let matched := tokenLcp kv.1.tokens prompt
      if matched ≤ 0 then none
      else some ⟨matched, matched = kv.1.tokens.length, -kv.2.nbytes, kv.1⟩)

/-- `prepare`. -/
def Transport.prepare (T : Transport) (A : Adapter) (promptTokens : List ℤ) :
    Exec PyError PromptCache (Option ManagedRestore) :=
  if promptTokens = [] then
    Exec.raise (.valueError "managed llama.cpp prepare requires a non-empty prompt")
  else do
    let _ ← onBackend (T.clearLiveSlot A)
    let policy ← Exec.gets CacheCoordinator.policy
    match bestCandidate (candidates A policy promptTokens) with
    | none => pure none
    | some best => do
      let state ← onBackend (T.restoreLive A best.key)
      pure (some ⟨best.key, state, tokenLcp best.key.tokens promptTokens⟩)

/-- `prepare`, before the modelled server. -/
abbrev prepare (A : Adapter) (promptTokens : List ℤ) :
    Exec PyError PromptCache (Option ManagedRestore) :=
  Transport.modelled.prepare A promptTokens

/-- `lookup`, called with the facade's own namespace or refused. -/
def Transport.lookup (T : Transport) (A : Adapter) (namespaceArg : CacheNamespace)
    (tokens : List ℤ) : Exec PyError PromptCache (LookupObservation CacheNamespace ReuseHandle) :=
  if namespaceArg ≠ A.cacheNamespace then
    Exec.raise (.unsupportedBackendCapability
      "managed llama.cpp facade is bound to one local-default namespace")
  else if tokens = [] then
    Exec.raise (.valueError "managed llama.cpp lookup requires a non-empty prompt")
  else do
    let prepared ← T.prepare A tokens
    let observation ← onBackend (T.lookupAfterPolicy A tokens)
    match prepared with
    | none =>
      if observation.matchedTokens ≠ 0 then
        Exec.raise (.runtimeError ("llama.cpp reported cache reuse after StateBraid selected no " ++
          "resident handle; hidden live-slot/cache reuse detected"))
      else pure observation
    | some prepared =>
      if observation.matchedTokens > prepared.candidateLcp then
        Exec.raise (.runtimeError ("llama.cpp reported reuse beyond the StateBraid-selected " ++
          "exact-token LCP: observed=" ++ toString observation.matchedTokens ++
          ", selected_lcp=" ++ toString prepared.candidateLcp))
      else do
        if observation.matchedTokens > 0 then do
          let _ ← Coordinator.observeHit prepared.key
        pure observation

/-- `lookup`, before the modelled server. -/
abbrev lookup (A : Adapter) (namespaceArg : CacheNamespace) (tokens : List ℤ) :
    Exec PyError PromptCache (LookupObservation CacheNamespace ReuseHandle) :=
  Transport.modelled.lookup A namespaceArg tokens

/-- `generation_safe_exact`. -/
def generationSafeExact (A : Adapter) (namespaceArg : CacheNamespace) (tokens : List ℤ) :
    Exec PyError PromptCache (LookupObservation CacheNamespace ReuseHandle) := do
  let observation ← lookup A namespaceArg tokens
  if observation.remaining = [] then
    Exec.raise (.valueError "llama.cpp managed exact reuse exposed an empty generation input")
  else pure observation

/-- The facade's `trim_to`. -/
def trimCache (A : Adapter) (nSequences nBytes : Option ℤ) : Exec PyError PromptCache Bool :=
  Exec.tryFinally (trimTo (registry A) nSequences nBytes) (flushAfter A)

/-- `__init__` over an empty store: a fresh policy and an empty registry. -/
def openCache (config : PolicyConfig) (server : Server) : PromptCache :=
  ⟨.new config, ⟨server, [], [], .empty, .empty, []⟩⟩

end StateBraid.Managed
