import StateBraid.Coordinator.Transaction
import StateBraid.Managed.Adapter

/-!
# The managed storage backend

`LlamaCppManagedStorageBackend`: bindings of keys to server handles. The calls of a
coordinator transaction only touch the registry; handles that lose their binding are
queued in `pendingDrops` and dropped from the server afterwards.
-/
namespace StateBraid.Managed
open Library Policy Coordinator LlamaCpp

/-- `_require_key`. -/
def requireKey (A : Adapter) (key : Key) : Except PyError Unit :=
  if key.cacheNamespace ≠ A.cacheNamespace then
    .error (.unsupportedBackendCapability
      "managed llama.cpp storage is bound to one local-default namespace")
  else .ok ()

/-- `_require_state`. -/
def requireState (A : Adapter) (key : Key) (state : StateHandle) : Except PyError Unit := do
  requireKey A key
  stateBinding A state
  if (key.tokens.length : ℤ) ≠ state.nTokens then
    .error (.valueError "managed llama.cpp state token count does not match CacheKey identity")
  else .ok ()

namespace World

/-- `self.records[key] = state` followed by `self._pending_drops.pop(state.handle, None)`. -/
def bind (w : World) (key : Key) (state : StateHandle) : World :=
  { w with
    records := w.records.insert key state
    pendingDrops := w.pendingDrops.erase state.handle }

/-- `self.records.pop(key, None)`, with the unbound handle queued for a drop. -/
def unbind (w : World) (key : Key) : World :=
  match w.records.get? key with
  | none => w
  | some state =>
    { w with
      records := w.records.erase key
      pendingDrops := w.pendingDrops.insert state.handle state }

/-- `self.records.pop(key, None)` alone. -/
def forget (w : World) (key : Key) : World := { w with records := w.records.erase key }

/-- `self._pending_drops[state.handle] = state`. -/
def queueDrop (w : World) (state : StateHandle) : World :=
  { w with pendingDrops := w.pendingDrops.insert state.handle state }

/-- `self._pending_drops.pop(handle, None)`. -/
def unqueue (w : World) (handle : String) : World :=
  { w with pendingDrops := w.pendingDrops.erase handle }

end World

/-- The four calls of the mutation contract and `forget_remote`. Payloads and snapshots
are typed, so the two `isinstance` checks are not needed. -/
def registry (A : Adapter) : TransactionalBackend CacheNamespace World StateHandle StateHandle where
  capture key := do
    Exec.ofExcept (requireKey A key)
    Exec.gets (fun w => w.records.get? key)
  restore key snapshot := do
    Exec.ofExcept (requireState A key snapshot)
    Exec.modify (fun w => w.bind key snapshot)
  remove key := do
    Exec.ofExcept (requireKey A key)
    Exec.modify (fun w => w.unbind key)
  insert key payload _ := do
    Exec.ofExcept (requireState A key payload)
    Exec.modify (fun w => w.bind key payload)
  forgetRemote := some fun key => do
    Exec.ofExcept (requireKey A key)
    Exec.modify (fun w => w.forget key)

/-- One handle of `flush_drops`: a referenced one is unqueued, any other is dropped first. -/
def flushDrop (A : Adapter) (referenced : List String) (dropped : ℕ)
    (item : String × StateHandle) : Exec PyError World ℕ :=
  if item.1 ∈ referenced then do
    Exec.modify (fun w => w.unqueue item.1)
    pure dropped
  else do
    dropState A item.2
    Exec.modify (fun w => w.unqueue item.1)
    pure (dropped + 1)

/-- `flush_drops`. -/
def flushDrops (A : Adapter) : Exec PyError World ℕ := do
  let referenced ← Exec.gets World.bound
  let items ← Exec.gets (fun w => w.pendingDrops.items)
  Exec.foldEach (flushDrop A referenced) 0 items

/-- The handle of a store row that the registry does not know, with its accounting. -/
def orphanOf (A : Adapter) (known : List String) (item : Json) : Option StateHandle :=
  if item.isObject then
    match (item.get "handle").asStr?, (item.get "n_tokens").asInt?, (item.get "n_bytes").asInt? with
    | some handle, some nTokens, some nbytes =>
      if handle ∈ known then none
      else some ⟨A.backendIdentity, A.managedEpoch, handle, A.idSlot, nTokens, nbytes⟩
    | _, _, _ => none
  else none

/-- `reconcile_orphaned_handles`. The two notes mark the pass in the run's history. -/
def reconcileOrphanedHandles (A : Adapter) : Exec PyError World (List String) := do
  let store ← managedStore A
  let known ← Exec.gets (fun w => w.bound ++ w.pending)
  Exec.modify (fun w => w.note (.orphansListed w.server w.bound w.pending))
  let orphans := ((storeRows store).getD []).filterMap (orphanOf A known)
  Exec.forEach orphans (dropState A)
  Exec.modify (fun w => w.note .reconcileCompleted)
  pure (orphans.map StateHandle.handle)

/-- `capture_current` over a flushed queue: when the capture fails, orphans are reconciled
on a best-effort basis and the original error is raised again. -/
def captureFlushed (A : Adapter) (key : Key) : Exec PyError World (StateHandle × List String) := do
  let (state, evicted) ← Exec.tryExcept (captureCurrentState A key.tokens) (fun e => do
    Exec.tryExcept
      (do
        let _ ← reconcileOrphanedHandles A
        pure ())
      (fun _ => pure ())
    Exec.raise e)
  Exec.tryExcept (Exec.ofExcept (requireState A key state)) (fun e => do
    dropState A state
    Exec.raise e)
  pure (state, evicted)

/-- `capture_current`: pending drops are flushed first. -/
def captureCurrent (A : Adapter) (key : Key) : Exec PyError World (StateHandle × List String) := do
  Exec.ofExcept (requireKey A key)
  let pending ← Exec.gets (fun w => w.pendingDrops.items)
  if pending ≠ [] then do
    let _ ← flushDrops A
  captureFlushed A key

/-- `restore_live`. -/
def Transport.restoreLive (T : Transport) (A : Adapter) (key : Key) :
    Exec PyError World StateHandle := do
  Exec.ofExcept (requireKey A key)
  let state? ← Exec.gets (fun w => w.records.get? key)
  match state? with
  | none => Exec.raise (.keyError "managed llama.cpp CacheKey is not resident")
  | some state => do
    T.restoreState A state
    pure state

/-- `restore_live`, before the modelled server. -/
abbrev restoreLive (A : Adapter) (key : Key) : Exec PyError World StateHandle :=
  Transport.modelled.restoreLive A key

/-- `discard_unbound`. -/
def discardUnbound (A : Adapter) (state : StateHandle) : Exec PyError World Unit := do
  Exec.ofExcept (stateBinding A state)
  Exec.modify (fun w => w.queueDrop state)

end StateBraid.Managed
