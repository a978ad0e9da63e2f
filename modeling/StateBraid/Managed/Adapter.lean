import StateBraid.LlamaCpp.Reference
import StateBraid.Managed.Transport

/-!
# The managed HTTP adapter

`LlamaCppManagedHTTPAdapter`: one method for each managed request, with every check it
makes on the response. An adapter is pinned to the epoch it was constructed in. The methods
that a lookup consists of are written over any transport.
-/
namespace StateBraid.Managed
open Library Policy LlamaCpp

/-- The fields of a constructed adapter. The constructor accepts only a slot that the
server lists, whose ids are 32-bit, and only a non-empty epoch. -/
structure Adapter where
  backendIdentity : String
  idSlot : ℕ
  managedEpoch : String
  idSlot_lt : idSlot < 2 ^ 31
  epoch_ne : managedEpoch ≠ ""
  deriving DecidableEq

/-- `adapter.namespace`. -/
def Adapter.cacheNamespace (A : Adapter) : CacheNamespace :=
  LlamaCpp.cacheNamespace A.backendIdentity

/-- A non-negative integer field of the store's reply. -/
def storeCount (payload : Json) (name : String) : Except PyError ℤ :=
  match (payload.get name).asInt? with
  | some n =>
    if n < 0 then .error (.valueError ("llama.cpp managed cache returned invalid " ++ name))
    else .ok n
  | none => .error (.valueError ("llama.cpp managed cache returned invalid " ++ name))

/-- The loop over the store's handle rows: the handles seen and the two sums. -/
def checkRows : List Json → List String → ℤ → ℤ → Except PyError (ℤ × ℤ)
  | [], _, tokenSum, byteSum => .ok (tokenSum, byteSum)
  | item :: items, seen, tokenSum, byteSum =>
    if ¬ item.isObject then
      .error (.valueError "llama.cpp managed cache handle entry must be an object")
    else
      match (item.get "handle").asStr? with
      | none => .error (.valueError "llama.cpp managed cache returned invalid/duplicate handle")
      | some handle =>
        if handle = "" ∨ handle ∈ seen then
          .error (.valueError "llama.cpp managed cache returned invalid/duplicate handle")
        else
          match (item.get "n_tokens").asInt?, (item.get "n_bytes").asInt? with
          | none, _ => .error (.valueError "llama.cpp managed cache handle has invalid n_tokens")
          | some nTokens, nBytes? =>
            if nTokens ≤ 0 then
              .error (.valueError "llama.cpp managed cache handle has invalid n_tokens")
            else
              match nBytes? with
              | none => .error (.valueError "llama.cpp managed cache handle has invalid n_bytes")
              | some nBytes =>
                if nBytes ≤ 0 then
                  .error (.valueError "llama.cpp managed cache handle has invalid n_bytes")
                else checkRows items (handle :: seen) (tokenSum + nTokens) (byteSum + nBytes)

/-- The rows of a store reply. -/
def storeRows (payload : Json) : Option (List Json) :=
  match payload.get "handles" with
  | .arr items => some items
  | _ => none

/-- The checks of `_read_store` after the epoch. -/
def checkStore (payload : Json) : Except PyError Unit :=
  match storeCount payload "n_handles" with
  | .error e => .error e
  | .ok nHandles =>
    match storeCount payload "n_tokens" with
    | .error e => .error e
    | .ok nTokens =>
      match storeCount payload "n_bytes" with
      | .error e => .error e
      | .ok nBytes =>
        match storeRows payload with
        | none => .error (.valueError "llama.cpp managed cache returned invalid handles")
        | some items =>
          match checkRows items [] 0 0 with
          | .error e => .error e
          | .ok (tokenSum, byteSum) =>
            if nHandles ≠ items.length then
              .error (.valueError "llama.cpp managed cache n_handles does not match handles")
            else if nTokens ≠ tokenSum ∨ nBytes ≠ byteSum then
              .error (.valueError
                "llama.cpp managed cache aggregate accounting is inconsistent")
            else .ok ()

/-- `_read_store`, with the epoch it compares with when it is to compare one. -/
def readStore (pinned : Option String) : Exec PyError World Json := do
  let payload ← exchange .list
  if ¬ payload.isObject ∨ ¬ (payload.get "enabled").isTrue then
    Exec.raise (.unsupportedBackendCapability
      "llama.cpp managed cache endpoint is unavailable or disabled")
  else
    match (payload.get "epoch").asStr? with
    | none => Exec.raise (.valueError "llama.cpp managed cache returned an invalid epoch")
    | some epoch =>
      if epoch = "" then
        Exec.raise (.valueError "llama.cpp managed cache returned an invalid epoch")
      else if pinned.any (epoch ≠ ·) then
        Exec.raise (.unsupportedBackendCapability
          "llama.cpp managed-cache epoch changed; stale handles are invalid")
      else do
        Exec.ofExcept (checkStore payload)
        pure payload

/-- `managed_store`. -/
abbrev managedStore (A : Adapter) : Exec PyError World Json := readStore (some A.managedEpoch)

/-- `_post_managed`. -/
def Transport.postManaged (T : Transport) (A : Adapter) (request : Request) :
    Exec PyError World Json := do
  let response ← T.send request
  if ¬ response.isObject then
    Exec.raise (.valueError "llama.cpp managed cache response must be an object")
  else if ¬ (response.get "success").isTrue then
    Exec.raise (.valueError "llama.cpp managed cache mutation did not report success")
  else if ¬ (response.get "epoch").eqStr A.managedEpoch then
    Exec.raise (.unsupportedBackendCapability
      "llama.cpp managed-cache mutation returned a stale/different epoch")
  else pure response

/-- `_post_managed`, before the modelled server. -/
abbrev postManaged (A : Adapter) (request : Request) : Exec PyError World Json :=
  Transport.modelled.postManaged A request

/-- `clear_live_slot`. -/
def Transport.clearLiveSlot (T : Transport) (A : Adapter) : Exec PyError World ℤ := do
  let response ← T.postManaged A (.clear A.managedEpoch A.idSlot)
  if ¬ (response.get "id_slot").eqInt A.idSlot then
    Exec.raise (.valueError "llama.cpp managed clear returned a different slot")
  else
    match (response.get "n_cleared").asInt? with
    | none => Exec.raise (.valueError "llama.cpp managed clear returned invalid n_cleared")
    | some nCleared =>
      if nCleared < 0 then
        Exec.raise (.valueError "llama.cpp managed clear returned invalid n_cleared")
      else pure nCleared

/-- `clear_live_slot`, before the modelled server. -/
abbrev clearLiveSlot (A : Adapter) : Exec PyError World ℤ :=
  Transport.modelled.clearLiveSlot A

/-- `_require_state_binding`. -/
def stateBinding (A : Adapter) (state : StateHandle) : Except PyError Unit :=
  if state.backendIdentity ≠ A.backendIdentity then
    .error (.valueError "managed handle belongs to a different llama.cpp backend")
  else if state.epoch ≠ A.managedEpoch then
    .error (.unsupportedBackendCapability "managed handle belongs to a stale epoch")
  else if state.idSlot ≠ A.idSlot then
    .error (.valueError "managed handle belongs to a different llama.cpp slot")
  else .ok ()

/-- `restore_state`. -/
def Transport.restoreState (T : Transport) (A : Adapter) (state : StateHandle) :
    Exec PyError World Unit := do
  Exec.ofExcept (stateBinding A state)
  let response ← T.postManaged A (.restore A.managedEpoch A.idSlot state.handle)
  if ¬ (response.get "handle").eqStr state.handle ∨ ¬ (response.get "id_slot").eqInt A.idSlot then
    Exec.raise (.valueError "llama.cpp managed restore returned a different handle/slot")
  else if ¬ (response.get "n_tokens").eqInt state.nTokens ∨
      ¬ (response.get "n_bytes").eqInt state.nbytes then
    Exec.raise (.valueError "llama.cpp managed restore changed state accounting")
  else pure ()

/-- `restore_state`, before the modelled server. -/
abbrev restoreState (A : Adapter) (state : StateHandle) : Exec PyError World Unit :=
  Transport.modelled.restoreState A state

/-- Whether the store's reply lists a handle. -/
def storeLists (store : Json) (handle : String) : Bool :=
  ((storeRows store).getD []).any (fun item => item.isObject && (item.get "handle").eqStr handle)

/-- `drop_state`: when the request fails the store is read again, and a handle it does
not list counts as dropped. -/
def dropState (A : Adapter) (state : StateHandle) : Exec PyError World Unit := do
  Exec.ofExcept (stateBinding A state)
  let response ← Exec.tryExcept
    (do
      let response ← postManaged A (.drop A.managedEpoch state.handle)
      pure (some response))
    (fun e => do
      let store ← managedStore A
      if storeLists store state.handle then Exec.raise e else pure none)
  match response with
  | none => pure ()
  | some response =>
    if ¬ (response.get "handle").eqStr state.handle then
      Exec.raise (.valueError "llama.cpp managed drop returned a different handle")
    else if ¬ (response.get "n_tokens").eqInt state.nTokens ∨
        ¬ (response.get "n_bytes").eqInt state.nbytes then
      Exec.raise (.valueError "llama.cpp managed drop changed state accounting")
    else pure ()

/-- The checks on the tokens of a capture. -/
def captureTokens (expectedTokens : List ℤ) : Except PyError Unit :=
  if expectedTokens.any (fun token => token < -2 ^ 31 ∨ token > 2 ^ 31 - 1) then
    .error (.valueError "llama.cpp managed capture token is out of int32 range")
  else if expectedTokens = [] then
    .error (.valueError "llama.cpp managed capture requires non-empty expected tokens")
  else .ok ()

/-- `response.get("evicted", [])`, when it is a list of non-empty strings. -/
def evictedNames (response : Json) : Option (List String) :=
  match response.getD "evicted" (.arr []) with
  | .arr items => items.mapM (fun item => item.asStr?.filter (· ≠ ""))
  | _ => none

/-- The handle and the evicted names of a capture's response. -/
def parseCapture (A : Adapter) (response : Json) :
    Except PyError (StateHandle × List String) :=
  if ¬ (response.get "id_slot").eqInt A.idSlot then
    .error (.valueError "llama.cpp managed capture returned a different slot")
  else
    match (response.get "handle").asStr? with
    | none => .error (.valueError "llama.cpp managed capture returned an invalid handle")
    | some handle =>
      if handle = "" then
        .error (.valueError "llama.cpp managed capture returned an invalid handle")
      else
        match (response.get "n_tokens").asInt? with
        | none => .error (.valueError "llama.cpp managed capture returned invalid n_tokens")
        | some nTokens =>
          if nTokens ≤ 0 then
            .error (.valueError "llama.cpp managed capture returned invalid n_tokens")
          else
            match (response.get "n_bytes").asInt? with
            | none => .error (.valueError "llama.cpp managed capture returned invalid n_bytes")
            | some nbytes =>
              if nbytes ≤ 0 then
                .error (.valueError "llama.cpp managed capture returned invalid n_bytes")
              else
                match evictedNames response with
                | none =>
                  .error (.valueError
                    "llama.cpp managed capture returned an invalid evicted list")
                | some evicted =>
                  .ok (⟨A.backendIdentity, A.managedEpoch, handle, A.idSlot, nTokens, nbytes⟩,
                    evicted)

/-- `capture_current_state`. A state of another length is retired before failing. -/
def captureCurrentState (A : Adapter) (expectedTokens : List ℤ) :
    Exec PyError World (StateHandle × List String) := do
  Exec.ofExcept (captureTokens expectedTokens)
  let response ← postManaged A (.capture A.managedEpoch A.idSlot expectedTokens)
  let (state, evicted) ← Exec.ofExcept (parseCapture A response)
  if state.nTokens ≠ expectedTokens.length then do
    dropState A state
    Exec.raise (.valueError
      "llama.cpp managed capture token count does not match expected tokens")
  else pure (state, evicted)

/-- `_require_reference_source` of the managed adapter: the number of slots. -/
def Transport.requireReferenceSource (T : Transport) : Exec PyError World ℤ := do
  let props ← T.send .props
  if ¬ props.isObject then
    Exec.raise (.unsupportedBackendCapability ("llama.cpp /props did not return an object; " ++
      "managed source qualification cannot be established"))
  else if ¬ (props.get "build_info").asStr?.any managedReferenceSourceMatch then
    Exec.raise (.unsupportedBackendCapability
      ("running llama.cpp source is not the audited managed M1 reference: expected " ++
        managedReferenceSha ++ ", found " ++
        (((props.get "build_info").asStr?.bind sourceCommit).getD "unknown")))
  else
    match (props.get "total_slots").asInt? with
    | some totalSlots =>
      if totalSlots ≤ 0 then
        Exec.raise (.unsupportedBackendCapability
          "llama.cpp /props lacks a positive integer total_slots")
      else pure totalSlots
    | none =>
      Exec.raise (.unsupportedBackendCapability
        "llama.cpp /props lacks a positive integer total_slots")

/-- `_require_reference_source`, before the modelled server. -/
abbrev requireReferenceSource : Exec PyError World ℤ := Transport.modelled.requireReferenceSource

/-- `slots`. -/
def Transport.readSlots (T : Transport) : Exec PyError World (List Json) := do
  let payload ← T.send .slots
  match payload with
  | .arr items =>
    if items.all Json.isObject then pure items
    else Exec.raise (.valueError "llama.cpp /slots did not return a slot list")
  | _ => Exec.raise (.valueError "llama.cpp /slots did not return a slot list")

/-- `slots`, before the modelled server. -/
abbrev readSlots : Exec PyError World (List Json) := Transport.modelled.readSlots

/-- `_require_exact_slot`. -/
def Transport.requireExactSlot (T : Transport) (idSlot totalSlots : ℤ) :
    Exec PyError World Unit := do
  let slots ← T.readSlots
  let slotIds := (slots.filterMap (fun item => (item.get "id").asInt?)).toFinset
  if slotIds.card ≠ slots.length ∨ slotIds.card ≠ totalSlots then
    Exec.raise (.unsupportedBackendCapability
      "llama.cpp /props total_slots does not match the valid /slots entries")
  else if idSlot ∉ slotIds then
    Exec.raise (.valueError ("llama.cpp id_slot " ++ toString idSlot ++
      " is not present in /slots; refusing upstream modulo slot wrapping"))
  else pure ()

/-- `_require_exact_slot`, before the modelled server. -/
abbrev requireExactSlot (A : Adapter) (totalSlots : ℤ) : Exec PyError World Unit :=
  Transport.modelled.requireExactSlot A.idSlot totalSlots

/-- `_lookup_after_policy`: the bounded completion probe of the stock adapter, called
with the adapter's own namespace. -/
def Transport.lookupAfterPolicy (T : Transport) (A : Adapter) (tokens : List ℤ) :
    Exec PyError World (LookupObservation CacheNamespace ReuseHandle) := do
  let totalSlots ← T.requireReferenceSource
  T.requireExactSlot A.idSlot totalSlots
  if tokens = [] then
    Exec.raise (.valueError "llama.cpp reuse observation requires a non-empty prompt")
  else do
    let response ← T.send (.completion tokens A.idSlot)
    if ¬ response.isObject then
      Exec.raise (.valueError "llama.cpp /completion did not return an object")
    else Exec.ofExcept (normalizeReuse A.backendIdentity A.idSlot tokens response)

/-- `_lookup_after_policy`, before the modelled server. -/
abbrev lookupAfterPolicy (A : Adapter) (tokens : List ℤ) :
    Exec PyError World (LookupObservation CacheNamespace ReuseHandle) :=
  Transport.modelled.lookupAfterPolicy A tokens

end StateBraid.Managed
