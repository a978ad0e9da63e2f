import StateBraid.Library.Dict
import StateBraid.Managed.Json

/-!
# The managed server

The server side of managed storage, from the patch: the map of handles, the handler of
`SERVER_TASK_TYPE_STATEBRAID_CACHE` and the two routes in front of it. The calls into
the inference library are inputs (`Upstream`), since their code is not part of the
repository; a slot's prompt and sequence states are data. Tasks for a busy slot are
deferred until it is idle, so a handler always sees an idle slot. Sizes (`size_t`) are those
of bytes and tokens in memory, below 2^64, and the handle counter (`uint64_t`) counts
captures, of which an epoch that sees fewer than 2^64 - 1 requests cannot have too many
(`handle_counter_bounded`); both are natural numbers.
-/
namespace StateBraid.Managed
open Library

/-- `server_prompt_cache_state`: a prompt with its checkpoints' payload sizes, and the
serialised target and draft sequence states. -/
structure ManagedState where
  tokens : List ℤ
  checkpoints : List ℕ
  main : List UInt8
  drft : List UInt8
  deriving DecidableEq

/-- `state.size()`: target and draft bytes and the checkpoint payloads. -/
def ManagedState.size (s : ManagedState) : ℕ := s.main.length + s.drft.length + s.checkpoints.sum

/-- `managed_entry`: only entries never restored may be reclaimed. -/
structure ManagedEntry where
  state : ManagedState
  restored : Bool
  deriving DecidableEq

/-- What the handler reads and writes of a `server_slot`: its prompt, its sequence in
the two contexts, and the context size. -/
structure Slot where
  tokens : List ℤ
  checkpoints : List ℕ
  target : List UInt8
  draft : List UInt8
  nCtx : ℕ
  deriving DecidableEq

/-- `prompt_clear`. -/
def Slot.promptClear (slot : Slot) : Slot :=
  { slot with tokens := [], checkpoints := [], target := [], draft := [] }

/-- The byte counts that the inference library returns during one task: for a read or a
write of so many bytes, how many it handled. -/
structure Upstream where
  readTarget : ℕ → ℕ
  readDraft : ℕ → ℕ
  acceptTarget : ℕ → ℕ
  acceptDraft : ℕ → ℕ

/-- Every read and write handles all bytes. -/
def Upstream.complete : Upstream := ⟨id, id, id, id⟩

structure Server where
  /-- `params_base.statebraid_managed_cache`. -/
  enabled : Bool
  /-- `params_base.statebraid_managed_cache_ram_mib`; a negative value is no limit. -/
  ramLimitMib : ℤ
  /-- Whether there is a draft context. -/
  draftContext : Bool
  slots : List Slot
  epoch : String
  /-- `statebraid_managed_states`, in the order of the handle names. -/
  states : Dict String ManagedEntry
  /-- `statebraid_managed_next_handle`, a `uint64_t`. -/
  nextHandle : ℕ

inductive ErrorType
  | notSupported | invalidRequest | server
  deriving DecidableEq

/-- What `send_error` and `format_error_response` report. -/
structure Refusal where
  message : String
  type : ErrorType
  deriving DecidableEq

/-- `server_task::statebraid_cache_action`. -/
structure CacheAction where
  action : String
  idSlot : ℤ := -1
  handle : String := ""
  epoch : String := ""
  expectedTokens : List ℤ := []

/-- A hexadecimal digit. -/
def hexDigit (n : ℕ) : Char := "0123456789abcdef".toList.getD n '0'

/-- `string_format("sbm1-%016" PRIx64, n)`. -/
def formatHandle (n : ℕ) : String :=
  let digits := Nat.digits 16 n
  "sbm1-" ++ String.ofList
    ((digits ++ List.replicate (16 - digits.length) 0).reverse.map hexDigit)

/-- `"%.1f"` of a byte count in MiB, ties to even. -/
def formatMib (bytes : ℕ) : String :=
  let tenths := 10 * bytes / 2 ^ 20
  let rest := 10 * bytes % 2 ^ 20
  let rounded :=
    if rest > 2 ^ 19 ∨ (rest = 2 ^ 19 ∧ tenths % 2 = 1) then tenths + 1 else tenths
  toString (rounded / 10) ++ "." ++ toString (rounded % 10)

/-- The planning loop of a capture over budget: the number of never-restored entries,
and the bytes that reclaiming the oldest of them would free, counted up to the deficit. -/
def planReclaim (deficit : ℕ) (items : List (String × ManagedEntry)) : ℕ × ℕ :=
  items.foldl (fun acc kv =>
    if kv.2.restored then acc
    else (acc.1 + 1, if acc.2 < deficit then acc.2 + kv.2.state.size else acc.2)) (0, 0)

/-- The erasing loop: the handles it erases, oldest never-restored first, until
`reclaimed` covers the deficit. -/
def evictedHandles (deficit : ℕ) : ℕ → List (String × ManagedEntry) → List String
  | _, [] => []
  | reclaimed, (handle, entry) :: items =>
    if reclaimed < deficit then
      if entry.restored then evictedHandles deficit reclaimed items
      else handle :: evictedHandles deficit (reclaimed + entry.state.size) items
    else []

namespace Server

/-- The bytes of all managed states. -/
def managedBytes (s : Server) : ℕ := (s.states.items.map (fun kv => kv.2.state.size)).sum

/-- The prompt tokens of all managed states. -/
def managedTokens (s : Server) : ℕ :=
  (s.states.items.map (fun kv => kv.2.state.tokens.length)).sum

/-- The budget check of a capture that needs `need` bytes: the handles to reclaim first,
or a refusal that has reclaimed nothing. -/
def budgetPlan (s : Server) (need : ℕ) : Except Refusal (List String) :=
  if s.ramLimitMib ≥ 0 then
    let ramLimit := s.ramLimitMib.toNat * 1024 * 1024
    if s.managedBytes + need > ramLimit then
      let deficit := s.managedBytes + need - ramLimit
      let (nUnused, reclaimable) := planReclaim deficit s.states.items
      if reclaimable < deficit then
        .error ⟨"managed cache RAM budget exceeded even after reclaiming " ++ toString nUnused ++
          " unused handles (" ++ formatMib reclaimable ++ " MiB): used " ++
          formatMib s.managedBytes ++ " MiB, capture needs " ++ formatMib need ++
          " MiB, limit " ++ toString s.ramLimitMib ++ " MiB", .invalidRequest⟩
      else .ok (evictedHandles deficit 0 s.states.items)
    else .ok []
  else .ok []

/-- One row of the reply to `list`. -/
def handleRow (kv : String × ManagedEntry) : Json :=
  .obj [("handle", .str kv.1), ("n_tokens", .int kv.2.state.tokens.length),
    ("n_bytes", .int kv.2.state.size), ("restored", .bool kv.2.restored)]

/-- The reply to `list`. -/
def listReply (s : Server) : Json :=
  .obj [("enabled", .bool true), ("epoch", .str s.epoch), ("n_handles", .int s.states.size),
    ("n_tokens", .int s.managedTokens), ("n_bytes", .int s.managedBytes),
    ("ram_limit_mib", .int s.ramLimitMib), ("handles", .arr (s.states.items.map handleRow))]

/-- Overwrite one slot. -/
def setSlot (s : Server) (idSlot : ℤ) (slot : Slot) : Server :=
  { s with slots := s.slots.set idSlot.toNat slot }

/-- The slot of an id in range. -/
def slotAt (s : Server) (idSlot : ℤ) : Option Slot :=
  if idSlot < 0 then none else s.slots[idSlot.toNat]?

/-- `drop`. -/
def drop (s : Server) (handle : String) : Except Refusal Json × Server :=
  match s.states.get? handle with
  | none => (.error ⟨"Unknown StateBraid managed-cache handle", .invalidRequest⟩, s)
  | some entry =>
    (.ok (.obj [("success", .bool true), ("epoch", .str s.epoch), ("handle", .str handle),
        ("n_tokens", .int entry.state.tokens.length), ("n_bytes", .int entry.state.size)]),
      { s with states := s.states.erase handle })

/-- `clear`. -/
def clear (s : Server) (idSlot : ℤ) (slot : Slot) : Except Refusal Json × Server :=
  (.ok (.obj [("success", .bool true), ("epoch", .str s.epoch), ("id_slot", .int idSlot),
      ("n_cleared", .int slot.tokens.length)]),
    s.setSlot idSlot slot.promptClear)

/-- The state a capture would store. -/
def snapshot (s : Server) (slot : Slot) : ManagedState :=
  ⟨slot.tokens, slot.checkpoints, slot.target, if s.draftContext then slot.draft else []⟩

/-- The store after a capture's reclaiming. -/
def reclaim (s : Server) (evicted : List String) : Server :=
  { s with states := s.states.filterKeys (fun handle => handle ∉ evicted) }

/-- The store after a successful capture: the state under the next handle name. -/
def store (s : Server) (state : ManagedState) : Server :=
  { s with
    states := s.states.emplace (fun a b => a < b) (formatHandle s.nextHandle) ⟨state, false⟩
    nextHandle := s.nextHandle + 1 }

/-- `capture`. The reclaiming comes before the two reads, which can still fail. -/
def capture (s : Server) (up : Upstream) (idSlot : ℤ) (slot : Slot)
    (expectedTokens : List ℤ) : Except Refusal Json × Server :=
  if slot.tokens.length = 0 then
    (.error ⟨"Cannot capture an empty slot prompt", .invalidRequest⟩, s)
  else if expectedTokens.length ≠ slot.tokens.length then
    (.error ⟨"expected_tokens do not match current slot prompt", .invalidRequest⟩, s)
  else if expectedTokens ≠ slot.tokens then
    (.error ⟨"expected_tokens do not match current slot prompt", .invalidRequest⟩, s)
  else
    let state := s.snapshot slot
    match s.budgetPlan (state.main.length + state.drft.length) with
    | .error refusal => (.error refusal, s)
    | .ok evicted =>
      let s := s.reclaim evicted
      if up.readTarget state.main.length ≠ state.main.length then
        (.error ⟨"Unable to capture target sequence state", .server⟩, s)
      else if s.draftContext ∧ up.readDraft state.drft.length ≠ state.drft.length then
        (.error ⟨"Unable to capture draft sequence state", .server⟩, s)
      else
        (.ok (.obj [("success", .bool true), ("epoch", .str s.epoch),
            ("handle", .str (formatHandle s.nextHandle)), ("id_slot", .int idSlot),
            ("n_tokens", .int state.tokens.length), ("n_bytes", .int state.size),
            ("evicted", .arr (evicted.map Json.str))]),
          s.store state)

/-- `restore`. The slot is cleared before the writes and again when one falls short. -/
def restore (s : Server) (up : Upstream) (idSlot : ℤ) (slot : Slot) (handle : String) :
    Except Refusal Json × Server :=
  match s.states.get? handle with
  | none => (.error ⟨"Unknown StateBraid managed-cache handle", .invalidRequest⟩, s)
  | some entry =>
    let state := entry.state
    if state.tokens.length > slot.nCtx then
      (.error ⟨"Managed prompt state does not fit in the slot context", .invalidRequest⟩, s)
    else
      let cleared := s.setSlot idSlot slot.promptClear
      if up.acceptTarget state.main.length ≠ state.main.length then
        (.error ⟨"Unable to restore target sequence state", .server⟩, cleared)
      else if state.drft ≠ [] ∧ s.draftContext = false then
        (.error ⟨"Managed state requires an unavailable draft context", .invalidRequest⟩, cleared)
      else if state.drft ≠ [] ∧ up.acceptDraft state.drft.length ≠ state.drft.length then
        (.error ⟨"Unable to restore draft sequence state", .server⟩, cleared)
      else
        let restored : Slot := ⟨state.tokens, state.checkpoints, state.main, state.drft, slot.nCtx⟩
        (.ok (.obj [("success", .bool true), ("epoch", .str s.epoch), ("handle", .str handle),
            ("id_slot", .int idSlot), ("n_tokens", .int state.tokens.length),
            ("n_bytes", .int state.size)]),
          { s.setSlot idSlot restored with
            states := s.states.insert handle { entry with restored := true } })

/-- The handler of a managed-cache task. -/
def processTask (s : Server) (up : Upstream) (action : CacheAction) :
    Except Refusal Json × Server :=
  if s.enabled = false then
    (.error ⟨"StateBraid managed cache is disabled", .notSupported⟩, s)
  else if action.action = "list" then (.ok s.listReply, s)
  else if action.epoch ≠ s.epoch then
    (.error ⟨"Invalid or stale StateBraid managed-cache epoch", .invalidRequest⟩, s)
  else if action.action = "drop" then s.drop action.handle
  else
    match s.slotAt action.idSlot with
    | none => (.error ⟨"Invalid slot ID", .invalidRequest⟩, s)
    | some slot =>
      if action.action = "clear" then s.clear action.idSlot slot
      else if action.action = "capture" then
        s.capture up action.idSlot slot action.expectedTokens
      else if action.action = "restore" then s.restore up action.idSlot slot action.handle
      else (.error ⟨"Invalid StateBraid managed-cache action", .invalidRequest⟩, s)

/-- `GET /statebraid/cache`. -/
def getStatebraidCache (s : Server) (up : Upstream) : Except Refusal Json × Server :=
  if s.enabled = false then
    (.error ⟨"StateBraid managed cache is disabled", .notSupported⟩, s)
  else s.processTask up { action := "list" }

/-- The `expected_tokens` array of a capture. `get<int64_t>()` wraps an unsigned integer, which
can bring it into range. -/
def parseTokens : List Json → Except Refusal (List ℤ)
  | [] => .ok []
  | value :: values =>
    match value.asNumberInteger? with
    | none => .error ⟨"expected_tokens must be a non-empty integer array", .invalidRequest⟩
    | some n =>
      let token := n.bmod (2 ^ 64)
      if token < -2 ^ 31 ∨ token > 2 ^ 31 - 1 then
        .error ⟨"expected_tokens contains an out-of-range token", .invalidRequest⟩
      else
        match parseTokens values with
        | .error refusal => .error refusal
        | .ok tokens => .ok (token :: tokens)

/-- The `id_slot` of a body that names one; `get<int>()` truncates it. -/
def parseSlot (data : Json) : Except Refusal ℤ :=
  match (data.field? "id_slot").bind Json.asNumberInteger? with
  | none => .error ⟨"id_slot must be an integer", .invalidRequest⟩
  | some n => .ok (n.bmod (2 ^ 32))

/-- The fields of a `POST /statebraid/cache` body, read in the route's order. -/
def parseAction (data : Json) : Except Refusal CacheAction := do
  if ¬ data.isObject then
    throw ⟨"Request body must be an object", .invalidRequest⟩
  let some action := (data.field? "action").bind Json.asStr?
    | throw ⟨"action must be a string", .invalidRequest⟩
  if action ≠ "capture" ∧ action ≠ "restore" ∧ action ≠ "drop" ∧ action ≠ "clear" then
    throw ⟨"Invalid StateBraid managed-cache action", .invalidRequest⟩
  let some epoch := (data.field? "epoch").bind Json.asStr?
    | throw ⟨"epoch must be a string", .invalidRequest⟩
  let mut idSlot : ℤ := -1
  if action = "capture" ∨ action = "restore" ∨ action = "clear" then
    idSlot ← parseSlot data
  let mut expectedTokens : List ℤ := []
  if action = "capture" then
    match data.field? "expected_tokens" with
    | some (.arr (value :: values)) => expectedTokens ← parseTokens (value :: values)
    | _ => throw ⟨"expected_tokens must be a non-empty integer array", .invalidRequest⟩
  let mut handle := ""
  if action = "restore" ∨ action = "drop" then
    let some value := (data.field? "handle").bind Json.asStr?
      | throw ⟨"handle must be a string", .invalidRequest⟩
    handle := value
  return { action, idSlot, handle, epoch, expectedTokens }

/-- `POST /statebraid/cache`. -/
def postStatebraidCache (s : Server) (up : Upstream) (data : Json) :
    Except Refusal Json × Server :=
  if s.enabled = false then
    (.error ⟨"StateBraid managed cache is disabled", .notSupported⟩, s)
  else
    match parseAction data with
    | .error refusal => (.error refusal, s)
    | .ok action => s.processTask up action

/-- A new process: an empty store, idle slots and a new epoch. -/
def restart (s : Server) (epoch : String) : Server :=
  { s with
    slots := s.slots.map Slot.promptClear
    epoch := epoch
    states := .empty
    nextHandle := 1 }

end Server

end StateBraid.Managed
