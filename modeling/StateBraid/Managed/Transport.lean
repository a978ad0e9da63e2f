import StateBraid.Errors
import StateBraid.Library.Exec
import StateBraid.LlamaCpp.Reuse
import StateBraid.Managed.Server
import StateBraid.Policy.State

/-!
# The transport and its failures

The world of one client: the server, the client's registry, and what the environment
does with each request. A request is applied and answered, not applied, or applied with
its response lost; before it the server may restart. `history` records, for each
request, the two ends as they were when it was sent; it is read by statements about
runs and by nothing else.

What a lookup may conclude must not rest on the server telling the truth. So the methods it
consists of are written over a `Transport`, which sends each request once and answers it in
any way at all, out of reach of the client's registry. `Transport.modelled` is the one with the
modelled server behind it.
-/
namespace StateBraid.Managed
open Library Policy LlamaCpp

abbrev Key := CacheKey CacheNamespace

/-- `LlamaCppManagedStateHandle`. -/
structure StateHandle where
  backendIdentity : String
  epoch : String
  handle : String
  idSlot : ℕ
  nTokens : ℤ
  nbytes : ℤ
  deriving DecidableEq

/-- The requests of the adapter. -/
inductive Request
  | props
  | slots
  | completion (prompt : List ℤ) (idSlot : ℕ)
  | list
  | clear (epoch : String) (idSlot : ℕ)
  | capture (epoch : String) (idSlot : ℕ) (expectedTokens : List ℤ)
  | restore (epoch : String) (idSlot : ℕ) (handle : String)
  | drop (epoch : String) (handle : String)
  deriving DecidableEq

/-- The body of a request; a `GET` has none. -/
def Request.payload : Request → Json
  | .clear epoch idSlot =>
    .obj [("action", .str "clear"), ("epoch", .str epoch), ("id_slot", .int idSlot)]
  | .capture epoch idSlot expectedTokens =>
    .obj [("action", .str "capture"), ("epoch", .str epoch), ("id_slot", .int idSlot),
      ("expected_tokens", .arr (expectedTokens.map Json.int))]
  | .restore epoch idSlot handle =>
    .obj [("action", .str "restore"), ("epoch", .str epoch), ("id_slot", .int idSlot),
      ("handle", .str handle)]
  | .drop epoch handle =>
    .obj [("action", .str "drop"), ("epoch", .str epoch), ("handle", .str handle)]
  | .completion prompt idSlot =>
    .obj [("prompt", .arr (prompt.map Json.int)), ("id_slot", .int idSlot),
      ("cache_prompt", .bool true), ("n_cache_reuse", .int 0), ("n_predict", .int 0),
      ("stream", .bool false)]
  | .props | .slots | .list => .null

/-- What happens to a request. -/
inductive Delivery
  | delivered | notApplied | responseLost
  deriving DecidableEq

/-- A slot as execution leaves it: a prompt comes with a non-empty sequence state. -/
def LiveSlot : Type := { slot : Slot // slot.tokens ≠ [] → slot.target ≠ [] }

/-- The environment's part in one request: a restart before it, its delivery, the byte
counts of the inference library, the answer of an endpoint outside the managed store,
and the slot content after a completion. -/
structure Exchange where
  delivery : Delivery
  upstream : Upstream
  answer : Except String Json
  slotAfter : Option LiveSlot
  restart : Option String

/-- An undisturbed exchange. -/
def Exchange.normal : Exchange := ⟨.delivered, .complete, .ok .null, none, none⟩

/-- A moment of a run: a request with both ends before and after it, or a moment of an
orphan reconciliation, when it has read the store or when it has dropped every orphan. -/
inductive Event
  | exchanged (request : Request) (delivery : Delivery) (before after : Server)
      (bound pending : List String)
  | orphansListed (server : Server) (bound pending : List String)
  | reconcileCompleted

/-- The server, the client's registry, and the environment. -/
structure World where
  server : Server
  pastEpochs : List String
  script : List Exchange
  records : Dict Key StateHandle
  pendingDrops : Dict String StateHandle
  history : List Event

namespace World

/-- The handles bound in the registry. -/
def bound (w : World) : List String := w.records.values.map StateHandle.handle

/-- The handles queued for a drop. -/
def pending (w : World) : List String := w.pendingDrops.keys

/-- Write an event down, the latest first. -/
def note (w : World) (event : Event) : World := { w with history := event :: w.history }

/-- Take the next exchange off the script, with its restart. A restarted server draws an
epoch it never had. -/
def advance (w : World) (x : Exchange) : World :=
  let w := { w with script := w.script.tail }
  match x.restart with
  | none => w
  | some epoch =>
    if epoch ∈ w.server.epoch :: w.pastEpochs then w
    else
      { w with server := w.server.restart epoch, pastEpochs := w.server.epoch :: w.pastEpochs }

end World

/-- How the transport reports an answer: an error status raises. -/
def httpResult : Except Refusal Json → Except PyError Json
  | .ok reply => .ok reply
  | .error refusal => .error (.httpError refusal.message)

/-- The server's side of one request. -/
def Server.respond (s : Server) (x : Exchange) (request : Request) :
    Except PyError Json × Server :=
  match request with
  | .list =>
    let (answer, s) := s.getStatebraidCache x.upstream
    (httpResult answer, s)
  | .clear .. | .capture .. | .restore .. | .drop .. =>
    let (answer, s) := s.postStatebraidCache x.upstream request.payload
    (httpResult answer, s)
  | .props | .slots => (x.answer.mapError .httpError, s)
  | .completion _ idSlot =>
    (x.answer.mapError .httpError,
      match x.slotAfter with
      | some slot => s.setSlot idSlot slot.val
      | none => s)

/-- Send one request: `transport.get_json` and `transport.post_json`. -/
def exchange (request : Request) : Exec PyError World Json := fun w =>
  let x := w.script.headD .normal
  let w := w.advance x
  match x.delivery with
  | .notApplied =>
    (.error (.osError "request not delivered"),
      w.note (.exchanged request .notApplied w.server w.server w.bound w.pending))
  | .delivered =>
    let (answer, server) := w.server.respond x request
    (answer, { w with server := server }.note
      (.exchanged request .delivered w.server server w.bound w.pending))
  | .responseLost =>
    let (_, server) := w.server.respond x request
    (.error (.osError "response lost"), { w with server := server }.note
      (.exchanged request .responseLost w.server server w.bound w.pending))

/-! ## Transports -/

/-- Taking an exchange off the script leaves the client as it was. -/
theorem World.advance_client (w : World) (x : Exchange) :
    (w.advance x).records = w.records ∧ (w.advance x).pendingDrops = w.pendingDrops ∧
      (w.advance x).history = w.history := by
  unfold World.advance
  split
  · exact ⟨rfl, rfl, rfl⟩
  · dsimp only
    split <;> exact ⟨rfl, rfl, rfl⟩

/-- A request never touches the client's registry. -/
theorem exchange_registry (request : Request) (w : World) :
    (exchange request w).2.records = w.records ∧
      (exchange request w).2.pendingDrops = w.pendingDrops := by
  obtain ⟨hrecords, hpending, -⟩ := w.advance_client (w.script.headD .normal)
  unfold exchange
  dsimp only
  split <;> exact ⟨hrecords, hpending⟩

/-- The request of an event that is one. -/
def Event.request? : Event → Option Request
  | .exchanged request .. => some request
  | _ => none

/-- The requests sent so far, in order. -/
def World.requests (w : World) : List Request :=
  (w.history.filterMap Event.request?).reverse

/-- A way to send requests, with any server behind it. -/
structure Transport where
  send : Request → Exec PyError World Json
  requests : ∀ request w, (send request w).2.requests = w.requests ++ [request]
  records : ∀ request w, (send request w).2.records = w.records
  pendingDrops : ∀ request w, (send request w).2.pendingDrops = w.pendingDrops

namespace Transport

theorem requests_exchange (request : Request) (w : World) :
    (exchange request w).2.requests = w.requests ++ [request] := by
  obtain ⟨-, -, hhistory⟩ := w.advance_client (w.script.headD .normal)
  unfold exchange
  dsimp only
  generalize w.script.headD .normal = x at hhistory ⊢
  split <;> simp [World.requests, World.note, Event.request?, hhistory]

/-- The transport of the modelled server. -/
abbrev modelled : Transport where
  send := exchange
  requests := requests_exchange
  records request w := (exchange_registry request w).1
  pendingDrops request w := (exchange_registry request w).2

/-- A server that answers by what has been sent to it, true or not. -/
def answering (answer : List Request → Request → Except PyError Json) : Transport where
  send request w := (answer w.requests request,
    w.note (.exchanged request .delivered w.server w.server w.bound w.pending))
  requests request w := by simp [World.requests, World.note, Event.request?]
  records _ _ := rfl
  pendingDrops _ _ := rfl

end Transport

end StateBraid.Managed
