import StateBraid.Managed.PromptCache
import StateBraid.Library.Run

/-!
# Sessions

One client against one server: a sequence of calls on the facade, each with what the
environment does to its requests. A session remembers the states that `capture_current`
handed out, and which of them the caller still holds.
-/
namespace StateBraid.Managed
open Library Policy Coordinator LlamaCpp

/-- The public calls of the facade, and the completion requests that the caller sends to
the server itself. -/
inductive Op
  | complete (prompt : List ℤ) (idSlot : ℕ)
  | captureCurrent (stateTokens : List ℤ)
  | admitCaptured (stateTokens : List ℤ) (state : StateHandle) (role : Role)
      (predecessorTokens : Option (List ℤ))
  | captureAndAdmit (stateTokens : List ℤ) (role : Role) (predecessorTokens : Option (List ℤ))
  | captureStableCandidate (stateTokens : List ℤ)
  | applyRemoteEvictions (handles : List String)
  | trimTo (nSequences nBytes : Option ℤ)
  | prepare (promptTokens : List ℤ)
  | lookup (namespaceArg : CacheNamespace) (tokens : List ℤ)
  | generationSafeExact (namespaceArg : CacheNamespace) (tokens : List ℤ)
  | reconcileOrphans

/-- A computation whose result is not kept. -/
def ignoring {α : Type} (m : Exec PyError PromptCache α) :
    Exec PyError PromptCache (Option StateHandle) := do
  let _ ← m
  pure none

/-- Call the facade; what it returns matters only when it is a captured state. -/
def perform (A : Adapter) : Op → Exec PyError PromptCache (Option StateHandle)
  | .complete prompt idSlot => ignoring (onBackend (exchange (.completion prompt idSlot)))
  | .captureCurrent stateTokens => do
    let state ← captureState A stateTokens
    pure (some state)
  | .admitCaptured stateTokens state role predecessorTokens =>
    ignoring (admitCaptured A stateTokens state role predecessorTokens)
  | .captureAndAdmit stateTokens role predecessorTokens =>
    ignoring (captureAndAdmit A stateTokens role predecessorTokens)
  | .captureStableCandidate stateTokens => ignoring (captureStableCandidate A stateTokens)
  | .applyRemoteEvictions handles => ignoring (applyRemoteEvictions A handles)
  | .trimTo nSequences nBytes => ignoring (trimCache A nSequences nBytes)
  | .prepare promptTokens => ignoring (prepare A promptTokens)
  | .lookup namespaceArg tokens => ignoring (lookup A namespaceArg tokens)
  | .generationSafeExact namespaceArg tokens => ignoring (generationSafeExact A namespaceArg tokens)
  | .reconcileOrphans => ignoring (reconcileOrphans A)

/-- The calls that capture and admit in one go, and those that do neither. -/
def Op.Packaged : Op → Prop
  | .captureCurrent .. | .admitCaptured .. | .applyRemoteEvictions .. => False
  | _ => True

/-- A call with what the environment does to its requests, in order. -/
structure Call where
  op : Op
  script : List Exchange

/-- The environment restarts no server. -/
def Call.Steady (call : Call) : Prop := ∀ x ∈ call.script, x.restart = none

/-- The client with the states that `capture_current` returned (`obtained`) and those of
them not yet passed to `admit_captured` (`held`). -/
structure Session where
  cache : PromptCache
  held : List StateHandle
  obtained : List StateHandle

/-- The client, its next requests going by this script. -/
def scripted (c : PromptCache) (script : List Exchange) : PromptCache :=
  { c with backend := { c.backend with script := script } }

/-- The states still held once a call has been made. -/
def Op.keeps (op : Op) (held : List StateHandle) : List StateHandle :=
  match op with
  | .admitCaptured _ state _ _ => held.filter (fun other => other.handle ≠ state.handle)
  | _ => held

namespace Session

/-- One call. -/
def step (A : Adapter) (s : Session) (call : Call) : Session :=
  match perform A call.op (scripted s.cache call.script) with
  | (.ok (some state), cache) =>
    ⟨cache, state :: call.op.keeps s.held, state :: s.obtained⟩
  | (_, cache) => ⟨cache, call.op.keeps s.held, s.obtained⟩

/-- A new facade over an empty store. -/
def start (config : PolicyConfig) (server : Server) : Session := ⟨openCache config server, [], []⟩

end Session

/-- A server that has just been started for this adapter. -/
structure FreshServer (A : Adapter) where
  server : Server
  enabled : server.enabled = true
  epoch : server.epoch = A.managedEpoch
  states : server.states = .empty
  slots : ∀ slot ∈ server.slots, slot.tokens ≠ [] → slot.target ≠ []

end StateBraid.Managed
