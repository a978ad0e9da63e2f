import StateBraid.Managed.Orderly

/-!
# Ledgers of whole sessions

The two-phase calls move a state out of the client and back in. A session ledger says
what its invariant owes to them; every permitted call of a session then keeps it.
-/

namespace StateBraid.Managed
open Library Policy Coordinator LlamaCpp Exec

/-! ## What a call hands out -/

theorem Session.step_of_none {A : Adapter} (s : Session) (call : Call) {cache : PromptCache}
    {r : Except PyError (Option StateHandle)} (hr : ∀ state, r ≠ .ok (some state))
    (hrun : perform A call.op (scripted s.cache call.script) = (r, cache)) :
    s.step A call = ⟨cache, call.op.keeps s.held, s.obtained⟩ := by
  unfold Session.step
  rw [hrun]
  split
  · rename_i state cache' heq
    cases heq
    exact absurd rfl (hr state)
  · rename_i heq
    cases heq
    rfl

theorem Session.step_of_some {A : Adapter} (s : Session) (call : Call) {cache : PromptCache}
    {state : StateHandle}
    (hrun : perform A call.op (scripted s.cache call.script) = (.ok (some state), cache)) :
    s.step A call = ⟨cache, state :: call.op.keeps s.held, state :: s.obtained⟩ := by
  unfold Session.step
  rw [hrun]

theorem ignoring_error {α : Type} {m : Exec PyError PromptCache α} {c c' : PromptCache}
    {e : PyError} (h : m c = (.error e, c')) : ignoring m c = (.error e, c') := by
  unfold ignoring
  rw [bind_of_error h]

theorem ignoring_ne {α : Type} (m : Exec PyError PromptCache α) (c : PromptCache)
    (state : StateHandle) : (ignoring m c).1 ≠ .ok (some state) := by
  unfold ignoring
  rcases h : m c with ⟨⟨e⟩ | ⟨a⟩, c'⟩
  · rw [bind_of_error h]
    simp
  · rw [bind_of_ok h]
    simp

/-- Only `capture_current` hands out a state. -/
theorem perform_ne {A : Adapter} {op : Op} (hop : ∀ tokens, op ≠ .captureCurrent tokens)
    (c : PromptCache) (state : StateHandle) : (perform A op c).1 ≠ .ok (some state) := by
  cases op with
  | captureCurrent tokens => exact absurd rfl (hop tokens)
  | _ => exact ignoring_ne _ c state

/-! ## One call -/

section Step

-- its specification is all that is used of it
attribute [local irreducible] captureState

/-- What holds of a session after a call, by a ledger of its client: the call ends between
calls, hands out a state, or is an admission of a captured state. -/
theorem Session.step_of_ledger {A : Adapter} {I : Phase → PromptCache → Prop} (hL : Ledger A I)
    {Q : Session → Prop} {s : Session} {call : Call}
    (hs : Ledger.Between A I (scripted s.cache call.script))
    (hkeep : ∀ {c'}, Ledger.Between A I c' → Q ⟨c', s.held, s.obtained⟩)
    (hhandOver : ∀ {tokens state c'},
      captureState A tokens (scripted s.cache call.script) = (.ok state, c') → Coherent A c' →
      stateBinding A state = .ok () → I (.holding (cacheKey A tokens) state) c' →
      Q ⟨c', state :: s.held, state :: s.obtained⟩)
    (hoffered : ∀ {tokens state role predecessor},
      call.op = .admitCaptured tokens state role predecessor →
      Q ⟨(admitCaptured A tokens state role predecessor (scripted s.cache call.script)).2,
        call.op.keeps s.held, s.obtained⟩)
    (hnotice : ∀ {handles c'}, Forgets A handles (scripted s.cache call.script) c' → I .idle c') :
    Q (s.step A call) := by
  obtain ⟨op, script⟩ := call
  have hplain (hop : ∀ tokens, op ≠ .captureCurrent tokens)
      (hQ : Q ⟨(perform A op (scripted s.cache script)).2, op.keeps s.held, s.obtained⟩) :
      Q (s.step A ⟨op, script⟩) := by
    rw [Session.step_of_none s ⟨op, script⟩ (fun state => perform_ne hop _ state)
      (r := (perform A op (scripted s.cache script)).1) rfl]
    exact hQ
  cases op with
  | captureCurrent tokens =>
    have hcapture := hL.captureState hs tokens
    rcases hrun : captureState A tokens (scripted s.cache script) with ⟨⟨e⟩ | ⟨state⟩, c'⟩ <;>
      dsimp only at hcapture <;> rw [hrun] at hcapture
    · have hperform : perform A (.captureCurrent tokens) (scripted s.cache script) =
          (.error e, c') := bind_of_error hrun _
      rw [Session.step_of_none s ⟨.captureCurrent tokens, script⟩ (by simp) hperform]
      exact hkeep hcapture
    · have hperform : perform A (.captureCurrent tokens) (scripted s.cache script) =
          (.ok (some state), c') := (bind_of_ok hrun _).trans (pure_apply _ _)
      rw [Session.step_of_some s ⟨.captureCurrent tokens, script⟩ hperform]
      obtain ⟨hcoherent, hholding, hbinding⟩ := hcapture
      exact hhandOver hrun hcoherent hbinding hholding
  | admitCaptured tokens state role predecessor =>
    refine hplain (by simp) ?_
    rw [perform, Ledger.ignoring_state]
    exact hoffered rfl
  | applyRemoteEvictions handles =>
    refine hplain (by simp) (hkeep ?_)
    rw [perform, Ledger.ignoring_state]
    obtain ⟨c₁, hforgets, ⟨removed, hrun⟩ | hrun⟩ := applyRemoteEvictions_forgets hs.1 handles
    · rw [hrun]
      exact ⟨hforgets.coherent, hnotice hforgets⟩
    · rw [hrun]
      exact hL.between_flushed ⟨hforgets.coherent, hnotice hforgets⟩
  | _ => exact hplain (by simp) (hkeep (hL.packaged (by trivial) hs))

end Step

/-! ## The ledgers -/

/-- The invariant of a client whose caller holds some of the states it obtained, and
offers them as `may` allows. -/
structure SessionLedger (A : Adapter) (may : StateHandle → Server → Prop)
    (J : List StateHandle → List StateHandle → Phase → PromptCache → Prop) : Prop where
  ledger : ∀ held obtained, Ledger A (J held obtained)
  binding : ∀ {held obtained φ c}, J held obtained φ c →
    ∀ state ∈ obtained, stateBinding A state = .ok ()
  handOver : ∀ {obtained key state c} (held : List StateHandle), stateBinding A state = .ok () →
    J held obtained (.holding key state) c → J (state :: held) (state :: obtained) .idle c
  offer : ∀ {obtained state c} (held : List StateHandle) (key : Key), state ∈ obtained →
    may state c.backend.server → J held obtained .idle c →
    J (held.filter (fun other => other.handle ≠ state.handle)) obtained (.holding key state) c
  notice : ∀ {obtained handles c c'} (held : List StateHandle), J held obtained .idle c →
    Forgets A handles c c' → J held obtained .idle c'

/-- A call whose captured state is one that `capture_current` returned and that `may` be
offered. -/
def Session.Offers (may : StateHandle → Server → Prop) (s : Session) : Op → Prop
  | .admitCaptured _ state _ _ => state ∈ s.obtained ∧ may state s.cache.backend.server
  | _ => True

namespace SessionLedger

variable {A : Adapter} {may : StateHandle → Server → Prop}
  {J : List StateHandle → List StateHandle → Phase → PromptCache → Prop}

/-- One call keeps a session ledger. -/
theorem step (h : SessionLedger A may J) {s : Session} {call : Call}
    (hoffers : s.Offers may call.op)
    (hs : Ledger.Between A (J s.held s.obtained) (scripted s.cache call.script)) :
    Ledger.Between A (J (s.step A call).held (s.step A call).obtained) (s.step A call).cache := by
  have hL := h.ledger s.held s.obtained
  refine Session.step_of_ledger
    (Q := fun t : Session => Ledger.Between A (J t.held t.obtained) t.cache) hL hs id
    (fun _ hc hbinding hholding => ⟨hc, h.handOver _ hbinding hholding⟩)
    (fun {tokens state role predecessor} hop => ?_) fun hforgets => h.notice _ hs.2 hforgets
  rw [hop] at hoffers ⊢
  exact (h.ledger _ _).admitCaptured hs.1 (h.offer _ _ hoffers.1 hoffers.2 hs.2)
    (h.binding hs.2 state hoffers.1)

end SessionLedger

/-! ## Sessions in one epoch -/

/-- The handles of some states. -/
def handlesOf (states : List StateHandle) : List String := states.map StateHandle.handle

/-- A session in order. -/
structure Session.Lawful (A : Adapter) (obtained : List StateHandle) (φ : Phase)
    (c : PromptCache) : Prop where
  orderly : Orderly A (handlesOf obtained) φ c
  binding : ∀ state ∈ obtained, stateBinding A state = .ok ()

theorem Orderly.handOver {A : Adapter} {others : List String} {key : Key} {state : StateHandle}
    {c : PromptCache} (h : Orderly A others (.holding key state) c) :
    Orderly A (state.handle :: others) .idle c :=
  { h with
    numbered := fun hname => by
      rcases hname with htracked | hhold | hother
      · exact h.numbered (Or.inl htracked)
      · exact hhold.elim
      · rcases List.mem_cons.mp hother with rfl | hother
        · exact h.numbered (Or.inr (Or.inl rfl))
        · exact h.numbered (Or.inr (Or.inr hother)) }

theorem lawful_ledger (A : Adapter) (obtained : List StateHandle) :
    Ledger A (Session.Lawful A obtained) where
  wellFormed h := (orderly_ledger A _).wellFormed h.orderly
  passive hp hc h := ⟨(orderly_ledger A _).passive hp hc h.orderly, h.binding⟩
  closing h := ⟨(orderly_ledger A _).closing h.orderly, h.binding⟩
  flush hc h := ⟨(orderly_ledger A _).flush hc h.orderly, h.binding⟩
  reconcile hc h := ⟨(orderly_ledger A _).reconcile hc h.orderly, h.binding⟩
  captureFailed hc hp h hrun := ⟨(orderly_ledger A _).captureFailed hc hp h.orderly hrun, h.binding⟩
  captured hc hp h hrun hf := ⟨(orderly_ledger A _).captured hc hp h.orderly hrun hf, h.binding⟩
  accepted h hr hb := ⟨(orderly_ledger A _).accepted h.orderly hr hb, h.binding⟩
  kept h hr hk := ⟨(orderly_ledger A _).kept h.orderly hr hk, h.binding⟩
  discarded h := ⟨(orderly_ledger A _).discarded h.orderly, h.binding⟩
  released h hb := ⟨(orderly_ledger A _).released h.orderly hb, h.binding⟩
  trimmed h hr := ⟨(orderly_ledger A _).trimmed h.orderly hr, h.binding⟩
  observed h hr hb := ⟨(orderly_ledger A _).observed h.orderly hr hb, h.binding⟩

theorem lawful_sessionLedger (A : Adapter) :
    SessionLedger A (fun _ _ => True) (fun _ obtained => Session.Lawful A obtained) where
  ledger _ obtained := lawful_ledger A obtained
  binding h := h.binding
  handOver _ hbinding h :=
    ⟨h.orderly.handOver, fun state hmem => by
      rcases List.mem_cons.mp hmem with rfl | hold
      · exact hbinding
      · exact h.binding state hold⟩
  offer _ key hmem _ h :=
    ⟨h.orderly.hold key (h.orderly.numbered (Or.inr (Or.inr (List.mem_map_of_mem hmem)))), h.binding⟩
  notice _ h hforgets := ⟨h.orderly.forgot hforgets, h.binding⟩

/-- A call that a caller may make in one epoch: no restarts, and only states that were
handed out are offered. -/
def Session.Permits (s : Session) (call : Call) : Prop :=
  call.Steady ∧ s.Offers (fun _ _ => True) call.op

theorem Session.step_packaged {A : Adapter} (s : Session) {call : Call} (hop : call.op.Packaged) :
    (s.step A call).cache = (perform A call.op (scripted s.cache call.script)).2 := by
  have hne : ∀ tokens, call.op ≠ .captureCurrent tokens := by
    rintro tokens heq
    rw [heq] at hop
    exact hop
  exact congrArg Session.cache (Session.step_of_none s call
    (fun state => perform_ne hne _ state)
    (r := (perform A call.op (scripted s.cache call.script)).1) rfl)

/-- Giving the client its next script. -/
theorem scripted_coherent {A : Adapter} {c : PromptCache} (hc : Coherent A c)
    (script : List Exchange) : Coherent A (scripted c script) := hc.withBackend rfl id

theorem scripted_orderly {A : Adapter} {others : List String} {c : PromptCache}
    (h : Orderly A others .idle c) {call : Call} (hsteady : call.Steady) :
    Orderly A others .idle (scripted c call.script) :=
  { h with steady := hsteady }

theorem scripted_lawful {A : Adapter} {obtained : List StateHandle} {c : PromptCache}
    (h : Session.Lawful A obtained .idle c) {call : Call} (hsteady : call.Steady) :
    Session.Lawful A obtained .idle (scripted c call.script) :=
  ⟨scripted_orderly h.orderly hsteady, h.binding⟩

theorem start_lawful {A : Adapter} (config : PolicyConfig) (server : FreshServer A) :
    Session.Lawful A (Session.start config server.server).obtained .idle
      (Session.start config server.server).cache :=
  { orderly := open_orderly config server, binding := by simp [Session.start] }

/-- A session that calls of the allowed kind reach. -/
def Session.Reached (A : Adapter) (config : PolicyConfig) (server : FreshServer A)
    (allowed : Session → Call → Prop) (s : Session) : Prop :=
  Run (Session.step A) allowed (Session.start config server.server) s

/-- A ledger holds in every session of packaged calls. -/
theorem Session.Reached.between {A : Adapter} {I : Phase → PromptCache → Prop} (h : Ledger A I)
    {config : PolicyConfig} {server : FreshServer A} {allowed : Session → Call → Prop}
    (hallowed : ∀ t call, allowed t call → call.op.Packaged)
    (hstart : I .idle (openCache config server.server))
    (hscripted : ∀ t call, allowed t call → I .idle t.cache → I .idle (scripted t.cache call.script))
    {s : Session} (hs : s.Reached A config server allowed) : Ledger.Between A I s.cache := by
  refine Run.invariant (I := fun t : Session => Ledger.Between A I t.cache)
    ⟨open_coherent A config server.server, hstart⟩ ?_ hs
  rintro t call ⟨hc, hI⟩ hcall
  rw [Session.step_packaged t (hallowed t call hcall)]
  exact h.packaged (hallowed t call hcall)
    ⟨scripted_coherent hc _, hscripted t call hcall hI⟩

theorem Session.Reached.lawful {A : Adapter} {config : PolicyConfig} {server : FreshServer A}
    {s : Session} (h : s.Reached A config server Session.Permits) :
    Coherent A s.cache ∧ Session.Lawful A s.obtained .idle s.cache := by
  refine Run.invariant (I := fun t : Session =>
    Coherent A t.cache ∧ Session.Lawful A t.obtained .idle t.cache)
    ⟨open_coherent A config server.server, start_lawful config server⟩ ?_ h
  rintro t call ⟨hc, hlawful⟩ ⟨hsteady, hoffers⟩
  exact (lawful_sessionLedger A).step hoffers
    ⟨scripted_coherent hc _, scripted_lawful hlawful hsteady⟩

/-! ## A sample client

One slot whose state nearly fills a server of one mebibyte: a second capture has to
reclaim the first. -/

namespace Sample

def adapter : Adapter := ⟨"llama", 0, "epoch-1", by decide, by decide⟩

/-- A prompt of two tokens with one large checkpoint. -/
def slot : Slot := ⟨[1, 2], [2 ^ 20], [0], [], 8⟩

def server : FreshServer adapter where
  server := ⟨true, 1, false, [slot], "epoch-1", .empty, 1⟩
  enabled := rfl
  epoch := rfl
  states := rfl
  slots := by decide

def config : PolicyConfig := .new 4 (2 ^ 22) ∅ none

def start : Session := Session.start config server.server

/-- A request whose response is lost after the server applied it. -/
def lost : Exchange := { Exchange.normal with delivery := .responseLost }

/-- A request that never arrives. -/
def unsent : Exchange := { Exchange.normal with delivery := .notApplied }

/-- Capture the slot and admit what it holds. -/
def capture (script : List Exchange) : Call := ⟨.captureAndAdmit [1, 2] "transient" none, script⟩

end Sample

end StateBraid.Managed
