import StateBraid.Managed.Aside

/-!
# Deferred drops

A drop on the server cannot be undone, so no transaction sends one: handles that lose their
binding are queued, and the queue is flushed when the transaction is over. Nothing bound is
dropped, a transaction that fails leaves every binding and every bound state as it was, and
the state that it did not take is dropped or stays queued.
-/

namespace StateBraid.Managed
open Library Policy Coordinator LlamaCpp Exec

/-! ## The moments of a call -/

/-- The tokens that a call captures first. -/
def Op.captures : Op → Option (List ℤ)
  | .captureCurrent tokens | .captureAndAdmit tokens _ _ | .captureStableCandidate tokens =>
    some tokens
  | _ => none

/-- Where a call opens its transaction: the client at that point, the transaction, and the
state on offer. -/
inductive Opens (A : Adapter) :
    Op → PromptCache → PromptCache → Exec PyError PromptCache Bool → Option StateHandle → Prop
  | admitCaptured (tokens : List ℤ) (state : StateHandle) (role : Role)
      (predecessor : Option (List ℤ)) (c : PromptCache) :
      Opens A (.admitCaptured tokens state role predecessor) c c
        (admitEntry (registry A) (cacheKey A tokens) state role state.nbytes
          (predecessor.map (cacheKey A))) (some state)
  | captureAndAdmit {tokens : List ℤ} {role : Role} {predecessor : Option (List ℤ)}
      {state : StateHandle} {c c₁ : PromptCache}
      (hcapture : captureState A tokens c = (.ok state, c₁)) :
      Opens A (.captureAndAdmit tokens role predecessor) c c₁
        (admitEntry (registry A) (cacheKey A tokens) state role state.nbytes
          (predecessor.map (cacheKey A))) (some state)
  | captureStableCandidate {tokens : List ℤ} {state : StateHandle} {evicted : List String}
      {c c₁ c₂ : PromptCache}
      (hcapture : onBackend (captureCurrent A (cacheKey A tokens)) c = (.ok (state, evicted), c₁))
      (hnotices : applyNotices A evicted c₁ = (.ok (), c₂)) :
      Opens A (.captureStableCandidate tokens) c c₂
        (admitStableCandidate (registry A) (cacheKey A tokens) state state.nbytes) (some state)
  | trimTo (nSequences nBytes : Option ℤ) (c : PromptCache) :
      Opens A (.trimTo nSequences nBytes) c c (Coordinator.trimTo (registry A) nSequences nBytes)
        none

/-- Where a call applies notices of evictions, and of which handles. -/
inductive Notices (A : Adapter) : Op → PromptCache → PromptCache → List String → Prop
  | applied (handles : List String) (c : PromptCache) :
      Notices A (.applyRemoteEvictions handles) c c handles
  | captured {op : Op} {tokens : List ℤ} {state : StateHandle} {evicted : List String}
      {c c₁ : PromptCache} (hop : op.captures = some tokens)
      (hcapture : onBackend (captureCurrent A (cacheKey A tokens)) c = (.ok (state, evicted), c₁)) :
      Notices A op c c₁ evicted

/-- The keys bound to these handles. -/
def doomedKeys (handles : List String) (c : PromptCache) : List Key :=
  (c.backend.records.items.filter (fun kv => kv.2.handle ∈ handles)).map Prod.fst

/-- Where a call runs `flush_drops`: before a capture, after notices, and at the end of a
mutation. -/
inductive Flushes (A : Adapter) : Op → PromptCache → PromptCache → Prop
  | capturing {op : Op} {tokens : List ℤ} {c : PromptCache} (hop : op.captures = some tokens) :
      Flushes A op c c
  | noticed {op : Op} {handles : List String} {removed : List Key} {c c₁ c₂ : PromptCache}
      (hnotices : Notices A op c c₁ handles)
      (hforget : forgetRemote (registry A) (doomedKeys handles c₁) c₁ = (.ok removed, c₂)) :
      Flushes A op c c₂
  | admitting {op : Op} {state : StateHandle} {m : Exec PyError PromptCache Bool}
      {c c₁ : PromptCache} (hopens : Opens A op c c₁ m (some state)) :
      Flushes A op c (guardedBody A state m c₁).2
  | trimming {op : Op} {m : Exec PyError PromptCache Bool} {c c₁ : PromptCache}
      (hopens : Opens A op c c₁ m none) : Flushes A op c (m c₁).2

/-! ## What a flush settles -/

/-- A flush that returns leaves nothing queued and none of the dropped handles alive. One
that raises stops at a handle that is not bound: that one and all after it stay queued, and
those before it were bound or are dead. -/
def FlushSettles (A : Adapter) (w : World) : Prop :=
  Holds (fun _ w' => w'.pendingDrops = .empty ∧
      ∀ name ∈ w.pending, name ∉ w.bound → ¬ w'.server.Alive name)
    (fun _ w' => ∃ done item rest, FlushedTo w w' done (item :: rest) ∧ item.1 ∉ w.bound)
    (flushDrops A w)

theorem flush_settles {A : Adapter} {c : PromptCache} (hc : Coherent A c)
    (hsteady : c.backend.Steady) : FlushSettles A c.backend := by
  have hprogress := flushDrops_progress (A := A) hsteady (Orderly.queued hc)
  unfold FlushSettles
  revert hprogress
  rcases flushDrops A c.backend with ⟨⟨e⟩ | ⟨n⟩, w'⟩
  · exact And.right
  · rintro ⟨-, hto⟩
    refine ⟨Dict.ext hto.left, fun name hname hunbound => ?_⟩
    obtain ⟨item, hitem, rfl⟩ := List.mem_map.mp hname
    exact (hto.settled item hitem).resolve_left hunbound

/-! ## Transactions that fail -/

/-- The bindings are as they were, and every bound handle that was alive still is. -/
structure Restored (c c' : PromptCache) : Prop where
  records : ∀ k, c'.backend.records.get? k = c.backend.records.get? k
  alive : ∀ name ∈ c.backend.bound, c.backend.server.Alive name → c'.backend.server.Alive name

/-- The handle is gone from the server or queued for a drop. -/
def Retired (name : String) (c : PromptCache) : Prop :=
  ¬ c.backend.server.Alive name ∨ name ∈ c.backend.pending

section Failure

variable {A : Adapter} {c c' : PromptCache} {offered : Option (Key × StateHandle)}

theorem Rebinds.steady (h : Rebinds A offered c c') (hsteady : c.backend.Steady) :
    c'.backend.Steady := by
  unfold World.Steady
  rw [h.rebound.script]
  exact hsteady

/-- Rebinding that ends with the same bindings. -/
theorem Rebinds.restored (h : Rebinds A offered c c')
    (hkeep : ∀ k, c'.backend.records.get? k = c.backend.records.get? k) : Restored c c' :=
  ⟨hkeep, fun _ _ halive => h.rebound.server ▸ halive⟩

theorem Restored.mem_bound (h : Restored c c') {name : String} :
    name ∈ c'.backend.bound ↔ name ∈ c.backend.bound := by
  simp only [World.mem_bound, h.records]

/-- A flush drops nothing that is bound. -/
theorem Restored.flushed (h : Restored c c') (hc : Coherent A c') (hsteady : c'.backend.Steady) :
    Restored c (flushed A c') := by
  have htidies := (flushDrops_flushed (A := A) hsteady (Orderly.queued hc)).tidies
  refine ⟨fun k => ?_, fun name hname halive => ?_⟩
  · rw [Managed.flushed, htidies.records]
    exact h.records k
  · exact htidies.alive_of_not_may (h.alive name hname halive)
      fun hmay => hmay.2 (h.mem_bound.mpr hname)

/-- A queued handle that is not bound is retired by a flush. -/
theorem retired_flushed (hc : Coherent A c) (hsteady : c.backend.Steady) {name : String}
    (hqueued : name ∈ c.backend.pending) (hunbound : name ∉ c.backend.bound) :
    Retired name (flushed A c) := by
  have hsettled := (flushDrops_flushed (A := A) hsteady (Orderly.queued hc)).settled name hqueued
  rcases hsettled with hstill | hbound | hdead
  · exact Or.inr hstill
  · exact absurd hbound hunbound
  · exact Or.inl hdead

variable {key : Key} {state : StateHandle} {m : Exec PyError PromptCache Bool}

/-- A state that is not taken: the bindings are restored, and its handle is retired unless
another key is bound to it. -/
theorem guardedAdmission_settles (hadmits : Admits A key state m)
    (hbinding : stateBinding A state = .ok ()) (hc : Coherent A c) (hsteady : c.backend.Steady)
    (hfailed : (m c).1 ≠ .ok true) :
    Restored c (guardedAdmission A state m c).2 ∧
      (state.handle ∉ c.backend.bound → Retired state.handle (guardedAdmission A state m c).2) := by
  obtain ⟨c', hrun, heq⟩ := guardedBody_run hadmits hbinding hc
  rw [guardedAdmission_state, heq]
  generalize (m c).1 = r at hrun hfailed
  cases hrun with
  | accepted => exact absurd rfl hfailed
  | discarded _ c₁ _ hrebinds hkeep =>
    have hcoherent := hrebinds.coherent.queueDrop hbinding
    have hqueued : Restored c (queued c₁ state) := ⟨hkeep, (hrebinds.restored hkeep).alive⟩
    refine ⟨hqueued.flushed hcoherent (hrebinds.steady hsteady), fun hunbound => ?_⟩
    exact retired_flushed hcoherent (hrebinds.steady hsteady)
      (Dict.mem_keys_insert.mpr (Or.inl rfl)) fun hbound => hunbound (hqueued.mem_bound.mp hbound)
  | released e _ hrebinds hkeep hbound =>
    have hrestored := hrebinds.restored hkeep
    refine ⟨hrestored.flushed hrebinds.coherent (hrebinds.steady hsteady), fun hunbound => ?_⟩
    exact absurd (hrestored.mem_bound.mp hbound) hunbound

/-- No admission sends a request, and one that fails restores the bindings at once. -/
theorem Admits.quiet (hadmits : Admits A key state m) (hc : Coherent A c) :
    (m c).2.backend.history = c.backend.history ∧
      ∀ e, (m c).1 = .error e → Restored c (m c).2 := by
  have hout := hadmits c hc
  generalize m c = r at hout
  cases hout with
  | accepted _ h => exact ⟨h.rebound.history, by simp⟩
  | rejected _ h => exact ⟨h.rebound.history, by simp⟩
  | failed e c' h hkeep => exact ⟨h.rebound.history, fun _ _ => h.restored hkeep⟩

theorem trimTo_quiet (hc : Coherent A c) (hsteady : c.backend.Steady)
    (nSequences nBytes : Option ℤ) :
    (trimTo (registry A) nSequences nBytes c).2.backend.history = c.backend.history ∧
      ∀ e, (trimTo (registry A) nSequences nBytes c).1 = .error e →
        Restored c (trimTo (registry A) nSequences nBytes c).2 ∧
          Restored c (trimCache A nSequences nBytes c).2 := by
  have htrim := trimTo_rebinds hc nSequences nBytes
  rw [trimCache, tryFinally_state, flushAfter_state]
  generalize trimTo (registry A) nSequences nBytes c = r at htrim
  rcases r with ⟨⟨e⟩ | ⟨trimmed⟩, c'⟩
  · obtain ⟨hrebinds, hkeep⟩ := htrim
    have hrestored := hrebinds.restored hkeep
    exact ⟨hrebinds.rebound.history, fun _ _ =>
      ⟨hrestored, hrestored.flushed hrebinds.coherent (hrebinds.steady hsteady)⟩⟩
  · exact ⟨htrim.rebound.history, by simp⟩

end Failure

/-! ## The moments in a session -/

/-- A client that is coherent and whose next requests restart no server. -/
def Ready (A : Adapter) (c : PromptCache) : Prop := Coherent A c ∧ c.backend.Steady

section Moments

variable {A : Adapter} {c c₁ c₂ : PromptCache} {op : Op}

theorem captureCurrent_ready {others : List String} (hc : Coherent A c)
    (h : Orderly A others .idle c) {tokens : List ℤ} {state : StateHandle} {evicted : List String}
    (hrun : onBackend (captureCurrent A (cacheKey A tokens)) c = (.ok (state, evicted), c₁)) :
    Ready A c₁ := by
  have hcases := captureCurrent_run (A := A) (cacheKey A tokens) rfl h.wellFormed
  rcases hr : captureCurrent A (cacheKey A tokens) c.backend with ⟨r, w⟩
  rw [onBackend_of hr] at hrun
  obtain ⟨rfl, rfl⟩ := Prod.mk.inj hrun
  rw [hr] at hcases
  generalize hr' : ((Except.ok (state, evicted) : Except PyError _), w) = r' at hcases
  cases hcases with
  | blocked | failed => cases hr'
  | captured state' evicted' n w₁ w₂ hflush hcapture =>
    obtain ⟨-, rfl⟩ := Prod.mk.inj hr'
    obtain ⟨heq, -⟩ := flushed_empty hflush
    have hflushed : Orderly A others .idle { c with backend := w₁ } := heq ▸ Orderly.flushed hc h
    refine ⟨(heq ▸ hc.flushed : Coherent A { c with backend := w₁ }).captured hcapture, ?_⟩
    obtain ⟨slot, -, -, -, -, -, -, rfl⟩ := capture_returned hflushed.wellFormed hcapture
    rw [hflushed.steady.sent]
    exact fun x hx => hflushed.steady x (List.mem_of_mem_tail hx)

theorem Notices.ready {handles : List String} {others : List String} (h : Notices A op c c₁ handles)
    (hc : Coherent A c) (horderly : Orderly A others .idle c) : Ready A c₁ := by
  cases h with
  | applied => exact ⟨hc, horderly.steady⟩
  | captured hop hcapture => exact captureCurrent_ready hc horderly hcapture

/-- Forgetting the keys of these handles sends no request. -/
theorem Ready.forgotten (h : Ready A c₁) (handles : List String) :
    ∃ removed c₂, forgetRemote (registry A) (doomedKeys handles c₁) c₁ = (.ok removed, c₂) ∧
      Ready A c₂ ∧ c₂.backend.history = c₁.backend.history := by
  obtain ⟨removed, c₂, hrun, hforgets⟩ := forgetRemote_forgets h.1 handles
  refine ⟨removed, c₂, hrun, ⟨hforgets.coherent, ?_⟩, hforgets.history⟩
  unfold World.Steady
  rw [hforgets.script]
  exact h.2

/-- A transaction opens in a client in order, around a state that is bound to this server;
unless the caller brings it, that state is not bound yet. -/
theorem Opens.ready {others : List String} {m : Exec PyError PromptCache Bool}
    {state : StateHandle} (h : Opens A op c c₁ m (some state)) (hc : Coherent A c)
    (horderly : Orderly A others .idle c)
    (hbinding : ∀ tokens role predecessor, op = .admitCaptured tokens state role predecessor →
      stateBinding A state = .ok ()) :
    Ready A c₁ ∧ (∃ key, Admits A key state m) ∧ stateBinding A state = .ok () ∧
      (perform A op c).2 = (guardedAdmission A state m c₁).2 ∧
      (op.Packaged → state.handle ∉ c₁.backend.bound) := by
  have hcaptured {tokens : List ℤ} {c₁ : PromptCache}
      (hcapture : captureState A tokens c = (.ok state, c₁)) :
      Ready A c₁ ∧ stateBinding A state = .ok () ∧ state.handle ∉ c₁.backend.bound := by
    have hholds := (orderly_ledger A others).captureState ⟨hc, horderly⟩ tokens
    have huntracked := captureState_untracked hc horderly hcapture
    rw [hcapture] at hholds
    obtain ⟨hcoherent, hholding, hbinding⟩ := hholds
    exact ⟨⟨hcoherent, hholding.steady⟩, hbinding, fun hbound => huntracked (Or.inl hbound)⟩
  cases h with
  | admitCaptured tokens _ role predecessor =>
    refine ⟨⟨hc, horderly.steady⟩, ⟨_, admitEntry_admits rfl state role _⟩,
      hbinding tokens role predecessor rfl, ?_, False.elim⟩
    rw [perform, Ledger.ignoring_state, Managed.admitCaptured]
  | captureAndAdmit hcapture =>
    obtain ⟨hready, hbinding, hunbound⟩ := hcaptured hcapture
    refine ⟨hready, ⟨_, admitEntry_admits rfl state _ _⟩, hbinding, ?_, fun _ => hunbound⟩
    rw [perform, Ledger.ignoring_state, captureAndAdmit_eq, captureWith, bind_of_ok hcapture]
  | captureStableCandidate hcapture hnotices =>
    rename_i tokens evicted c'
    have hstate : captureState A tokens c = (.ok state, c₁) := by
      unfold captureState
      rw [bind_of_ok hcapture]
      dsimp only
      rw [bind_of_ok hnotices]
      rfl
    obtain ⟨hready, hbinding, hunbound⟩ := hcaptured hstate
    refine ⟨hready, ⟨_, admitStableCandidate_admits rfl state⟩, hbinding, ?_, fun _ => hunbound⟩
    rw [perform, Ledger.ignoring_state, captureStableCandidate_eq hc horderly.wellFormed,
      captureWith, bind_of_ok hstate]

/-- Every flush starts in a client in order. -/
theorem Flushes.ready {others : List String} (h : Flushes A op c c₂) (hc : Coherent A c)
    (horderly : Orderly A others .idle c)
    (hbinding : ∀ tokens state role predecessor,
      op = .admitCaptured tokens state role predecessor → stateBinding A state = .ok ()) :
    Ready A c₂ := by
  cases h with
  | capturing => exact ⟨hc, horderly.steady⟩
  | noticed hnotices hforget =>
    obtain ⟨removed, c', hrun, hready, -⟩ := (hnotices.ready hc horderly).forgotten _
    obtain ⟨-, rfl⟩ := Prod.mk.inj (hforget.symm.trans hrun)
    exact hready
  | admitting hopens =>
    rename_i state m c₁
    obtain ⟨hready, ⟨key, hadmits⟩, hbinding, -⟩ := hopens.ready hc horderly
      fun tokens role predecessor => hbinding tokens state role predecessor
    obtain ⟨c', hrun, heq⟩ := guardedBody_run hadmits hbinding hready.1
    rw [heq]
    generalize (m c₁).1 = r at hrun
    cases hrun with
    | accepted _ hrebinds | released _ _ hrebinds =>
      exact ⟨hrebinds.coherent, hrebinds.steady hready.2⟩
    | discarded _ _ _ hrebinds =>
      exact ⟨hrebinds.coherent.queueDrop hbinding, hrebinds.steady hready.2⟩
  | trimming hopens =>
    cases hopens with
    | trimTo nSequences nBytes =>
      have htrim := trimTo_rebinds hc nSequences nBytes
      revert htrim
      rcases Coordinator.trimTo (registry A) nSequences nBytes c with ⟨⟨e⟩ | ⟨trimmed⟩, c'⟩
      · exact fun htrim => ⟨htrim.1.coherent, htrim.1.steady horderly.steady⟩
      · exact fun htrim => ⟨htrim.coherent, htrim.steady horderly.steady⟩

end Moments

/-- The state on offer is fresh: captured by the call itself, or still held by the caller. -/
def Session.Fresh (s : Session) (state : StateHandle) : Op → Prop
  | .admitCaptured .. => state ∈ s.held
  | _ => True

/-- In every run of one client without restarts: no drop request names a handle that is
bound when it is sent; neither a transaction nor the forgetting of reclaimed states sends a
request; a transaction that fails restores the bindings, and no handle that was bound and
alive is dead when the call ends; a fresh state that is not taken is retired by then; and
every flush of the queue settles what it has taken off it. -/
theorem drops_are_safe {A : Adapter} {config : PolicyConfig} {server : FreshServer A}
    {s : Session} (hs : s.Reached A config server Session.Permits) :
    (∀ event ∈ s.cache.backend.history, event.SparesBound) ∧
    ∀ call, s.Permits call →
      (∀ c₁ m offered, Opens A call.op (scripted s.cache call.script) c₁ m offered →
        (m c₁).2.backend.history = c₁.backend.history ∧
        (∀ e, (m c₁).1 = .error e → Restored c₁ (m c₁).2 ∧
          Restored c₁ (perform A call.op (scripted s.cache call.script)).2) ∧
        ∀ state ∈ offered, s.Fresh state call.op → (m c₁).1 ≠ .ok true →
          Retired state.handle (perform A call.op (scripted s.cache call.script)).2) ∧
      (∀ c₁ handles, Notices A call.op (scripted s.cache call.script) c₁ handles →
        (forgetRemote (registry A) (doomedKeys handles c₁) c₁).2.backend.history =
          c₁.backend.history) ∧
      ∀ c₁, Flushes A call.op (scripted s.cache call.script) c₁ → FlushSettles A c₁.backend := by
  obtain ⟨hcoherent, haside⟩ := hs.aside
  refine ⟨haside.lawful.orderly.sparesBound, fun call hpermits => ?_⟩
  have hc := scripted_coherent hcoherent call.script
  have hidle := haside.scripted hpermits.1
  have horderly := hidle.lawful.orderly
  have hbinding (tokens : List ℤ) (state : StateHandle) (role : Role)
      (predecessor : Option (List ℤ)) (hop : call.op = .admitCaptured tokens state role predecessor) :
      stateBinding A state = .ok () := by
    have hoffers := hpermits.2
    rw [hop] at hoffers
    exact hidle.lawful.binding state hoffers.1
  refine ⟨fun c₁ m offered hopens => ?_, fun c₁ handles hnotices => ?_, fun c₁ hflushes => ?_⟩
  · cases offered with
    | none =>
      obtain ⟨op, script⟩ := call
      cases hopens with
      | trimTo nSequences nBytes =>
        obtain ⟨hhistory, hrestored⟩ := trimTo_quiet hc horderly.steady nSequences nBytes
        refine ⟨hhistory, ?_, by simp⟩
        rwa [perform, Ledger.ignoring_state]
    | some state =>
      obtain ⟨hready, ⟨key, hadmits⟩, hstate, hend, hunbound⟩ := hopens.ready hc horderly
        fun tokens role predecessor => hbinding tokens state role predecessor
      obtain ⟨hhistory, hrestored⟩ := hadmits.quiet hready.1
      rw [hend]
      refine ⟨hhistory, fun e he => ⟨hrestored e he, ?_⟩, fun other hother hfresh hnot => ?_⟩
      · exact (guardedAdmission_settles hadmits hstate hready.1 hready.2 (by simp [he])).1
      · cases hother
        refine (guardedAdmission_settles hadmits hstate hready.1 hready.2 hnot).2 ?_
        obtain ⟨op, script⟩ := call
        cases hopens with
        | admitCaptured =>
          exact fun hbound =>
            (hidle.apart _ (List.mem_map_of_mem hfresh)).1 (Or.inl hbound)
        | captureAndAdmit | captureStableCandidate => exact hunbound trivial
  · obtain ⟨removed, c₂, hrun, -, hhistory⟩ := (hnotices.ready hc horderly).forgotten handles
    rw [hrun]
    exact hhistory
  · have hready := hflushes.ready hc horderly hbinding
    exact flush_settles hready.1 hready.2

namespace Sample

/-- A server with room for several states of its one slot. -/
def roomyServer : FreshServer adapter where
  server := ⟨true, 1, false, [⟨[1, 2], [5], [0], [], 8⟩], "epoch-1", .empty, 1⟩
  enabled := rfl
  epoch := rfl
  states := rfl
  slots := by decide

/-- A working set of one sequence. -/
def singleConfig : PolicyConfig := .new 1 (2 ^ 22) ∅ none

/-- One state is admitted, and another is captured. -/
def recaptured : Session :=
  ((Session.start singleConfig roomyServer.server).step adapter (capture [])).step adapter
    ⟨.captureCurrent [1, 2], []⟩

theorem recaptured_reached :
    recaptured.Reached adapter singleConfig roomyServer Session.Permits :=
  .next (.next .start ⟨by simp [capture, Call.Steady], trivial⟩)
    ⟨by simp [Call.Steady], trivial⟩

/-- The second state. -/
def secondState : StateHandle := ⟨"llama", "epoch-1", "sbm1-0000000000000002", 0, 2, 6⟩

/-- It is admitted under a key of another length: the resident is unbound for it before its
insertion raises. -/
def mismatched : Call := ⟨.admitCaptured [1, 2, 3] secondState "transient" none, []⟩

def afterMismatch : PromptCache :=
  (perform adapter mismatched.op (scripted recaptured.cache mismatched.script)).2

end Sample

open Sample

theorem mismatched_admission_settles :
    Restored recaptured.cache afterMismatch ∧ Retired "sbm1-0000000000000002" afterMismatch := by
  have hheld : secondState ∈ recaptured.held := by decide +kernel
  have hobtained : secondState ∈ recaptured.obtained := by decide +kernel
  have hcall := (drops_are_safe recaptured_reached).2 mismatched
    ⟨by simp [mismatched, Call.Steady], hobtained, trivial⟩
  have hsettled := hcall.1 _ _ _
    (Opens.admitCaptured [1, 2, 3] secondState "transient" none recaptured.cache)
  have hraises : (admitEntry (registry adapter) (cacheKey adapter [1, 2, 3]) secondState "transient"
      secondState.nbytes none recaptured.cache).1 = .error (.valueError
        "managed llama.cpp state token count does not match CacheKey identity") := by
    decide +kernel
  exact ⟨(hsettled.2.1 _ hraises).2, hsettled.2.2 secondState rfl hheld
    (hraises ▸ by simp)⟩

end StateBraid.Managed
