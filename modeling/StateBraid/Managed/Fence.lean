import StateBraid.Coordinator.BackendInvariant
import StateBraid.Managed.Identity

/-!
# A client after a restart

An adapter stays pinned to the epoch it was constructed in. A process that was started later
has another one: it refuses every mutation of the client, so that nothing of it is lost or
reclaimed, and the client raises at the first answer and keeps what it knew.
-/

namespace StateBraid.Managed
open Library Policy Coordinator LlamaCpp Exec

/-! ## Requests and the epoch they name -/

/-- The epoch that a mutation names. -/
def Request.epoch? : Request → Option String
  | .clear epoch _ => some epoch
  | .capture epoch _ _ => some epoch
  | .restore epoch _ _ => some epoch
  | .drop epoch _ => some epoch
  | _ => none

/-- The requests an adapter sends: mutations of its own epoch, and others. -/
def Adapter.Sends (A : Adapter) (request : Request) : Prop :=
  ∀ epoch ∈ request.epoch?, epoch = A.managedEpoch

namespace Server

/-- The body of a mutation names its epoch, where the route accepts it at all. -/
theorem parseAction_epoch {request : Request} {epoch : String}
    (hnames : request.epoch? = some epoch) :
    (∃ refusal, parseAction request.payload = .error refusal) ∨
      ∃ action, parseAction request.payload = .ok action ∧ action.action ≠ "list" ∧
        action.epoch = epoch := by
  cases request with
  | props | slots | completion | list => cases hnames
  | clear named idSlot =>
    cases hnames
    rw [parseAction_clear]
    cases parseSlot (Request.clear epoch idSlot).payload with
    | error refusal => exact Or.inl ⟨refusal, rfl⟩
    | ok id => exact Or.inr ⟨_, rfl, by simp, rfl⟩
  | restore named idSlot handle =>
    cases hnames
    rw [parseAction_restore]
    cases parseSlot (Request.restore epoch idSlot handle).payload with
    | error refusal => exact Or.inl ⟨refusal, rfl⟩
    | ok id => exact Or.inr ⟨_, rfl, by simp, rfl⟩
  | drop named handle =>
    cases hnames
    exact Or.inr ⟨_, parseAction_drop epoch handle, by simp, rfl⟩
  | capture named idSlot tokens =>
    cases hnames
    cases tokens with
    | nil =>
      rw [parseAction_capture_nil]
      cases parseSlot (Request.capture epoch idSlot []).payload with
      | error refusal => exact Or.inl ⟨refusal, rfl⟩
      | ok id => exact Or.inl ⟨_, rfl⟩
    | cons token tokens =>
      rw [parseAction_capture]
      cases parseSlot (Request.capture epoch idSlot (token :: tokens)).payload with
      | error refusal => exact Or.inl ⟨refusal, rfl⟩
      | ok id =>
        cases hparsed : parseTokens ((token :: tokens).map Json.int) with
        | error refusal => exact Or.inl ⟨refusal, rfl⟩
        | ok parsed => exact Or.inr ⟨_, rfl, by simp, rfl⟩

/-- A mutation that names another epoch is refused, and nothing has happened. -/
theorem respond_refused {s : Server} (x : Exchange) {request : Request} {epoch : String}
    (hnames : request.epoch? = some epoch) (hother : epoch ≠ s.epoch) :
    ∃ e, s.respond x request = (.error e, s) := by
  have hpost : ∃ refusal, s.postStatebraidCache x.upstream request.payload = (.error refusal, s) := by
    rcases parseAction_epoch hnames with ⟨refusal, hparse⟩ | ⟨action, hparse, hlist, hepoch⟩
    · exact post_unparsed s x.upstream hparse
    · exact post_rejected x.upstream hparse hlist fun haccepts =>
        hother (hepoch.symm.trans haccepts.2)
  obtain ⟨refusal, hpost⟩ := hpost
  refine ⟨.httpError refusal.message, ?_⟩
  cases request with
  | props | slots | completion | list => cases hnames
  | clear | restore | drop | capture =>
    rw [respond, hpost]
    rfl

variable {A : Adapter} {s : Server} {request : Request}

/-- A process of another epoch only reads, or runs a completion. -/
theorem respond_foreign (x : Exchange) (hsends : A.Sends request)
    (hother : s.epoch ≠ A.managedEpoch)
    (hcompletion : ∀ prompt idSlot, request ≠ .completion prompt idSlot) :
    (s.respond x request).2 = s := by
  cases hnames : request.epoch? with
  | some epoch =>
    have hepoch : epoch = A.managedEpoch := hsends epoch hnames
    obtain ⟨e, hrefused⟩ := respond_refused (s := s) x hnames fun heq => hother (heq ▸ hepoch)
    rw [hrefused]
  | none =>
    cases request with
    | clear | restore | drop | capture => cases hnames
    | completion prompt idSlot => exact absurd rfl (hcompletion prompt idSlot)
    | props | slots => rfl
    | list =>
      rw [respond_list]
      split <;> rfl

/-- In any case its store stays as it is. -/
theorem respond_foreign_store (x : Exchange) (hsends : A.Sends request)
    (hother : s.epoch ≠ A.managedEpoch) :
    (s.respond x request).2.epoch = s.epoch ∧ (s.respond x request).2.states = s.states ∧
      (s.respond x request).2.nextHandle = s.nextHandle := by
  by_cases hcompletion : ∀ prompt idSlot, request ≠ .completion prompt idSlot
  · rw [respond_foreign x hsends hother hcompletion]
    exact ⟨rfl, rfl, rfl⟩
  · push Not at hcompletion
    obtain ⟨prompt, idSlot, rfl⟩ := hcompletion
    rw [respond]
    dsimp only
    split <;> exact ⟨rfl, rfl, rfl⟩

end Server

/-! ## The fence -/

/-- A request to a process of another epoch changes nothing there, unless it is a completion. -/
def Event.Refused (A : Adapter) : Event → Prop
  | .exchanged request _ before after _ _ => before.epoch ≠ A.managedEpoch →
    (∀ prompt idSlot, request ≠ .completion prompt idSlot) → after = before
  | _ => True

/-- The client's epoch does not come back, and a process of another one has the store it was
started with. -/
structure Fenced (A : Adapter) (w : World) : Prop where
  wellFormed : w.server.WellFormed
  left : w.server.epoch ≠ A.managedEpoch → A.managedEpoch ∈ w.pastEpochs
  untouched : w.server.epoch ≠ A.managedEpoch →
    w.server.states = .empty ∧ w.server.nextHandle = 1
  refused : ∀ event ∈ w.history, event.Refused A

namespace Fenced

variable {A : Adapter} {w : World}

/-- The fence does not depend on the registry. -/
theorem rebound (h : Fenced A w) {w' : World} (hserver : w'.server = w.server)
    (hepochs : w'.pastEpochs = w.pastEpochs) (hhistory : w'.history = w.history) :
    Fenced A w' where
  wellFormed := hserver ▸ h.wellFormed
  left hepoch := by
    rw [hserver] at hepoch
    rw [hepochs]
    exact h.left hepoch
  untouched hepoch := by
    rw [hserver] at hepoch ⊢
    exact h.untouched hepoch
  refused := hhistory ▸ h.refused

theorem noted (h : Fenced A w) {event : Event} (hevent : event.Refused A) :
    Fenced A (w.note event) where
  wellFormed := h.wellFormed
  left := h.left
  untouched := h.untouched
  refused e he := by
    rcases List.mem_cons.mp he with rfl | he
    · exact hevent
    · exact h.refused e he

/-- The next exchange may begin with a restart. -/
theorem sent (h : Fenced A w) : Fenced A w.sent := by
  unfold World.sent World.advance
  split
  · exact h.rebound rfl rfl rfl
  dsimp only
  split
  · exact h.rebound rfl rfl rfl
  · exact
      { wellFormed := Server.WellFormed.restart _ _
        left := fun _ => by
          by_cases hepoch : w.server.epoch = A.managedEpoch
          · exact hepoch ▸ List.mem_cons_self
          · exact List.mem_cons_of_mem _ (h.left hepoch)
        untouched := fun _ => ⟨rfl, rfl⟩
        refused := h.refused }

/-- Serving a request of the adapter. -/
theorem served (h : Fenced A w) {request : Request} (hsends : A.Sends request) (x : Exchange)
    (delivery : Delivery) :
    Fenced A (w.after request delivery (w.server.respond x request).2) := by
  have hepoch : (w.server.respond x request).2.epoch = w.server.epoch :=
    (Server.Later.respond h.wellFormed x request).epoch
  have hrespond : Fenced A { w with server := (w.server.respond x request).2 } :=
    { wellFormed := h.wellFormed.respond _ _
      left := fun hother => h.left fun heq => hother (hepoch.trans heq)
      untouched := fun hother => by
        have hother : w.server.epoch ≠ A.managedEpoch := fun heq => hother (hepoch.trans heq)
        obtain ⟨-, hstates, hnext⟩ := Server.respond_foreign_store x hsends hother
        rw [hstates, hnext]
        exact h.untouched hother
      refused := h.refused }
  exact hrespond.noted fun hother => Server.respond_foreign x hsends hother

end Fenced

theorem exchange_fenced {A : Adapter} {request : Request} (hsends : A.Sends request) :
    Keeps (Fenced A) (exchange request) := by
  refine Keeps.of_state fun w h => ?_
  have hsent := h.sent
  have hcases := exchange_cases request w
  generalize exchange request w = r at hcases ⊢
  cases hcases with
  | unsent => exact hsent.noted fun _ _ => rfl
  | answered | lost => exact hsent.served hsends _ _

/-! ## What every request keeps, every call keeps -/

-- comparing a namespace with itself by evaluation is slow
attribute [local irreducible] requireKey

/-- An invariant of the world that every request keeps and that does not read the registry. -/
structure Requested (A : Adapter) (I : World → Prop) : Prop where
  exchange : ∀ request, A.Sends request → Keeps I (exchange request)
  rebound : ∀ w w' : World, w'.server = w.server → w'.pastEpochs = w.pastEpochs →
    w'.history = w.history → I w → I w'
  listed : ∀ w bound pending, I w → I (w.note (.orphansListed w.server bound pending))
  completed : ∀ w, I w → I (w.note .reconcileCompleted)

namespace Requested

variable {A : Adapter} {I : World → Prop}

/-- The worlds that satisfy `I`. -/
abbrev Holding (I : World → Prop) (c : PromptCache) : Prop := I c.backend

theorem modify (h : Requested A I) {f : World → World} (hserver : ∀ w, (f w).server = w.server)
    (hepochs : ∀ w, (f w).pastEpochs = w.pastEpochs) (hhistory : ∀ w, (f w).history = w.history) :
    Keeps I (Exec.modify f : Exec PyError World Unit) :=
  Keeps.modify fun w hw => h.rebound w (f w) (hserver w) (hepochs w) (hhistory w) hw

/-- The calls of a coordinator transaction make no request. -/
theorem registry (h : Requested A I) :
    BackendInvariant (registry A) I (fun _ _ => True) (fun _ _ => True) where
  capture k := by
    refine ((Keeps.ofExcept _).bind fun _ => Keeps.gets _).weaken (fun _ hw => hw) ?_
      (fun _ _ hw => hw)
    exact fun _ _ hw => ⟨fun _ _ => trivial, hw⟩
  restore k state _ := (Keeps.ofExcept _).bind fun _ =>
    h.modify (fun _ => rfl) (fun _ => rfl) fun _ => rfl
  remove k := by
    refine (Keeps.ofExcept _).bind fun _ => Keeps.modify fun w hw => ?_
    unfold World.unbind
    split
    · exact hw
    · exact h.rebound w _ rfl rfl rfl hw
  insert k state role _ := (Keeps.ofExcept _).bind fun _ =>
    h.modify (fun _ => rfl) (fun _ => rfl) fun _ => rfl
  forget k := (Keeps.ofExcept _).bind fun _ =>
    h.modify (fun _ => rfl) (fun _ => rfl) fun _ => rfl

theorem flush (h : Requested A I) : Keeps I (flushDrops A) :=
  flushDrops_keeps (h.exchange _ fun _ hnone => by cases hnone)
    (fun _ => h.exchange _ fun _ hnames => (Option.some.inj hnames).symm)
    fun w handle => h.rebound w (w.unqueue handle) rfl rfl rfl

theorem reconcile (h : Requested A I) : Keeps I (reconcileOrphanedHandles A) :=
  reconcileOrphanedHandles_keeps (h.exchange _ fun _ hnone => by cases hnone)
    (fun _ => h.exchange _ fun _ hnames => (Option.some.inj hnames).symm)
    (fun w => h.listed w _ _) h.completed

theorem drop (h : Requested A I) (state : StateHandle) : Keeps I (dropState A state) :=
  dropState_keeps state (h.exchange _ fun _ hnone => by cases hnone)
    (h.exchange _ fun _ hnames => (Option.some.inj hnames).symm)

theorem capture (h : Requested A I) (key : Key) : Keeps I (captureCurrent A key) := by
  have hcapture : Keeps I (captureCurrentState A key.tokens) :=
    captureCurrentState_keeps key.tokens (h.exchange _ fun _ hnone => by cases hnone)
      (fun _ => h.exchange _ fun _ hnames => (Option.some.inj hnames).symm)
      (h.exchange _ fun _ hnames => (Option.some.inj hnames).symm)
  have hflushed : Keeps I (captureFlushed A key) := by
    refine (hcapture.tryExcept fun e => ?_).bind fun captured => ?_
    · refine Keeps.bind ?_ fun _ => Keeps.raise e
      exact (h.reconcile.bind fun _ => Keeps.pure ()).tryExcept fun _ => Keeps.pure ()
    · refine Keeps.bind ((Keeps.ofExcept _).tryExcept fun e => ?_) fun _ => Keeps.pure _
      exact (h.drop captured.1).bind fun _ => Keeps.raise e
  refine (Keeps.ofExcept _).bind fun _ => (Keeps.gets _).bind fun pending => ?_
  dsimp only
  split
  · exact h.flush.bind fun _ => hflushed
  · exact hflushed

theorem applyNotices (h : Requested A I) (evicted : List String) :
    Keeps (Holding I) (applyRemoteEvictions A evicted) ∧
      Keeps (Holding I) (Managed.applyNotices A evicted) := by
  have happly : Keeps (Holding I) (applyRemoteEvictions A evicted) := by
    refine (Keeps.gets _).bind fun records => ?_
    dsimp only
    split
    · exact Keeps.pure []
    · refine (h.registry.forgetRemote _).bind fun removed => ?_
      exact (BackendInvariant.onBackend_keeps h.flush).bind fun _ => Keeps.pure removed
  refine ⟨happly, ?_⟩
  unfold Managed.applyNotices
  split
  · exact Keeps.pure ()
  · exact happly.bind fun _ => Keeps.pure ()

theorem captureState (h : Requested A I) (tokens : List ℤ) :
    Keeps (Holding I) (Managed.captureState A tokens) := by
  refine (BackendInvariant.onBackend_keeps (h.capture _)).bind fun captured => ?_
  exact (h.applyNotices captured.2).2.bind fun _ => Keeps.pure captured.1

theorem guardedAdmission (h : Requested A I) (state : StateHandle)
    {admission : Exec PyError PromptCache Bool} (hadmission : Keeps (Holding I) admission) :
    Keeps (Holding I) (Managed.guardedAdmission A state admission) := by
  have hdiscard : Keeps (Holding I) (onBackend (discardUnbound A state)) :=
    BackendInvariant.onBackend_keeps ((Keeps.ofExcept _).bind fun _ =>
      h.modify (fun _ => rfl) (fun _ => rfl) fun _ => rfl)
  refine Keeps.tryFinally (Keeps.tryExcept ?_ fun e => ?_) ?_
  · refine hadmission.bind fun accepted => ?_
    dsimp only
    split
    · exact hdiscard.bind fun _ => Keeps.pure accepted
    · exact Keeps.pure accepted
  · refine (Keeps.gets _).bind fun bound => ?_
    dsimp only
    split
    · exact hdiscard.bind fun _ => Keeps.raise e
    · exact Keeps.raise e
  · exact (BackendInvariant.onBackend_keeps h.flush).bind fun _ => Keeps.pure ()

theorem admitCaptured (h : Requested A I) (tokens : List ℤ) (state : StateHandle) (role : Role)
    (predecessor : Option (List ℤ)) :
    Keeps (Holding I) (Managed.admitCaptured A tokens state role predecessor) :=
  h.guardedAdmission state (h.registry.admitEntry trivial role _ _)

theorem captureAndAdmit (h : Requested A I) (tokens : List ℤ) (role : Role)
    (predecessor : Option (List ℤ)) :
    Keeps (Holding I) (Managed.captureAndAdmit A tokens role predecessor) :=
  (h.captureState tokens).bind fun state => h.admitCaptured tokens state role predecessor

theorem captureStableCandidate (h : Requested A I) (tokens : List ℤ) :
    Keeps (Holding I) (Managed.captureStableCandidate A tokens) := by
  have hadmission (state : StateHandle) (evicted : List String) :
      Keeps (Holding I) (admitStable A (cacheKey A tokens) state evicted) :=
    (h.applyNotices evicted).2.bind fun _ => h.registry.admitStableCandidate trivial state.nbytes
  refine (BackendInvariant.onBackend_keeps (h.capture (cacheKey A tokens))).bind fun captured => ?_
  exact h.guardedAdmission captured.1 (hadmission captured.1 captured.2)

theorem trimCache (h : Requested A I) (nSequences nBytes : Option ℤ) :
    Keeps (Holding I) (Managed.trimCache A nSequences nBytes) := by
  have hflush : Keeps (Holding I) (flushAfter A) :=
    (BackendInvariant.onBackend_keeps h.flush).bind fun _ => Keeps.pure ()
  exact (h.registry.trimTo nSequences nBytes).tryFinally hflush

theorem prepare (h : Requested A I) (tokens : List ℤ) :
    Keeps (Holding I) (Managed.prepare A tokens) := by
  unfold Managed.prepare Transport.prepare
  split
  · exact Keeps.raise _
  refine (BackendInvariant.onBackend_keeps (clearLiveSlot_keeps
    (h.exchange _ fun _ hnames => (Option.some.inj hnames).symm))).bind fun _ =>
      (Keeps.gets _).bind fun policy => ?_
  split
  · exact Keeps.pure none
  · refine Keeps.bind (BackendInvariant.onBackend_keeps ?_) fun _ => Keeps.pure _
    refine (Keeps.ofExcept _).bind fun _ => (Keeps.gets _).bind fun state? => ?_
    split
    · exact Keeps.raise _
    · exact (restoreState_keeps (h.exchange _ fun _ hnames =>
        (Option.some.inj hnames).symm)).bind fun _ => Keeps.pure _

theorem lookup (h : Requested A I) (namespaceArg : CacheNamespace) (tokens : List ℤ) :
    Keeps (Holding I) (Managed.lookup A namespaceArg tokens) := by
  unfold Managed.lookup Transport.lookup
  split
  · exact Keeps.raise _
  split
  · exact Keeps.raise _
  have hprobe : Keeps I (lookupAfterPolicy A tokens) :=
    lookupAfterPolicy_keeps (h.exchange _ fun _ hnone => by cases hnone)
      (h.exchange _ fun _ hnone => by cases hnone) (h.exchange _ fun _ hnone => by cases hnone)
  refine (h.prepare tokens).bind fun prepared =>
    (BackendInvariant.onBackend_keeps hprobe).bind fun observation => ?_
  split
  · split
    · exact Keeps.raise _
    · exact Keeps.pure observation
  · split
    · exact Keeps.raise _
    · have hhit (key : Key) : Keeps (Holding I) (observeHit key) := fun c hc => hc
      split
      · exact (hhit _).bind fun _ => Keeps.pure observation
      · exact Keeps.pure observation

theorem generationSafeExact (h : Requested A I) (namespaceArg : CacheNamespace) (tokens : List ℤ) :
    Keeps (Holding I) (Managed.generationSafeExact A namespaceArg tokens) := by
  refine (h.lookup namespaceArg tokens).bind fun observation => ?_
  split
  · exact Keeps.raise _
  · exact Keeps.pure observation

theorem ignoring {α : Type} {m : Exec PyError PromptCache α} (hm : Keeps (Holding I) m) :
    Keeps (Holding I) (Managed.ignoring m) := hm.bind fun _ => Keeps.pure none

/-- Every call of the facade, and a completion of the caller's own. -/
theorem perform (h : Requested A I) (op : Op) : Keeps (Holding I) (Managed.perform A op) := by
  cases op <;> unfold Managed.perform <;> dsimp only
  case complete prompt idSlot =>
    exact ignoring (BackendInvariant.onBackend_keeps
      (h.exchange _ fun _ hnone => by cases hnone))
  case captureCurrent tokens =>
    exact (h.captureState tokens).bind fun state => Keeps.pure (some state)
  case admitCaptured tokens state role predecessor =>
    exact ignoring (h.admitCaptured tokens state role predecessor)
  case captureAndAdmit tokens role predecessor =>
    exact ignoring (h.captureAndAdmit tokens role predecessor)
  case captureStableCandidate tokens => exact ignoring (h.captureStableCandidate tokens)
  case applyRemoteEvictions handles => exact ignoring (h.applyNotices handles).1
  case trimTo nSequences nBytes => exact ignoring (h.trimCache nSequences nBytes)
  case prepare tokens => exact ignoring (h.prepare tokens)
  case lookup namespaceArg tokens => exact ignoring (h.lookup namespaceArg tokens)
  case generationSafeExact namespaceArg tokens =>
    exact ignoring (h.generationSafeExact namespaceArg tokens)
  case reconcileOrphans => exact ignoring (BackendInvariant.onBackend_keeps h.reconcile)

/-- A whole session, whatever the calls and whatever happens to their requests. -/
theorem session (h : Requested A I) {config : PolicyConfig} {server : FreshServer A}
    (hstart : I (Session.start config server.server).cache.backend)
    {allowed : Session → Call → Prop} {s : Session} (hs : s.Reached A config server allowed) :
    I s.cache.backend := by
  refine Run.invariant (I := fun t : Session => I t.cache.backend) hstart ?_ hs
  intro t call ht _
  have hscripted : I (scripted t.cache call.script).backend :=
    h.rebound t.cache.backend _ rfl rfl rfl ht
  have hcall := (h.perform call.op).state hscripted
  unfold Session.step
  split
  · rename_i heq
    rwa [heq] at hcall
  · rename_i heq
    rwa [heq] at hcall

end Requested

/-! ## The handle counter -/

/-- A task gives out one handle name at most. -/
theorem Server.processTask_nextHandle (s : Server) (up : Upstream) (action : CacheAction) :
    (s.processTask up action).2.nextHandle ≤ s.nextHandle + 1 := by
  have houtcome := s.processTask_outcome up action
  generalize s.processTask up action = r at houtcome
  cases houtcome with
  | kept answer server hsame => exact hsame.nextHandle.le.trans (Nat.le_succ _)
  | dropped => rw [drop_frame]; exact Nat.le_succ _
  | unread => exact Nat.le_succ _
  | stored => exact le_rfl

/-- The counter is at most so far along as requests have been sent. -/
def World.Counted (w : World) : Prop := w.server.nextHandle ≤ w.requests.length + 1

theorem exchange_counted (request : Request) : Keeps World.Counted (exchange request) := by
  refine Keeps.of_state fun w h => ?_
  have hsent : w.sent.server.nextHandle ≤ w.requests.length + 1 := by
    unfold World.sent World.advance
    split
    · exact h
    dsimp only
    split
    · exact h
    · exact Nat.le_add_left _ _
  unfold World.Counted
  rw [Transport.requests_exchange, List.length_append, List.length_singleton]
  have hcases := exchange_cases request w
  generalize exchange request w = r at hcases ⊢
  cases hcases with
  | unsent => exact hsent.trans (Nat.le_succ _)
  | answered | lost =>
    have hserved : (w.sent.server.respond w.next request).2.nextHandle ≤
        w.sent.server.nextHandle + 1 :=
      Server.respond_state (P := fun s => s.nextHandle ≤ w.sent.server.nextHandle + 1)
        (Nat.le_succ _) (fun _ => Server.processTask_nextHandle _ _ _) (fun _ _ => Nat.le_succ _)
        request
    exact hserved.trans (Nat.succ_le_succ hsent)

theorem counted_requested (A : Adapter) : Requested A World.Counted where
  exchange request _ := exchange_counted request
  rebound w w' hserver _ hhistory h := by
    unfold World.Counted World.requests at h ⊢
    rwa [hserver, hhistory]
  listed _ _ _ h := h
  completed _ h := h

/-- In a run of fewer than `2 ^ 64 - 1` requests, over restarts and losses, the counter stays
below `2 ^ 64`: the 64-bit counter of the code does not wrap. -/
theorem handle_counter_bounded {A : Adapter} {config : PolicyConfig} {server : FreshServer A}
    (hfirst : server.server.nextHandle ≤ 1) {allowed : Session → Call → Prop} {s : Session}
    (h : s.Reached A config server allowed)
    (hrequests : s.cache.backend.requests.length < 2 ^ 64 - 1) :
    s.cache.backend.server.nextHandle < 2 ^ 64 := by
  have hcounted : s.cache.backend.Counted :=
    (counted_requested A).session (hfirst.trans (Nat.le_add_left _ _)) h
  unfold World.Counted at hcounted
  omega

/-! ## Other processes are left alone -/

theorem fenced_requested (A : Adapter) : Requested A (Fenced A) where
  exchange _ hsends := exchange_fenced hsends
  rebound _ _ hserver hepochs hhistory h := h.rebound hserver hepochs hhistory
  listed _ _ _ h := h.noted trivial
  completed _ h := h.noted trivial

theorem open_fenced {A : Adapter} (config : PolicyConfig) (server : FreshServer A) :
    Fenced A (Session.start config server.server).cache.backend where
  wellFormed := server.wellFormed
  left hepoch := absurd server.epoch hepoch
  untouched hepoch := absurd server.epoch hepoch
  refused _ hevent := absurd hevent List.not_mem_nil

/-- Whatever the client calls, whichever requests are lost and whenever the server restarts: a
process of another epoch than the client's has the empty store that it was started with, and
none of the client's requests but a completion ever changed anything of such a process. -/
theorem other_processes_untouched {A : Adapter} {config : PolicyConfig} {server : FreshServer A}
    {allowed : Session → Call → Prop} {s : Session} (h : s.Reached A config server allowed) :
    (s.cache.backend.server.epoch ≠ A.managedEpoch → s.cache.backend.server.states = .empty ∧
      s.cache.backend.server.nextHandle = 1) ∧
    ∀ request delivery before after bound pending,
      .exchanged request delivery before after bound pending ∈ s.cache.backend.history →
      before.epoch ≠ A.managedEpoch →
      (∀ prompt idSlot, request ≠ .completion prompt idSlot) → after = before := by
  have hfenced := (fenced_requested A).session (open_fenced config server) h
  refine ⟨hfenced.untouched, fun request delivery before after bound pending hevent => ?_⟩
  exact hfenced.refused _ hevent

theorem sample_restarted :
    Session.Reached Sample.adapter Sample.config Sample.server (fun _ _ => True) Sample.restarted :=
  .next (.next .start trivial) trivial

/-- The capture that met the restart has left nothing behind. -/
theorem restarted_process_untouched :
    (Sample.restarted.cache.backend.server.epoch ≠ Sample.adapter.managedEpoch →
      Sample.restarted.cache.backend.server.states = .empty ∧
        Sample.restarted.cache.backend.server.nextHandle = 1) ∧
    ∀ request delivery before after bound pending,
      .exchanged request delivery before after bound pending ∈
        Sample.restarted.cache.backend.history →
      before.epoch ≠ Sample.adapter.managedEpoch →
      (∀ prompt idSlot, request ≠ .completion prompt idSlot) → after = before :=
  other_processes_untouched sample_restarted

/-! ## Calls after a restart -/

/-- A process of another epoch answers now, and the client has kept the bindings of `w₀` and
its drops still to be made. -/
structure StaleFrom (A : Adapter) (w₀ w : World) : Prop where
  epoch : w.server.epoch ≠ A.managedEpoch
  left : A.managedEpoch ∈ w.pastEpochs
  records : w.records = w₀.records
  pending : ∀ name ∈ w₀.pending, name ∉ w₀.bound → name ∈ w.pending

namespace StaleFrom

variable {A : Adapter} {w₀ w : World}

theorem bound (h : StaleFrom A w₀ w) : w.bound = w₀.bound := by
  rw [World.bound, World.bound, h.records]

/-- A later restart does not bring the client's epoch back. -/
theorem sent (h : StaleFrom A w₀ w) : StaleFrom A w₀ w.sent := by
  unfold World.sent World.advance
  split
  · exact ⟨h.epoch, h.left, h.records, h.pending⟩
  dsimp only
  split
  · exact ⟨h.epoch, h.left, h.records, h.pending⟩
  · rename_i epoch _ hfresh
    refine ⟨fun heq => hfresh ?_, List.mem_cons_of_mem _ h.left, h.records, h.pending⟩
    have heq : epoch = A.managedEpoch := heq
    exact heq ▸ List.mem_cons_of_mem _ h.left

/-- Unqueuing a handle that is bound. -/
theorem unqueue (h : StaleFrom A w₀ w) {handle : String} (hbound : handle ∈ w₀.bound) :
    StaleFrom A w₀ (w.unqueue handle) := by
  refine ⟨h.epoch, h.left, h.records, fun name hname hunbound => ?_⟩
  have hne : name ≠ handle := fun heq => hunbound (heq ▸ hbound)
  exact Dict.mem_keys_erase.mpr ⟨h.pending name hname hunbound, hne⟩

end StaleFrom

section Stale

variable {A : Adapter} {w₀ : World}

theorem exchange_stale {request : Request} (hsends : A.Sends request) :
    Keeps (StaleFrom A w₀) (exchange request) := by
  refine Keeps.of_state fun w h => ?_
  have hsent := h.sent
  have hcases := exchange_cases request w
  generalize exchange request w = r at hcases ⊢
  cases hcases with
  | unsent => exact ⟨hsent.epoch, hsent.left, hsent.records, hsent.pending⟩
  | answered | lost =>
    refine ⟨?_, hsent.left, hsent.records, hsent.pending⟩
    exact (Server.respond_foreign_store w.next hsends hsent.epoch).1.trans_ne hsent.epoch

/-- No mutation returns. -/
theorem postManaged_stale {request : Request} (hnames : request.epoch? = some A.managedEpoch) :
    Fails (StaleFrom A w₀) (postManaged A request) := by
  refine Fails.bind (m := exchange request) fun w h => ?_
  have hsends : A.Sends request := fun epoch hepoch => by
    rw [hnames] at hepoch
    exact (Option.some.inj hepoch).symm
  have hexchange : Keeps (StaleFrom A w₀) (exchange request) := exchange_stale hsends
  have hstate := hexchange.state h
  rcases hrun : exchange request w with ⟨⟨e⟩ | ⟨reply⟩, w'⟩ <;> rw [hrun] at hstate
  · exact hstate
  · obtain ⟨e, hrefused⟩ :=
      Server.respond_refused w.next hnames fun heq => h.sent.epoch heq.symm
    have hreply := (exchange_ok hrun).1
    rw [hrefused] at hreply
    cases hreply

/-- No read of the store returns. -/
theorem managedStore_stale : Fails (StaleFrom A w₀) (managedStore A) := by
  intro w h
  have hlist : Keeps (StaleFrom A w₀) (exchange .list) :=
    exchange_stale fun _ hnone => by cases hnone
  have hstate := (managedStore_keeps (A := A) hlist).state h
  rcases hrun : managedStore A w with ⟨⟨e⟩ | ⟨store⟩, w'⟩ <;> rw [hrun] at hstate
  · exact hstate
  · exact absurd (managedStore_ok hrun).2 hstate.epoch

theorem clearLiveSlot_stale : Fails (StaleFrom A w₀) (clearLiveSlot A) :=
  (postManaged_stale rfl).bind

theorem dropState_stale (state : StateHandle) : Fails (StaleFrom A w₀) (dropState A state) := by
  refine Fails.after (Keeps.ofExcept _) fun _ => Fails.bind ?_
  exact Fails.tryExcept (postManaged_stale rfl).bind fun e => managedStore_stale.bind

theorem captureCurrentState_stale (tokens : List ℤ) :
    Fails (StaleFrom A w₀) (captureCurrentState A tokens) :=
  Fails.after (Keeps.ofExcept _) fun _ => (postManaged_stale rfl).bind

theorem reconcile_stale : Fails (StaleFrom A w₀) (reconcileOrphanedHandles A) :=
  managedStore_stale.bind

/-- A flush unqueues what is bound and raises at the first handle that is not. -/
theorem flushDrops_stale : Keeps (StaleFrom A w₀) (flushDrops A) := by
  intro w h
  have hloop : Keeps (StaleFrom A w₀)
      (Exec.foldEach (flushDrop A w.bound) 0 w.pendingDrops.items) := by
    refine Keeps.foldEach 0 fun item _ dropped => ?_
    unfold flushDrop
    split
    · rename_i hbound
      rw [h.bound] at hbound
      exact (Keeps.modify fun w' hw' => hw'.unqueue hbound).bind fun _ => Keeps.pure dropped
    · exact (dropState_stale item.2).bind.keeps
  exact hloop w h

theorem captureFlushed_stale (key : Key) : Fails (StaleFrom A w₀) (captureFlushed A key) := by
  refine Fails.bind ((captureCurrentState_stale key.tokens).tryExcept fun e => ?_)
  refine Fails.after (Keeps.tryExcept ?_ fun _ => Keeps.pure ()) fun _ => Fails.raise e
  exact reconcile_stale.keeps.bind fun _ => Keeps.pure ()

theorem captureCurrent_stale (key : Key) : Fails (StaleFrom A w₀) (captureCurrent A key) := by
  refine Fails.after (Keeps.ofExcept _) fun _ => Fails.after (Keeps.gets _) fun pending => ?_
  dsimp only
  split
  · exact Fails.after flushDrops_stale fun _ => captureFlushed_stale key
  · exact captureFlushed_stale key

/-- The client is stale as in `c₀`, and its policy has not changed. -/
def StaleClient (A : Adapter) (c₀ c : PromptCache) : Prop :=
  StaleFrom A c₀.backend c.backend ∧ c.policy = c₀.policy

variable {c₀ : PromptCache}

theorem onBackend_stale {α : Type} {m : Exec PyError World α}
    (hm : Fails (StaleFrom A c₀.backend) m) :
    Fails (StaleClient A c₀) (onBackend m : Exec PyError PromptCache α) :=
  Triple.zoom fun c hc => (hm c.backend hc.1).imp (fun _ _ hfalse => hfalse)
    fun _ _ hw => ⟨hw, hc.2⟩

theorem prepare_stale (tokens : List ℤ) : Fails (StaleClient A c₀) (prepare A tokens) := by
  unfold prepare Transport.prepare
  split
  · exact Fails.raise _
  · exact (onBackend_stale clearLiveSlot_stale).bind

theorem lookup_stale (namespaceArg : CacheNamespace) (tokens : List ℤ) :
    Fails (StaleClient A c₀) (lookup A namespaceArg tokens) := by
  unfold lookup Transport.lookup
  split
  · exact Fails.raise _
  split
  · exact Fails.raise _
  · exact (prepare_stale tokens).bind

end Stale

/-- The calls that need an answer from the server. -/
def Op.NeedsServer : Op → Prop
  | .captureCurrent .. | .captureAndAdmit .. | .captureStableCandidate .. | .prepare ..
  | .lookup .. | .generationSafeExact .. | .reconcileOrphans => True
  | .complete .. | .admitCaptured .. | .applyRemoteEvictions .. | .trimTo .. => False

theorem perform_stale {A : Adapter} {c₀ : PromptCache} {op : Op} (hneeds : op.NeedsServer) :
    Fails (StaleClient A c₀) (perform A op) := by
  have hcapture (key : Key) :
      Fails (StaleClient A c₀) (onBackend (captureCurrent A key) : Exec PyError PromptCache _) :=
    onBackend_stale (captureCurrent_stale key)
  cases op with
  | complete | admitCaptured | applyRemoteEvictions | trimTo => exact hneeds.elim
  | captureCurrent tokens => exact (hcapture _).bind.bind
  | captureAndAdmit tokens role predecessor => exact (hcapture _).bind.bind.bind
  | captureStableCandidate tokens => exact (hcapture _).bind.bind
  | prepare tokens => exact (prepare_stale tokens).bind
  | lookup namespaceArg tokens => exact (lookup_stale namespaceArg tokens).bind
  | generationSafeExact namespaceArg tokens => exact (lookup_stale namespaceArg tokens).bind.bind
  | reconcileOrphans => exact (onBackend_stale reconcile_stale).bind

/-- Once another process answers, a call that needs the server raises, whatever happens to its
requests and whenever the server restarts again. It leaves the policy and the bindings as they
are, keeps the drops still to be made, and no process of the client's epoch comes back. -/
theorem stale_client_fails_closed {A : Adapter} {config : PolicyConfig} {server : FreshServer A}
    {allowed : Session → Call → Prop} {s : Session} (h : s.Reached A config server allowed)
    (hstale : s.cache.backend.server.epoch ≠ A.managedEpoch) (call : Call)
    (hneeds : call.op.NeedsServer) :
    ∃ e c, perform A call.op (scripted s.cache call.script) = (.error e, c) ∧
      c.policy = s.cache.policy ∧ c.backend.records = s.cache.backend.records ∧
      (∀ name ∈ s.cache.backend.pending, name ∉ s.cache.backend.bound →
        name ∈ c.backend.pending) ∧
      c.backend.server.epoch ≠ A.managedEpoch ∧ c.backend.server.states = .empty := by
  have hfenced := (fenced_requested A).session (open_fenced config server) h
  have hstart : StaleClient A s.cache (scripted s.cache call.script) :=
    ⟨⟨hstale, hfenced.left hstale, rfl, fun _ hname _ => hname⟩, rfl⟩
  obtain ⟨e, c, hrun, ⟨hworld, hpolicy⟩⟩ := (perform_stale hneeds).error hstart
  refine ⟨e, c, hrun, hpolicy, hworld.records, hworld.pending, hworld.epoch, ?_⟩
  have hscripted : Fenced A (scripted s.cache call.script).backend := hfenced.rebound rfl rfl rfl
  have hafter := ((fenced_requested A).perform call.op).state hscripted
  rw [hrun] at hafter
  exact (hafter.untouched hworld.epoch).1

/-- The next capture raises, and the state of the earlier epoch stays bound. -/
theorem restarted_capture_fails :
    ∃ e c, perform Sample.adapter (Sample.capture []).op
        (scripted Sample.restarted.cache (Sample.capture []).script) = (.error e, c) ∧
      c.policy = Sample.restarted.cache.policy ∧
      c.backend.records = Sample.restarted.cache.backend.records ∧
      (∀ name ∈ Sample.restarted.cache.backend.pending,
        name ∉ Sample.restarted.cache.backend.bound → name ∈ c.backend.pending) ∧
      c.backend.server.epoch ≠ Sample.adapter.managedEpoch ∧ c.backend.server.states = .empty :=
  stale_client_fails_closed sample_restarted (by decide +kernel) (Sample.capture []) trivial

end StateBraid.Managed
