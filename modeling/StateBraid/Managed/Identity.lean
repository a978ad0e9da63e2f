import StateBraid.Managed.Later
import StateBraid.Managed.SessionFacts

/-!
# Names keep their states

A handle carries the length of its prompt and not the prompt. That the key it is bound to
has the tokens of the state behind it rests on the server: it compares the tokens at the
capture, it uses no number twice in an epoch, and a later epoch answers nothing. The
identity of every binding holds over lost requests and responses, reclaims and restarts.
-/

namespace StateBraid.Managed
open Library Policy Coordinator LlamaCpp Exec

/-! ## Names and what they were issued for -/

/-- The server at both ends of a request, or when a reconciliation had read the store. -/
def Event.ends : Event → List Server
  | .exchanged _ _ before after _ _ => [before, after]
  | .orphansListed server _ _ => [server]
  | .reconcileCompleted => []

/-- The handles that were bound or queued at the event. -/
def Event.known : Event → List String
  | .exchanged _ _ _ _ bound pending => bound ++ pending
  | .orphansListed _ bound pending => bound ++ pending
  | .reconcileCompleted => []

/-- The event is a capture that, in this epoch, stored the state under the name. -/
def Event.Issues (epoch name : String) (state : ManagedState) : Event → Prop
  | .exchanged (.capture ..) _ before after _ _ =>
    before.epoch = epoch ∧ name = formatHandle before.nextHandle ∧
      after.nextHandle ≠ before.nextHandle ∧ after.stateOf name = some state
  | _ => False

/-- A capture of this history issued the name for the state. -/
def IssuedFor (history : List Event) (epoch name : String) (state : ManagedState) : Prop :=
  ∃ event ∈ history, event.Issues epoch name state

theorem IssuedFor.mono {history history' : List Event} {epoch name : String} {state : ManagedState}
    (h : IssuedFor history epoch name state) (hpast : ∀ event ∈ history, event ∈ history') :
    IssuedFor history' epoch name state :=
  let ⟨event, hevent, hissues⟩ := h
  ⟨event, hpast event hevent, hissues⟩

theorem IssuedFor.cons_inv {event : Event} {history : List Event} {epoch name : String}
    {state : ManagedState} (h : IssuedFor (event :: history) epoch name state) :
    event.Issues epoch name state ∨ IssuedFor history epoch name state := by
  obtain ⟨e, he, hissues⟩ := h
  rcases List.mem_cons.mp he with rfl | he
  · exact Or.inl hissues
  · exact Or.inr ⟨e, he, hissues⟩

namespace World

/-- The server now, or at a moment of the history. -/
def Seen (w : World) (s : Server) : Prop := s = w.server ∨ ∃ event ∈ w.history, s ∈ event.ends

/-- The client knows the handle, or knew it at a moment of the history. -/
def Held (w : World) (name : String) : Prop :=
  w.Tracked name ∨ ∃ event ∈ w.history, name ∈ event.known

theorem after_history (w : World) (request : Request) (delivery : Delivery) (server : Server) :
    (w.after request delivery server).history =
      .exchanged request delivery w.server server w.bound w.pending :: w.history := rfl

variable {w w' : World} {event : Event}

/-- An event that shows only servers seen before adds at most the server that it leaves. -/
theorem Seen.of_cons (hhistory : w'.history = event :: w.history)
    (hends : ∀ s ∈ event.ends, s = w.server ∨ s = w'.server) {s : Server} (hseen : w'.Seen s) :
    s = w'.server ∨ w.Seen s := by
  rcases hseen with hself | ⟨e, he, hs⟩
  · exact Or.inl hself
  · rw [hhistory] at he
    rcases List.mem_cons.mp he with rfl | he
    · exact (hends s hs).symm.imp_right Or.inl
    · exact Or.inr (Or.inr ⟨e, he, hs⟩)

theorem Held.of_cons (hhistory : w'.history = event :: w.history)
    (htracked : ∀ {name}, w'.Tracked name → w.Tracked name)
    (hknown : ∀ name ∈ event.known, w.Tracked name) {name : String} (hheld : w'.Held name) :
    w.Held name := by
  rcases hheld with hnow | ⟨e, he, hmem⟩
  · exact Or.inl (htracked hnow)
  · rw [hhistory] at he
    rcases List.mem_cons.mp he with rfl | he
    · exact Or.inl (hknown name hmem)
    · exact Or.inr ⟨e, he, hmem⟩

end World

/-- What a server of the client's epoch shows: its numbers are among those given out until
now, and every name resolves to what it was issued for. -/
structure Faithful (A : Adapter) (w : World) (s : Server) : Prop where
  wellFormed : s.WellFormed
  nextHandle : w.server.epoch = A.managedEpoch → s.nextHandle ≤ w.server.nextHandle
  resolves : ∀ {name state found}, IssuedFor w.history A.managedEpoch name state →
    s.stateOf name = some found → found = state

/-- Every server seen in the client's epoch is faithful, that epoch does not come back, and
what the client ever knew was issued to it. `past` is a part of the history. -/
structure Identity (A : Adapter) (past : List Event) (w : World) : Prop where
  past : ∀ event ∈ past, event ∈ w.history
  wellFormed : w.server.WellFormed
  left : w.server.epoch ≠ A.managedEpoch → A.managedEpoch ∈ w.pastEpochs
  numbered : w.server.epoch = A.managedEpoch → ∀ {name state},
    IssuedFor w.history A.managedEpoch name state →
      ∃ n < w.server.nextHandle, name = formatHandle n
  faithful : ∀ {s}, w.Seen s → s.epoch = A.managedEpoch → Faithful A w s
  held : ∀ {name}, w.Held name → ∃ state, IssuedFor w.history A.managedEpoch name state

namespace Identity

variable {A : Adapter} {past : List Event} {w : World}

/-- Moving handles that were issued, without a request. -/
theorem rebound (h : Identity A past w) {w' : World} (hserver : w'.server = w.server)
    (hepochs : w'.pastEpochs = w.pastEpochs) (hhistory : w'.history = w.history)
    (htracked : ∀ {name}, w'.Tracked name →
      w.Tracked name ∨ ∃ state, IssuedFor w.history A.managedEpoch name state) :
    Identity A past w' where
  past := hhistory ▸ h.past
  wellFormed := hserver ▸ h.wellFormed
  left hepoch := by
    rw [hserver] at hepoch
    rw [hepochs]
    exact h.left hepoch
  numbered hepoch {name state} hissued := by
    rw [hserver] at hepoch ⊢
    rw [hhistory] at hissued
    exact h.numbered hepoch hissued
  faithful {s} hseen hepoch := by
    rw [World.Seen, hserver, hhistory] at hseen
    have hfaithful := h.faithful hseen hepoch
    exact ⟨hfaithful.wellFormed, hserver ▸ hfaithful.nextHandle, hhistory ▸ hfaithful.resolves⟩
  held {name} hheld := by
    rw [World.Held, hhistory] at hheld
    rw [hhistory]
    rcases hheld with hnow | hbefore
    · exact (htracked hnow).elim (fun hheld => h.held (Or.inl hheld)) id
    · exact h.held (Or.inr hbefore)

/-- The next exchange may begin with a restart. -/
theorem sent (h : Identity A past w) : Identity A past w.sent := by
  unfold World.sent World.advance
  split
  · exact h.rebound rfl rfl rfl Or.inl
  · rename_i epoch _
    dsimp only
    split_ifs with hused
    · exact h.rebound rfl rfl rfl Or.inl
    -- the new epoch is neither the last one nor an earlier one, so it is not the client's
    have hne : epoch ≠ A.managedEpoch := by
      rintro rfl
      by_cases hepoch : w.server.epoch = A.managedEpoch
      · exact hused (hepoch ▸ List.mem_cons_self)
      · exact hused (List.mem_cons_of_mem _ (h.left hepoch))
    refine ⟨h.past, .restart _ _, fun _ => ?_, fun hepoch => absurd hepoch hne,
      fun {s} hseen hepoch => ?_, h.held⟩
    · by_cases hepoch : w.server.epoch = A.managedEpoch
      · exact hepoch ▸ List.mem_cons_self
      · exact List.mem_cons_of_mem _ (h.left hepoch)
    · rcases hseen with rfl | hold
      · exact absurd hepoch hne
      · have hfaithful := h.faithful (Or.inr hold) hepoch
        exact ⟨hfaithful.wellFormed, fun hepoch => absurd hepoch hne, hfaithful.resolves⟩

/-- A mark in the history that issues nothing. -/
theorem note (h : Identity A past w) {event : Event} (hends : ∀ s ∈ event.ends, s = w.server)
    (hknown : ∀ name ∈ event.known, w.Tracked name)
    (hissues : ∀ name state, ¬ event.Issues A.managedEpoch name state) :
    Identity A past (w.note event) := by
  have hold {name : String} {state : ManagedState}
      (hissued : IssuedFor (w.note event).history A.managedEpoch name state) :
      IssuedFor w.history A.managedEpoch name state :=
    hissued.cons_inv.resolve_left (hissues name state)
  have hhistory : (w.note event).history = event :: w.history := rfl
  refine ⟨fun e he => List.mem_cons_of_mem _ (h.past e he), h.wellFormed, h.left,
    fun hepoch _ _ hissued => h.numbered hepoch (hold hissued), fun {s} hseen hepoch => ?_,
    fun {name} hheld => ?_⟩
  · have hseen' : w.Seen s :=
      (hseen.of_cons hhistory fun s hs => Or.inl (hends s hs)).elim Or.inl id
    have hfaithful := h.faithful hseen' hepoch
    exact ⟨hfaithful.wellFormed, hfaithful.nextHandle,
      fun hissued => hfaithful.resolves (hold hissued)⟩
  · obtain ⟨state, hissued⟩ := h.held (hheld.of_cons hhistory id hknown)
    exact ⟨state, hissued.mono fun _ => List.mem_cons_of_mem _⟩

/-- What is issued after a request was issued before, or by that request as its new name. -/
theorem issued_after {request : Request} {delivery : Delivery} {server : Server} {name : String}
    {state : ManagedState}
    (hissued : IssuedFor (w.after request delivery server).history A.managedEpoch name state) :
    IssuedFor w.history A.managedEpoch name state ∨
      w.server.epoch = A.managedEpoch ∧ name = formatHandle w.server.nextHandle ∧
        server.nextHandle ≠ w.server.nextHandle ∧ server.stateOf name = some state := by
  rcases hissued.cons_inv with hissue | hbefore
  · cases request with
    | capture => exact Or.inr hissue
    | _ => exact hissue.elim
  · exact Or.inl hbefore

/-- The server that a request leaves: the numbers before its own name resolve as they did. -/
theorem faithful_now (h : Identity A past w) {request : Request} {delivery : Delivery}
    {server : Server} (hlater : w.server.Later server) (hepoch : server.epoch = A.managedEpoch) :
    Faithful A (w.after request delivery server) server := by
  have hepoch' : w.server.epoch = A.managedEpoch := hlater.epoch.symm.trans hepoch
  refine ⟨hlater.wellFormed, fun _ => le_rfl, fun {name state found} hissued hfound => ?_⟩
  rcases issued_after hissued with hbefore | ⟨-, -, -, hstate⟩
  · obtain ⟨n, hn, rfl⟩ := h.numbered hepoch' hbefore
    rcases hlater.stateOf n hn with heq | hnone
    · exact (h.faithful (Or.inl rfl) hepoch').resolves hbefore (heq ▸ hfound)
    · rw [hnone] at hfound
      cases hfound
  · rw [hstate] at hfound
    exact (Option.some.inj hfound).symm

/-- A server seen earlier: the new name was not given out yet. -/
theorem faithful_before (h : Identity A past w) {request : Request} {delivery : Delivery}
    {server s : Server} (hlater : w.server.Later server) (hseen : w.Seen s)
    (hepoch : s.epoch = A.managedEpoch) : Faithful A (w.after request delivery server) s := by
  have hfaithful := h.faithful hseen hepoch
  refine ⟨hfaithful.wellFormed, fun hnow => ?_, fun {name state found} hissued hfound => ?_⟩
  · exact (hfaithful.nextHandle (hlater.epoch.symm.trans hnow)).trans hlater.nextHandle
  · rcases issued_after hissued with hbefore | ⟨hnow, rfl, -, -⟩
    · exact hfaithful.resolves hbefore hfound
    · obtain ⟨n, hn, hname⟩ := hfaithful.wellFormed.numbered
        (Server.alive_iff.mpr ⟨found, hfound⟩)
      have hle := hfaithful.nextHandle hnow
      exact absurd (formatHandle_injective hname) (by omega)

/-- A request that a server later in its epoch has served: only a capture issues a name, and
the name is new. -/
theorem after (h : Identity A past w) (request : Request) (delivery : Delivery) {server : Server}
    (hlater : w.server.Later server) : Identity A past (w.after request delivery server) where
  past e he := List.mem_cons_of_mem _ (h.past e he)
  wellFormed := hlater.wellFormed
  left hepoch := h.left (hlater.epoch ▸ hepoch)
  numbered hepoch {name state} hissued := by
    rcases issued_after hissued with hold | ⟨-, rfl, hne, -⟩
    · obtain ⟨n, hn, hname⟩ := h.numbered (hlater.epoch.symm.trans hepoch) hold
      exact ⟨n, lt_of_lt_of_le hn hlater.nextHandle, hname⟩
    · exact ⟨_, lt_of_le_of_ne hlater.nextHandle (Ne.symm hne), rfl⟩
  faithful {s} hseen hepoch := by
    have hcases : s = server ∨ w.Seen s :=
      hseen.of_cons (w.after_history request delivery server) fun s hs => List.mem_pair.mp hs
    rcases hcases with rfl | hold
    · exact h.faithful_now hlater hepoch
    · exact h.faithful_before hlater hold hepoch
  held {name} hheld := by
    have hheld' : w.Held name :=
      hheld.of_cons (w.after_history request delivery server) id
        fun _ hmem => List.mem_append.mp hmem
    obtain ⟨state, hissued⟩ := h.held hheld'
    exact ⟨state, hissued.mono fun _ => List.mem_cons_of_mem _⟩

end Identity

/-- Every request keeps it, over a restart or not. -/
theorem exchange_identity (A : Adapter) (past : List Event) (request : Request) :
    Keeps (Identity A past) (exchange request) := by
  refine Keeps.of_state fun w h => ?_
  have hsent := h.sent
  have hcases := exchange_cases request w
  generalize exchange request w = r at hcases ⊢
  cases hcases with
  | unsent => exact hsent.after _ _ (.refl hsent.wellFormed)
  | answered | lost => exact hsent.after _ _ (.respond hsent.wellFormed _ _)

section Keeps

variable {A : Adapter} {past : List Event}

theorem flushDrops_identity (A : Adapter) (past : List Event) :
    Keeps (Identity A past) (flushDrops A) :=
  flushDrops_keeps (exchange_identity A past _) (fun _ => exchange_identity A past _)
    fun _ _ h => h.rebound rfl rfl rfl fun htracked =>
      Or.inl (htracked.imp_right fun hmem => (Dict.mem_keys_erase.mp hmem).1)

theorem reconcileOrphanedHandles_identity (A : Adapter) (past : List Event) :
    Keeps (Identity A past) (reconcileOrphanedHandles A) :=
  reconcileOrphanedHandles_keeps (exchange_identity A past _) (fun _ => exchange_identity A past _)
    (fun _ h => h.note (by simp [Event.ends]) (fun _ => List.mem_append.mp) fun _ _ => id)
    (fun _ h => h.note (by simp [Event.ends]) (by simp [Event.known]) fun _ _ => id)

theorem captureCurrentState_identity (A : Adapter) (past : List Event) (tokens : List ℤ) :
    Keeps (Identity A past) (captureCurrentState A tokens) :=
  captureCurrentState_keeps tokens (exchange_identity A past _)
    (fun _ => exchange_identity A past _) (exchange_identity A past _)

end Keeps

/-! ## Bindings -/

/-- The handle was issued for a state with exactly the tokens of the key. -/
def Stands (A : Adapter) (history : List Event) (key : Key) (state : StateHandle) : Prop :=
  ∃ stored, IssuedFor history A.managedEpoch state.handle stored ∧ stored.tokens = key.tokens

theorem Stands.mono {A : Adapter} {history history' : List Event} {key : Key} {state : StateHandle}
    (h : Stands A history key state) (hpast : ∀ event ∈ history, event ∈ history') :
    Stands A history' key state :=
  let ⟨stored, hissued, htokens⟩ := h
  ⟨stored, hissued.mono hpast, htokens⟩

/-- Every binding, and the state in hand, stands for the tokens of its key. -/
structure Identified (A : Adapter) (φ : Phase) (c : PromptCache) : Prop where
  identity : Identity A [] c.backend
  bound : ∀ {k st}, c.backend.records.get? k = some st → Stands A c.backend.history k st
  inHand : ∀ key state, φ = .holding key state → Stands A c.backend.history key state

namespace Identified

variable {A : Adapter} {φ φ' : Phase} {c c' : PromptCache}

/-- The world as the past of what comes next. -/
theorem here (h : Identified A φ c) : Identity A c.backend.history c.backend :=
  { h.identity with past := fun _ => id }

/-- Requests that leave the registry as it is, except for the queue. -/
theorem served (h : Identified A φ c) {w : World} (hw : Identity A c.backend.history w)
    (hrecords : w.records = c.backend.records) : Identified A φ { c with backend := w } where
  identity := { hw with past := by simp }
  bound hst := (h.bound (hrecords ▸ hst)).mono hw.past
  inHand key state hhold := (h.inHand key state hhold).mono hw.past

theorem release (h : Identified A φ c) (hφ : ∀ key state, φ' ≠ .holding key state) :
    Identified A φ' c where
  identity := h.identity
  bound := h.bound
  inHand key state hhold := absurd hhold (hφ key state)

/-- Rebinding puts every handle under a key that it stands for. -/
theorem rebind (h : Identified A φ c) {offered : Option (Key × StateHandle)}
    (hrebinds : Rebinds A offered c c')
    (hoffered : ∀ o ∈ offered, Stands A c.backend.history o.1 o.2) : Identified A φ c' where
  identity := h.identity.rebound hrebinds.rebound.server hrebinds.rebound.pastEpochs
    hrebinds.rebound.history fun htracked => by
      rcases hrebinds.tracked htracked with hold | ⟨o, ho, rfl⟩
      · exact Or.inl hold
      · obtain ⟨stored, hissued, -⟩ := hoffered o ho
        exact Or.inr ⟨stored, hissued⟩
  bound {k st} hst := by
    rw [hrebinds.rebound.history]
    rcases hrebinds.records hst with hold | hoffer
    · exact h.bound hold
    · exact hoffered (k, st) hoffer
  inHand := hrebinds.rebound.history ▸ h.inHand

/-- Forgetting takes bindings away. -/
theorem forgot (h : Identified A φ c) {handles : List String} (hforgets : Forgets A handles c c') :
    Identified A φ c' where
  identity := h.identity.rebound hforgets.server hforgets.pastEpochs hforgets.history
    fun htracked => Or.inl (hforgets.tracked htracked)
  bound hst := by
    rw [hforgets.history]
    exact h.bound (hforgets.records.mp hst).1
  inHand := hforgets.history ▸ h.inHand

theorem flushed (h : Identified A φ c) : Identified A φ (flushed A c) := by
  have hkept := (flushDrops_identity A c.backend.history).state h.here
  have hdrains := flushDrops_drains (A := A) (w := c.backend)
  refine h.served hkept ?_
  rcases hrun : flushDrops A c.backend with ⟨⟨e⟩ | ⟨n⟩, w⟩ <;> rw [hrun] at hdrains
  · exact hdrains.records
  · exact hdrains.1.records

theorem reconciled (h : Identified A φ c) : Identified A φ (reconciled A c) :=
  h.served ((reconcileOrphanedHandles_identity A c.backend.history).state h.here)
    (reconcileOrphanedHandles_registry A c.backend).1

theorem capture (h : Identified A φ c) {tokens : List ℤ}
    {r : Except PyError (StateHandle × List String)} {w : World}
    (hrun : captureCurrentState A tokens c.backend = (r, w)) :
    Identified A φ { c with backend := w } := by
  have hkept := (captureCurrentState_identity A c.backend.history tokens).state h.here
  rw [hrun] at hkept
  exact h.served hkept (captureCurrentState_registry hrun).1

/-- The server has compared the tokens of a capture that returned. -/
theorem captured_stands {w w' : World} {tokens : List ℤ} {state : StateHandle}
    {evicted : List String} (hw : w.server.WellFormed)
    (h : captureCurrentState A tokens w = (.ok (state, evicted), w')) :
    Stands A w'.history (cacheKey A tokens) state := by
  obtain ⟨slot, -, rfl, -, hepoch, rfl, -, rfl⟩ := capture_returned hw h
  have hsent := World.sent_wellFormed hw
  refine ⟨w.sent.server.snapshot slot, ⟨_, List.mem_cons_self, hepoch, rfl, ?_, ?_⟩, rfl⟩
  · exact Nat.succ_ne_self _
  · exact (Server.stateOf_captured hsent _ _ _).trans (if_pos rfl)

theorem captured (h : Identified A .idle c) {tokens : List ℤ} {state : StateHandle}
    {evicted : List String} {w : World}
    (hrun : captureCurrentState A tokens c.backend = (.ok (state, evicted), w))
    (hforgets : Forgets A evicted { c with backend := w } c') :
    Identified A (.holding (cacheKey A tokens) state) c' :=
  have hafter := (h.capture hrun).forgot hforgets
  { identity := hafter.identity
    bound := hafter.bound
    inHand := fun _ _ hhold => by
      cases hhold
      rw [hforgets.history]
      exact captured_stands h.identity.wellFormed hrun }

end Identified

theorem identified_ledger (A : Adapter) : Ledger A (Identified A) where
  wellFormed h := h.identity.wellFormed
  passive {c request} _ _ h :=
    h.served ((exchange_identity A c.backend.history request).state h.here)
      (exchange_registry request c.backend).1
  closing h := h.release (by simp)
  flush _ h := (h.release (by simp)).flushed
  reconcile _ h := h.reconciled
  captureFailed _ _ h hrun := h.capture hrun
  captured _ _ h hrun hforgets := h.captured hrun hforgets
  accepted h hrebinds _ :=
    (h.rebind hrebinds (by simpa using h.inHand _ _ rfl)).release (by simp)
  kept h hrebinds _ := h.rebind hrebinds (by simpa using h.inHand _ _ rfl)
  discarded {c key state} h :=
    { identity := h.identity.rebound rfl rfl rfl fun {name} htracked => by
        rcases htracked with hbound | hpending
        · exact Or.inl (Or.inl hbound)
        · rcases Dict.mem_keys_insert.mp hpending with rfl | hold
          · obtain ⟨stored, hissued, -⟩ := h.inHand key state rfl
            exact Or.inr ⟨stored, hissued⟩
          · exact Or.inl (Or.inr hold)
      bound := h.bound
      inHand := by simp }
  released h _ := h.release (by simp)
  trimmed h hrebinds := (h.rebind hrebinds (by simp)).release (by simp)
  observed h hrebinds _ := h.rebind hrebinds (by simp)

/-! ## Whole sessions -/

/-- Calls that capture and admit in one go or do neither; nothing restricts the transport
or the restarts. -/
def Session.PackagedCalls (_ : Session) (call : Call) : Prop := call.op.Packaged

theorem open_identified {A : Adapter} (config : PolicyConfig) (server : FreshServer A) :
    Identified A .idle (openCache config server.server) where
  identity :=
    { past := by simp
      wellFormed := server.wellFormed
      left := fun hepoch => absurd server.epoch hepoch
      numbered := fun _ _ _ hissued => by simp [IssuedFor, openCache] at hissued
      faithful := fun {s} hseen _ => by
        have hself : s = server.server := by simpa [World.Seen, openCache] using hseen
        subst hself
        exact ⟨server.wellFormed, fun _ => le_rfl, fun hissued => by
          simp [IssuedFor, openCache] at hissued⟩
      held := fun {name} hheld => by
        rcases hheld with htracked | ⟨event, hevent, -⟩
        · exact (open_tracked config server.server name htracked).elim
        · simp [openCache] at hevent }
  bound hst := by simp [openCache] at hst
  inHand := by simp

/-- In every run over restarts, lost requests and reclaims: a bound handle that is alive in
the client's epoch resolves to a state with exactly the tokens of its key, and whatever
handle the client ever knew resolves, at every moment of that epoch, to the state it was
issued for or to none. -/
theorem bindings_keep_identity {A : Adapter} {config : PolicyConfig} {server : FreshServer A}
    {s : Session} (h : s.Reached A config server Session.PackagedCalls) :
    (∀ k st found, s.cache.backend.records.get? k = some st →
      s.cache.backend.server.epoch = A.managedEpoch →
      s.cache.backend.server.stateOf st.handle = some found → found.tokens = k.tokens) ∧
    ∀ name, s.cache.backend.Held name →
      ∃ state, IssuedFor s.cache.backend.history A.managedEpoch name state ∧
        ∀ t found, s.cache.backend.Seen t → t.epoch = A.managedEpoch →
          t.stateOf name = some found → found = state := by
  have hidentified := (h.between (identified_ledger A) (fun _ _ hcall => hcall)
    (open_identified config server) fun t call _ hI =>
      { identity := hI.identity.rebound rfl rfl rfl Or.inl
        bound := hI.bound
        inHand := hI.inHand }).2
  refine ⟨fun k st found hst hepoch hfound => ?_, fun name hheld => ?_⟩
  · obtain ⟨stored, hissued, htokens⟩ := hidentified.bound hst
    have hfaithful := hidentified.identity.faithful (Or.inl rfl) hepoch
    rw [hfaithful.resolves hissued hfound, htokens]
  · obtain ⟨state, hissued⟩ := hidentified.identity.held hheld
    exact ⟨state, hissued, fun t found hseen hepoch hfound =>
      (hidentified.identity.faithful hseen hepoch).resolves hissued hfound⟩

namespace Sample

/-- The server restarts before the request is served. -/
def restarting : Exchange := { Exchange.normal with restart := some "epoch-2" }

/-- A state is admitted; at the next capture the server restarts. -/
def restarted : Session := (start.step adapter (capture [])).step adapter (capture [restarting])

end Sample

open Sample

/-- The handle of the earlier epoch is still bound and keeps its state. -/
theorem restarted_keeps_identity :
    restarted.cache.backend.server.epoch = "epoch-2" ∧
    ∃ state, IssuedFor restarted.cache.backend.history "epoch-1" "sbm1-0000000000000001" state ∧
      ∀ t found, restarted.cache.backend.Seen t → t.epoch = "epoch-1" →
        t.stateOf "sbm1-0000000000000001" = some found → found = state :=
  have hreached : Session.Reached adapter config server Session.PackagedCalls restarted :=
    .next (.next .start trivial) trivial
  have hbound : "sbm1-0000000000000001" ∈ restarted.cache.backend.bound := by decide +kernel
  ⟨by decide +kernel, (bindings_keep_identity hreached).2 _ (Or.inl (Or.inl hbound))⟩

end StateBraid.Managed
