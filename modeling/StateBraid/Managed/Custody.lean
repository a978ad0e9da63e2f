import StateBraid.Managed.Aside

/-!
# States in the caller's hands

Between `capture_current` and `admit_captured` a state is known to the caller alone: its
handle is neither bound nor queued. A reconciliation takes such a handle for an orphan and
drops it. A held state stays alive, unless the server reclaims it, exactly as far as no
reconciliation finds its handle on the server.
-/

namespace StateBraid.Managed
open Library Policy Coordinator LlamaCpp Exec

/-! ## What can happen to a handle -/

/-- A reconciliation has found the handle on the server, neither bound nor queued. -/
def Event.Orphans (name : String) : Event → Prop
  | .orphansListed server bound pending => server.Alive name ∧ name ∉ bound ∧ name ∉ pending
  | _ => False

/-- The server has erased the handle to make room for a capture. -/
def Event.Reclaims (name : String) : Event → Prop
  | .exchanged (.capture ..) _ before after _ _ => before.Alive name ∧ ¬ after.Alive name
  | _ => False

/-- Unless a reconciliation has found it, the handle is alive or the server reclaimed it. -/
def Safe (w : World) (name : String) : Prop :=
  (∀ event ∈ w.history, ¬ event.Orphans name) →
    w.server.Alive name ∨ ∃ event ∈ w.history, event.Reclaims name

/-- A step that keeps the handle alive, or in which the server reclaims it. -/
theorem Safe.step {w w' : World} {name : String} (h : Safe w name)
    (hhistory : ∀ event ∈ w.history, event ∈ w'.history)
    (hstep : (∀ event ∈ w'.history, ¬ event.Orphans name) → w.server.Alive name →
      w'.server.Alive name ∨ ∃ event ∈ w'.history, event.Reclaims name) : Safe w' name := by
  intro hfound
  rcases h fun event hevent => hfound event (hhistory event hevent) with halive | ⟨event, hevent, hr⟩
  · exact hstep hfound halive
  · exact Or.inr ⟨event, hhistory event hevent, hr⟩

theorem Safe.congr {w w' : World} {name : String} (h : Safe w name)
    (hserver : w'.server = w.server) (hhistory : w'.history = w.history) : Safe w' name :=
  h.step (hhistory ▸ fun _ => id) fun _ halive => Or.inl (hserver ▸ halive)

theorem Safe.shed {w w' : World} {may : String → Prop} {name : String} (h : Safe w name)
    (ht : Sheds may w w') (hmay : ¬ may name) : Safe w' name := by
  refine h.step (fun event hevent => ?_) fun _ halive => Or.inl (ht.alive_of_not_may halive hmay)
  obtain ⟨events, heq, -⟩ := ht.history
  rw [heq]
  exact List.mem_append_right _ hevent

/-! ## The ledger -/

/-- What is bound, in hand or held is safe; what is held is known to the caller alone. -/
structure Custody (A : Adapter) (held obtained : List StateHandle) (φ : Phase) (c : PromptCache) :
    Prop extends Aside A held obtained φ c where
  safe : ∀ {name}, name ∈ c.backend.bound ∨ φ.Holds name ∨ name ∈ handlesOf held →
    Safe c.backend name

namespace Custody

variable {A : Adapter} {held obtained : List StateHandle} {φ φ' : Phase} {c c' : PromptCache}

/-- Steps that shed states, but none that is bound, in hand or held. -/
theorem shed (h : Custody A held obtained φ c) {may : String → Prop} {w : World}
    (haside : Aside A held obtained φ { c with backend := w }) (ht : Sheds may c.backend w)
    (hmay : ∀ name, name ∈ c.backend.bound ∨ φ.Holds name ∨ name ∈ handlesOf held → ¬ may name) :
    Custody A held obtained φ { c with backend := w } where
  toAside := haside
  safe {name} hname := by
    dsimp only at hname
    rw [ht.bound] at hname
    exact (h.safe hname).shed ht (hmay name hname)

/-- Moving handles within the client, between the registry, the queue and the hand. -/
theorem rebind (h : Custody A held obtained φ c) (haside : Aside A held obtained φ' c')
    (hserver : c'.backend.server = c.backend.server)
    (hhistory : c'.backend.history = c.backend.history)
    (hnames : ∀ {name}, name ∈ c'.backend.bound ∨ φ'.Holds name →
      name ∈ c.backend.bound ∨ φ.Holds name) : Custody A held obtained φ' c' where
  toAside := haside
  safe {name} hname := by
    have hname' : name ∈ c.backend.bound ∨ φ.Holds name ∨ name ∈ handlesOf held := by
      rcases hname with hbound | hhold | hheld
      · exact (hnames (Or.inl hbound)).imp_right Or.inl
      · exact (hnames (Or.inr hhold)).imp_right Or.inl
      · exact Or.inr (Or.inr hheld)
    exact (h.safe hname').congr hserver hhistory

/-- Rebinding around the state in hand. -/
theorem rebound (h : Custody A held obtained φ c) {offered : Option (Key × StateHandle)}
    (haside : Aside A held obtained φ' c') (hrebinds : Rebinds A offered c c')
    (hoffered : ∀ o ∈ offered, φ.Holds o.2.handle)
    (hholds : ∀ {name}, φ'.Holds name → φ.Holds name) : Custody A held obtained φ' c' := by
  exact h.rebind haside hrebinds.rebound.server hrebinds.rebound.history
    (hrebinds.bound_or_holds hoffered fun _ => hholds)

theorem forgot (h : Custody A held obtained φ c) {handles : List String}
    (haside : Aside A held obtained φ c') (hforgets : Forgets A handles c c') :
    Custody A held obtained φ c' := by
  exact h.rebind haside hforgets.server hforgets.history (Or.imp_left hforgets.bound)

theorem flushed (h : Custody A held obtained .closing c) (hc : Coherent A c) :
    Custody A held obtained .idle (flushed A c) := by
  have horderly := h.lawful.orderly
  have hidle : Custody A held obtained .idle c :=
    h.rebind (h.narrow ⟨horderly.release fun _ => id, h.lawful.binding⟩ id) rfl rfl id
  refine hidle.shed ((aside_ledger A held obtained).flush hc h.toAside)
    (flushDrops_flushed horderly.steady (Orderly.queued hc)).tidies.toSheds
    fun name hname hmay => ?_
  rcases hname with hbound | hhold | hheld
  · exact hmay.2 hbound
  · exact hhold
  · exact (h.apart name hheld).1 (Or.inr hmay.1)

/-- A reconciliation that found the handle has an event that says so. -/
theorem reconciled (h : Custody A held obtained .idle c) (hc : Coherent A c) :
    Custody A held obtained .idle (reconciled A c) := by
  have hspec := reconcileOrphanedHandles_spec (A := A) h.lawful.orderly.steady
  have hsheds := hspec.sheds
  have hhistory (event : Event) (hevent : event ∈ c.backend.history) :
      event ∈ (Managed.reconciled A c).backend.history := by
    obtain ⟨events, heq, -⟩ := hsheds.history
    rw [Managed.reconciled, heq]
    exact List.mem_append_right _ hevent
  refine ⟨(aside_ledger A held obtained).reconcile hc h.toAside, fun {name} hname => ?_⟩
  have hname : name ∈ c.backend.bound ∨ Phase.idle.Holds name ∨ name ∈ handlesOf held := by
    rwa [Managed.reconciled, hsheds.bound] at hname
  by_cases hbound : name ∈ c.backend.bound
  · exact (h.safe hname).shed hsheds fun hmay => hmay.1 hbound
  have hheld : name ∈ handlesOf held := (hname.resolve_left hbound).resolve_left id
  have hunqueued : name ∉ c.backend.pending := fun hmem => (h.apart name hheld).1 (Or.inr hmem)
  have hlisted {w₁ w' : World} (hrun : Reconciling c.backend w₁ w')
      (hfound : ∀ event ∈ w'.history, ¬ event.Orphans name) : ¬ c.backend.server.Alive name := by
    obtain ⟨events, heq, -⟩ := hrun.tidies.history
    intro halive
    refine hfound (.orphansListed w₁.server c.backend.bound c.backend.pending) ?_
      ⟨hrun.read.alive_of_not_may halive id, hbound, hunqueued⟩
    rw [heq]
    exact List.mem_append_right _ List.mem_cons_self
  refine (h.safe hname).step hhistory fun hfound halive => ?_
  unfold Managed.reconciled at hfound ⊢
  generalize reconcileOrphanedHandles A c.backend = r at hspec hfound ⊢
  cases hspec with
  | unread e w₁ hread _ => exact Or.inl (hread.alive_of_not_may halive id)
  | interrupted e w₁ w' hrun => exact absurd halive (hlisted hrun hfound)
  | completed handles w₁ w' hrun _ =>
    exact absurd halive (hlisted hrun fun event hevent =>
      hfound event (List.mem_cons_of_mem _ hevent))

/-- Serving a capture keeps a handle alive or reclaims it. -/
theorem safe_captured {w : World} {name : String} (hsafe : Safe w name) (hsteady : w.Steady)
    {tokens : List ℤ} {delivery : Delivery} {server : Server} :
    Safe (w.sent.after (.capture A.managedEpoch A.idSlot tokens) delivery server) name := by
  have hserver : w.sent.server = w.server := by rw [hsteady.sent]
  have hhistory : w.sent.history = w.history := by rw [hsteady.sent]
  refine hsafe.step (fun event hevent => List.mem_cons_of_mem _ (hhistory ▸ hevent))
    fun _ halive => ?_
  by_cases hafter : server.Alive name
  · exact Or.inl hafter
  · exact Or.inr ⟨_, List.mem_cons_self, hserver ▸ halive, hafter⟩

theorem captureFailed (h : Custody A held obtained .idle c) {tokens : List ℤ} {e : PyError}
    {w : World} (haside : Aside A held obtained .idle { c with backend := w })
    (hcapture : captureCurrentState A tokens c.backend = (.error e, w)) :
    Custody A held obtained .idle { c with backend := w } := by
  refine ⟨haside, fun {name} hname => ?_⟩
  have hsafe : Safe c.backend name := h.safe (by
    rwa [World.bound, (captureCurrentState_registry hcapture).1] at hname)
  rcases capture_failed h.lawful.orderly.wellFormed hcapture with ⟨rfl, -⟩ | ⟨-, server, rfl, -⟩
  · exact hsafe
  · exact safe_captured hsafe h.lawful.orderly.steady

/-- The state that a capture returned is alive. -/
theorem captured (h : Custody A held obtained .idle c) {tokens : List ℤ} {state : StateHandle}
    {evicted : List String} {w : World}
    (haside : Aside A held obtained (.holding (cacheKey A tokens) state) c')
    (hcapture : captureCurrentState A tokens c.backend = (.ok (state, evicted), w))
    (hforgets : Forgets A evicted { c with backend := w } c') :
    Custody A held obtained (.holding (cacheKey A tokens) state) c' := by
  have horderly := h.lawful.orderly
  obtain ⟨hrecords, -⟩ := captureCurrentState_registry hcapture
  have hserver : c.backend.sent.server = c.backend.server := by rw [horderly.steady.sent]
  obtain ⟨slot, -, -, -, -, rfl, -, rfl⟩ := capture_returned horderly.wellFormed hcapture
  have hafter {name : String} (hsafe : Safe c.backend name) : Safe c'.backend name :=
    (safe_captured (A := A) hsafe horderly.steady).congr hforgets.server hforgets.history
  refine ⟨haside, fun {name} hname => ?_⟩
  rcases hname with hmem | rfl | hheld
  · have hold := hforgets.bound hmem
    rw [World.bound, hrecords] at hold
    exact hafter (h.safe (Or.inl hold))
  · refine fun _ => Or.inl ?_
    rw [hforgets.server]
    exact (Server.alive_captured (hserver ▸ horderly.wellFormed) _ _).mpr (Or.inl rfl)
  · exact hafter (h.safe (Or.inr (Or.inr hheld)))

/-- Offering a held state takes it out of the caller's hands. -/
theorem offer (h : Custody A held obtained .idle c) (key : Key) {state : StateHandle}
    (hheld : state ∈ held) :
    Custody A (held.filter (fun other => other.handle ≠ state.handle)) obtained
      (.holding key state) c where
  toAside := h.toAside.offer key (h.subset state hheld)
  safe {name} hname := by
    rcases hname with hbound | rfl | hmem
    · exact h.safe (Or.inl hbound)
    · exact h.safe (Or.inr (Or.inr (List.mem_map_of_mem hheld)))
    · obtain ⟨other, hother, rfl⟩ := List.mem_map.mp hmem
      exact h.safe (Or.inr (Or.inr (List.mem_map_of_mem (List.mem_filter.mp hother).1)))

/-- A state handed out is in the caller's hands. -/
theorem handOver {key : Key} {state : StateHandle}
    (h : Custody A held obtained (.holding key state) c)
    (haside : Aside A (state :: held) (state :: obtained) .idle c) :
    Custody A (state :: held) (state :: obtained) .idle c where
  toAside := haside
  safe {name} hname := by
    rcases hname with hbound | hhold | hmem
    · exact h.safe (Or.inl hbound)
    · exact hhold.elim
    · rcases List.mem_cons.mp hmem with rfl | hold
      · exact h.safe (Or.inr (Or.inl rfl))
      · exact h.safe (Or.inr (Or.inr hold))

end Custody

theorem custody_ledger (A : Adapter) (held obtained : List StateHandle) :
    Ledger A (Custody A held obtained) where
  wellFormed h := h.lawful.orderly.wellFormed
  passive {c request} hpassive hc h :=
    h.shed ((aside_ledger A held obtained).passive hpassive hc h.toAside)
      (exchange_passive (fun _ => False) h.lawful.orderly.steady hpassive).toSheds fun _ _ => id
  closing h := h.rebind ((aside_ledger A held obtained).closing h.toAside) rfl rfl id
  flush hc h := h.flushed hc
  reconcile hc h := h.reconciled hc
  captureFailed hc hp h hrun :=
    h.captureFailed ((aside_ledger A held obtained).captureFailed hc hp h.toAside hrun) hrun
  captured hc hp h hrun hf :=
    h.captured ((aside_ledger A held obtained).captured hc hp h.toAside hrun hf) hrun hf
  accepted h hr hb := h.rebound ((aside_ledger A held obtained).accepted h.toAside hr hb) hr
    (by simp [Phase.Holds]) False.elim
  kept h hr hk := h.rebound ((aside_ledger A held obtained).kept h.toAside hr hk) hr
    (by simp [Phase.Holds]) id
  discarded h := h.rebind ((aside_ledger A held obtained).discarded h.toAside) rfl rfl
    (Or.imp_right False.elim)
  released h hb := h.rebind ((aside_ledger A held obtained).released h.toAside hb) rfl rfl
    (Or.imp_right False.elim)
  trimmed h hr := h.rebound ((aside_ledger A held obtained).trimmed h.toAside hr) hr (by simp)
    False.elim
  observed h hr hb := h.rebound ((aside_ledger A held obtained).observed h.toAside hr hb) hr
    (by simp) False.elim

/-! ## Sessions -/

/-- A call in one epoch that admits only a state the caller still holds. -/
def Session.PermitsHeld (s : Session) (call : Call) : Prop :=
  call.Steady ∧ ∀ tokens state role predecessor,
    call.op = .admitCaptured tokens state role predecessor → state ∈ s.held

/-- The caller's states between two calls. -/
def Session.InCustody (A : Adapter) (s : Session) : Prop :=
  Ledger.Between A (Custody A s.held s.obtained) s.cache

namespace Session.InCustody

variable {A : Adapter} {s : Session}

theorem scripted (h : s.InCustody A) {call : Call} (hsteady : call.Steady) :
    Ledger.Between A (Custody A s.held s.obtained) (Managed.scripted s.cache call.script) :=
  ⟨scripted_coherent h.1 _, h.2.rebind (h.2.toAside.scripted hsteady) rfl rfl id⟩

theorem step (h : s.InCustody A) {call : Call} (hpermits : s.PermitsHeld call) :
    (s.step A call).InCustody A := by
  have hs := h.scripted hpermits.1
  refine Session.step_of_ledger (Q := Session.InCustody A) (custody_ledger A s.held s.obtained) hs
    id (fun hrun hc hbinding hholding =>
      ⟨hc, hholding.handOver (hholding.toAside.handOver hbinding
        (captureState_untracked hs.1 hs.2.lawful.orderly hrun))⟩)
    (fun {tokens state role predecessor} hop => ?_) fun hforgets =>
      hs.2.forgot (hs.2.toAside.forgot
        ⟨hs.2.lawful.orderly.forgot hforgets, hs.2.lawful.binding⟩ hforgets) hforgets
  have hheld := hpermits.2 tokens state role predecessor hop
  rw [hop]
  exact (custody_ledger A _ _).admitCaptured hs.1 (hs.2.offer _ hheld)
    (hs.2.lawful.binding state (hs.2.subset state hheld))

end Session.InCustody

theorem Session.Reached.inCustody {A : Adapter} {config : PolicyConfig} {server : FreshServer A}
    {s : Session} (h : s.Reached A config server Session.PermitsHeld) : s.InCustody A := by
  refine Run.invariant (I := Session.InCustody A) ⟨open_coherent A config server.server, ?_⟩
    (fun t call ht hpermits => ht.step hpermits) h
  refine ⟨⟨start_lawful config server, by simp [Session.start],
    by simp [Session.start, handlesOf]⟩, fun {name} hname => ?_⟩
  simp [Session.start, openCache, World.bound, Phase.Holds, handlesOf] at hname

/-- The only result `True` of a guarded admission is that of a committed one, and its
requests are those of a flush. -/
theorem guardedAdmission_accepted {A : Adapter} {key : Key} {state : StateHandle}
    {admission : Exec PyError PromptCache Bool} (hadmits : Admits A key state admission)
    (hbinding : stateBinding A state = .ok ()) {c c' : PromptCache} (hc : Coherent A c)
    (hsteady : c.backend.Steady) (h : guardedAdmission A state admission c = (.ok true, c')) :
    c'.backend.records.get? key = some state ∧
      ∀ event ∈ c'.backend.history, event ∈ c.backend.history ∨ event.Quiet := by
  obtain ⟨c₁, hrun, heq⟩ := guardedBody_run hadmits hbinding hc
  rw [guardedAdmission_eq] at h
  obtain ⟨c₂, hresult, hflush⟩ := tryFinally_eq_ok h
  rw [heq] at hresult
  generalize (admission c).1 = r at hrun hresult
  obtain ⟨rfl, rfl⟩ := Prod.mk.inj hresult
  have hstate : c' = flushed A c₁ := by rw [← flushAfter_state, hflush]
  cases hrun with
  | accepted _ hrebinds hbound =>
    have hsteady₁ : c₁.backend.Steady := by
      unfold World.Steady
      rw [hrebinds.rebound.script]
      exact hsteady
    have hflushed := flushDrops_flushed (A := A) hsteady₁ (Orderly.queued hrebinds.coherent)
    rw [hstate, flushed]
    refine ⟨hflushed.tidies.records ▸ hbound, fun event hevent => ?_⟩
    obtain ⟨events, hhistory, hquiet⟩ := hflushed.tidies.quiet
    dsimp only at hevent
    rw [hhistory, hrebinds.rebound.history] at hevent
    exact (List.mem_append.mp hevent).symm.imp_right (hquiet event)
  | discarded _ _ hr => exact absurd rfl hr

/-- In every run in which no reconciliation finds the handle of a held state on the server,
that handle is alive or was reclaimed by the server; and when `admit_captured` then returns
`True`, the state is bound, and its handle is alive or was reclaimed. -/
theorem held_state_stays_alive {A : Adapter} {config : PolicyConfig} {server : FreshServer A}
    {s : Session} (hs : s.Reached A config server Session.PermitsHeld) {state : StateHandle}
    (hheld : state ∈ s.held)
    (hfound : ∀ event ∈ s.cache.backend.history, ¬ event.Orphans state.handle) :
    (s.cache.backend.server.Alive state.handle ∨
      ∃ event ∈ s.cache.backend.history, event.Reclaims state.handle) ∧
    ∀ tokens role predecessor script c', (∀ x ∈ script, x.restart = none) →
      admitCaptured A tokens state role predecessor (scripted s.cache script) = (.ok true, c') →
      c'.backend.records.get? (cacheKey A tokens) = some state ∧
        (c'.backend.server.Alive state.handle ∨
          ∃ event ∈ c'.backend.history, event.Reclaims state.handle) := by
  have hcustody := hs.inCustody
  refine ⟨hcustody.2.safe (Or.inr (Or.inr (List.mem_map_of_mem hheld))) hfound, ?_⟩
  intro tokens role predecessor script c' hscript hadmit
  have hsteady : Call.Steady ⟨.captureCurrent tokens, script⟩ := hscript
  obtain ⟨hc, hidle⟩ := hcustody.scripted hsteady
  have hbinding := hidle.lawful.binding state (hidle.subset state hheld)
  have hadmits : Admits A (cacheKey A tokens) state (admitEntry (registry A) (cacheKey A tokens)
      state role state.nbytes (predecessor.map (cacheKey A))) := admitEntry_admits rfl state role _
  obtain ⟨hbound, hevents⟩ := guardedAdmission_accepted hadmits hbinding hc hscript hadmit
  have hafter := (custody_ledger A _ _).guardedAdmission hc
    (hidle.offer (cacheKey A tokens) hheld) hbinding hadmits
  have hrun : (guardedAdmission A state (admitEntry (registry A) (cacheKey A tokens) state role
      state.nbytes (predecessor.map (cacheKey A))) (scripted s.cache script)).2 = c' :=
    congrArg Prod.snd hadmit
  rw [hrun] at hafter
  refine ⟨hbound, hafter.2.safe (Or.inl (World.bound_of_get? hbound)) fun event hevent => ?_⟩
  rcases hevents event hevent with hold | hquiet
  · exact hfound event hold
  · cases event with
    | exchanged | reconcileCompleted => exact id
    | orphansListed => exact hquiet.elim

/-! ## A held state retired -/

instance (name : String) (event : Event) : Decidable (event.Reclaims name) := by
  unfold Event.Reclaims
  split <;> infer_instance

namespace Sample

/-- The state of the first capture. -/
def firstState : StateHandle := ⟨"llama", "epoch-1", "sbm1-0000000000000001", 0, 2, 2 ^ 20 + 1⟩

/-- The caller has captured a state and not admitted it yet. -/
def holding : Session := start.step adapter ⟨.captureCurrent [1, 2], []⟩

/-- The state is admitted. -/
def admittedInTime : Except PyError Bool × PromptCache :=
  admitCaptured adapter [1, 2] firstState "transient" none (scripted holding.cache [])

/-- Orphans are reconciled first. -/
def retired : Session := holding.step adapter ⟨.reconcileOrphans, []⟩

/-- And the state is admitted then. -/
def admittedLate : Except PyError Bool × PromptCache :=
  admitCaptured adapter [1, 2] firstState "transient" none retired.cache

theorem holding_reached : holding.Reached adapter config server Session.PermitsHeld :=
  .next .start ⟨fun _ => by simp, by simp⟩

end Sample

open Sample

/-- The held state is alive, and bound alive by an admission that returns `True`. -/
theorem holding_stays_alive :
    (holding.cache.backend.server.Alive "sbm1-0000000000000001" ∨
      ∃ event ∈ holding.cache.backend.history, event.Reclaims "sbm1-0000000000000001") ∧
    admittedInTime.1 = .ok true ∧
      admittedInTime.2.backend.records.get? (cacheKey adapter [1, 2]) = some firstState ∧
      (admittedInTime.2.backend.server.Alive "sbm1-0000000000000001" ∨
        ∃ event ∈ admittedInTime.2.backend.history, event.Reclaims "sbm1-0000000000000001") :=
  have hheld : firstState ∈ holding.held := by decide +kernel
  have hhistory : holding.cache.backend.history =
      [.exchanged (.capture "epoch-1" 0 [1, 2]) .delivered server.server
        holding.cache.backend.server [] []] := rfl
  have haccepted : admittedInTime.1 = .ok true := by decide +kernel
  have hsafe := held_state_stays_alive holding_reached hheld (by simp [hhistory, Event.Orphans])
  ⟨hsafe.1, haccepted,
    hsafe.2 [1, 2] "transient" none [] admittedInTime.2 (by simp) (Prod.ext haccepted rfl)⟩

/-- The reconciliation drops the handle that the caller holds; the server has reclaimed
nothing. The admission then returns `True` and binds the dead handle. -/
theorem reconciliation_retires_held_state :
    retired.Reached adapter config server Session.PermitsHeld ∧ firstState ∈ retired.held ∧
      ¬ retired.cache.backend.server.Alive "sbm1-0000000000000001" ∧
      (¬ ∃ event ∈ retired.cache.backend.history, event.Reclaims "sbm1-0000000000000001") ∧
      admittedLate.1 = .ok true ∧ "sbm1-0000000000000001" ∈ admittedLate.2.backend.bound ∧
      ¬ admittedLate.2.backend.server.Alive "sbm1-0000000000000001" :=
  ⟨.next holding_reached ⟨fun _ => by simp, by simp⟩, by decide +kernel, by decide +kernel,
    by decide +kernel, by decide +kernel, by decide +kernel, by decide +kernel⟩

end StateBraid.Managed
