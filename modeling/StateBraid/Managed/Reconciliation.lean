import StateBraid.Managed.Prepare
import StateBraid.Managed.SessionFacts

/-!
# What a reconciliation settles

A reconciliation compares the server's handles with those the client knows in one
direction only: it drops what is alive and unknown. When the lost response of a capture
also reported reclaimed handles, their bindings stay. The registry is exact after a failed
capture if no such capture reclaimed a bound handle, and only then.
-/

namespace StateBraid.Managed
open Library Policy Coordinator LlamaCpp Exec

/-! ## Captures that tell -/

/-- The capture request was not applied, was answered with the state it stored, or
reclaims no bound handle. -/
def Event.Told : Event → Prop
  | .exchanged (.capture _ idSlot tokens) delivery before after bound _ =>
    delivery = .notApplied ∨ (delivery = .delivered ∧ after.nextHandle ≠ before.nextHandle) ∨
      ∀ h ∈ bound, h ∉ before.captureReclaims idSlot tokens
  | _ => True

theorem mem_reclaimedBy {A : Adapter} {tokens : List ℤ} {w : World} {h : String}
    (hmem : h ∈ reclaimedBy A tokens w) :
    w.next.delivery ≠ .notApplied ∧ h ∈ w.sent.server.captureReclaims A.idSlot tokens := by
  unfold reclaimedBy at hmem
  split_ifs at hmem with hunsent haccepts
  · simp at hmem
  · exact ⟨hunsent, hmem⟩
  · simp at hmem

/-- A failed capture of this kind spares the bound handles. -/
theorem FailedCapture.spares {A : Adapter} {tokens : List ℤ} {w : World} {server : Server}
    (h : FailedCapture A tokens w server)
    (htold : (Event.exchanged (.capture A.managedEpoch A.idSlot tokens) w.next.delivery
      w.sent.server server w.bound w.pending).Told) {name : String} (hbound : name ∈ w.bound) :
    name ∉ reclaimedBy A tokens w := by
  intro hmem
  obtain ⟨hsent, hreclaimed⟩ := mem_reclaimedBy hmem
  rcases htold with hunsent | ⟨hdelivered, hnext⟩ | hspares
  · exact hsent hunsent
  · cases h with
    | refused hkeep => simp [hkeep] at hmem
    | unread n hread => exact hnext rfl
    | lost slot hslot htokens hne hlost => simp [hlost] at hdelivered
  · exact hspares name hbound hreclaimed

/-! ## Bindings that stay alive -/

/-- A session whose bindings are alive, if every capture so far told the client. -/
structure Session.Live (A : Adapter) (obtained : List StateHandle) (φ : Phase)
    (c : PromptCache) : Prop where
  lawful : Session.Lawful A obtained φ c
  alive : (∀ event ∈ c.backend.history, event.Told) → ∀ {h},
    h ∈ c.backend.bound ∨ φ.Holds h → c.backend.server.Alive h

namespace Session.Live

variable {A : Adapter} {obtained : List StateHandle} {φ φ' : Phase} {c c' : PromptCache}

/-- A step that binds what was bound or in hand, and keeps that alive. -/
theorem move (h : Live A obtained φ c) (hlawful : Lawful A obtained φ' c')
    (hhistory : ∀ event ∈ c.backend.history, event ∈ c'.backend.history)
    (hnames : ∀ {name}, name ∈ c'.backend.bound ∨ φ'.Holds name →
      name ∈ c.backend.bound ∨ φ.Holds name)
    (halive : (∀ event ∈ c'.backend.history, event.Told) → ∀ {name},
      name ∈ c'.backend.bound ∨ φ'.Holds name → c.backend.server.Alive name →
        c'.backend.server.Alive name) : Live A obtained φ' c' where
  lawful := hlawful
  alive htold _ hname := halive htold hname
    (h.alive (fun event hevent => htold event (hhistory event hevent)) (hnames hname))

theorem shed (h : Live A obtained φ c) {may : String → Prop} {w : World}
    (hlawful : Lawful A obtained φ { c with backend := w }) (ht : Sheds may c.backend w)
    (hmay : ∀ name, name ∈ c.backend.bound ∨ φ.Holds name → ¬ may name) :
    Live A obtained φ { c with backend := w } := by
  obtain ⟨events, heq, -⟩ := ht.history
  have hnames {name : String} (hname : name ∈ w.bound ∨ φ.Holds name) :
      name ∈ c.backend.bound ∨ φ.Holds name := by rwa [ht.bound] at hname
  refine h.move hlawful (fun event hevent => ?_) hnames
    fun _ name hname halive => ht.alive_of_not_may halive (hmay name (hnames hname))
  dsimp only
  rw [heq]
  exact List.mem_append_right _ hevent

theorem rebound (h : Live A obtained φ c) {offered : Option (Key × StateHandle)}
    (hlawful : Lawful A obtained φ' c') (hrebinds : Rebinds A offered c c')
    (hoffered : ∀ o ∈ offered, φ.Holds o.2.handle) (hholds : ∀ name, φ'.Holds name → φ.Holds name) :
    Live A obtained φ' c' := by
  exact h.move hlawful (fun event hevent => hrebinds.rebound.history ▸ hevent)
    (hrebinds.bound_or_holds hoffered hholds) (fun _ name _ halive => hrebinds.rebound.server ▸ halive)

theorem forgot (h : Live A obtained φ c) {evicted : List String}
    (hlawful : Lawful A obtained φ c') (hforgets : Forgets A evicted c c') :
    Live A obtained φ c' := by
  refine h.move hlawful (fun event hevent => hforgets.history ▸ hevent) (fun {name} hname => ?_)
    (fun _ name _ halive => hforgets.server ▸ halive)
  exact hname.imp_left hforgets.bound

theorem captureFailed (h : Live A obtained .idle c) {tokens : List ℤ} {e : PyError} {w : World}
    (hlawful : Lawful A obtained .idle { c with backend := w })
    (hcapture : captureCurrentState A tokens c.backend = (.error e, w)) :
    Live A obtained .idle { c with backend := w } := by
  have horderly := h.lawful.orderly
  have hsent := horderly.steady.sent
  rcases capture_failed horderly.wellFormed hcapture with ⟨rfl, -⟩ | ⟨-, server, rfl, hfailed⟩
  · exact h
  have hbound : (c.backend.sent.after (.capture A.managedEpoch A.idSlot tokens)
      c.backend.next.delivery server).bound = c.backend.bound := by rw [hsent]; rfl
  refine h.move hlawful (fun event hevent => ?_) (fun {name} hname => by rwa [← hbound])
    fun htold name hname halive => ?_
  · rw [hsent]
    exact List.mem_cons_of_mem _ hevent
  · dsimp only at hname
    rw [hbound] at hname
    have hmem : name ∈ c.backend.bound := hname.resolve_right id
    have hne := horderly.ne_next (Or.inl (Or.inl hmem))
    have hserver : c.backend.sent.server = c.backend.server := by rw [hsent]
    refine (hfailed.alive_iff (hserver ▸ horderly.wellFormed) (hserver ▸ hne)).mpr
      ⟨hserver ▸ halive, hfailed.spares ?_ hmem⟩
    have := htold _ List.mem_cons_self
    rwa [hsent] at this ⊢

theorem captured (h : Live A obtained .idle c) {tokens : List ℤ} {state : StateHandle}
    {evicted : List String} {w : World}
    (hlawful : Lawful A obtained (.holding (cacheKey A tokens) state) c')
    (hcapture : captureCurrentState A tokens c.backend = (.ok (state, evicted), w))
    (hforgets : Forgets A evicted { c with backend := w } c') :
    Live A obtained (.holding (cacheKey A tokens) state) c' where
  lawful := hlawful
  alive htold {name} hname := by
    have horderly := h.lawful.orderly
    have hserver : c.backend.sent.server = c.backend.server := by rw [horderly.steady.sent]
    obtain ⟨slot, -, -, -, -, rfl, rfl, rfl⟩ := capture_returned horderly.wellFormed hcapture
    rw [hforgets.server]
    refine (Server.alive_captured (hserver ▸ horderly.wellFormed) _ _).mpr ?_
    rcases hname with hbound | rfl
    · obtain ⟨hold, hspared⟩ := hforgets.mem_bound.mp hbound
      rw [hforgets.history] at htold
      refine Or.inr ⟨hserver ▸ h.alive (fun event hevent => htold event ?_) (Or.inl ?_), hspared⟩
      · rw [horderly.steady.sent]
        exact List.mem_cons_of_mem _ hevent
      · rw [horderly.steady.sent] at hold
        exact hold
    · exact Or.inl rfl

end Session.Live

theorem live_ledger (A : Adapter) (obtained : List StateHandle) :
    Ledger A (Session.Live A obtained) where
  wellFormed h := (lawful_ledger A obtained).wellFormed h.lawful
  passive hpassive hc h := h.shed ((lawful_ledger A obtained).passive hpassive hc h.lawful)
    (exchange_passive (fun _ => False) h.lawful.orderly.steady hpassive).toSheds fun _ _ => id
  closing h := ⟨(lawful_ledger A obtained).closing h.lawful, fun htold _ hname =>
    h.alive htold hname⟩
  flush {c} hc h := by
    have hidle : Session.Live A obtained .idle c :=
      ⟨⟨h.lawful.orderly.release fun _ => id, h.lawful.binding⟩, fun htold _ => h.alive htold⟩
    exact hidle.shed ((lawful_ledger A obtained).flush hc h.lawful)
      (flushDrops_flushed h.lawful.orderly.steady (Orderly.queued hc)).tidies.toSheds
      fun _ hname hmay => hmay.2 (hname.resolve_right id)
  reconcile hc h := h.shed ((lawful_ledger A obtained).reconcile hc h.lawful)
    (reconcileOrphanedHandles_spec h.lawful.orderly.steady).sheds
    fun _ hname hmay => hmay.1 (hname.resolve_right id)
  captureFailed hc hp h hrun := h.captureFailed
    ((lawful_ledger A obtained).captureFailed hc hp h.lawful hrun) hrun
  captured hc hp h hrun hf := h.captured
    ((lawful_ledger A obtained).captured hc hp h.lawful hrun hf) hrun hf
  accepted h hr hb := h.rebound ((lawful_ledger A obtained).accepted h.lawful hr hb) hr
    (by simp [Phase.Holds]) fun _ => False.elim
  kept h hr hk := h.rebound ((lawful_ledger A obtained).kept h.lawful hr hk) hr
    (by simp [Phase.Holds]) fun _ => id
  discarded h := h.move ((lawful_ledger A obtained).discarded h.lawful) (fun _ => id)
    (fun hname => Or.inl (hname.resolve_right id)) fun _ _ _ => id
  released h hb := h.move ((lawful_ledger A obtained).released h.lawful hb) (fun _ => id)
    (fun hname => Or.inl (hname.resolve_right id)) fun _ _ _ => id
  trimmed h hr := h.rebound ((lawful_ledger A obtained).trimmed h.lawful hr) hr (by simp)
    fun _ => False.elim
  observed h hr hb := h.rebound ((lawful_ledger A obtained).observed h.lawful hr hb) hr (by simp)
    fun _ => False.elim

theorem live_sessionLedger (A : Adapter) :
    SessionLedger A (fun state server => server.Alive state.handle)
      (fun _ obtained => Session.Live A obtained) where
  ledger _ obtained := live_ledger A obtained
  binding h := h.lawful.binding
  handOver _ hbinding h :=
    ⟨(lawful_sessionLedger A).handOver [] hbinding h.lawful, fun htold _ hname =>
      h.alive htold (Or.inl (hname.resolve_right id))⟩
  offer _ key hmem hmay h :=
    ⟨(lawful_sessionLedger A).offer [] key hmem trivial h.lawful, fun htold _ hname => by
      rcases hname with hbound | rfl
      · exact h.alive htold (Or.inl hbound)
      · exact hmay⟩
  notice _ h hforgets := h.forgot ((lawful_sessionLedger A).notice [] h.lawful hforgets)
    hforgets

/-- A call in one epoch that offers no state but one that is alive. -/
def Session.PermitsLive (s : Session) (call : Call) : Prop :=
  call.Steady ∧ s.Offers (fun state server => server.Alive state.handle) call.op

theorem scripted_live {A : Adapter} {obtained : List StateHandle} {c : PromptCache}
    (h : Session.Live A obtained .idle c) {call : Call} (hsteady : call.Steady) :
    Session.Live A obtained .idle (scripted c call.script) :=
  ⟨scripted_lawful h.lawful hsteady, h.alive⟩

theorem Session.Reached.live {A : Adapter} {config : PolicyConfig} {server : FreshServer A}
    {s : Session} (h : s.Reached A config server Session.PermitsLive) :
    Coherent A s.cache ∧ Session.Live A s.obtained .idle s.cache := by
  have hstart : Session.Live A (Session.start config server.server).obtained .idle
      (Session.start config server.server).cache :=
    { lawful := start_lawful config server
      alive := fun _ {name} hname => by
        simp [Session.start, openCache, World.bound, Phase.Holds] at hname }
  refine Run.invariant (I := fun t : Session =>
    Coherent A t.cache ∧ Session.Live A t.obtained .idle t.cache)
    ⟨open_coherent A config server.server, hstart⟩ ?_ h
  rintro t call ⟨hc, hlive⟩ ⟨hsteady, hoffers⟩
  exact (live_sessionLedger A).step hoffers
    ⟨scripted_coherent hc _, scripted_live hlive hsteady⟩

/-! ## Failed captures -/

/-- The handles alive are the bound and the queued ones, every resident key has a live
handle, and no `prepare` meets an unknown one. -/
structure Settled (A : Adapter) (c : PromptCache) : Prop where
  handles : ∀ h, c.backend.server.Alive h ↔ h ∈ c.backend.bound ∨ h ∈ c.backend.pending
  resident : ∀ k ∈ c.policy.entries.keys, ∃ st, c.backend.records.get? k = some st ∧
    c.backend.server.Alive st.handle
  prepares : ∀ script tokens, (∀ x ∈ script, x.restart = none) →
    (prepare A tokens (scripted c script)).1 ≠ .error unknownHandle

/-- With nothing queued and nothing unknown on the server, it only matters that the
bindings are alive. -/
theorem settled_iff {A : Adapter} {c : PromptCache} (hc : Coherent A c)
    (hdrained : c.backend.pendingDrops = .empty)
    (hknown : ∀ h, c.backend.server.Alive h → h ∈ c.backend.bound ∨ h ∈ c.backend.pending) :
    Settled A c ↔ ∀ h ∈ c.backend.bound, c.backend.server.Alive h := by
  refine ⟨fun h name hbound => (h.handles name).mpr (Or.inl hbound), fun h => ⟨fun name => ?_, ?_, ?_⟩⟩
  · refine ⟨hknown name, fun hname => hname.elim (h name) fun hpending => ?_⟩
    rw [World.pending, hdrained] at hpending
    simp at hpending
  · intro k hk
    obtain ⟨st, hst⟩ := hc.mem_entries.mp hk
    exact ⟨st, hst, h _ (World.bound_of_get? hst)⟩
  · intro script tokens hsteady herror
    exact prepare_knows (scripted_coherent hc script) hsteady h tokens herror rfl

/-- A capture that failed for the client leaves a bound handle alive unless it reclaimed
it. -/
theorem captureFailed_alive_iff {A : Adapter} {others : List String} {c : PromptCache}
    (h : Orderly A others .idle c) {tokens : List ℤ} {e : PyError} {w : World}
    (hcapture : captureCurrentState A tokens c.backend = (.error e, w)) {name : String}
    (hbound : name ∈ c.backend.bound) :
    w.server.Alive name ↔ c.backend.server.Alive name ∧
      (ValidTokens tokens → name ∉ reclaimedBy A tokens c.backend) := by
  have hserver : c.backend.sent.server = c.backend.server := by rw [h.steady.sent]
  rcases capture_failed h.wellFormed hcapture with ⟨rfl, hinvalid⟩ | ⟨hvalid, server, rfl, hfailed⟩
  · exact (and_iff_left fun hvalid => absurd hvalid hinvalid).symm
  · have halive := hfailed.alive_iff (hserver ▸ h.wellFormed)
      (hserver ▸ h.ne_next (Or.inl (Or.inl hbound)))
    rw [hserver] at halive
    exact halive.trans (and_congr_right fun _ =>
      ⟨fun hspared _ => hspared, fun hspared => hspared hvalid⟩)

/-- A failed capture after which the reconciliation completed. -/
theorem reconciled_settled_iff {A : Adapter} {others : List String} {c : PromptCache}
    (hc : Coherent A c) (h : Orderly A others .idle c)
    (hdrained : c.backend.pendingDrops = .empty) {tokens : List ℤ} {e : PyError}
    {names : List String} {w₂ w₃ : World}
    (hcapture : captureCurrentState A tokens c.backend = (.error e, w₂))
    (hreconcile : reconcileOrphanedHandles A w₂ = (.ok names, w₃)) :
    Settled A { c with backend := w₃ } ↔ ∀ h ∈ c.backend.bound, c.backend.server.Alive h ∧
      (ValidTokens tokens → h ∉ reclaimedBy A tokens c.backend) := by
  obtain ⟨hrecords₂, hpending₂⟩ := captureCurrentState_registry hcapture
  obtain ⟨hrecords₃, hpending₃⟩ := reconcileOrphanedHandles_registry A w₂
  have hc₃ := (hc.captured hcapture).reconciled
  have hspec := reconcileOrphanedHandles_spec (A := A) (h.captureFailed hcapture).steady
  have hsheds := hspec.sheds
  dsimp only at hspec hsheds
  rw [reconciled, hreconcile] at hc₃
  rw [hreconcile] at hspec hsheds hrecords₃ hpending₃
  have hbound₂ : w₂.bound = c.backend.bound := by rw [World.bound, hrecords₂, World.bound]
  have hbound₃ : w₃.bound = w₂.bound := by rw [World.bound, hrecords₃, World.bound]
  have hqueue₃ : w₃.pending = w₂.pending := by rw [World.pending, hpending₃, World.pending]
  rw [settled_iff hc₃ (hpending₃.trans (hpending₂.trans hdrained))]
  · dsimp only
    rw [hbound₃, hbound₂]
    refine forall₂_congr fun name hmem => ?_
    rw [← captureFailed_alive_iff h hcapture hmem]
    exact ⟨hsheds.alive, fun halive =>
      hsheds.alive_of_not_may halive fun hmay => hmay.1 (hbound₂ ▸ hmem)⟩
  · intro name halive
    generalize hr : ((Except.ok names, w₃) : Except PyError (List String) × World) = r at hspec
    cases hspec with
    | unread | interrupted => cases hr
    | completed handles w₁ w' hrun hknown =>
      obtain ⟨-, rfl⟩ := Prod.mk.inj hr
      dsimp only
      rw [hbound₃, hqueue₃]
      exact hknown name halive

/-- A packaged call that captures these tokens. -/
def Op.Captures (tokens : List ℤ) : Op → Prop
  | .captureAndAdmit stateTokens _ _ => stateTokens = tokens
  | .captureStableCandidate stateTokens => stateTokens = tokens
  | _ => False

theorem perform_captureError {A : Adapter} {op : Op} {tokens : List ℤ} (hop : op.Captures tokens)
    {c c' : PromptCache} {e : PyError}
    (h : onBackend (captureCurrent A (cacheKey A tokens)) c = (.error e, c')) :
    perform A op c = (.error e, c') := by
  cases op with
  | captureAndAdmit stateTokens role predecessor =>
    rw [Op.Captures] at hop
    subst hop
    have hstate : captureState A stateTokens c = (.error e, c') := by
      unfold captureState
      rw [bind_of_error h]
    rw [perform]
    refine ignoring_error ?_
    unfold captureAndAdmit
    rw [bind_of_error hstate]
  | captureStableCandidate stateTokens =>
    rw [Op.Captures] at hop
    subst hop
    rw [perform]
    refine ignoring_error ?_
    unfold captureStableCandidate
    rw [bind_of_error h]
  | _ => exact hop.elim

/-- A packaged call whose capture fails ends where the reconciliation does. -/
theorem perform_captureFailed {A : Adapter} {op : Op} {tokens : List ℤ} (hop : op.Captures tokens)
    {c : PromptCache} (hw : c.backend.server.WellFormed) {n : ℕ} {e : PyError} {w₁ w₂ : World}
    (hflush : flushDrops A c.backend = (.ok n, w₁))
    (hcapture : captureCurrentState A tokens w₁ = (.error e, w₂)) :
    perform A op c = (.error e, { c with backend := (reconcileOrphanedHandles A w₂).2 }) := by
  refine perform_captureError hop ?_
  have hrun := captureCurrent_run (A := A) (cacheKey A tokens) rfl hw
  generalize hr : captureCurrent A (cacheKey A tokens) c.backend = r at hrun
  cases hrun with
  | blocked e' w₁' hflush' =>
    rw [hflush] at hflush'
    cases hflush'
  | failed e' n' w₁' w₂' hflush' hcapture' =>
    rw [hflush] at hflush'
    cases hflush'
    rw [cacheKey, hcapture] at hcapture'
    cases hcapture'
    exact onBackend_of hr
  | captured state evicted n' w₁' w₂' hflush' hcapture' =>
    rw [hflush] at hflush'
    cases hflush'
    rw [cacheKey, hcapture] at hcapture'
    cases hcapture'

/-- After a failed capture whose reconciliation completed, the three stores agree exactly
when every bound handle was alive and the capture reclaimed none of them. In a session
whose captures all told the client, and whose caller offered only live states, they agree. -/
theorem failed_capture_settles {A : Adapter} {config : PolicyConfig} {server : FreshServer A}
    {s : Session} {call : Call} {tokens : List ℤ} {n : ℕ} {e : PyError} {names : List String}
    {w₁ w₂ w₃ : World} (hs : s.Reached A config server Session.Permits) (hcall : call.Steady)
    (hop : call.op.Captures tokens)
    (hflush : flushDrops A (scripted s.cache call.script).backend = (.ok n, w₁))
    (hcapture : captureCurrentState A tokens w₁ = (.error e, w₂))
    (hreconcile : reconcileOrphanedHandles A w₂ = (.ok names, w₃)) :
    perform A call.op (scripted s.cache call.script) = (.error e, ⟨s.cache.policy, w₃⟩) ∧
    (Settled A ⟨s.cache.policy, w₃⟩ ↔ ∀ h ∈ w₁.bound, w₁.server.Alive h ∧
      (ValidTokens tokens → h ∉ reclaimedBy A tokens w₁)) ∧
    (s.Reached A config server Session.PermitsLive → (∀ event ∈ w₂.history, event.Told) →
      Settled A ⟨s.cache.policy, w₃⟩) := by
  obtain ⟨hc, hlawful⟩ := hs.lawful
  have hc' := scripted_coherent hc call.script
  have hlawful' := scripted_lawful hlawful hcall
  obtain ⟨hflushed, hdrained⟩ := flushed_empty hflush
  have horderly := Orderly.flushed hc' hlawful'.orderly
  have hc₁ := hc'.flushed
  rw [hflushed] at horderly hc₁
  have hiff := reconciled_settled_iff hc₁ horderly hdrained hcapture hreconcile
  refine ⟨?_, hiff, fun hreached htold => hiff.mpr fun h hbound => ?_⟩
  · have hperform := perform_captureFailed hop hlawful'.orderly.wellFormed hflush hcapture
    rwa [hreconcile] at hperform
  · rw [← captureFailed_alive_iff horderly hcapture hbound]
    have hL := live_ledger A s.obtained
    have hlive := hL.flush hc' (hL.closing (scripted_live hreached.live.2 hcall))
    rw [hflushed] at hlive
    have hfailed := hL.captureFailed hc₁ hdrained hlive hcapture
    refine hfailed.alive htold (Or.inl ?_)
    rwa [World.bound, (captureCurrentState_registry hcapture).1]

/-! ## A lost report -/

namespace Sample

/-- The client with one admitted state. -/
def admitted : Session := start.step adapter (capture [])

theorem admitted_reached : admitted.Reached adapter config server Session.Permits :=
  .next .start ⟨by simp [capture, Call.Steady], trivial⟩

/-- The next capture in three stages: flushed, failed and reconciled. -/
def flushedOnce (x : Exchange) : World := (flushDrops adapter (scripted admitted.cache [x]).backend).2

def failedOnce (x : Exchange) : World := (captureCurrentState adapter [1, 2] (flushedOnce x)).2

def reconciledOnce (x : Exchange) : World := (reconcileOrphanedHandles adapter (failedOnce x)).2

end Sample

open Sample

/-- A capture request that never arrives leaves the one binding alive. -/
theorem unsent_capture_settles :
    Settled adapter ⟨admitted.cache.policy, reconciledOnce unsent⟩ := by
  have hsteady : (capture [unsent]).Steady := by
    simp [capture, Call.Steady, unsent, Exchange.normal]
  have hflush : flushDrops adapter (scripted admitted.cache [unsent]).backend =
      (.ok 0, flushedOnce unsent) := rfl
  have hcapture : captureCurrentState adapter [1, 2] (flushedOnce unsent) =
      (.error (.osError "request not delivered"), failedOnce unsent) :=
    Prod.ext (by decide +kernel) rfl
  have hreconcile : reconcileOrphanedHandles adapter (failedOnce unsent) =
      (.ok [], reconciledOnce unsent) := Prod.ext (by decide +kernel) rfl
  exact (failed_capture_settles admitted_reached hsteady rfl hflush hcapture
    hreconcile).2.1.mpr (by decide +kernel)

/-- The lost response reported that the admitted state was reclaimed: after a reconciliation
without error its key is still bound, to a handle that is gone. -/
theorem lost_report_dangles :
    admitted.Reached adapter config server Session.Permits ∧ (capture [lost]).Steady ∧
      flushDrops adapter (scripted admitted.cache [lost]).backend = (.ok 0, flushedOnce lost) ∧
      captureCurrentState adapter [1, 2] (flushedOnce lost) =
        (.error (.osError "response lost"), failedOnce lost) ∧
      reconcileOrphanedHandles adapter (failedOnce lost) =
        (.ok ["sbm1-0000000000000002"], reconciledOnce lost) ∧
      "sbm1-0000000000000001" ∈ (reconciledOnce lost).bound ∧
      ¬ Settled adapter ⟨admitted.cache.policy, reconciledOnce lost⟩ := by
  refine ⟨admitted_reached, by simp [capture, Call.Steady, lost, Exchange.normal],
    Prod.ext (by decide +kernel) rfl, Prod.ext (by decide +kernel) rfl,
    Prod.ext (by decide +kernel) rfl, by decide +kernel, fun h => ?_⟩
  have halive := (h.handles "sbm1-0000000000000001").mpr (Or.inl (by decide +kernel))
  exact absurd halive (by decide +kernel)

end StateBraid.Managed
