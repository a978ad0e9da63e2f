import StateBraid.Managed.Candidates
import StateBraid.Managed.Prepare
import StateBraid.Managed.SessionFacts

/-!
# Sizes in the policy and in the registry

An entry of the policy weighs what its handle says. This needs nothing of the transport:
it holds over lost requests, restarts and every exception, for packaged calls and for the
two-phase ones. Since both sides also have the same keys, the policy's byte total is the
sum over the bound handles, and `prepare` finds the binding of every key it selects.
-/

namespace StateBraid.Managed
open Library Policy Coordinator LlamaCpp Exec

/-- Every entry weighs what its handle says; a state in hand has a size. -/
structure Priced (A : Adapter) (φ : Phase) (c : PromptCache) : Prop where
  wellFormed : c.backend.server.WellFormed
  entry : ∀ {k st e}, c.backend.records.get? k = some st → c.policy.entries.get? k = some e →
    e.nbytes = st.nbytes
  inHand : ∀ key state, φ = .holding key state → 0 ≤ state.nbytes

namespace Priced

variable {A : Adapter} {φ φ' : Phase} {c c' : PromptCache}

/-- A step that touches neither side. -/
theorem withBackend (h : Priced A φ c) {w : World} (hwell : w.server.WellFormed)
    (hrecords : w.records = c.backend.records) : Priced A φ { c with backend := w } where
  wellFormed := hwell
  entry hst he := h.entry (hrecords ▸ hst) he
  inHand := h.inHand

/-- Putting down what is in hand. -/
theorem release (h : Priced A φ c) (hφ : ∀ key state, φ' ≠ .holding key state) : Priced A φ' c where
  wellFormed := h.wellFormed
  entry := h.entry
  inHand key state hhold := absurd hhold (hφ key state)

/-- Rebinding prices what it admits. -/
theorem rebind (h : Priced A φ c) {offered : Option (Key × StateHandle)}
    (hrebinds : Rebinds A offered c c') (hoffered : ∀ o ∈ offered, 0 ≤ o.2.nbytes) :
    Priced A φ c' where
  wellFormed := hrebinds.rebound.server ▸ h.wellFormed
  entry {k st e} hst he := by
    rcases hrebinds.priced he with ⟨hsame, e₀, he₀, hbytes⟩ | ⟨st', hoffer, hst', hbytes⟩
    · rw [← hbytes]
      exact h.entry (hsame ▸ hst) he₀
    · rw [hst] at hst'
      cases hst'
      rw [hbytes]
      exact max_eq_right (hoffered (k, st) hoffer)
  inHand := h.inHand

/-- Forgetting keeps the prices of what is left. -/
theorem forgot (h : Priced A φ c) {handles : List String} (hforgets : Forgets A handles c c') :
    Priced A φ c' where
  wellFormed := hforgets.server ▸ h.wellFormed
  entry hst he := h.entry (hforgets.records.mp hst).1 (hforgets.priced he)
  inHand := h.inHand

theorem flushed (h : Priced A φ c) : Priced A φ (flushed A c) := by
  have hwell := (flushDrops_keeps (A := A) (exchange_wellFormed .list)
    (fun handle => exchange_wellFormed _) (fun _ _ h => h)).state h.wellFormed
  refine h.withBackend hwell ?_
  have hdrains := flushDrops_drains (A := A) (w := c.backend)
  rcases hrun : flushDrops A c.backend with ⟨⟨e⟩ | ⟨n⟩, w⟩ <;> rw [hrun] at hdrains
  · exact hdrains.records
  · exact hdrains.1.records

theorem reconciled (h : Priced A φ c) : Priced A φ (reconciled A c) :=
  h.withBackend
    ((reconcileOrphanedHandles_keeps (exchange_wellFormed .list) (fun _ => exchange_wellFormed _)
      (fun _ h => h) (fun _ h => h)).state h.wellFormed)
    (reconcileOrphanedHandles_registry A c.backend).1

theorem capture (h : Priced A φ c) {tokens : List ℤ}
    {r : Except PyError (StateHandle × List String)} {w : World}
    (hrun : captureCurrentState A tokens c.backend = (r, w)) :
    Priced A φ { c with backend := w } := by
  have hwell := (captureCurrentState_keeps (A := A) tokens (exchange_wellFormed .list)
    (fun _ => exchange_wellFormed _) (exchange_wellFormed _)).state h.wellFormed
  rw [hrun] at hwell
  exact h.withBackend hwell (captureCurrentState_registry hrun).1

/-- Taking a state with a size in hand. -/
theorem hold (h : Priced A φ c) (key : Key) {state : StateHandle} (hstate : 0 ≤ state.nbytes) :
    Priced A (.holding key state) c where
  wellFormed := h.wellFormed
  entry := h.entry
  inHand _ _ hhold := by
    cases hhold
    exact hstate

end Priced

/-- A captured state has a size. -/
theorem captured_nbytes {A : Adapter} {tokens : List ℤ} {w w' : World} {state : StateHandle}
    {evicted : List String} (hw : w.server.WellFormed)
    (h : captureCurrentState A tokens w = (.ok (state, evicted), w')) : 0 ≤ state.nbytes := by
  obtain ⟨slot, -, -, -, -, rfl, -, -⟩ := capture_returned hw h
  exact Int.natCast_nonneg _

theorem priced_ledger (A : Adapter) : Ledger A (Priced A) where
  wellFormed h := h.wellFormed
  passive {c request} _ _ h :=
    h.withBackend ((exchange_wellFormed request).state h.wellFormed)
      (exchange_registry request c.backend).1
  closing h := h.release (by simp)
  flush _ h := (h.release (by simp)).flushed
  reconcile _ h := h.reconciled
  captureFailed _ _ h hcapture := h.capture hcapture
  captured _ _ h hcapture hforgets :=
    ((h.capture hcapture).forgot hforgets).hold _ (captured_nbytes h.wellFormed hcapture)
  accepted h hrebinds _ :=
    (h.rebind hrebinds (by simpa using h.inHand _ _ rfl)).release (by simp)
  kept h hrebinds _ := h.rebind hrebinds (by simpa using h.inHand _ _ rfl)
  discarded h :=
    have hclosing : Priced A .closing _ := h.release (by simp)
    hclosing.withBackend hclosing.wellFormed rfl
  released h _ := h.release (by simp)
  trimmed h hrebinds := (h.rebind hrebinds (by simp)).release (by simp)
  observed h hrebinds _ := h.rebind hrebinds (by simp)

/-! ## States from anywhere

`admit_captured` takes whatever state it is given. One that does not belong to the adapter
cannot even be queued for a drop: the attempt raises and changes nothing. -/

theorem releaseUnbound_foreign {A : Adapter} {state : StateHandle} {e₀ : PyError}
    (hbinding : stateBinding A state = .error e₀) (e : PyError) (c : PromptCache) :
    ∃ e', releaseUnbound A state e c = (.error e', c) := by
  by_cases hbound : state.handle ∈ c.backend.bound
  · exact ⟨e, by simp [releaseUnbound, hbound]⟩
  · refine ⟨e₀, ?_⟩
    have hdiscard : onBackend (discardUnbound A state) c = (.error e₀, c) :=
      onBackend_of (by simp [discardUnbound, hbinding])
    simp [releaseUnbound, hbound, bind_apply, hdiscard]

theorem guardedBody_foreign {A : Adapter} {key : Key} {state : StateHandle} {e₀ : PyError}
    (hbinding : stateBinding A state = .error e₀) {admission : Exec PyError PromptCache Bool}
    (hadmits : Admits A key state admission) {c : PromptCache} (hc : Coherent A c) :
    ∃ r c', Rebinds A (some (key, state)) c c' ∧ guardedBody A state admission c = (r, c') := by
  have hout := hadmits c hc
  generalize hrun : admission c = result at hout
  cases hout with
  | accepted c' h _ =>
    refine ⟨.ok true, c', h, ?_⟩
    simp [guardedBody, Exec.tryExcept, bind_apply, hrun]
  | rejected c' h _ =>
    have hdiscard : onBackend (discardUnbound A state) c' = (.error e₀, c') :=
      onBackend_of (by simp [discardUnbound, hbinding])
    obtain ⟨e', hrelease⟩ := releaseUnbound_foreign hbinding e₀ c'
    refine ⟨.error e', c', h, ?_⟩
    simp [guardedBody, Exec.tryExcept, bind_apply, hrun, hdiscard, hrelease]
  | failed e c' h _ =>
    obtain ⟨e', hrelease⟩ := releaseUnbound_foreign hbinding e c'
    refine ⟨.error e', c', h, ?_⟩
    simp [guardedBody, Exec.tryExcept, bind_apply, hrun, hrelease]

/-- Admitting any state with a size keeps the prices. -/
theorem Priced.admission {A : Adapter} {c : PromptCache} (h : Priced A .idle c) (hc : Coherent A c)
    {key : Key} {state : StateHandle} (hstate : 0 ≤ state.nbytes)
    {admission : Exec PyError PromptCache Bool} (hadmits : Admits A key state admission) :
    Ledger.Between A (Priced A) (guardedAdmission A state admission c).2 := by
  rcases hbinding : stateBinding A state with e₀ | ⟨⟩
  · obtain ⟨r, c', hrebinds, heq⟩ := guardedBody_foreign hbinding hadmits hc
    rw [guardedAdmission_state, heq]
    exact ⟨hrebinds.coherent.flushed, (h.rebind hrebinds (by simpa using hstate)).flushed⟩
  · exact (priced_ledger A).guardedAdmission hc (h.hold key hstate) hbinding hadmits

/-! ## Whole sessions -/

/-- A state offered to `admit_captured` came from `capture_current`, or at least states a
size. Nothing else restricts the calls, and nothing at all the transport. -/
def Session.Sized (s : Session) (call : Call) : Prop :=
  ∀ tokens state role predecessor, call.op = .admitCaptured tokens state role predecessor →
    state ∈ s.obtained ∨ 0 ≤ state.nbytes

/-- Between calls: prices agree, and the states handed out have sizes. -/
structure Session.Priced (A : Adapter) (s : Session) : Prop where
  between : Ledger.Between A (Managed.Priced A) s.cache
  obtained : ∀ state ∈ s.obtained, 0 ≤ state.nbytes

/-- Every call keeps the prices. -/
theorem Session.Priced.step {A : Adapter} {s : Session} (h : s.Priced A) {call : Call}
    (hsized : s.Sized call) : (s.step A call).Priced A := by
  have hs : Ledger.Between A (Managed.Priced A) (scripted s.cache call.script) :=
    ⟨scripted_coherent h.between.1 _, h.between.2.withBackend h.between.2.wellFormed rfl⟩
  refine Session.step_of_ledger (Q := Session.Priced A) (priced_ledger A) hs
    (fun hbetween => ⟨hbetween, h.obtained⟩) (fun _ hc _ hholding => ?_)
    (fun {tokens state role predecessor} hop => ?_) fun hforgets => hs.2.forgot hforgets
  · refine ⟨⟨hc, hholding.release (by simp)⟩, fun other hother => ?_⟩
    rcases List.mem_cons.mp hother with rfl | hold
    · exact hholding.inHand _ _ rfl
    · exact h.obtained other hold
  · have hstate : 0 ≤ state.nbytes :=
      (hsized tokens state role predecessor hop).elim (h.obtained state) id
    exact ⟨hs.2.admission hs.1 hstate (admitEntry_admits rfl state role _), h.obtained⟩

theorem Session.Reached.priced {A : Adapter} {config : PolicyConfig} {server : FreshServer A}
    {s : Session} (h : s.Reached A config server Session.Sized) : s.Priced A := by
  refine Run.invariant (I := Session.Priced A) ⟨⟨open_coherent A config server.server, ?_⟩, ?_⟩
    (fun t call ht hsized => ht.step hsized) h
  · exact ⟨(open_orderly config server).wellFormed, by simp [Session.start, openCache], by simp⟩
  · simp [Session.start]

theorem Coherent.mem_records {A : Adapter} {c : PromptCache} (hc : Coherent A c) {k : Key} :
    k ∈ c.backend.records.keys ↔ k ∈ c.policy.entries.keys := by
  rw [hc.mem_entries, Dict.mem_keys_iff]

/-- The policy's byte total is what the bound handles add up to. -/
theorem Priced.total {A : Adapter} {c : PromptCache} {φ : Phase} (h : Priced A φ c)
    (hc : Coherent A c) :
    c.policy.nbytes = (c.backend.records.items.map (fun kv => kv.2.nbytes)).sum := by
  rw [hc.represents.total, WorkingSetPolicy.residentBytes]
  exact Dict.sum_congr (fun k => hc.mem_records.symm) fun he hst => h.entry hst he

/-! ## `prepare` finds its binding -/

/-- The computation raises no `KeyError`. -/
def NeverMissesKey {σ α : Type} (m : Exec PyError σ α) : Prop :=
  ∀ s message, (m s).1 ≠ .error (.keyError message)

namespace NeverMissesKey

variable {σ α β : Type} {A : Adapter}

theorem pure (a : α) : NeverMissesKey (Pure.pure a : Exec PyError σ α) := by
  intro s message h
  cases h

theorem raise {e : PyError} (he : ∀ message, e ≠ .keyError message) :
    NeverMissesKey (Exec.raise e : Exec PyError σ α) := by
  intro s message h
  exact he message (Except.error.inj h)

theorem ofExcept {r : Except PyError α} (hr : ∀ message, r ≠ .error (.keyError message)) :
    NeverMissesKey (Exec.ofExcept r : Exec PyError σ α) := fun _ => hr

theorem bind {m : Exec PyError σ α} {f : α → Exec PyError σ β} (hm : NeverMissesKey m)
    (hf : ∀ a, NeverMissesKey (f a)) : NeverMissesKey (m >>= f) := by
  intro s message h
  rcases hrun : m s with ⟨⟨e⟩ | ⟨a⟩, s'⟩
  · rw [bind_of_error hrun] at h
    refine hm s message ?_
    rw [hrun]
    exact congrArg Except.error (Except.error.inj h)
  · rw [bind_of_ok hrun] at h
    exact hf a s' message h

/-- The server's answers are values or error statuses. -/
theorem respond (s : Server) (x : Exchange) (request : Request) (message : String) :
    (s.respond x request).1 ≠ .error (.keyError message) := by
  have hanswer (answer : Except Refusal Json) : httpResult answer ≠ .error (.keyError message) := by
    cases answer <;> simp [httpResult]
  have hother (answer : Except String Json) :
      answer.mapError PyError.httpError ≠ .error (.keyError message) := by
    cases answer <;> simp [Except.mapError]
  cases request with
  | props | slots | completion => exact hother _
  | list | clear | capture | restore | drop => exact hanswer _

/-- The transport raises an `OSError` or hands an error status on. -/
theorem exchange (request : Request) : NeverMissesKey (exchange request) := by
  intro w message h
  unfold Managed.exchange at h
  dsimp only at h
  split at h
  · cases h
  · exact respond _ _ _ message h
  · cases h

theorem postManaged (request : Request) : NeverMissesKey (postManaged A request) := by
  refine (exchange request).bind fun response => ?_
  split
  · exact raise (by simp)
  split
  · exact raise (by simp)
  split
  · exact raise (by simp)
  · exact pure _

theorem clearLiveSlot : NeverMissesKey (clearLiveSlot A) := by
  refine (postManaged _).bind fun response => ?_
  split
  · exact raise (by simp)
  split
  · exact raise (by simp)
  split
  · exact raise (by simp)
  · exact pure _

theorem restoreState (state : StateHandle) : NeverMissesKey (restoreState A state) := by
  refine (ofExcept fun message => ?_).bind fun _ => (postManaged _).bind fun response => ?_
  · unfold stateBinding
    split_ifs <;> simp
  · split_ifs
    · exact raise (by simp)
    · exact raise (by simp)
    · exact pure _

end NeverMissesKey

/-- The key that `prepare` selects is bound. -/
theorem prepare_finds_key {A : Adapter} {c : PromptCache} (hc : Coherent A c) (tokens : List ℤ)
    (message : String) : (prepare A tokens c).1 ≠ .error (.keyError message) := by
  unfold prepare Transport.prepare
  split
  · simp
  intro h
  rcases hfirst : clearLiveSlot A c.backend with ⟨⟨e⟩ | ⟨n⟩, w⟩
  · rw [bind_of_error (onBackend_of hfirst)] at h
    refine NeverMissesKey.clearLiveSlot (A := A) c.backend message ?_
    rw [hfirst]
    exact congrArg Except.error (Except.error.inj h)
  -- clearing the slot leaves the registry as it was
  have hrecords : w.records = c.backend.records := by
    have hkeeps := (clearLiveSlot_keeps (A := A)
      (registry_keeps c.backend.records c.backend.pendingDrops _)).state ⟨rfl, rfl⟩
    rw [hfirst] at hkeeps
    exact hkeeps.1
  rw [bind_of_ok (onBackend_of hfirst), gets_bind_apply] at h
  dsimp only at h
  cases hbest : bestCandidate (candidates A c.policy tokens) with
  | none =>
    rw [hbest] at h
    cases h
  | some best =>
    obtain ⟨key, e, hresident, hnamespace, -, rfl⟩ := mem_candidates.mp (bestCandidate_mem hbest)
    obtain ⟨state, hstate⟩ := hc.mem_entries.mp (Dict.mem_keys_of_get? hresident)
    rw [hbest] at h
    have hlive : restoreLive A key w =
        (do
          restoreState A state
          pure state : Exec PyError World StateHandle) w := by
      unfold restoreLive Transport.restoreLive
      rw [requireKey_ok.mpr hnamespace, ofExcept_ok_bind_apply, gets_bind_apply, hrecords, hstate]
    dsimp only at h
    rcases hrestore : restoreLive A key w with ⟨⟨e⟩ | ⟨restored⟩, w'⟩
    · rw [bind_of_error (onBackend_of hrestore)] at h
      refine (NeverMissesKey.restoreState (A := A) state).bind (fun _ => .pure state) w message ?_
      rw [← hlive, hrestore]
      exact congrArg Except.error (Except.error.inj h)
    · rw [bind_of_ok (onBackend_of hrestore)] at h
      cases h

/-- After any calls, whatever the transport did to their requests and whatever they
raised: the registry and the policy have the same keys with the same sizes, the policy's
total is the sum over the bound handles, and `prepare` misses no binding. -/
theorem registry_matches_policy {A : Adapter} {config : PolicyConfig} {server : FreshServer A}
    {s : Session} (h : s.Reached A config server Session.Sized) :
    (∀ k, k ∈ s.cache.backend.records.keys ↔ k ∈ s.cache.policy.entries.keys) ∧
      (∀ k st e, s.cache.backend.records.get? k = some st →
        s.cache.policy.entries.get? k = some e → e.nbytes = st.nbytes) ∧
      s.cache.policy.nbytes =
        (s.cache.backend.records.items.map (fun kv => kv.2.nbytes)).sum ∧
      ∀ prompt script message,
        (prepare A prompt (scripted s.cache script)).1 ≠ .error (.keyError message) := by
  obtain ⟨⟨hc, hpriced⟩, -⟩ := h.priced
  exact ⟨fun _ => hc.mem_records, fun _ _ _ => hpriced.entry, hpriced.total hc,
    fun prompt script => prepare_finds_key (scripted_coherent hc script) prompt⟩

open Sample

/-- A capture whose response was lost, admitted at the second attempt. -/
theorem retried_registry_matches_policy :
    ((start.step adapter (capture [lost])).step adapter (capture [])).cache.policy.nbytes =
      (((start.step adapter (capture [lost])).step adapter (capture [])).cache.backend.records.items.map
        (fun kv => kv.2.nbytes)).sum :=
  have hreached : Session.Reached adapter config server Session.Sized
      ((start.step adapter (capture [lost])).step adapter (capture [])) :=
    .next (.next .start (by simp [Session.Sized, capture])) (by simp [Session.Sized, capture])
  (registry_matches_policy hreached).2.2.1

end StateBraid.Managed
