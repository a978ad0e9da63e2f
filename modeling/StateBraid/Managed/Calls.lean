import StateBraid.Managed.Coherence

/-!
# The parts of a call

A packaged capture is a flush, a capture, the notices of that capture and then a guarded
admission; a guarded admission is a transaction, at most one more handle in the queue,
and a flush. Each part is named with the equation of the call it stands for.
-/

namespace StateBraid.Managed
open Library Policy Coordinator LlamaCpp Exec

variable {A : Adapter}

theorem onBackend_of {α : Type} {m : Exec PyError World α} {c : PromptCache} {r : Except PyError α}
    {w : World} (h : m c.backend = (r, w)) : onBackend m c = (r, { c with backend := w }) := by
  simp [onBackend, Exec.zoom, h]

/-- The client after a flush. -/
def flushed (A : Adapter) (c : PromptCache) : PromptCache :=
  { c with backend := (flushDrops A c.backend).2 }

/-- The client after a reconciliation. -/
def reconciled (A : Adapter) (c : PromptCache) : PromptCache :=
  { c with backend := (reconcileOrphanedHandles A c.backend).2 }

/-- The client with one more handle queued. -/
def queued (c : PromptCache) (state : StateHandle) : PromptCache :=
  { c with backend := c.backend.queueDrop state }

/-- A flush queues nothing. -/
theorem flushed_pending {c : PromptCache} {name : String}
    (h : name ∈ (flushed A c).backend.pending) : name ∈ c.backend.pending := by
  have hdrains := flushDrops_drains (A := A) (w := c.backend)
  obtain ⟨st, hst⟩ := World.mem_pending.mp h
  rw [flushed] at hst
  rcases hrun : flushDrops A c.backend with ⟨⟨e⟩ | ⟨n⟩, w⟩ <;> rw [hrun] at hdrains hst
  · exact World.mem_pending.mpr ⟨st, hdrains.subset hst⟩
  · exact World.mem_pending.mpr ⟨st, hdrains.1.subset hst⟩

namespace Coherent

variable {c : PromptCache}

theorem flushed (h : Coherent A c) : Coherent A (flushed A c) := by
  have hdrains := flushDrops_drains (A := A) (w := c.backend)
  unfold Managed.flushed
  rcases hrun : flushDrops A c.backend with ⟨⟨e⟩ | ⟨n⟩, w⟩ <;> rw [hrun] at hdrains
  · exact h.withBackend hdrains.records hdrains.subset
  · exact h.withBackend hdrains.1.records hdrains.1.subset

theorem reconciled (h : Coherent A c) : Coherent A (reconciled A c) := by
  obtain ⟨hrecords, hpending⟩ := reconcileOrphanedHandles_registry A c.backend
  exact h.withBackend hrecords (fun hget => hpending ▸ hget)

theorem captured (h : Coherent A c) {tokens : List ℤ}
    {r : Except PyError (StateHandle × List String)} {w : World}
    (hrun : captureCurrentState A tokens c.backend = (r, w)) :
    Coherent A { c with backend := w } := by
  obtain ⟨hrecords, hpending⟩ := captureCurrentState_registry hrun
  exact h.withBackend hrecords (fun hget => hpending ▸ hget)

theorem queueDrop (h : Coherent A c) {state : StateHandle}
    (hbinding : stateBinding A state = .ok ()) :
    Coherent A (Managed.queued c state) :=
  { h with
    queued := fun {name st} hget => by
      rw [Managed.queued, World.queueDrop, Dict.get?_insert] at hget
      split_ifs at hget with hname
      · cases hget
        exact ⟨hname.symm, hbinding⟩
      · exact h.queued hget }

end Coherent

/-! ## Captures -/

/-- How the facade's `capture_current` ends. -/
inductive CaptureState (A : Adapter) (tokens : List ℤ) (c : PromptCache) :
    Except PyError StateHandle × PromptCache → Prop
  | blocked (e : PyError) (hflush : (flushDrops A c.backend).1 = .error e) :
      CaptureState A tokens c (.error e, flushed A c)
  | failed (e : PyError) (w : World) (hdrained : (flushed A c).backend.pendingDrops = .empty)
      (hcapture : captureCurrentState A tokens (flushed A c).backend = (.error e, w)) :
      CaptureState A tokens c (.error e, reconciled A { c with backend := w })
  | captured (state : StateHandle) (evicted : List String) (w : World) (c' : PromptCache)
      (hdrained : (flushed A c).backend.pendingDrops = .empty)
      (hcapture : captureCurrentState A tokens (flushed A c).backend = (.ok (state, evicted), w))
      (hforgets : Forgets A evicted { c with backend := w } c') :
      CaptureState A tokens c (.ok state, c')

/-- A flushed queue, with the result that says so. -/
theorem flushed_empty {c : PromptCache} {n : ℕ} {w : World}
    (h : flushDrops A c.backend = (.ok n, w)) :
    flushed A c = { c with backend := w } ∧ w.pendingDrops = .empty := by
  have hdrains := flushDrops_drains (A := A) (w := c.backend)
  rw [h] at hdrains
  exact ⟨by rw [flushed, h], hdrains.2⟩

/-- What a capture of the backend means for the facade: when it returns, its notices are
applied without fail. -/
theorem captureCurrent_cases {c : PromptCache} (hc : Coherent A c)
    (hw : c.backend.server.WellFormed) (tokens : List ℤ) :
    (∃ e c', onBackend (captureCurrent A (cacheKey A tokens)) c = (.error e, c') ∧
      CaptureState A tokens c (.error e, c')) ∨
    ∃ state evicted c₁ c', onBackend (captureCurrent A (cacheKey A tokens)) c =
        (.ok (state, evicted), c₁) ∧ applyNotices A evicted c₁ = (.ok (), c') ∧
      CaptureState A tokens c (.ok state, c') := by
  have hrun := captureCurrent_run (A := A) (cacheKey A tokens) rfl hw
  generalize hr : captureCurrent A (cacheKey A tokens) c.backend = r at hrun
  cases hrun with
  | blocked e w₁ hflush =>
    refine Or.inl ⟨e, flushed A c, ?_, .blocked e (by rw [hflush])⟩
    rw [onBackend_of hr, flushed, hflush]
  | failed e n w₁ w₂ hflush hcapture =>
    obtain ⟨heq, hdrained⟩ := flushed_empty hflush
    refine Or.inl ⟨e, _, onBackend_of hr, .failed e w₂ ?_ ?_⟩
    · rw [heq]
      exact hdrained
    · rw [heq]
      exact hcapture
  | captured state evicted n w₁ w₂ hflush hcapture =>
    obtain ⟨heq, hdrained⟩ := flushed_empty hflush
    have hc₁ : Coherent A { c with backend := w₁ } := heq ▸ hc.flushed
    have hempty : w₂.pendingDrops = .empty :=
      (captureCurrentState_registry hcapture).2.trans hdrained
    obtain ⟨c', happly, hforgets⟩ := applyNotices_ok (hc₁.captured hcapture) evicted hempty
    refine Or.inr ⟨state, evicted, _, c', onBackend_of hr, happly,
      .captured state evicted w₂ c' ?_ ?_ hforgets⟩
    · rw [heq]
      exact hdrained
    · rw [heq]
      exact hcapture

theorem captureState_run {c : PromptCache} (hc : Coherent A c)
    (hw : c.backend.server.WellFormed) (tokens : List ℤ) :
    CaptureState A tokens c (captureState A tokens c) := by
  unfold captureState
  rcases captureCurrent_cases hc hw tokens with
    ⟨e, c', hrun, hstate⟩ | ⟨state, evicted, c₁, c', hrun, happly, hstate⟩
  · rw [bind_of_error hrun]
    exact hstate
  · rw [bind_of_ok hrun]
    dsimp only
    rw [bind_of_ok happly]
    exact hstate

/-! ## Admissions -/

/-- A guarded admission starts with its first step. -/
theorem guardedAdmission_after {state : StateHandle} {first : Exec PyError PromptCache Unit}
    {admission : Exec PyError PromptCache Bool} {c c' : PromptCache} (h : first c = (.ok (), c')) :
    guardedAdmission A state (first >>= fun _ => admission) c =
      guardedAdmission A state admission c' := by
  simp only [guardedAdmission, Exec.tryFinally, Exec.tryExcept, bind_apply, h]

/-- A captured state, then its guarded admission: what both packaged captures do. -/
def captureWith (A : Adapter) (tokens : List ℤ)
    (admission : StateHandle → Exec PyError PromptCache Bool) : Exec PyError PromptCache Bool := do
  let state ← captureState A tokens
  guardedAdmission A state (admission state)

theorem captureAndAdmit_eq (tokens : List ℤ) (role : Role) (predecessor : Option (List ℤ)) :
    captureAndAdmit A tokens role predecessor = captureWith A tokens (fun state =>
      admitEntry (registry A) (cacheKey A tokens) state role state.nbytes
        (predecessor.map (cacheKey A))) := by
  simp only [captureAndAdmit, captureWith, admitCaptured]

theorem captureStableCandidate_eq {c : PromptCache} (hc : Coherent A c)
    (hw : c.backend.server.WellFormed) (tokens : List ℤ) :
    captureStableCandidate A tokens c = captureWith A tokens (fun state =>
      admitStableCandidate (registry A) (cacheKey A tokens) state state.nbytes) c := by
  unfold captureStableCandidate captureWith
  rcases captureCurrent_cases hc hw tokens with
    ⟨e, c', hrun, -⟩ | ⟨state, evicted, c₁, c', hrun, happly, -⟩
  · have hcapture : captureState A tokens c = (.error e, c') := bind_of_error hrun _
    rw [bind_of_error hrun, bind_of_error hcapture]
  · have hcapture : captureState A tokens c = (.ok state, c') := by
      unfold captureState
      rw [bind_of_ok hrun]
      dsimp only
      rw [bind_of_ok happly]
      rfl
    rw [bind_of_ok hrun, bind_of_ok hcapture]
    exact guardedAdmission_after happly

/-- What a guarded admission has done before its last flush. -/
inductive GuardedRun (A : Adapter) (key : Key) (state : StateHandle) (c : PromptCache) :
    Except PyError Bool × PromptCache → Prop
  | accepted (c' : PromptCache) (h : Rebinds A (some (key, state)) c c')
      (hbound : c'.backend.records.get? key = some state) :
      GuardedRun A key state c (.ok true, c')
  | discarded (r : Except PyError Bool) (c' : PromptCache) (hr : r ≠ .ok true)
      (h : Rebinds A (some (key, state)) c c')
      (hkeep : ∀ k, c'.backend.records.get? k = c.backend.records.get? k) :
      GuardedRun A key state c (r, queued c' state)
  | released (e : PyError) (c' : PromptCache) (h : Rebinds A (some (key, state)) c c')
      (hkeep : ∀ k, c'.backend.records.get? k = c.backend.records.get? k)
      (hbound : state.handle ∈ c'.backend.bound) :
      GuardedRun A key state c (.error e, c')

theorem discardUnbound_run {state : StateHandle} (hbinding : stateBinding A state = .ok ())
    (c : PromptCache) : onBackend (discardUnbound A state) c = (.ok (), queued c state) := by
  refine onBackend_of ?_
  simp [discardUnbound, hbinding]

/-- A guarded admission before its last flush. -/
def guardedBody (A : Adapter) (state : StateHandle) (admission : Exec PyError PromptCache Bool) :
    Exec PyError PromptCache Bool :=
  Exec.tryExcept
    (do
      let accepted ← admission
      if accepted = false then onBackend (discardUnbound A state)
      pure accepted)
    (releaseUnbound A state)

theorem guardedAdmission_eq (state : StateHandle) (admission : Exec PyError PromptCache Bool) :
    guardedAdmission A state admission =
      Exec.tryFinally (guardedBody A state admission) (flushAfter A) := rfl

theorem guardedBody_run {key : Key} {state : StateHandle}
    {admission : Exec PyError PromptCache Bool} (hadmits : Admits A key state admission)
    (hbinding : stateBinding A state = .ok ()) {c : PromptCache} (hc : Coherent A c) :
    ∃ c', GuardedRun A key state c ((admission c).1, c') ∧
      guardedBody A state admission c = ((admission c).1, c') := by
  have hout := hadmits c hc
  generalize hrun : admission c = result at hout
  cases hout with
  | accepted c' h hbound =>
    refine ⟨c', .accepted c' h hbound, ?_⟩
    simp [guardedBody, Exec.tryExcept, bind_apply, hrun]
  | rejected c' h hkeep =>
    refine ⟨queued c' state, .discarded _ c' (by simp) h hkeep, ?_⟩
    simp [guardedBody, Exec.tryExcept, bind_apply, hrun, discardUnbound_run hbinding]
  | failed e c' h hkeep =>
    by_cases hbound : state.handle ∈ c'.backend.bound
    · refine ⟨c', .released e c' h hkeep hbound, ?_⟩
      simp [guardedBody, Exec.tryExcept, bind_apply, hrun, releaseUnbound, hbound]
    · refine ⟨queued c' state, .discarded _ c' (by simp) h hkeep, ?_⟩
      simp [guardedBody, Exec.tryExcept, bind_apply, hrun, releaseUnbound, hbound,
        discardUnbound_run hbinding]

/-- The flush at the end of a mutation decides the state. -/
theorem flushAfter_state (c : PromptCache) : (flushAfter A c).2 = flushed A c := by
  unfold flushAfter flushed
  rcases h : flushDrops A c.backend with ⟨⟨e⟩ | ⟨n⟩, w⟩
  · rw [bind_of_error (onBackend_of h)]
  · rw [bind_of_ok (onBackend_of h)]
    rfl

theorem guardedAdmission_state (state : StateHandle) (admission : Exec PyError PromptCache Bool)
    (c : PromptCache) :
    (guardedAdmission A state admission c).2 = flushed A (guardedBody A state admission c).2 := by
  rw [guardedAdmission_eq, tryFinally_state, flushAfter_state]

end StateBraid.Managed
