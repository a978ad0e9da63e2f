import StateBraid.Managed.Calls
import StateBraid.Managed.Session

/-!
# Ledgers: invariants of all calls

An invariant of the client and its server is given by what holds between calls, while a
captured state is in hand, and before the flush that ends a mutation. A `Ledger` shows
that each part of a call moves it on; the calls then keep it, whatever fails on the way.
-/

namespace StateBraid.Managed
open Library Policy Coordinator LlamaCpp Exec

/-- What a call is in the middle of: nothing, a state captured and not yet admitted, or a
mutation whose flush is still to come. -/
inductive Phase
  | idle
  | holding (key : Key) (state : StateHandle)
  | closing

/-- What an invariant owes to each part of a call. -/
structure Ledger (A : Adapter) (I : Phase → PromptCache → Prop) : Prop where
  wellFormed : ∀ {c}, I .idle c → c.backend.server.WellFormed
  passive : ∀ {c request}, Server.Passive request → Coherent A c → I .idle c →
    I .idle { c with backend := (exchange request c.backend).2 }
  closing : ∀ {c}, I .idle c → I .closing c
  flush : ∀ {c}, Coherent A c → I .closing c → I .idle (flushed A c)
  reconcile : ∀ {c}, Coherent A c → I .idle c → I .idle (reconciled A c)
  captureFailed : ∀ {c tokens e w}, Coherent A c → c.backend.pendingDrops = .empty → I .idle c →
    captureCurrentState A tokens c.backend = (.error e, w) → I .idle { c with backend := w }
  captured : ∀ {c tokens state evicted w c'}, Coherent A c → c.backend.pendingDrops = .empty →
    I .idle c → captureCurrentState A tokens c.backend = (.ok (state, evicted), w) →
    Forgets A evicted { c with backend := w } c' → I (.holding (cacheKey A tokens) state) c'
  accepted : ∀ {c c' key state}, I (.holding key state) c → Rebinds A (some (key, state)) c c' →
    c'.backend.records.get? key = some state → I .closing c'
  kept : ∀ {c c' key state}, I (.holding key state) c → Rebinds A (some (key, state)) c c' →
    (∀ k, c'.backend.records.get? k = c.backend.records.get? k) → I (.holding key state) c'
  discarded : ∀ {c key state}, I (.holding key state) c → I .closing (queued c state)
  released : ∀ {c key state}, I (.holding key state) c → state.handle ∈ c.backend.bound →
    I .closing c
  trimmed : ∀ {c c'}, I .idle c → Rebinds A none c c' → I .closing c'
  observed : ∀ {c c'}, I .idle c → Rebinds A none c c' → c'.backend = c.backend → I .idle c'

namespace Ledger

variable {A : Adapter} {I : Phase → PromptCache → Prop}

/-- The invariant between two calls. -/
def Between (A : Adapter) (I : Phase → PromptCache → Prop) (c : PromptCache) : Prop :=
  Coherent A c ∧ I .idle c

theorem between_flushed (h : Ledger A I) {c : PromptCache} (hc : Between A I c) :
    Between A I (flushed A c) := ⟨hc.1.flushed, h.flush hc.1 (h.closing hc.2)⟩

/-! ## Captures and admissions -/

theorem captureState (h : Ledger A I) {c : PromptCache} (hc : Between A I c) (tokens : List ℤ) :
    Holds (fun state c' => Coherent A c' ∧ I (.holding (cacheKey A tokens) state) c' ∧
        stateBinding A state = .ok ()) (fun _ => Between A I)
      (captureState A tokens c) := by
  have hflushed := h.between_flushed hc
  have hrun := captureState_run hc.1 (h.wellFormed hc.2) tokens
  generalize Managed.captureState A tokens c = r at hrun
  cases hrun with
  | blocked e hflush => exact hflushed
  | failed e w hdrained hcapture =>
    have hcoherent := hflushed.1.captured hcapture
    exact ⟨hcoherent.reconciled, h.reconcile hcoherent
      (h.captureFailed (c := flushed A c) hflushed.1 hdrained hflushed.2 hcapture)⟩
  | captured state evicted w c' hdrained hcapture hforgets =>
    have hsound := captured_sound (A := A) (cacheKey A tokens) rfl
      (h.wellFormed hflushed.2) hcapture
    exact ⟨hforgets.coherent, h.captured hflushed.1 hdrained hflushed.2 hcapture hforgets,
      (requireState_ok.mp hsound).2.1⟩

theorem guardedAdmission (h : Ledger A I) {c : PromptCache} (hc : Coherent A c) {key : Key}
    {state : StateHandle} (hI : I (.holding key state) c)
    (hbinding : stateBinding A state = .ok ()) {admission : Exec PyError PromptCache Bool}
    (hadmits : Admits A key state admission) :
    Between A I (guardedAdmission A state admission c).2 := by
  obtain ⟨c', hrun, heq⟩ := guardedBody_run hadmits hbinding hc
  rw [guardedAdmission_state, heq]
  generalize (admission c).1 = r at hrun
  cases hrun with
  | accepted c' hrebinds hbound =>
    exact ⟨hrebinds.coherent.flushed, h.flush hrebinds.coherent (h.accepted hI hrebinds hbound)⟩
  | discarded r c' hr hrebinds hkeep =>
    have hcoherent := hrebinds.coherent.queueDrop hbinding
    exact ⟨hcoherent.flushed, h.flush hcoherent (h.discarded (h.kept hI hrebinds hkeep))⟩
  | released e c' hrebinds hkeep hbound =>
    exact ⟨hrebinds.coherent.flushed,
      h.flush hrebinds.coherent (h.released (h.kept hI hrebinds hkeep) hbound)⟩

theorem admitCaptured (h : Ledger A I) {c : PromptCache} (hc : Coherent A c) {tokens : List ℤ}
    {state : StateHandle} (hI : I (.holding (cacheKey A tokens) state) c)
    (hbinding : stateBinding A state = .ok ()) {role : Role} {predecessor : Option (List ℤ)} :
    Between A I (admitCaptured A tokens state role predecessor c).2 :=
  h.guardedAdmission hc hI hbinding (admitEntry_admits rfl state role _)

theorem captureWith (h : Ledger A I) {c : PromptCache} (hc : Between A I c) {tokens : List ℤ}
    {admission : StateHandle → Exec PyError PromptCache Bool}
    (hadmits : ∀ state, Admits A (cacheKey A tokens) state (admission state)) :
    Between A I (captureWith A tokens admission c).2 := by
  have hcapture := h.captureState hc tokens
  unfold Managed.captureWith
  rcases hrun : Managed.captureState A tokens c with ⟨⟨e⟩ | ⟨state⟩, c'⟩ <;> rw [hrun] at hcapture
  · rw [bind_of_error hrun]
    exact hcapture
  · rw [bind_of_ok hrun]
    obtain ⟨hcoherent, hholding, hbinding⟩ := hcapture
    exact h.guardedAdmission hcoherent hholding hbinding (hadmits state)

theorem captureAndAdmit (h : Ledger A I) {c : PromptCache} (hc : Between A I c) (tokens : List ℤ)
    (role : Role) (predecessor : Option (List ℤ)) :
    Between A I (captureAndAdmit A tokens role predecessor c).2 := by
  rw [captureAndAdmit_eq]
  exact h.captureWith hc fun state => admitEntry_admits rfl state role _

theorem captureStableCandidate (h : Ledger A I) {c : PromptCache} (hc : Between A I c)
    (tokens : List ℤ) : Between A I (captureStableCandidate A tokens c).2 := by
  rw [captureStableCandidate_eq hc.1 (h.wellFormed hc.2)]
  exact h.captureWith hc fun state => admitStableCandidate_admits rfl state

theorem trimCache (h : Ledger A I) {c : PromptCache} (hc : Between A I c)
    (nSequences nBytes : Option ℤ) : Between A I (trimCache A nSequences nBytes c).2 := by
  have htrim := trimTo_rebinds hc.1 nSequences nBytes
  unfold Managed.trimCache
  rw [tryFinally_state, flushAfter_state]
  rcases hrun : trimTo (registry A) nSequences nBytes c with ⟨⟨e⟩ | ⟨trimmed⟩, c'⟩ <;>
    rw [hrun] at htrim
  · exact ⟨htrim.1.coherent.flushed, h.flush htrim.1.coherent (h.trimmed hc.2 htrim.1)⟩
  · exact ⟨htrim.coherent.flushed, h.flush htrim.coherent (h.trimmed hc.2 htrim)⟩

/-! ## Calls that only look -/

theorem onBackend_keeps {α : Type} {P : PromptCache → Prop} {m : Exec PyError World α}
    (h : ∀ policy, Keeps (fun w => P ⟨policy, w⟩) m) : Keeps P (onBackend m) :=
  Triple.zoom fun c hc => h c.policy c.backend hc

theorem passive_between (h : Ledger A I) {request : Request} (hpassive : Server.Passive request)
    (policy : WorkingSetPolicy CacheNamespace) :
    Keeps (fun w => Between A I ⟨policy, w⟩) (exchange request) :=
  Keeps.of_state fun w hw => by
    obtain ⟨hrecords, hpending⟩ := exchange_registry request w
    exact ⟨hw.1.withBackend hrecords (fun hget => hpending ▸ hget), h.passive hpassive hw.1 hw.2⟩

theorem prepare_keeps (h : Ledger A I) (tokens : List ℤ) :
    Keeps (Between A I) (prepare A tokens) := by
  unfold prepare Transport.prepare
  split
  · exact Keeps.raise _
  refine (onBackend_keeps fun policy =>
    clearLiveSlot_keeps (h.passive_between (by trivial) policy)).bind fun _ =>
      (Keeps.gets _).bind fun policy => ?_
  split
  · exact Keeps.pure _
  · refine Keeps.bind (onBackend_keeps fun policy => ?_) fun _ => Keeps.pure _
    refine (Keeps.ofExcept _).bind fun _ => (Keeps.gets _).bind fun state? => ?_
    split
    · exact Keeps.raise _
    · exact (restoreState_keeps (h.passive_between (by trivial) policy)).bind fun _ => Keeps.pure _

theorem lookup_keeps (h : Ledger A I) (namespaceArg : CacheNamespace) (tokens : List ℤ) :
    Keeps (Between A I) (lookup A namespaceArg tokens) := by
  unfold lookup Transport.lookup
  split
  · exact Keeps.raise _
  split
  · exact Keeps.raise _
  refine (h.prepare_keeps tokens).bind fun prepared => Keeps.bind (onBackend_keeps fun policy =>
    lookupAfterPolicy_keeps (h.passive_between (by trivial) policy)
      (h.passive_between (by trivial) policy) (h.passive_between (by trivial) policy))
    fun observation => ?_
  split
  · split
    · exact Keeps.raise _
    · exact Keeps.pure _
  · split
    · exact Keeps.raise _
    · have hhit (key : Key) : Keeps (Between A I) (observeHit key) :=
        Keeps.of_state fun c hc =>
          have hrebinds := observeHit_rebinds hc.1 key
          ⟨hrebinds.coherent, h.observed hc.2 hrebinds rfl⟩
      split
      · exact ((hhit _).bind fun _ => Keeps.pure _).bind fun _ => Keeps.pure _
      · exact Keeps.pure _

theorem generationSafeExact_keeps (h : Ledger A I) (namespaceArg : CacheNamespace)
    (tokens : List ℤ) : Keeps (Between A I) (generationSafeExact A namespaceArg tokens) := by
  refine (h.lookup_keeps namespaceArg tokens).bind fun observation => ?_
  split
  · exact Keeps.raise _
  · exact Keeps.pure _

/-! ## Calls -/

theorem ignoring_state {α : Type} (m : Exec PyError PromptCache α) (c : PromptCache) :
    (ignoring m c).2 = (m c).2 := by
  unfold ignoring
  rcases h : m c with ⟨⟨e⟩ | ⟨a⟩, c'⟩
  · rw [bind_of_error h]
  · rw [bind_of_ok h]
    rfl

/-- A packaged call keeps the ledger. -/
theorem packaged (h : Ledger A I) {op : Op} (hop : op.Packaged) {c : PromptCache}
    (hc : Between A I c) : Between A I (perform A op c).2 := by
  cases op with
  | captureCurrent | admitCaptured | applyRemoteEvictions => exact hop.elim
  | complete prompt idSlot =>
    rw [perform, ignoring_state]
    exact (onBackend_keeps fun policy => h.passive_between (by trivial) policy).state hc
  | captureAndAdmit tokens role predecessor =>
    rw [perform, ignoring_state]
    exact h.captureAndAdmit hc tokens role predecessor
  | captureStableCandidate tokens =>
    rw [perform, ignoring_state]
    exact h.captureStableCandidate hc tokens
  | trimTo nSequences nBytes =>
    rw [perform, ignoring_state]
    exact h.trimCache hc nSequences nBytes
  | prepare tokens =>
    rw [perform, ignoring_state]
    exact (h.prepare_keeps tokens).state hc
  | lookup namespaceArg tokens =>
    rw [perform, ignoring_state]
    exact (h.lookup_keeps namespaceArg tokens).state hc
  | generationSafeExact namespaceArg tokens =>
    rw [perform, ignoring_state]
    exact (h.generationSafeExact_keeps namespaceArg tokens).state hc
  | reconcileOrphans =>
    rw [perform, ignoring_state, reconcileOrphans]
    rcases hrun : reconcileOrphanedHandles A c.backend with ⟨r, w⟩
    rw [onBackend_of hrun]
    have := And.intro hc.1.reconciled (h.reconcile hc.1 hc.2)
    rwa [reconciled, hrun] at this

end Ledger

end StateBraid.Managed
