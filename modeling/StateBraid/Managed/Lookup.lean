import StateBraid.LlamaCpp.Evidence
import StateBraid.Managed.Candidates
import StateBraid.Managed.Pricing

/-!
# What a lookup selects and credits

`prepare` clears the slot and restores a best resident. `lookup` then believes the server
only up to the common prefix of what was restored: it raises, or credits one hit to that
resident, or none when nothing was reused. All of it before any server, in every state that
calls of any kind can lead to.
-/

namespace StateBraid.Managed
open Library Policy WorkingSetPolicy Coordinator LlamaCpp Exec

/-! ## Every reachable client is coherent -/

/-- Calls keep a well-formed server, over restarts too. -/
theorem wellFormed_ledger (A : Adapter) : Ledger A (fun _ c => c.backend.server.WellFormed) where
  wellFormed h := h
  passive {c request} _ _ h := (exchange_wellFormed request).state h
  closing h := h
  flush {c} _ h := (flushDrops_keeps (I := fun w => w.server.WellFormed) (exchange_wellFormed .list)
    (fun _ => exchange_wellFormed _) (fun _ _ h => h)).state h
  reconcile {c} _ h := (reconcileOrphanedHandles_keeps (I := fun w => w.server.WellFormed)
    (exchange_wellFormed .list) (fun _ => exchange_wellFormed _) (fun _ h => h)
    (fun _ h => h)).state h
  captureFailed {c tokens e w} _ _ h hcapture := by
    have hwell := (captureCurrentState_keeps (A := A) tokens (exchange_wellFormed .list)
      (fun _ => exchange_wellFormed _) (exchange_wellFormed _)).state h
    rwa [hcapture] at hwell
  captured {c tokens state evicted w c'} _ _ h hcapture hforgets := by
    have hwell := (captureCurrentState_keeps (A := A) tokens (exchange_wellFormed .list)
      (fun _ => exchange_wellFormed _) (exchange_wellFormed _)).state h
    rw [hcapture] at hwell
    exact hforgets.server ▸ hwell
  accepted h hrebinds _ := hrebinds.rebound.server ▸ h
  kept h hrebinds _ := hrebinds.rebound.server ▸ h
  discarded h := h
  released h _ := h
  trimmed h hrebinds := hrebinds.rebound.server ▸ h
  observed h hrebinds _ := hrebinds.rebound.server ▸ h

/-- Any call, with any state in hand, leaves the client coherent. -/
theorem Session.step_coherent {A : Adapter} {s : Session} (call : Call)
    (hs : Coherent A s.cache ∧ s.cache.backend.server.WellFormed) :
    Coherent A (s.step A call).cache ∧ (s.step A call).cache.backend.server.WellFormed := by
  have hscripted : Ledger.Between A (fun _ c => c.backend.server.WellFormed)
      (scripted s.cache call.script) := ⟨scripted_coherent hs.1 _, hs.2⟩
  refine Session.step_of_ledger (Q := fun t : Session =>
      Coherent A t.cache ∧ t.cache.backend.server.WellFormed) (wellFormed_ledger A) hscripted id
    (fun _ hc _ hwell => ⟨hc, hwell⟩) (fun {tokens state role predecessor} _ => ?_)
    fun hforgets => hforgets.server ▸ hscripted.2
  have hadmits : Admits A (cacheKey A tokens) state _ :=
    admitEntry_admits rfl state role (predecessor.map (cacheKey A))
  rcases hbinding : stateBinding A state with e₀ | ⟨⟩
  · obtain ⟨r, c', hrebinds, heq⟩ := guardedBody_foreign hbinding hadmits hscripted.1
    change Ledger.Between A (fun _ c => c.backend.server.WellFormed)
      (guardedAdmission A state _ _).2
    rw [guardedAdmission_state, heq]
    have hwell : c'.backend.server.WellFormed := hrebinds.rebound.server ▸ hscripted.2
    exact (wellFormed_ledger A).between_flushed ⟨hrebinds.coherent, hwell⟩
  · exact (wellFormed_ledger A).guardedAdmission hscripted.1 hscripted.2 hbinding hadmits

theorem Session.Reached.coherent {A : Adapter} {config : PolicyConfig} {server : FreshServer A}
    {allowed : Session → Call → Prop} {s : Session} (h : s.Reached A config server allowed) :
    Coherent A s.cache :=
  (Run.invariant (I := fun t : Session => Coherent A t.cache ∧ t.cache.backend.server.WellFormed)
    ⟨open_coherent A config server.server, (open_orderly config server).wellFormed⟩
    (fun _ call ht _ => Session.step_coherent call ht) h).1

/-! ## One request -/

/-- After a request that only reads its response, the world is what the request left. -/
theorem bind_state {σ α β : Type} {m : Exec PyError σ α} {f : α → Exec PyError σ β}
    (h : ∀ a s, (f a s).2 = s) (s : σ) : ((m >>= f) s).2 = (m s).2 := by
  rcases hm : m s with ⟨⟨e⟩ | ⟨a⟩, s'⟩
  · rw [bind_of_error hm]
  · rw [bind_of_ok hm, h]

namespace Transport

variable {T : Transport} {A : Adapter}

theorem postManaged_state (request : Request) (w : World) :
    (T.postManaged A request w).2 = (T.send request w).2 :=
  bind_state (fun response s => by split_ifs <;> rfl) w

theorem clearLiveSlot_state (w : World) :
    (T.clearLiveSlot A w).2 = (T.send (.clear A.managedEpoch A.idSlot) w).2 := by
  refine (bind_state (fun response s => ?_) w).trans (postManaged_state _ w)
  split_ifs
  · cases (response.get "n_cleared").asInt? with
    | none => rfl
    | some n =>
      dsimp only
      split_ifs <;> rfl
  · rfl

theorem restoreState_state {state : StateHandle} (hbinding : stateBinding A state = .ok ())
    (w : World) : (T.restoreState A state w).2 =
      (T.send (.restore A.managedEpoch A.idSlot state.handle) w).2 := by
  unfold restoreState
  rw [hbinding, ofExcept_ok_bind_apply]
  exact (bind_state (fun response s => by split_ifs <;> rfl) w).trans (postManaged_state _ w)

/-- The registry as it was. -/
def SameRegistry (w w' : World) : Prop :=
  w'.records = w.records ∧ w'.pendingDrops = w.pendingDrops

theorem SameRegistry.trans {w₁ w₂ w₃ : World} (h : SameRegistry w₁ w₂) (h' : SameRegistry w₂ w₃) :
    SameRegistry w₁ w₃ := ⟨h'.1.trans h.1, h'.2.trans h.2⟩

theorem send_sameRegistry (request : Request) (w : World) :
    SameRegistry w (T.send request w).2 := ⟨T.records request w, T.pendingDrops request w⟩

theorem send_keeps (w₀ : World) (request : Request) :
    Keeps (SameRegistry w₀) (T.send request) :=
  Keeps.of_state fun w h => h.trans (send_sameRegistry request w)

/-! ## `prepare` -/

/-- How `prepare` ends. -/
inductive Preparation (T : Transport) (A : Adapter) (prompt : List ℤ) (c : PromptCache) :
    Except PyError (Option ManagedRestore) × PromptCache → Prop
  | uncleared (e : PyError) (w : World) (hclear : T.clearLiveSlot A c.backend = (.error e, w)) :
      Preparation T A prompt c (.error e, { c with backend := w })
  | unmatched (n : ℤ) (w : World) (hclear : T.clearLiveSlot A c.backend = (.ok n, w))
      (hnone : ∀ key ∈ c.policy.entries.keys, key.tokens.head? ≠ prompt.head?) :
      Preparation T A prompt c (.ok none, { c with backend := w })
  | selected (n : ℤ) (w : World) (key : Key) (state : StateHandle) (r : Except PyError Unit)
      (w' : World) (hclear : T.clearLiveSlot A c.backend = (.ok n, w))
      (hbest : BestMatch c.policy prompt key) (hbound : c.backend.records.get? key = some state)
      (hrestore : T.restoreState A state w = (r, w')) :
      Preparation T A prompt c
        (r.map (fun _ => some ⟨key, state, tokenLcp key.tokens prompt⟩), { c with backend := w' })

theorem prepare_run {c : PromptCache} (hc : Coherent A c) {prompt : List ℤ}
    (hprompt : prompt ≠ []) : Preparation T A prompt c (T.prepare A prompt c) := by
  unfold prepare
  rw [if_neg hprompt]
  have hsame := send_sameRegistry (T := T) (.clear A.managedEpoch A.idSlot) c.backend
  rw [← clearLiveSlot_state] at hsame
  rcases hclear : T.clearLiveSlot A c.backend with ⟨⟨e⟩ | ⟨n⟩, w⟩ <;> rw [hclear] at hsame
  · rw [bind_of_error (onBackend_of hclear)]
    exact .uncleared e w hclear
  rw [bind_of_ok (onBackend_of hclear), gets_bind_apply]
  dsimp only
  cases hbest : bestCandidate (candidates A c.policy prompt) with
  | none => exact .unmatched n w hclear ((bestCandidate_eq_none_iff hc.namespaced hprompt).mp hbest)
  | some best =>
    have hmatch := bestCandidate_bestMatch hc.namespaced hprompt hbest
    obtain ⟨state, hstate⟩ := hc.mem_entries.mp hmatch.resident
    have hlive : T.restoreLive A best.key w =
        (do
          T.restoreState A state
          pure state : Exec PyError World StateHandle) w := by
      unfold restoreLive
      rw [requireKey_ok.mpr (hc.namespaced hmatch.resident), ofExcept_ok_bind_apply,
        gets_bind_apply, hsame.1, hstate]
    dsimp only
    rcases hrestore : T.restoreState A state w with ⟨⟨e⟩ | ⟨⟨⟩⟩, w'⟩
    · rw [bind_of_error hrestore] at hlive
      rw [bind_of_error (onBackend_of hlive)]
      exact .selected n w best.key state (.error e) w' hclear hmatch hstate hrestore
    · rw [bind_of_ok hrestore, pure_apply] at hlive
      rw [bind_of_ok (onBackend_of hlive)]
      exact .selected n w best.key state (.ok ()) w' hclear hmatch hstate hrestore

/-! ## `lookup` -/

/-- What an observation says was reused is what the server reported. -/
theorem matchedTokens_reported {backendIdentity : String} {idSlot : ℕ} {prompt : List ℤ}
    {response : Json} {observation : LookupObservation CacheNamespace ReuseHandle}
    (h : normalizeReuse backendIdentity idSlot prompt response = .ok observation) :
    ((response.get "timings").get "cache_n").asInt? =
      some (observation.matchedTokens : ℤ) := by
  have hnormalized := normalizeReuse_normalized backendIdentity idSlot prompt response
  rw [h] at hnormalized
  generalize hstats : ReuseStats.fromResponse response prompt.length = result at hnormalized
  cases hnormalized with
  | observed stats o hevidence =>
    obtain ⟨-, hcache, -⟩ := fromResponse_ok_iff.mp hstats
    rw [hcache, hevidence.matched]

/-- The policy after a lookup: one hit for the restored resident when something was reused,
and nothing else. -/
def Credits (prepared : Option ManagedRestore) (matched : ℕ)
    (p p' : WorkingSetPolicy CacheNamespace) : Prop :=
  (matched = 0 → p' = p) ∧
    (0 < matched → ∃ restored e, prepared = some restored ∧
      p.entries.get? restored.key = some e ∧
      p' = { p with entries := p.entries.insert restored.key { e with hits := e.hits + 1 } })

/-- The common prefix of a prompt and of what was restored for it, if anything was. -/
def restoredLcp (prompt : List ℤ) (prepared : Option ManagedRestore) : ℕ :=
  (prepared.map (fun restored => tokenLcp restored.key.tokens prompt)).getD 0

/-- How `lookup` ends. -/
inductive LookupRun (T : Transport) (A : Adapter) (prompt : List ℤ) (c : PromptCache) :
    Except PyError (LookupObservation CacheNamespace ReuseHandle) × PromptCache → Prop
  | raised (e : PyError) (w : World) (hsame : SameRegistry c.backend w) :
      LookupRun T A prompt c (.error e, { c with backend := w })
  | returned (prepared : Option ManagedRestore) (c₁ : PromptCache) (response : Json) (w w' : World)
      (observation : LookupObservation CacheNamespace ReuseHandle)
      (p : WorkingSetPolicy CacheNamespace)
      (hprepare : T.prepare A prompt c = (.ok prepared, c₁))
      (hsend : T.send (.completion prompt A.idSlot) w = (.ok response, w'))
      (hreport : normalizeReuse A.backendIdentity A.idSlot prompt response = .ok observation)
      (hle : observation.matchedTokens ≤ restoredLcp prompt prepared)
      (hcredits : Credits prepared observation.matchedTokens c.policy p)
      (hsame : SameRegistry c.backend w') :
      LookupRun T A prompt c (.ok observation, ⟨p, w'⟩)

/-- A probe that returns has normalized the answer to its completion. -/
theorem lookupAfterPolicy_returned {tokens : List ℤ} {w w' : World}
    {observation : LookupObservation CacheNamespace ReuseHandle}
    (h : T.lookupAfterPolicy A tokens w = (.ok observation, w')) :
    ∃ w₁ response, T.send (.completion tokens A.idSlot) w₁ = (.ok response, w') ∧
      normalizeReuse A.backendIdentity A.idSlot tokens response = .ok observation := by
  obtain ⟨totalSlots, w₁, -, h⟩ := bind_eq_ok h
  obtain ⟨⟨⟩, w₂, -, h⟩ := bind_eq_ok h
  split_ifs at h
  · cases h
  obtain ⟨response, w₃, hsend, h⟩ := bind_eq_ok h
  split_ifs at h
  · obtain ⟨hreport, rfl⟩ := Prod.mk.inj h
    exact ⟨w₂, response, hsend, hreport⟩
  · cases h

/-- What `prepare` leaves of the client. -/
theorem Preparation.frame {prompt : List ℤ} {c c' : PromptCache} (hc : Coherent A c)
    {r : Except PyError (Option ManagedRestore)} (h : Preparation T A prompt c (r, c')) :
    c'.policy = c.policy ∧ SameRegistry c.backend c'.backend := by
  have hsame := send_sameRegistry (T := T) (.clear A.managedEpoch A.idSlot) c.backend
  rw [← clearLiveSlot_state] at hsame
  cases h with
  | uncleared e w hclear =>
    rw [hclear] at hsame
    exact ⟨rfl, hsame⟩
  | unmatched n w hclear hnone =>
    rw [hclear] at hsame
    exact ⟨rfl, hsame⟩
  | selected n w key state r w' hclear hbest hbound hrestore =>
    rw [hclear] at hsame
    refine ⟨rfl, hsame.trans ?_⟩
    have hrestored := send_sameRegistry (T := T) (.restore A.managedEpoch A.idSlot state.handle) w
    rw [← restoreState_state (requireState_ok.mp (hc.bound hbound)).2.1, hrestore] at hrestored
    exact hrestored

/-- What `prepare` returns of a restore. -/
theorem Preparation.restored {prompt : List ℤ} {c c' : PromptCache} {restored : ManagedRestore}
    (h : Preparation T A prompt c (.ok (some restored), c')) :
    BestMatch c.policy prompt restored.key ∧
      c.backend.records.get? restored.key = some restored.state ∧
      restored.candidateLcp = tokenLcp restored.key.tokens prompt := by
  generalize hr : (Except.ok (some restored), c') = r at h
  cases h with
  | uncleared | unmatched => cases hr
  | selected n w key state r w' hclear hbest hbound hrestore =>
    cases r with
    | error e => cases hr
    | ok u =>
      cases hr
      exact ⟨hbest, hbound, rfl⟩

theorem lookup_run {c : PromptCache} (hc : Coherent A c) (namespaceArg : CacheNamespace)
    {prompt : List ℤ} (hprompt : prompt ≠ []) :
    LookupRun T A prompt c (T.lookup A namespaceArg prompt c) := by
  unfold lookup
  split_ifs with hns
  · exact .raised _ c.backend ⟨rfl, rfl⟩
  have hprepared := prepare_run (T := T) hc hprompt
  rcases hprepare : T.prepare A prompt c with ⟨⟨e⟩ | ⟨prepared⟩, c₁⟩ <;> rw [hprepare] at hprepared
  all_goals
    obtain ⟨hpolicy, hsame⟩ := hprepared.frame hc
    obtain ⟨p₁, w₁⟩ := c₁
    obtain rfl : p₁ = c.policy := hpolicy
  · rw [bind_of_error hprepare]
    exact .raised e w₁ hsame
  rw [bind_of_ok hprepare]
  have hkeeps : Keeps (SameRegistry c.backend) (T.lookupAfterPolicy A prompt) :=
    lookupAfterPolicy_keeps (send_keeps _ _) (send_keeps _ _) (send_keeps _ _)
  replace hkeeps := hkeeps.state hsame
  rcases hprobe : T.lookupAfterPolicy A prompt w₁ with ⟨⟨e⟩ | ⟨observation⟩, w'⟩ <;>
    rw [hprobe] at hkeeps
  · rw [bind_of_error (onBackend_of hprobe)]
    exact .raised e w' hkeeps
  rw [bind_of_ok (onBackend_of hprobe)]
  obtain ⟨w₂, response, hsend, hreport⟩ := lookupAfterPolicy_returned hprobe
  cases prepared with
  | none =>
    dsimp only
    split_ifs with hreused
    · exact .raised _ w' hkeeps
    · have hzero : observation.matchedTokens = 0 := not_not.mp hreused
      exact .returned none _ response w₂ w' observation c.policy hprepare hsend hreport
        (hzero ▸ Nat.zero_le _) ⟨fun _ => rfl, fun hpos => by omega⟩ hkeeps
  | some restored =>
    dsimp only
    split_ifs with hbeyond hreused
    · exact .raised _ w' hkeeps
    · obtain ⟨hbest, -, hlcp⟩ := hprepared.restored
      obtain ⟨e, he⟩ := Dict.mem_keys_iff.mp hbest.resident
      have hhit : (c.policy.observeHit restored.key).2 = { c.policy with
          entries := c.policy.entries.insert restored.key { e with hits := e.hits + 1 } } := by
        rw [WorkingSetPolicy.observeHit, he]
      exact .returned (some restored) _ response w₂ w' observation _ hprepare hsend hreport
        ((not_lt.mp hbeyond).trans hlcp.le)
        ⟨fun hzero => by omega, fun _ => ⟨restored, e, rfl, he, hhit⟩⟩ hkeeps
    · have hzero : observation.matchedTokens = 0 := Nat.eq_zero_of_not_pos hreused
      exact .returned (some restored) _ response w₂ w' observation c.policy hprepare hsend hreport
        (hzero ▸ Nat.zero_le _) ⟨fun _ => rfl, fun hpos => absurd hpos hreused⟩ hkeeps

/-! ## Reachable clients -/

/-- `prepare`: the slot is cleared first, and unless that fails a best resident is restored,
or nothing when no resident shares the first token of the prompt. -/
structure SelectsBest (T : Transport) (A : Adapter) (prompt : List ℤ) (c : PromptCache) : Prop where
  clears : ∀ r w, T.clearLiveSlot A c.backend = (r, w) →
    w.requests = c.backend.requests ++ [.clear A.managedEpoch A.idSlot]
  uncleared : ∀ e w, T.clearLiveSlot A c.backend = (.error e, w) →
    T.prepare A prompt c = (.error e, { c with backend := w })
  nothing : ∀ n w, T.clearLiveSlot A c.backend = (.ok n, w) →
    (T.prepare A prompt c = (.ok none, { c with backend := w }) ↔
      ∀ key ∈ c.policy.entries.keys, key.tokens.head? ≠ prompt.head?)
  restores : ∀ n w, T.clearLiveSlot A c.backend = (.ok n, w) →
    ∀ shared ∈ c.policy.entries.keys, shared.tokens.head? = prompt.head? →
    ∃ key state, BestMatch c.policy prompt key ∧ c.backend.records.get? key = some state ∧
      (T.prepare A prompt c).2.backend.requests =
        w.requests ++ [.restore A.managedEpoch A.idSlot state.handle] ∧
      ∀ prepared, (T.prepare A prompt c).1 = .ok prepared →
        prepared = some ⟨key, state, tokenLcp key.tokens prompt⟩
  untouched : (T.prepare A prompt c).2.policy = c.policy ∧
    SameRegistry c.backend (T.prepare A prompt c).2.backend

/-- `lookup`: when it raises nothing has changed, and when it returns the server reported no
more than what was restored shares with the prompt, which is credited. -/
structure CreditsReuse (T : Transport) (A : Adapter) (prompt : List ℤ) (c : PromptCache) :
    Prop where
  raised : ∀ namespaceArg e c', T.lookup A namespaceArg prompt c = (.error e, c') →
    c'.policy = c.policy ∧ SameRegistry c.backend c'.backend
  returned : ∀ namespaceArg observation c',
    T.lookup A namespaceArg prompt c = (.ok observation, c') →
    (∃ response w, T.send (.completion prompt A.idSlot) w = (.ok response, c'.backend) ∧
      ((response.get "timings").get "cache_n").asInt? = some (observation.matchedTokens : ℤ)) ∧
    (∃ prepared c₁, T.prepare A prompt c = (.ok prepared, c₁) ∧
      observation.matchedTokens ≤ restoredLcp prompt prepared ∧
      Credits prepared observation.matchedTokens c.policy c'.policy) ∧
    SameRegistry c.backend c'.backend

theorem selectsBest_of_coherent {c : PromptCache} (hc : Coherent A c) {prompt : List ℤ}
    (hprompt : prompt ≠ []) : SelectsBest T A prompt c := by
  have hrun := prepare_run (T := T) hc hprompt
  refine ⟨fun r w hclear => ?_, fun e w hclear => ?_, fun n w hclear => ?_,
    fun n w hclear shared hresident hshares => ?_, hrun.frame hc⟩
  · have hrequests := T.requests (.clear A.managedEpoch A.idSlot) c.backend
    rwa [← clearLiveSlot_state, hclear] at hrequests
  · generalize T.prepare A prompt c = result at hrun
    cases hrun with
    | uncleared e' w' hclear' =>
      rw [hclear] at hclear'
      cases hclear'
      rfl
    | unmatched n w' hclear' | selected n w' key state r w'' hclear' =>
      rw [hclear] at hclear'
      cases hclear'
  · generalize T.prepare A prompt c = result at hrun
    cases hrun with
    | uncleared e' w' hclear' =>
      rw [hclear] at hclear'
      cases hclear'
    | unmatched n w' hclear' hnone =>
      rw [hclear] at hclear'
      cases hclear'
      exact ⟨fun _ => hnone, fun _ => rfl⟩
    | selected n w' key state r w'' hclear' hbest hbound hrestore =>
      refine ⟨fun h => ?_, fun hnone => absurd hbest.shares (hnone key hbest.resident)⟩
      cases r <;> cases h
  · generalize T.prepare A prompt c = result at hrun
    cases hrun with
    | uncleared e' w' hclear' =>
      rw [hclear] at hclear'
      cases hclear'
    | unmatched n w' hclear' hnone => exact absurd hshares (hnone shared hresident)
    | selected n w' key state r w'' hclear' hbest hbound hrestore =>
      rw [hclear] at hclear'
      cases hclear'
      refine ⟨key, state, hbest, hbound, ?_, fun prepared h => ?_⟩
      · have hrequests := T.requests (.restore A.managedEpoch A.idSlot state.handle) w
        rwa [← restoreState_state (requireState_ok.mp (hc.bound hbound)).2.1, hrestore] at hrequests
      · cases r <;> cases h
        rfl

theorem creditsReuse_of_coherent {c : PromptCache} (hc : Coherent A c) {prompt : List ℤ}
    (hprompt : prompt ≠ []) : CreditsReuse T A prompt c := by
  refine ⟨fun namespaceArg e c' h => ?_, fun namespaceArg observation c' h => ?_⟩ <;>
    have hrun := lookup_run (T := T) hc namespaceArg hprompt <;>
    rw [h] at hrun
  · cases hrun with
    | raised e w hsame => exact ⟨rfl, hsame⟩
  · cases hrun with
    | returned prepared c₁ response w w' observation p hprepare hsend hreport hle hcredits hsame =>
      exact ⟨⟨response, w, hsend, matchedTokens_reported hreport⟩,
        ⟨prepared, c₁, hprepare, hle, hcredits⟩, hsame⟩

end Transport

/-- In every state that calls can lead to, on every prompt and before every server:
`prepare` restores a best resident or nothing, and `lookup` credits at most what was
restored. -/
theorem lookup_selects_best_and_credits_reuse {A : Adapter} {config : PolicyConfig}
    {server : FreshServer A} {s : Session} (hs : s.Reached A config server (fun _ _ => True))
    (script : List Exchange) (T : Transport) {prompt : List ℤ} (hprompt : prompt ≠ []) :
    T.SelectsBest A prompt (scripted s.cache script) ∧
      T.CreditsReuse A prompt (scripted s.cache script) :=
  have hc := scripted_coherent hs.coherent script
  ⟨Transport.selectsBest_of_coherent hc hprompt, Transport.creditsReuse_of_coherent hc hprompt⟩

namespace Sample

/-- A server that confirms every mutation and reports the whole prompt as reused. -/
def boastful : Transport := .answering fun _ request =>
  match request with
  | .props => .ok (.obj [("build_info", .str managedReferenceSha), ("total_slots", .int 1)])
  | .slots => .ok (.arr [.obj [("id", .int 0)]])
  | .completion prompt _ => .ok (.obj [("timings",
      .obj [("cache_n", .int prompt.length), ("prompt_n", .int 0)])])
  | .clear epoch idSlot => .ok (.obj [("success", .bool true), ("epoch", .str epoch),
      ("id_slot", .int idSlot), ("n_cleared", .int 0)])
  | .restore epoch idSlot handle => .ok (.obj [("success", .bool true), ("epoch", .str epoch),
      ("id_slot", .int idSlot), ("handle", .str handle), ("n_tokens", .int 2),
      ("n_bytes", .int (2 ^ 20 + 1))])
  | _ => .error (.osError "request not delivered")

end Sample

open Sample

/-- A client that holds one state, before a server that claims to reuse more. -/
theorem boastful_server_credits_nothing_more :
    boastful.SelectsBest adapter [1, 2, 3] (scripted (start.step adapter (capture [])).cache []) ∧
      boastful.CreditsReuse adapter [1, 2, 3]
        (scripted (start.step adapter (capture [])).cache []) :=
  have hreached : Session.Reached adapter config server (fun _ _ => True)
      (start.step adapter (capture [])) := .next .start trivial
  lookup_selects_best_and_credits_reuse hreached [] boastful (by decide)

end StateBraid.Managed
