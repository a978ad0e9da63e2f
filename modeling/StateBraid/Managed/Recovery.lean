import StateBraid.Managed.FaultFree
import StateBraid.Managed.Reconciliation
import StateBraid.Policy.WorkingSet

/-!
# Getting over faults

Lost requests and responses leave drops in the queue and handles on the server that nobody
knows. Once requests go through again, a trim that has nothing to evict flushes the queue and
an orphan reconciliation drops the rest: what is alive then is what is bound, except for
bindings that the server had reclaimed in a capture whose response was lost.
-/

namespace StateBraid.Managed
open Library Policy Coordinator LlamaCpp Exec

/-- `assert_physical_matches_registry`. -/
def assertPhysicalMatchesRegistry (A : Adapter) : Exec PyError World Unit := do
  let store ← managedStore A
  let remote := ((storeRows store).getD []).filterMap fun item =>
    if item.isObject then (item.get "handle").asStr? else none
  let expected ← Exec.gets World.bound
  if remote.toFinset ≠ expected.toFinset then
    Exec.raise (.runtimeError
      "managed llama.cpp physical handle set diverges from StateBraid registry")
  else pure ()

/-! ## Handle objects on record -/

/-- Every handle object that the client or its caller has carries the accounting of its state,
as long as there is one. -/
structure Filed (A : Adapter) (obtained : List StateHandle) (φ : Phase) (c : PromptCache) :
    Prop where
  lawful : Session.Lawful A obtained φ c
  known : ∀ {st}, c.backend.Known φ.inHand st → Recorded A c.backend.server st
  obtained : ∀ st ∈ obtained, Recorded A c.backend.server st

namespace Filed

variable {A : Adapter} {obtained : List StateHandle} {φ φ' : Phase} {c c' : PromptCache}

/-- A step to a later server that makes nothing known. -/
theorem move (h : Filed A obtained φ c) (hlawful : Session.Lawful A obtained φ' c')
    (hlater : c.backend.server.Later c'.backend.server)
    (hknown : ∀ {st}, c'.backend.Known φ'.inHand st → c.backend.Known φ.inHand st) :
    Filed A obtained φ' c' where
  lawful := hlawful
  known hst := (h.known (hknown hst)).later hlater
  obtained st hst := (h.obtained st hst).later hlater

theorem shed (h : Filed A obtained φ c) {may : String → Prop} {w : World}
    (hlawful : Session.Lawful A obtained φ { c with backend := w }) (ht : Sheds may c.backend w)
    (hpending : ∀ {name st}, w.pendingDrops.get? name = some st →
      c.backend.pendingDrops.get? name = some st) :
    Filed A obtained φ { c with backend := w } := by
  refine h.move hlawful (ht.later h.lawful.orderly.wellFormed) fun {st} hknown => ?_
  rcases hknown with ⟨k, hk⟩ | hqueued | hhold
  · exact Or.inl ⟨k, ht.records ▸ hk⟩
  · exact Or.inr (Or.inl (hpending hqueued))
  · exact Or.inr (Or.inr hhold)

/-- Moving what is known within the client. -/
theorem rebound (h : Filed A obtained φ c) {offered : Option (Key × StateHandle)}
    (hlawful : Session.Lawful A obtained φ' c') (hrebinds : Rebinds A offered c c')
    (hoffered : ∀ o ∈ offered, φ.inHand = some o.2)
    (hhand : ∀ st, φ'.inHand = some st → φ.inHand = some st) : Filed A obtained φ' c' := by
  have hlater : c.backend.server.Later c'.backend.server := by
    rw [hrebinds.rebound.server]
    exact .refl h.lawful.orderly.wellFormed
  refine h.move hlawful hlater fun {st} hknown => Exact.known_rebound hrebinds hoffered ?_
  exact hknown.imp_right (Or.imp_right (hhand st))

theorem captureFailed (h : Filed A obtained .idle c) {tokens : List ℤ} {e : PyError} {w : World}
    (hlawful : Session.Lawful A obtained .idle { c with backend := w })
    (hcapture : captureCurrentState A tokens c.backend = (.error e, w)) :
    Filed A obtained .idle { c with backend := w } := by
  obtain ⟨hrecords, hpending⟩ := captureCurrentState_registry hcapture
  have hkeeps := captureCurrentState_keeps (A := A) (I := LaterWorld c.backend.server) tokens
    (exchange_later _ _) (fun _ => exchange_later _ _) (exchange_later _ _)
  have hlater := hkeeps.state (s := c.backend)
    ⟨h.lawful.orderly.steady, .refl h.lawful.orderly.wellFormed⟩
  rw [hcapture] at hlater
  refine h.move hlawful hlater.2 fun {st} hknown => ?_
  have hknown : w.Known none st := hknown
  rwa [World.Known, hrecords, hpending] at hknown

/-- A capture that returned: its state is new, and on record as it was stored. -/
theorem captured (h : Filed A obtained .idle c) {tokens : List ℤ} {state : StateHandle}
    {evicted : List String} {w : World}
    (hlawful : Session.Lawful A obtained (.holding (cacheKey A tokens) state) c')
    (hcapture : captureCurrentState A tokens c.backend = (.ok (state, evicted), w))
    (hforgets : Forgets A evicted { c with backend := w } c') :
    Filed A obtained (.holding (cacheKey A tokens) state) c' := by
  have hwell := h.lawful.orderly.wellFormed
  have hsent := h.lawful.orderly.steady.sent
  have hserver : c.backend.sent.server = c.backend.server := by rw [hsent]
  obtain ⟨hrecords, hpending⟩ := captureCurrentState_registry hcapture
  obtain ⟨slot, hslot, -, hne, -, rfl, -, rfl⟩ := capture_returned hwell hcapture
  rw [hserver] at hslot
  have hafter : c'.backend.server =
      (c.backend.server.reclaim (reclaimedBy A tokens c.backend)).store
        (c.backend.server.snapshot slot) := by
    rw [hforgets.server, ← hserver]
    rfl
  have hlater : c.backend.server.Later c'.backend.server := by
    rw [hafter]
    exact .stored hwell _ hslot hne
  refine ⟨hlawful, fun {st} hknown => ?_, fun st hst => (h.obtained st hst).later hlater⟩
  rcases hknown with ⟨k, hk⟩ | hqueued | hhold
  · have hk := (hforgets.records.mp hk).1
    rw [hrecords] at hk
    exact (h.known (Or.inl ⟨k, hk⟩)).later hlater
  · rw [hforgets.pendingDrops, hpending] at hqueued
    exact (h.known (Or.inr (Or.inl hqueued))).later hlater
  · cases hhold
    rw [hafter, hserver]
    exact .captured hwell _ _

end Filed

theorem filed_ledger (A : Adapter) (obtained : List StateHandle) :
    Ledger A (Filed A obtained) where
  wellFormed h := h.lawful.orderly.wellFormed
  passive {c request} hpassive hc h := by
    have hpending := (exchange_registry request c.backend).2
    exact h.shed ((lawful_ledger A obtained).passive hpassive hc h.lawful)
      (exchange_passive (fun _ => False) h.lawful.orderly.steady hpassive).toSheds
      fun hget => hpending ▸ hget
  closing {c} h := h.move ((lawful_ledger A obtained).closing h.lawful)
    (.refl h.lawful.orderly.wellFormed) id
  flush {c} hc h := by
    have hidle : Filed A obtained .idle c := h.move ⟨h.lawful.orderly.release fun _ => id,
      h.lawful.binding⟩ (.refl h.lawful.orderly.wellFormed) id
    have hdrains := flushDrops_drains (A := A) (w := c.backend)
    refine hidle.shed ((lawful_ledger A obtained).flush hc h.lawful)
      (flushDrops_flushed h.lawful.orderly.steady (Orderly.queued hc)).tidies.toSheds ?_
    rcases hrun : flushDrops A c.backend with ⟨⟨e⟩ | ⟨n⟩, w⟩ <;> rw [hrun] at hdrains
    · exact hdrains.subset
    · exact hdrains.1.subset
  reconcile {c} hc h := by
    have hpending := (reconcileOrphanedHandles_registry A c.backend).2
    exact h.shed ((lawful_ledger A obtained).reconcile hc h.lawful)
      (reconcileOrphanedHandles_spec h.lawful.orderly.steady).sheds fun hget => hpending ▸ hget
  captureFailed hc hp h hrun := h.captureFailed
    ((lawful_ledger A obtained).captureFailed hc hp h.lawful hrun) hrun
  captured hc hp h hrun hf := h.captured
    ((lawful_ledger A obtained).captured hc hp h.lawful hrun hf) hrun hf
  accepted h hr hb := h.rebound ((lawful_ledger A obtained).accepted h.lawful hr hb) hr
    (by simp [Phase.inHand]) (by simp [Phase.inHand])
  kept h hr hk := h.rebound ((lawful_ledger A obtained).kept h.lawful hr hk) hr
    (by simp [Phase.inHand]) fun _ hst => hst
  discarded {c key state} h := by
    refine h.move ((lawful_ledger A obtained).discarded h.lawful)
      (.refl h.lawful.orderly.wellFormed) fun {st} hknown => ?_
    rcases hknown with hbound | hqueued | hhold
    · exact Or.inl hbound
    · rw [queued, World.queueDrop, Dict.get?_insert] at hqueued
      split_ifs at hqueued
      · exact Or.inr (Or.inr hqueued)
      · exact Or.inr (Or.inl hqueued)
    · cases hhold
  released h hb := h.move ((lawful_ledger A obtained).released h.lawful hb)
    (.refl h.lawful.orderly.wellFormed) fun hknown =>
      hknown.imp_right (Or.imp_right fun hhold => by cases hhold)
  trimmed h hr := h.rebound ((lawful_ledger A obtained).trimmed h.lawful hr) hr (by simp)
    (by simp [Phase.inHand])
  observed h hr hb := h.rebound ((lawful_ledger A obtained).observed h.lawful hr hb) hr (by simp)
    fun _ hst => hst

theorem filed_sessionLedger (A : Adapter) :
    SessionLedger A (fun _ _ => True) (fun _ obtained => Filed A obtained) where
  ledger _ obtained := filed_ledger A obtained
  binding h := h.lawful.binding
  handOver {obtained key state c} _ hbinding h :=
    { lawful := (lawful_sessionLedger A).handOver [] hbinding h.lawful
      known := fun hknown => h.known (hknown.imp_right (Or.imp_right fun hhold => by cases hhold))
      obtained := fun st hst => by
        rcases List.mem_cons.mp hst with rfl | hold
        · exact h.known (Or.inr (Or.inr rfl))
        · exact h.obtained st hold }
  offer {obtained state c} _ key hmem _ h :=
    { lawful := (lawful_sessionLedger A).offer [] key hmem trivial h.lawful
      known := fun {st} hknown => by
        rcases hknown with hbound | hqueued | hhold
        · exact h.known (Or.inl hbound)
        · exact h.known (Or.inr (Or.inl hqueued))
        · cases hhold
          exact h.obtained state hmem
      obtained := h.obtained }
  notice {obtained handles c c'} _ h hforgets := by
    have hlater : c.backend.server.Later c'.backend.server := by
      rw [hforgets.server]
      exact .refl h.lawful.orderly.wellFormed
    refine h.move ((lawful_sessionLedger A).notice [] h.lawful hforgets) hlater
      fun {st} hknown => ?_
    rcases hknown with ⟨k, hk⟩ | hqueued | hhold
    · exact Or.inl ⟨k, (hforgets.records.mp hk).1⟩
    · exact Or.inr (Or.inl (hforgets.pendingDrops ▸ hqueued))
    · cases hhold

theorem scripted_filed {A : Adapter} {obtained : List StateHandle} {c : PromptCache}
    (h : Filed A obtained .idle c) {script : List Exchange}
    (hsteady : ∀ x ∈ script, x.restart = none) : Filed A obtained .idle (scripted c script) :=
  ⟨⟨{ h.lawful.orderly with steady := hsteady }, h.lawful.binding⟩, h.known, h.obtained⟩

theorem Session.Reached.filed {A : Adapter} {config : PolicyConfig} {server : FreshServer A}
    {s : Session} (h : s.Reached A config server Session.Permits) :
    Coherent A s.cache ∧ Filed A s.obtained .idle s.cache := by
  have hstart : Filed A (Session.start config server.server).obtained .idle
      (Session.start config server.server).cache :=
    { lawful := start_lawful config server
      known := fun {st} hknown => by
        simp [Session.start, World.Known, openCache, Phase.inHand] at hknown
      obtained := fun st hst => absurd hst List.not_mem_nil }
  refine Run.invariant (I := fun t : Session =>
    Coherent A t.cache ∧ Filed A t.obtained .idle t.cache)
    ⟨open_coherent A config server.server, hstart⟩ ?_ h
  rintro t call ⟨hc, hfiled⟩ ⟨hsteady, hoffers⟩
  exact (filed_sessionLedger A).step hoffers
    ⟨scripted_coherent hc _, scripted_filed hfiled hsteady⟩

/-! ## Requests that go through -/

/-- A world whose requests will be answered, by the server of the adapter's epoch. -/
structure Serving (A : Adapter) (w : World) : Prop where
  faultFree : w.FaultFree
  accepts : w.server.Accepts A.managedEpoch
  wellFormed : w.server.WellFormed

namespace Serving

variable {A : Adapter} {w : World}

theorem sheds (h : Serving A w) {may : String → Prop} {w' : World} (ht : Sheds may w w') :
    Serving A w' where
  faultFree := h.faultFree.sheds ht
  accepts := ⟨ht.enabled.trans h.accepts.1, h.accepts.2.trans ht.epoch.symm⟩
  wellFormed := ht.wellFormed h.wellFormed

/-- A read of the store returns it as it is. -/
theorem read (h : Serving A w) : ∃ w', managedStore A w = (.ok w.server.listReply, w') ∧
    w'.server = w.server := by
  have hepoch : w.server.epoch = A.managedEpoch := h.accepts.2.symm
  obtain ⟨w', hread, hserver, -⟩ := h.faultFree.readStore h.wellFormed h.accepts.1
    (hepoch ▸ A.epoch_ne) fun _ hmem => hepoch.trans (Option.some.inj hmem)
  exact ⟨w', hread, hserver⟩

/-- A drop of a state that is gone returns: the request is refused, and the store does not list
the handle. -/
theorem drop_gone (h : Serving A w) {state : StateHandle} (hbinding : stateBinding A state = .ok ())
    (hgone : ¬ w.server.Alive state.handle) : ∃ w', dropState A state w = (.ok (), w') := by
  have hsent : w.sent.server = w.server := by rw [h.faultFree.steady.sent]
  have hunknown : w.server.states.get? state.handle = none := by
    rw [Dict.get?_eq_none_iff]
    exact hgone
  have hrefused : ∃ e, exchange (.drop A.managedEpoch state.handle) w = (.error e,
      w.sent.after (.drop A.managedEpoch state.handle) .delivered w.server) := by
    rw [exchange_delivered h.faultFree.next.delivered, hsent]
    rcases w.server.respond_drop w.next A.managedEpoch state.handle with
      ⟨-, hrespond⟩ | ⟨hrefuses, -⟩
    · rw [hrespond, Server.drop, hunknown]
      exact ⟨_, rfl⟩
    · exact absurd h.accepts hrefuses
  obtain ⟨e, hrefused⟩ := hrefused
  set w₁ := w.sent.after (.drop A.managedEpoch state.handle) .delivered w.server with hw₁
  have hserving : Serving A w₁ := by
    refine ⟨fun x hx => h.faultFree x ?_, h.accepts, h.wellFormed⟩
    rw [hw₁, h.faultFree.steady.sent] at hx
    exact List.mem_of_mem_tail hx
  obtain ⟨w₂, hread, -⟩ := hserving.read
  have hpost : (do
      let response ← postManaged A (.drop A.managedEpoch state.handle)
      pure (some response) : Exec PyError World (Option Json)) w = (.error e, w₁) := by
    rw [bind_of_error]
    unfold postManaged Transport.postManaged
    rw [bind_of_error hrefused]
  have hlists : storeLists w₁.server.listReply state.handle = false := by
    rw [Bool.eq_false_iff]
    exact fun hlisted => hgone ((storeLists_listReply _ _).mp hlisted)
  refine ⟨w₂, ?_⟩
  unfold dropState
  rw [hbinding, ofExcept_ok_bind_apply, bind_apply, tryExcept_of_error hpost,
    bind_of_ok hread, hlists]
  rfl

/-- A drop of a state on record returns, whether the state is there or gone. -/
theorem drop (h : Serving A w) {state : StateHandle} (hrecorded : Recorded A w.server state) :
    ∃ w', dropState A state w = (.ok (), w') := by
  by_cases halive : w.server.Alive state.handle
  · exact dropState_returns h.faultFree h.accepts ⟨hrecorded, halive⟩
  · exact h.drop_gone hrecorded.binding halive

/-- Drops of states on record that are not bound, one after the other, all return. -/
theorem drop_later (h : Serving A w) {w' : World} (ht : Tidies (fun _ => True) w w')
    {state : StateHandle} (hrecorded : Recorded A w.server state)
    (hunbound : state.handle ∉ w.bound) :
    ∃ w'', dropState A state w' = (.ok (), w'') ∧ Tidies (fun _ => True) w w'' := by
  have hserving := h.sheds ht.toSheds
  obtain ⟨w'', hrun⟩ := hserving.drop (hrecorded.later (ht.toSheds.later h.wellFormed))
  have hdrop := (dropState_tidies (A := A) (fun _ => True) hserving.faultFree.steady trivial
    (by rwa [ht.bound])).state (.refl w')
  rw [hrun] at hdrop
  exact ⟨w'', hrun, ht.trans hdrop⟩

/-- A flush of states on record returns. -/
theorem flush (h : Serving A w) (hqueued : w.Queued)
    (hrecorded : ∀ {name st}, w.pendingDrops.get? name = some st → Recorded A w.server st) :
    ∃ n w', flushDrops A w = (.ok n, w') := by
  have hloop := Triple.foldEach (f := flushDrop A w.bound) (R := fun _ _ => False)
    (I := fun _ _ w' => Tidies (fun _ => True) w w') w.pendingDrops.items [] 0 (by
      rintro pre ⟨name, state⟩ post dropped hsplit - w' htidies
      rw [List.nil_append] at hsplit
      have hitem : w.pendingDrops.get? name = some state := Dict.get?_of_items_eq hsplit
      unfold flushDrop
      split
      · exact htidies.unqueue name
      · rename_i hunbound
        obtain ⟨w'', hrun, hdrop⟩ := h.drop_later htidies (hrecorded hitem)
          (hqueued hitem ▸ hunbound)
        rw [bind_of_ok hrun]
        exact hdrop.unqueue name)
    w (.refl w)
  rw [flushDrops_eq]
  revert hloop
  rcases foldEach (flushDrop A w.bound) 0 w.pendingDrops.items w with ⟨⟨e⟩ | ⟨n⟩, w'⟩
  · exact False.elim
  · exact fun _ => ⟨n, w', rfl⟩

/-- An orphan reconciliation returns. -/
theorem reconcile (h : Serving A w) :
    ∃ names w', reconcileOrphanedHandles A w = (.ok names, w') := by
  obtain ⟨w₁, hread, hserver⟩ := h.read
  have htidies := managedStore_tidies (A := A) (fun _ => False) h.faultFree.steady w (.refl w)
  rw [hread] at htidies
  have hserving₁ := h.sheds htidies.toSheds
  set listed := w₁.note (.orphansListed w₁.server w₁.bound w₁.pending) with hlisted
  have hserving : Serving A listed := ⟨hserving₁.faultFree, hserving₁.accepts, hserving₁.wellFormed⟩
  set orphans := ((storeRows w.server.listReply).getD []).filterMap
    (orphanOf A (w₁.bound ++ w₁.pending)) with horphans
  have hloop := Triple.forEach orphans (f := dropState A) (R := fun _ _ => False)
    (I := fun _ w' => Tidies (fun _ => True) listed w') (by
      rintro pre orphan post hsplit w' htidies'
      have hmem : orphan ∈ orphans := by rw [hsplit]; simp
      have hunknown := (mem_orphans.mp ⟨orphan, hmem, rfl⟩).2
      obtain ⟨row, hrow, horphan⟩ := List.mem_filterMap.mp hmem
      rw [storeRows_listReply, Option.getD_some] at hrow
      obtain ⟨kv, hkv, rfl⟩ := List.mem_map.mp hrow
      have hrecorded : Recorded A listed.server orphan :=
        .of_row hserving.wellFormed (by rw [hlisted]; exact hserver ▸ hkv) horphan
      obtain ⟨w'', hrun, hdrop⟩ := hserving.drop_later htidies' hrecorded
        fun hbound => hunknown (List.mem_append_left _ hbound)
      rw [hrun]
      exact hdrop)
    listed (.refl listed)
  unfold reconcileOrphanedHandles
  rw [bind_of_ok hread, gets_bind_apply, modify_bind_apply]
  revert hloop
  rcases hrun : forEach orphans (dropState A) listed with ⟨⟨e⟩ | ⟨⟨⟩⟩, w'⟩
  · exact False.elim
  · intro _
    rw [bind_of_ok hrun, modify_bind_apply]
    exact ⟨_, _, rfl⟩

/-- The registry check passes when the handles alive are the bound ones, and raises
otherwise. -/
theorem assertPhysical (h : Serving A w) :
    (∃ w', assertPhysicalMatchesRegistry A w = (.ok (), w')) ↔
      ∀ name, w.server.Alive name ↔ name ∈ w.bound := by
  obtain ⟨w₁, hread, -⟩ := h.read
  have hrecords := (managedStore_keeps (A := A) (registry_keeps w.records w.pendingDrops .list) w
    ⟨rfl, rfl⟩)
  rw [hread] at hrecords
  have hbound : w₁.bound = w.bound := by rw [World.bound, hrecords.1, World.bound]
  have hremote : ((storeRows w.server.listReply).getD []).filterMap (fun item =>
      if item.isObject then (item.get "handle").asStr? else none) = w.server.states.keys := by
    rw [storeRows_listReply, Option.getD_some, List.filterMap_map, Dict.keys, ← List.filterMap_eq_map]
    rfl
  have hsets : w.server.states.keys.toFinset = w.bound.toFinset ↔
      ∀ name, w.server.Alive name ↔ name ∈ w.bound := by
    simp only [Finset.ext_iff, List.mem_toFinset]
    rfl
  unfold assertPhysicalMatchesRegistry
  rw [bind_of_ok hread, gets_bind_apply, hremote, hbound, ← hsets]
  by_cases heq : w.server.states.keys.toFinset = w.bound.toFinset
  · rw [if_neg (not_not.mpr heq)]
    exact ⟨fun _ => heq, fun _ => ⟨w₁, rfl⟩⟩
  · rw [if_pos heq]
    refine ⟨?_, fun hsame => absurd hsame heq⟩
    rintro ⟨_, hrun⟩
    cases hrun

end Serving

/-! ## A trim with nothing to evict -/

/-- Within the limits a trim to them plans nothing. -/
theorem planTrim_within {N : Type} [DecidableEq N] {p : WorkingSetPolicy N} (h : p.Represents)
    (hlimits : p.WithinLimits) : p.planTrim none none = .ok ⟨[]⟩ := by
  have hsound : ¬ ∃ k ∈ p.workingKeys, p.entries.get? k = none := by
    rintro ⟨k, hk, hnone⟩
    have hmem := WorkingSetPolicy.mem_residents.mp (WorkingSetPolicy.workingKeys_subset h hk)
    exact Dict.get?_eq_none_iff.mp hnone hmem
  have hunder : p.overTargets p.config.maxSequences p.config.maxBytes ∅ = false := by
    have hsequences := hlimits.sequences
    have hbytes := hlimits.bytes
    simp only [WorkingSetPolicy.nSequences, Dict.size] at hsequences
    simp only [WorkingSetPolicy.residentBytes] at hbytes
    simpa [WorkingSetPolicy.overTargets, WorkingSetPolicy.untrimmedEntries, Function.comp_def]
      using ⟨hsequences, hbytes⟩
  unfold WorkingSetPolicy.planTrim
  simp only [Option.map_none, Option.getD_none, if_neg hsound]
  congr
  cases p.orderedKeys.length with
  | zero => rfl
  | succ fuel => simp [WorkingSetPolicy.trimLoop, evictedKeys, hunder]

/-- Such a trim is a flush of the queue. -/
theorem trimCache_within {A : Adapter} {c : PromptCache} (hc : Coherent A c) {n : ℕ} {w : World}
    (hflush : flushDrops A c.backend = (.ok n, w)) :
    trimCache A none none c = (.ok false, { c with backend := w }) := by
  have htrim : trimTo (registry A) none none c = (.ok false, c) := by
    unfold trimTo
    rw [planTrim_within hc.represents hc.within]
    rfl
  have hafter : flushAfter A c = (.ok (), { c with backend := w }) := by
    unfold flushAfter
    rw [bind_of_ok (onBackend_of hflush)]
    rfl
  exact tryFinally_of_ok htrim hafter

/-! ## Recovery -/

/-- What a recovery leaves: the policy and the bindings as they were, an empty queue, and on
the server what was bound and alive. -/
structure Recovered (c c' : PromptCache) : Prop where
  policy : c'.policy = c.policy
  records : c'.backend.records = c.backend.records
  drained : c'.backend.pendingDrops = .empty
  alive : ∀ name, c'.backend.server.Alive name ↔
    name ∈ c.backend.bound ∧ c.backend.server.Alive name

/-- A flush that returned and a reconciliation that completed after it. -/
theorem recovered {A : Adapter} {c : PromptCache} (hc : Coherent A c) (hsteady : c.backend.Steady)
    {n : ℕ} {names : List String} {w₁ w₂ : World} (hflush : flushDrops A c.backend = (.ok n, w₁))
    (hreconcile : reconcileOrphanedHandles A w₁ = (.ok names, w₂)) :
    Recovered c { c with backend := w₂ } := by
  have hflushed := flushDrops_flushed (A := A) hsteady (Orderly.queued hc)
  rw [hflush] at hflushed
  have hsheds₁ := hflushed.tidies.toSheds
  have hdrained := (flushed_empty hflush).2
  have hspec := reconcileOrphanedHandles_spec (A := A) (hflushed.tidies.steady hsteady)
  have hsheds₂ := hspec.sheds
  obtain ⟨hrecords, hpending⟩ := reconcileOrphanedHandles_registry A w₁
  rw [hreconcile] at hspec hsheds₂ hrecords hpending
  refine ⟨rfl, hrecords.trans hsheds₁.records, hpending.trans hdrained, fun name => ⟨?_, ?_⟩⟩
  · intro halive
    refine ⟨?_, hsheds₁.alive (hsheds₂.alive halive)⟩
    have hknown : name ∈ w₁.bound ∨ name ∈ w₁.pending := by
      generalize hr : ((Except.ok names, w₂) : Except PyError (List String) × World) = r at hspec
      cases hspec with
      | unread | interrupted => cases hr
      | completed handles w w' hrun hknown =>
        obtain ⟨-, rfl⟩ := Prod.mk.inj hr
        exact hknown name halive
    rw [hsheds₁.bound] at hknown
    refine hknown.resolve_right fun hqueued => ?_
    rw [World.pending, hdrained] at hqueued
    simp at hqueued
  · rintro ⟨hbound, halive⟩
    have halive₁ := hsheds₁.alive_of_not_may halive fun hmay => hmay.2 hbound
    exact hsheds₂.alive_of_not_may halive₁ fun hmay => hmay.1 (hsheds₁.bound ▸ hbound)

/-- In any session within one epoch that admits only states which `capture_current` returned,
whatever faults it has met: once requests go through, a trim to the limits and a reconciliation
both return, and leave the policy and the bindings as they were, the queue empty and exactly the
bound handles that were alive. The registry check then passes exactly when no binding is
dangling, as when every capture told the client and the caller offered only live states. -/
theorem recovery_settles {A : Adapter} {config : PolicyConfig} {server : FreshServer A}
    {s : Session} (hs : s.Reached A config server Session.Permits) {script : List Exchange}
    (hscript : ∀ x ∈ script, x.FaultFree) :
    ∃ c₁ names c₂, trimCache A none none (scripted s.cache script) = (.ok false, c₁) ∧
      reconcileOrphans A c₁ = (.ok names, c₂) ∧ Recovered s.cache c₂ ∧
      ((∃ c₃, onBackend (assertPhysicalMatchesRegistry A) c₂ = (.ok (), c₃)) ↔
        ∀ name ∈ s.cache.backend.bound, s.cache.backend.server.Alive name) ∧
      (s.Reached A config server Session.PermitsLive →
        (∀ event ∈ s.cache.backend.history, event.Told) →
          ∃ c₃, onBackend (assertPhysicalMatchesRegistry A) c₂ = (.ok (), c₃)) := by
  obtain ⟨hc, hfiled⟩ := hs.filed
  have horderly := hfiled.lawful.orderly
  have hc₀ : Coherent A (scripted s.cache script) := scripted_coherent hc script
  have hserving : Serving A (scripted s.cache script).backend :=
    ⟨hscript, ⟨horderly.enabled, horderly.epoch.symm⟩, horderly.wellFormed⟩
  obtain ⟨n, w₁, hflush⟩ := hserving.flush (Orderly.queued hc₀) fun {name st} hget =>
    hfiled.known (Or.inr (Or.inl ((hc.queued hget).1 ▸ hget)))
  have hflushed := flushDrops_flushed (A := A) hserving.faultFree.steady (Orderly.queued hc₀)
  rw [hflush] at hflushed
  have hserving₁ := hserving.sheds hflushed.tidies.toSheds
  obtain ⟨names, w₂, hreconcile⟩ := hserving₁.reconcile
  have hsheds₂ := (reconcileOrphanedHandles_spec (A := A) hserving₁.faultFree.steady).sheds
  rw [hreconcile] at hsheds₂
  have hserving₂ := hserving₁.sheds hsheds₂
  have hrecovered := recovered hc₀ hserving.faultFree.steady hflush hreconcile
  have hbound : w₂.bound = s.cache.backend.bound := by
    rw [World.bound, hrecovered.records]
    rfl
  have hcheck : (∃ c₃, onBackend (assertPhysicalMatchesRegistry A)
      { scripted s.cache script with backend := w₂ } = (.ok (), c₃)) ↔
        ∀ name ∈ s.cache.backend.bound, s.cache.backend.server.Alive name := by
    have hpasses : (∃ c₃, onBackend (assertPhysicalMatchesRegistry A)
        { scripted s.cache script with backend := w₂ } = (.ok (), c₃)) ↔
          ∃ w₃, assertPhysicalMatchesRegistry A w₂ = (.ok (), w₃) := by
      constructor
      · rintro ⟨c₃, hrun⟩
        rcases hw : assertPhysicalMatchesRegistry A w₂ with ⟨r, w₃⟩
        rw [onBackend_of hw] at hrun
        exact ⟨w₃, by rw [(Prod.mk.inj hrun).1]⟩
      · rintro ⟨w₃, hrun⟩
        exact ⟨_, onBackend_of hrun⟩
    rw [hpasses, hserving₂.assertPhysical, hbound]
    refine forall_congr' fun name => ?_
    have halive := hrecovered.alive name
    dsimp only [scripted] at halive
    rw [halive]
    exact ⟨fun h hmem => (h.mpr hmem).2, fun h => ⟨fun hboth => hboth.1, fun hmem => ⟨hmem, h hmem⟩⟩⟩
  exact ⟨_, names, _, trimCache_within hc₀ hflush, onBackend_of hreconcile,
    ⟨hrecovered.policy, hrecovered.records, hrecovered.drained, hrecovered.alive⟩, hcheck,
    fun hlive htold => hcheck.mpr fun name hmem => hlive.live.2.alive htold (Or.inl hmem)⟩

open Sample in
/-- A session with a lost response recovers: the state that the capture left is dropped, and
the binding it reclaimed is found to be missing. -/
theorem lost_session_recovers : ∃ c₁ names c₂,
    trimCache adapter none none (scripted (admitted.step adapter (capture [lost])).cache []) =
      (.ok false, c₁) ∧ reconcileOrphans adapter c₁ = (.ok names, c₂) ∧
    ¬ ∃ c₃, onBackend (assertPhysicalMatchesRegistry adapter) c₂ = (.ok (), c₃) := by
  have hreached : (admitted.step adapter (capture [lost])).Reached adapter config server
      Session.Permits :=
    .next admitted_reached ⟨by simp [capture, Call.Steady, lost, Exchange.normal], trivial⟩
  have hscript : ∀ x ∈ ([] : List Exchange), x.FaultFree := by simp
  obtain ⟨c₁, names, c₂, htrim, hreconcile, -, hcheck, -⟩ := recovery_settles hreached hscript
  refine ⟨c₁, names, c₂, htrim, hreconcile, fun hpasses => ?_⟩
  exact absurd (hcheck.mp hpasses) (by decide +kernel)

end StateBraid.Managed
