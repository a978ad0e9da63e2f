import StateBraid.Managed.PromptCache
import StateBraid.Managed.Registry
import StateBraid.Policy.Representation

/-!
# Coherence of the client

The policy and the registry have the same keys, and both hold only what belongs to the
adapter. Every call on the client keeps this, whatever happened on the wire: admissions
and trims because a transaction does, notices because they forget on both sides at once.
-/

namespace StateBraid.Managed
open Library Policy WorkingSetPolicy Coordinator LlamaCpp Exec

/-- The client's own invariant; it says nothing about the server. -/
structure Coherent (A : Adapter) (c : PromptCache) : Prop where
  represents : c.policy.Represents
  within : c.policy.WithinLimits
  namespaced : ∀ {k}, k ∈ c.policy.entries.keys → k.cacheNamespace = A.cacheNamespace
  agrees : Agrees c.backend.records.get? c.backend.records.get? c.policy
  bound : ∀ {k st}, c.backend.records.get? k = some st → requireState A k st = .ok ()
  queued : ∀ {h st}, c.backend.pendingDrops.get? h = some st →
    st.handle = h ∧ stateBinding A st = .ok ()

/-- What a call may do to the client: only the registry and the policy change, no handle
is lost, and every binding and every entry is an old one or the offered one. -/
structure Rebinds (A : Adapter) (offered : Option (Key × StateHandle)) (c c' : PromptCache) :
    Prop where
  coherent : Coherent A c'
  rebound : Rebound A c.backend (offered.map Prod.snd) c'.backend
  records : ∀ {k st}, c'.backend.records.get? k = some st →
    c.backend.records.get? k = some st ∨ offered = some (k, st)
  config : c'.policy.config = c.policy.config
  priced : ∀ {k e'}, c'.policy.entries.get? k = some e' →
    (c'.backend.records.get? k = c.backend.records.get? k ∧
      ∃ e, c.policy.entries.get? k = some e ∧ e.nbytes = e'.nbytes) ∨
    ∃ st, offered = some (k, st) ∧ c'.backend.records.get? k = some st ∧ e'.nbytes = max 0 st.nbytes

namespace Coherent

variable {A : Adapter} {c : PromptCache}

/-- The residents of the policy are the keys of the registry. -/
theorem mem_entries (h : Coherent A c) {k : Key} :
    k ∈ c.policy.entries.keys ↔ ∃ st, c.backend.records.get? k = some st := by
  rw [← h.agrees.isSome_iff, Option.isSome_iff_exists]

theorem namespaced_of_get? (h : Coherent A c) {k : Key} {st : StateHandle}
    (hk : c.backend.records.get? k = some st) : k.cacheNamespace = A.cacheNamespace :=
  h.namespaced (h.mem_entries.mpr ⟨st, hk⟩)

/-- Coherence does not look at the server, and a queue may only shrink. -/
theorem withBackend (h : Coherent A c) {w : World} (hrecords : w.records = c.backend.records)
    (hpending : ∀ {name st}, w.pendingDrops.get? name = some st →
      c.backend.pendingDrops.get? name = some st) :
    Coherent A { c with backend := w } where
  represents := h.represents
  within := h.within
  namespaced := h.namespaced
  agrees := by
    change Agrees w.records.get? w.records.get? c.policy
    rw [hrecords]
    exact h.agrees
  bound hk := h.bound (hrecords ▸ hk)
  queued hk := h.queued (hpending hk)

/-- A transaction starts from where it starts. -/
theorem rebound (h : Coherent A c) (offered : Option StateHandle) :
    Rebound A c.backend offered c.backend where
  server := rfl
  script := rfl
  pastEpochs := rfl
  history := rfl
  kept ht := ht
  bound hk := ⟨h.bound hk, Or.inl ⟨_, hk⟩⟩
  queued {name st} hk := by
    obtain ⟨hname, hbinding⟩ := h.queued hk
    exact ⟨hname, hbinding, Or.inr (Or.inl (hname ▸ hk))⟩

/-- What an operation leaves is coherent when its policy is and the two sides agree. -/
theorem of_rebound {offered : Option StateHandle} {c' : PromptCache}
    (hrebound : Rebound A c.backend offered c'.backend)
    (hrepresents : c'.policy.Represents) (hwithin : c'.policy.WithinLimits)
    (hagrees : Agrees c'.backend.records.get? c'.backend.records.get? c'.policy) :
    Coherent A c' where
  represents := hrepresents
  within := hwithin
  namespaced hk := by
    obtain ⟨st, hst⟩ := Option.isSome_iff_exists.mp ((hagrees.isSome_iff _).mpr hk)
    exact (requireState_ok.mp (hrebound.bound hst).1).1
  agrees := hagrees
  bound hk := (hrebound.bound hk).1
  queued hk := ⟨(hrebound.queued hk).1, (hrebound.queued hk).2.1⟩

end Coherent

/-- Changing nothing. -/
theorem Rebinds.refl {A : Adapter} {c : PromptCache} (h : Coherent A c)
    (offered : Option (Key × StateHandle)) : Rebinds A offered c c where
  coherent := h
  rebound := h.rebound _
  records hk := Or.inl hk
  config := rfl
  priced hk := Or.inl ⟨rfl, _, hk, rfl⟩

/-- Leaving the policy and every binding as they were. -/
theorem Rebinds.of_same {A : Adapter} {offered : Option (Key × StateHandle)} {c c' : PromptCache}
    (h : Coherent A c) (hrebound : Rebound A c.backend (offered.map Prod.snd) c'.backend)
    (hpolicy : c'.policy = c.policy)
    (hview : ∀ k, c'.backend.records.get? k = c.backend.records.get? k) :
    Rebinds A offered c c' where
  coherent := by
    refine .of_rebound hrebound ?_ ?_ ?_
    · exact hpolicy ▸ h.represents
    · exact hpolicy ▸ h.within
    · rw [hpolicy, show c'.backend.records.get? = c.backend.records.get? from funext hview]
      exact h.agrees
  rebound := hrebound
  records {k st} hk := Or.inl (hview k ▸ hk)
  config := by rw [hpolicy]
  priced {k e'} hk := Or.inl ⟨hview k, e', hpolicy ▸ hk, rfl⟩

/-- The handles bound afterwards were bound before, or are the one on offer. -/
theorem Rebinds.bound {A : Adapter} {offered : Option (Key × StateHandle)} {c c' : PromptCache}
    (h : Rebinds A offered c c') {name : String} (hmem : name ∈ c'.backend.bound) :
    name ∈ c.backend.bound ∨ ∃ o ∈ offered, o.2.handle = name := by
  obtain ⟨k, st, hk, rfl⟩ := World.mem_bound.mp hmem
  exact (h.records hk).imp World.bound_of_get? fun hoffer => ⟨(k, st), hoffer, rfl⟩

/-- The handles known afterwards were known before, or are the one on offer. -/
theorem Rebinds.tracked {A : Adapter} {offered : Option (Key × StateHandle)} {c c' : PromptCache}
    (h : Rebinds A offered c c') {name : String} (ht : c'.backend.Tracked name) :
    c.backend.Tracked name ∨ ∃ o ∈ offered, o.2.handle = name := by
  have hknown {st : StateHandle} (hst : c.backend.Known (offered.map Prod.snd) st) :
      c.backend.Tracked st.handle ∨ ∃ o ∈ offered, o.2.handle = st.handle := by
    rcases hst with ⟨k, hk⟩ | hpending | hoffer
    · exact Or.inl (Or.inl (World.bound_of_get? hk))
    · exact Or.inl (Or.inr (World.mem_pending.mpr ⟨_, hpending⟩))
    · obtain ⟨o, ho, rfl⟩ := Option.map_eq_some_iff.mp hoffer
      exact Or.inr ⟨o, ho, rfl⟩
  rcases ht with hbound | hpending
  · obtain ⟨k, st, hk, rfl⟩ := World.mem_bound.mp hbound
    exact hknown (h.rebound.bound hk).2
  · obtain ⟨st, hst⟩ := World.mem_pending.mp hpending
    obtain ⟨rfl, -, hst⟩ := h.rebound.queued hst
    exact hknown hst

theorem Rebinds.tracked_or_iff {A : Adapter} {offered : Option (Key × StateHandle)}
    {c c' : PromptCache} (h : Rebinds A offered c c') (name : String) :
    (c'.backend.Tracked name ∨ ∃ o ∈ offered, o.2.handle = name) ↔
      c.backend.Tracked name ∨ ∃ o ∈ offered, o.2.handle = name :=
  ⟨fun hname => hname.elim h.tracked Or.inr, fun hname => hname.imp_left h.rebound.kept⟩

/-- Planning a stable candidate moves the probation, which no resident depends on. -/
theorem Coherent.probed {A : Adapter} {c : PromptCache} (h : Coherent A c)
    {q : WorkingSetPolicy CacheNamespace} (hsame : SameResidents c.policy q) :
    Coherent A { c with policy := q } where
  represents := h.represents.congr hsame
  within := h.within.congr hsame.entries hsame.config
  namespaced hk := h.namespaced (by rwa [hsame.entries] at hk)
  agrees := h.agrees.congr fun k => by rw [hsame.entries]
  bound := h.bound
  queued := h.queued

theorem Rebinds.probed {A : Adapter} {c c' : PromptCache} {offered : Option (Key × StateHandle)}
    {q : WorkingSetPolicy CacheNamespace} (hsame : SameResidents c.policy q)
    (h : Rebinds A offered { c with policy := q } c') : Rebinds A offered c c' where
  coherent := h.coherent
  rebound := h.rebound
  records := h.records
  config := h.config.trans hsame.config
  priced hk := by
    have hpriced := h.priced hk
    rwa [hsame.entries] at hpriced

/-! ## Admissions -/

/-- How offering a state under a key ends. -/
inductive AdmissionOutcome (A : Adapter) (key : Key) (state : StateHandle) (c : PromptCache) :
    Except PyError Bool × PromptCache → Prop
  | accepted (c' : PromptCache) (h : Rebinds A (some (key, state)) c c')
      (hbound : c'.backend.records.get? key = some state) :
      AdmissionOutcome A key state c (.ok true, c')
  | rejected (c' : PromptCache) (h : Rebinds A (some (key, state)) c c')
      (hkeep : ∀ k, c'.backend.records.get? k = c.backend.records.get? k) :
      AdmissionOutcome A key state c (.ok false, c')
  | failed (e : PyError) (c' : PromptCache) (h : Rebinds A (some (key, state)) c c')
      (hkeep : ∀ k, c'.backend.records.get? k = c.backend.records.get? k) :
      AdmissionOutcome A key state c (.error e, c')

/-- What a committed plan leaves, given the registry it was installed in. -/
theorem rebinds_commit {A : Adapter} {c c' : PromptCache} {key : Key} {state : StateHandle}
    {plan : AdmissionPlan CacheNamespace} (hc : Coherent A c)
    (hplan : c.policy.Plans key state.nbytes plan) (hacc : plan.accepted = true)
    (hpolicy : c'.policy = c.policy.commit plan)
    (hrebound : Rebound A c.backend (some state) c'.backend)
    (hview : c'.backend.records.get? = installed c.backend.records.get? plan state) :
    Rebinds A (some (key, state)) c c' where
  coherent := by
    refine .of_rebound hrebound ?_ ?_ ?_
    · rw [hpolicy]
      exact commit_represents hc.represents plan
    · rw [hpolicy]
      exact commit_withinLimits hc.within hplan.fits
    · rw [hpolicy, hview]
      exact (hc.agrees.commit hacc state).self
  rebound := hrebound
  records {k st} hk := by
    rw [hview, installed] at hk
    split_ifs at hk with hself
    · cases hk
      exact Or.inr (by rw [hself, hplan.key])
    · exact Or.inl hk
  config := by rw [hpolicy, commit_config]
  priced {k e'} hk := by
    rw [hpolicy, commit_get? _ hacc] at hk
    split_ifs at hk with hself hevicted
    · cases hk
      refine Or.inr ⟨state, by rw [hself, hplan.key], ?_, hplan.nbytes hacc⟩
      rw [hview, installed, if_pos hself]
    · refine Or.inl ⟨?_, e', hk, rfl⟩
      rw [hview, installed, if_neg hself, if_neg hevicted]

/-- Applying a plan that was made in this state. -/
theorem admit_outcome {A : Adapter} {c : PromptCache} {key : Key} {state : StateHandle}
    {plan : AdmissionPlan CacheNamespace} (hc : Coherent A c)
    (hkey : key.cacheNamespace = A.cacheNamespace)
    (hplan : c.policy.Plans key state.nbytes plan) :
    AdmissionOutcome A key state c (admitPlan (registry A) plan state c) := by
  have hresident {k : Key} (hk : k ∈ affectedKeys plan) : k.cacheNamespace = A.cacheNamespace := by
    rcases mem_affectedKeys.mp hk with rfl | hevicted
    · rw [hplan.key, hkey]
    · obtain ⟨e, he, rfl⟩ := mem_evictedKeys.mp hevicted
      exact hc.namespaced (hplan.resident e he)
  have hspec := (registry_mapBackend A c.backend (some state)).admit_spec plan state
    (p := c.policy) (v := c.backend.records.get?) rfl
    (fun k hk => hresident hk) (fun k _ t ht => ⟨hc.bound ht, Or.inl ⟨k, ht⟩⟩) c
    ⟨rfl, hc.rebound _, rfl⟩
  revert hspec
  rcases admitPlan (registry A) plan state c with ⟨⟨e⟩ | ⟨accepted⟩, c'⟩
  · rintro ⟨hpolicy, hrebound, hview⟩
    have hview (k : Key) : c'.backend.records.get? k = c.backend.records.get? k := congrFun hview k
    exact .failed e c' (.of_same hc hrebound hpolicy hview) hview
  · rintro ⟨rfl, hpolicy, hrebound, hview⟩
    cases hacc : plan.accepted with
    | true =>
      rw [hacc, if_pos rfl] at hview
      refine .accepted c' (rebinds_commit hc hplan hacc hpolicy hrebound hview) ?_
      change c'.backend.records.get? = _ at hview
      rw [hview, installed, if_pos hplan.key.symm]
      rfl
    | false =>
      rw [commit_rejected _ hacc] at hpolicy
      rw [hacc, if_neg Bool.false_ne_true] at hview
      have hview (k : Key) : c'.backend.records.get? k = c.backend.records.get? k := congrFun hview k
      exact .rejected c' (.of_same hc hrebound hpolicy hview) hview

/-- A way of offering a state under a key. -/
def Admits (A : Adapter) (key : Key) (state : StateHandle) (m : Exec PyError PromptCache Bool) :
    Prop := ∀ c, Coherent A c → AdmissionOutcome A key state c (m c)

theorem admitEntry_admits {A : Adapter} {key : Key} (hkey : key.cacheNamespace = A.cacheNamespace)
    (state : StateHandle) (role : Role) (predecessor : Option Key) :
    Admits A key state (admitEntry (registry A) key state role state.nbytes predecessor) := by
  intro c hc
  rw [admitEntry, gets_bind_apply]
  exact admit_outcome hc hkey (hc.represents.plans_admission key role state.nbytes predecessor)

theorem admitStableCandidate_admits {A : Adapter} {key : Key}
    (hkey : key.cacheNamespace = A.cacheNamespace) (state : StateHandle) :
    Admits A key state (admitStableCandidate (registry A) key state state.nbytes) := by
  intro c hc
  have hsame := c.policy.planStableCandidate_sameResidents key state.nbytes
  rw [admitStableCandidate_apply]
  rcases hplan : planStableCandidate key state.nbytes c.policy with ⟨⟨e⟩ | ⟨plan⟩, q⟩ <;>
    rw [hplan] at hsame
  · exact .failed e _ ((Rebinds.refl (hc.probed hsame) _).probed hsame) fun _ => rfl
  · have hout := admit_outcome (hc.probed hsame) hkey (hc.represents.plans_stable hplan)
    dsimp only
    generalize admitPlan (registry A) plan state { c with policy := q } = r at hout
    cases hout with
    | accepted c' h hbound => exact .accepted c' (h.probed hsame) hbound
    | rejected c' h hkeep => exact .rejected c' (h.probed hsame) hkeep
    | failed e c' h hkeep => exact .failed e c' (h.probed hsame) hkeep

/-! ## Trims and hits -/

/-- A trim rebinds nothing new, and when it raises the bindings are what they were. -/
theorem trimTo_rebinds {A : Adapter} {c : PromptCache} (hc : Coherent A c)
    (nSequences nBytes : Option ℤ) :
    Holds (fun _ => Rebinds A none c)
      (fun _ c' => Rebinds A none c c' ∧
        ∀ k, c'.backend.records.get? k = c.backend.records.get? k)
      (trimTo (registry A) nSequences nBytes c) := by
  unfold trimTo
  split
  swap
  · exact ⟨.refl hc none, fun _ => rfl⟩
  rename_i plan hplan
  have hresident := hc.represents.planTrim hplan
  have hvalid (k : Key) (hk : k ∈ plan.evictions.map Eviction.key) :
      k.cacheNamespace = A.cacheNamespace := by
    obtain ⟨e, he, rfl⟩ := List.mem_map.mp hk
    exact hc.namespaced (hresident e he)
  have hspec := (registry_mapBackend A c.backend none).trim_spec plan
    (p := c.policy) (v := c.backend.records.get?) hvalid
    (fun k _ t ht => ⟨hc.bound ht, Or.inl ⟨k, ht⟩⟩) c ⟨rfl, hc.rebound _, rfl⟩
  revert hspec
  rcases trim (registry A) plan c with ⟨⟨e⟩ | ⟨trimmed⟩, c'⟩
  · rintro ⟨hpolicy, hrebound, hview⟩
    have hview (k : Key) : c'.backend.records.get? k = c.backend.records.get? k := congrFun hview k
    exact ⟨.of_same hc hrebound hpolicy hview, hview⟩
  · rintro ⟨hpolicy, hrebound, hview⟩
    change c'.backend.records.get? = _ at hview
    refine ⟨.of_rebound hrebound ?_ ?_ ?_, hrebound, fun {k st} hk => Or.inl ?_,
      by rw [hpolicy, commitTrim_config], fun {k e'} hk => Or.inl ?_⟩
    · rw [hpolicy]
      exact commitTrim_represents hc.represents plan
    · rw [hpolicy]
      exact commitTrim_withinLimits hc.within plan
    · rw [hpolicy, hview]
      exact (hc.agrees.commitTrim plan).self
    · rw [hview, without] at hk
      split_ifs at hk
      exact hk
    · rw [hpolicy, commitTrim_get?] at hk
      split_ifs at hk with hevicted
      refine ⟨?_, e', hk, rfl⟩
      rw [hview, without, if_neg]
      exact fun hmem => hevicted (List.mem_toFinset.mpr hmem)

theorem observeHit_rebinds {A : Adapter} {c : PromptCache} (hc : Coherent A c) (key : Key) :
    Rebinds A none c { c with policy := (c.policy.observeHit key).2 } where
  coherent :=
    { hc with
      represents := observeHit_represents hc.represents key
      within := observeHit_withinLimits hc.within key
      namespaced := fun hk => hc.namespaced ((observeHit_keys c.policy key _).mp hk)
      agrees := hc.agrees.congr (observeHit_keys c.policy key) }
  rebound := hc.rebound _
  records hk := Or.inl hk
  config := by
    dsimp only
    unfold WorkingSetPolicy.observeHit
    split <;> rfl
  priced {k e'} hk := by
    rw [observeHit_get?, Option.map_eq_some_iff] at hk
    obtain ⟨e, he, rfl⟩ := hk
    refine Or.inl ⟨rfl, e, he, ?_⟩
    split_ifs <;> rfl

/-! ## Notices -/

/-- Forgetting every key that is bound to one of these handles, on both sides at once and
without a drop. -/
structure Forgets (A : Adapter) (handles : List String) (c c' : PromptCache) : Prop where
  coherent : Coherent A c'
  server : c'.backend.server = c.backend.server
  script : c'.backend.script = c.backend.script
  pastEpochs : c'.backend.pastEpochs = c.backend.pastEpochs
  history : c'.backend.history = c.backend.history
  pendingDrops : c'.backend.pendingDrops = c.backend.pendingDrops
  records : ∀ {k st}, c'.backend.records.get? k = some st ↔
    c.backend.records.get? k = some st ∧ st.handle ∉ handles
  config : c'.policy.config = c.policy.config
  priced : ∀ {k e}, c'.policy.entries.get? k = some e → c.policy.entries.get? k = some e

namespace Forgets

variable {A : Adapter} {handles : List String} {c c' : PromptCache}

theorem mem_bound (h : Forgets A handles c c') {name : String} :
    name ∈ c'.backend.bound ↔ name ∈ c.backend.bound ∧ name ∉ handles := by
  rw [World.mem_bound, World.mem_bound]
  constructor
  · rintro ⟨k, st, hk, rfl⟩
    exact ⟨⟨k, st, (h.records.mp hk).1, rfl⟩, (h.records.mp hk).2⟩
  · rintro ⟨⟨k, st, hk, rfl⟩, hspared⟩
    exact ⟨k, st, h.records.mpr ⟨hk, hspared⟩, rfl⟩

theorem bound (h : Forgets A handles c c') {name : String} (hmem : name ∈ c'.backend.bound) :
    name ∈ c.backend.bound := (h.mem_bound.mp hmem).1

theorem tracked (h : Forgets A handles c c') {name : String} (ht : c'.backend.Tracked name) :
    c.backend.Tracked name := by
  refine ht.imp h.bound fun hqueued => ?_
  rwa [World.pending, h.pendingDrops] at hqueued

end Forgets

/-- The client after forgetting one key. -/
def forgotten (c : PromptCache) (key : Key) : PromptCache :=
  ⟨c.policy.commitTrim (forgetPlan key), c.backend.forget key⟩

theorem forgetRemoteKey_registry {A : Adapter} {c : PromptCache} {key : Key}
    (hkey : key.cacheNamespace = A.cacheNamespace) (removed : List Key) :
    forgetRemoteKey (registry A) removed key c =
      if (c.backend.records.get? key).isSome then (.ok (removed ++ [key]), forgotten c key)
      else (.ok removed, c) := by
  have honce : onBackend ((registry A).capture key) c = (.ok (c.backend.records.get? key), c) := by
    simp [onBackend, Exec.zoom, registry_capture hkey]
  unfold forgetRemoteKey
  rw [bind_of_ok honce]
  cases c.backend.records.get? key with
  | none => rfl
  | some st =>
    have hforget : onBackend ((registry A).forget key) c =
        (.ok (), { c with backend := c.backend.forget key }) := by
      simp [onBackend, Exec.zoom, registry_forget hkey]
    dsimp only
    rw [gets_bind_apply]
    refine bind_of_ok (tryExcept_of_ok (bind_of_ok hforget _) _) _

theorem forgotten_coherent {A : Adapter} {c : PromptCache} (hc : Coherent A c) (key : Key) :
    Coherent A (forgotten c key) where
  represents := commitTrim_represents hc.represents _
  within := commitTrim_withinLimits hc.within _
  namespaced {k} hk := by
    obtain ⟨e, he⟩ := Dict.mem_keys_iff.mp hk
    rw [forgotten, commitTrim_get?] at he
    split_ifs at he
    exact hc.namespaced (Dict.mem_keys_of_get? he)
  agrees := by
    have hview : (forgotten c key).backend.records.get? = without c.backend.records.get? [key] := by
      funext k
      simp [forgotten, World.forget, without]
    rw [hview]
    exact (hc.agrees.commitTrim (forgetPlan key)).self
  bound hk := by
    rw [forgotten, World.forget, Dict.get?_erase] at hk
    split_ifs at hk
    exact hc.bound hk
  queued := hc.queued

/-- After a part of a `forgetRemote` loop these keys are gone and the rest is untouched. -/
structure Pruned (A : Adapter) (c : PromptCache) (keys : List Key) (c' : PromptCache) : Prop where
  coherent : Coherent A c'
  frame : ∃ records, c'.backend = { c.backend with records := records }
  view : ∀ k, c'.backend.records.get? k = if k ∈ keys then none else c.backend.records.get? k
  config : c'.policy.config = c.policy.config
  priced : ∀ {k e}, c'.policy.entries.get? k = some e → c.policy.entries.get? k = some e

/-- One more key is forgotten, or was not bound. -/
theorem Pruned.step {A : Adapter} {c c' : PromptCache} {keys : List Key} (h : Pruned A c keys c')
    (key : Key) :
    Pruned A c (keys ++ [key])
      (if (c'.backend.records.get? key).isSome then forgotten c' key else c') := by
  have hstep (view : Key → Option StateHandle) (k : Key)
      (hk : view k = if k = key then none else c'.backend.records.get? k) :
      view k = if k ∈ keys ++ [key] then none else c.backend.records.get? k := by
    rw [hk, h.view]
    by_cases hself : k = key <;> simp [hself]
  obtain ⟨records, hframe⟩ := h.frame
  split_ifs with hsome
  · exact
      { coherent := forgotten_coherent h.coherent key
        frame := ⟨c'.backend.records.erase key, by rw [forgotten, World.forget, hframe]⟩
        view := fun k => hstep _ k (Dict.get?_erase _ _ _)
        config := by rw [forgotten, commitTrim_config, h.config]
        priced := fun {k e} hk => by
          rw [forgotten, commitTrim_get?] at hk
          split_ifs at hk
          exact h.priced hk }
  · refine { h with view := fun k => hstep _ k ?_ }
    split_ifs with hself
    · rw [hself]
      simpa using hsome
    · rfl

/-- The keys of the bindings whose handle is among these. -/
theorem mem_keysOfHandles {records : Dict Key StateHandle} {handles : List String} {k : Key}
    {st : StateHandle} (hk : records.get? k = some st) :
    k ∈ (records.items.filter (fun kv => kv.2.handle ∈ handles)).map Prod.fst ↔
      st.handle ∈ handles := by
  rw [List.mem_map]
  constructor
  · rintro ⟨kv, hkv, rfl⟩
    obtain ⟨hitem, hhandle⟩ := List.mem_filter.mp hkv
    rw [Dict.get?_eq_some_iff.mpr hitem] at hk
    cases hk
    simpa using hhandle
  · intro hhandle
    have hitem := Dict.get?_eq_some_iff.mp hk
    exact ⟨(k, st), List.mem_filter.mpr ⟨hitem, by simpa using hhandle⟩, rfl⟩

/-- The loop of `forgetRemote` prunes the keys it is given. -/
theorem forgetRemote_prunes {A : Adapter} {c : PromptCache} (hc : Coherent A c)
    {keys : List Key} (hns : ∀ k ∈ keys, k.cacheNamespace = A.cacheNamespace) :
    ∃ removed c', forgetRemote (registry A) keys c = (.ok removed, c') ∧ Pruned A c keys c' := by
  have hloop := Triple.foldEach (f := forgetRemoteKey (registry A)) (R := fun _ _ => False)
    (I := fun pre _ c' => Pruned A c pre c') keys [] [] (by
      intro pre key post removed hsplit _ c' hpruned
      have hkey : key ∈ keys := by
        rw [List.nil_append] at hsplit
        simp [hsplit]
      have hnext := hpruned.step key
      rw [forgetRemoteKey_registry (hns key hkey)]
      split_ifs at hnext ⊢ <;> exact hnext)
    c ⟨hc, ⟨c.backend.records, rfl⟩, by simp, rfl, id⟩
  unfold forgetRemote
  revert hloop
  rcases foldEach (forgetRemoteKey (registry A)) [] keys c with ⟨⟨e⟩ | ⟨removed⟩, c'⟩
  · exact False.elim
  · exact fun hpruned => ⟨removed, c', rfl, hpruned⟩

theorem forgetRemote_forgets {A : Adapter} {c : PromptCache} (hc : Coherent A c)
    (handles : List String) :
    ∃ removed c', forgetRemote (registry A) ((c.backend.records.items.filter
        (fun kv => kv.2.handle ∈ handles)).map Prod.fst) c = (.ok removed, c') ∧
      Forgets A handles c c' := by
  have hns : ∀ k ∈ (c.backend.records.items.filter
      (fun kv => kv.2.handle ∈ handles)).map Prod.fst, k.cacheNamespace = A.cacheNamespace := by
    intro k hk
    obtain ⟨kv, hkv, rfl⟩ := List.mem_map.mp hk
    exact hc.namespaced_of_get? (Dict.get?_eq_some_iff.mpr (List.mem_filter.mp hkv).1)
  obtain ⟨removed, c', hrun, hpruned⟩ := forgetRemote_prunes hc hns
  obtain ⟨records, hframe⟩ := hpruned.frame
  refine ⟨removed, c', hrun, hpruned.coherent, ?_, ?_, ?_, ?_, ?_, fun {k st} => ?_,
    hpruned.config, hpruned.priced⟩
  · rw [hframe]
  · rw [hframe]
  · rw [hframe]
  · rw [hframe]
  · rw [hframe]
  · rw [hpruned.view]
    constructor
    · intro hk
      split_ifs at hk with hgone
      exact ⟨hk, fun hhandle => hgone ((mem_keysOfHandles hk).mpr hhandle)⟩
    · rintro ⟨hk, hhandle⟩
      rw [if_neg (fun hgone => hhandle ((mem_keysOfHandles hk).mp hgone)), hk]

/-- A notice forgets its handles and then flushes. -/
theorem applyRemoteEvictions_forgets {A : Adapter} {c : PromptCache} (hc : Coherent A c)
    (handles : List String) :
    ∃ c₁, Forgets A handles c c₁ ∧
      ((∃ removed, applyRemoteEvictions A handles c = (.ok removed, c₁)) ∨
        (applyRemoteEvictions A handles c).2 =
          { c₁ with backend := (flushDrops A c₁.backend).2 }) := by
  obtain ⟨removed, c₁, hrun, hforgets⟩ := forgetRemote_forgets hc handles
  unfold applyRemoteEvictions
  rw [gets_bind_apply]
  split_ifs with hnone
  · -- nothing is bound to these handles
    refine ⟨c, ?_, Or.inl ⟨[], rfl⟩⟩
    rw [hnone] at hrun
    cases hrun
    exact hforgets
  · refine ⟨c₁, hforgets, Or.inr ?_⟩
    rw [bind_of_ok hrun]
    rcases hflush : flushDrops A c₁.backend with ⟨⟨e⟩ | ⟨n⟩, w⟩
    · have hraise : onBackend (flushDrops A) c₁ = (.error e, { c₁ with backend := w }) := by
        simp [onBackend, Exec.zoom, hflush]
      rw [bind_of_error hraise]
    · have hreturn : onBackend (flushDrops A) c₁ = (.ok n, { c₁ with backend := w }) := by
        simp [onBackend, Exec.zoom, hflush]
      rw [bind_of_ok hreturn]
      rfl

/-- Over an empty queue notices cannot fail. -/
theorem applyNotices_ok {A : Adapter} {c : PromptCache} (hc : Coherent A c)
    (evicted : List String) (hempty : c.backend.pendingDrops = .empty) :
    ∃ c', applyNotices A evicted c = (.ok (), c') ∧ Forgets A evicted c c' := by
  obtain ⟨removed, c₁, hrun, hforgets⟩ := forgetRemote_forgets hc evicted
  have hflush : onBackend (N := CacheNamespace) (flushDrops A) c₁ = (.ok 0, c₁) := by
    have := flushDrops_empty (A := A) (w := c₁.backend) (by rw [hforgets.pendingDrops, hempty]; rfl)
    simp [onBackend, Exec.zoom, this]
  unfold applyNotices
  split_ifs with hnil
  · subst hnil
    refine ⟨c, rfl, hc, rfl, rfl, rfl, rfl, rfl, ?_, rfl, id⟩
    simp
  unfold applyRemoteEvictions
  rw [bind_apply, gets_bind_apply]
  split_ifs with hnone
  · rw [hnone] at hrun
    cases hrun
    exact ⟨c, rfl, hforgets⟩
  · refine ⟨c₁, ?_, hforgets⟩
    rw [bind_of_ok hrun, bind_of_ok hflush]
    rfl

end StateBraid.Managed
