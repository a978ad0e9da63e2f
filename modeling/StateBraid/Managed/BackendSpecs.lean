import StateBraid.Managed.Backend
import StateBraid.Managed.CaptureSpecs

/-!
# Flushing, reconciling and capturing

A flush removes only queued handles that are not bound, and takes a handle off the queue
only once it is bound again or dead. A reconciliation removes only handles that the
client does not know, and when it completes none of those is left. A capture sends its
request only over an empty queue.
-/

namespace StateBraid.Managed
open Library Policy LlamaCpp Exec

/-! ## Invariants of single requests -/

section Keeps

variable {I : World → Prop} {A : Adapter}

theorem flushDrops_keeps (hlist : Keeps I (exchange .list))
    (hdrop : ∀ handle, Keeps I (exchange (.drop A.managedEpoch handle)))
    (hunqueue : ∀ w handle, I w → I (w.unqueue handle)) : Keeps I (flushDrops A) := by
  refine (Keeps.gets _).bind fun referenced => (Keeps.gets _).bind fun items => ?_
  refine Keeps.foldEach 0 fun item _ dropped => ?_
  have hoff (n : ℕ) : Keeps I (do
      Exec.modify (fun w => w.unqueue item.1)
      pure n : Exec PyError World ℕ) :=
    (Keeps.modify fun w h => hunqueue w item.1 h).bind fun _ => Keeps.pure n
  unfold flushDrop
  split
  · exact hoff dropped
  · exact (dropState_keeps item.2 hlist (hdrop item.2.handle)).bind fun _ => hoff (dropped + 1)

theorem reconcileOrphanedHandles_keeps (hlist : Keeps I (exchange .list))
    (hdrop : ∀ handle, Keeps I (exchange (.drop A.managedEpoch handle)))
    (hlisted : ∀ w, I w → I (w.note (.orphansListed w.server w.bound w.pending)))
    (hcompleted : ∀ w, I w → I (w.note .reconcileCompleted)) :
    Keeps I (reconcileOrphanedHandles A) := by
  refine (managedStore_keeps hlist).bind fun store => (Keeps.gets _).bind fun known =>
    (Keeps.modify hlisted).bind fun _ => ?_
  refine (Keeps.forEach fun orphan _ => dropState_keeps orphan hlist (hdrop orphan.handle)).bind
    fun _ => ?_
  exact (Keeps.modify hcompleted).bind fun _ => Keeps.pure _

end Keeps

/-- Reconciling changes no registry entry. -/
theorem reconcileOrphanedHandles_registry (A : Adapter) (w : World) :
    (reconcileOrphanedHandles A w).2.records = w.records ∧
      (reconcileOrphanedHandles A w).2.pendingDrops = w.pendingDrops :=
  (reconcileOrphanedHandles_keeps (registry_keeps w.records w.pendingDrops .list)
    (fun _ => registry_keeps _ _ _) (fun _ h => h) (fun _ h => h)).state ⟨rfl, rfl⟩

theorem captureCurrentState_registry {A : Adapter} {tokens : List ℤ} {w w' : World}
    {r : Except PyError (StateHandle × List String)}
    (h : captureCurrentState A tokens w = (r, w')) :
    w'.records = w.records ∧ w'.pendingDrops = w.pendingDrops := by
  have hsame := (captureCurrentState_keeps (A := A) tokens
    (registry_keeps w.records w.pendingDrops .list) (fun _ => registry_keeps _ _ _)
    (registry_keeps _ _ _)).state ⟨rfl, rfl⟩
  rwa [h] at hsame

/-! ## Flushing -/

/-- The registry of queued drops is keyed by the handle names. -/
def World.Queued (w : World) : Prop :=
  ∀ {h st}, w.pendingDrops.get? h = some st → st.handle = h

/-- What a flush does to the registry in any case: bindings stay, the queue only shrinks. -/
structure Drains (w₀ w : World) : Prop where
  records : w.records = w₀.records
  subset : ∀ {h st}, w.pendingDrops.get? h = some st → w₀.pendingDrops.get? h = some st

theorem Drains.unqueue {w₀ w : World} (h : Drains w₀ w) (name : String) :
    Drains w₀ (w.unqueue name) where
  records := h.records
  subset hget := by
    rw [World.unqueue, Dict.get?_erase] at hget
    split_ifs at hget
    exact h.subset hget

theorem dropState_registry {A : Adapter} {state : StateHandle} {w w' : World}
    {r : Except PyError Unit} (h : dropState A state w = (r, w')) :
    w'.records = w.records ∧ w'.pendingDrops = w.pendingDrops := by
  have hsame := (dropState_keeps (A := A) state
    (registry_keeps w.records w.pendingDrops .list) (registry_keeps _ _ _)).state ⟨rfl, rfl⟩
  rwa [h] at hsame

/-- A flush goes through the drops that are queued when it starts. -/
theorem flushDrops_eq (A : Adapter) (w : World) :
    flushDrops A w = foldEach (flushDrop A w.bound) 0 w.pendingDrops.items w := by
  rw [flushDrops, gets_bind_apply, gets_bind_apply]

/-- A flush that returns has emptied the queue. -/
theorem flushDrops_drains {A : Adapter} {w : World} :
    Holds (fun _ w' => Drains w w' ∧ w'.pendingDrops = .empty) (fun _ => Drains w)
      (flushDrops A w) := by
  have hloop := Triple.foldEach (f := flushDrop A w.bound) (R := fun _ => Drains w)
    (I := fun pre _ w' => Drains w w' ∧ ∀ h, h ∈ w'.pending → h ∉ pre.map Prod.fst)
    w.pendingDrops.items [] 0 (by
      rintro pre ⟨name, state⟩ post dropped - - w' ⟨hdrains, hrest⟩
      have hafter {w'' : World} (hp : w''.pendingDrops = w'.pendingDrops) (h : String)
          (hmem : h ∈ (w''.unqueue name).pending) :
          h ∉ (pre ++ [(name, state)]).map Prod.fst := by
        obtain ⟨hmem, hne⟩ := Dict.mem_keys_erase.mp hmem
        have := hrest h (by rwa [World.pending, ← hp])
        simp only [List.map_append, List.map_cons, List.map_nil, List.mem_append,
          List.mem_singleton]
        tauto
      unfold flushDrop
      split
      · exact ⟨hdrains.unqueue name, hafter rfl⟩
      · rcases hrun : dropState A state w' with ⟨⟨e⟩ | ⟨⟨⟩⟩, w''⟩ <;>
          obtain ⟨hrecords, hpending⟩ := dropState_registry hrun
        · rw [bind_of_error hrun]
          exact ⟨hrecords.trans hdrains.records, fun hget => hdrains.subset (hpending ▸ hget)⟩
        · rw [bind_of_ok hrun]
          have hdrains' : Drains w w'' :=
            ⟨hrecords.trans hdrains.records, fun hget => hdrains.subset (hpending ▸ hget)⟩
          exact ⟨hdrains'.unqueue name, hafter hpending⟩)
    w ⟨⟨rfl, id⟩, by simp⟩
  rw [flushDrops_eq]
  refine hloop.imp (fun n w' h => ?_) fun _ _ => id
  obtain ⟨hdrains, hrest⟩ := h
  refine ⟨hdrains, Dict.ext (List.eq_nil_iff_forall_not_mem.mpr fun kv hkv => ?_)⟩
  have hmem : kv.1 ∈ w'.pending := List.mem_map_of_mem hkv
  refine hrest kv.1 hmem ?_
  obtain ⟨st, hst⟩ := Dict.mem_keys_iff.mp hmem
  exact Dict.mem_keys_of_get? (hdrains.subset hst)

/-- The progress of a flush without restarts: what it has removed was queued and not bound,
and what it has taken off the queue is bound or dead. -/
structure Flushed (w₀ w : World) : Prop where
  tidies : Tidies (fun h => h ∈ w₀.pending ∧ h ∉ w₀.bound) w₀ w
  settled : ∀ h ∈ w₀.pending, h ∈ w.pending ∨ h ∈ w₀.bound ∨ ¬ w.server.Alive h

theorem Tidies.unqueue {may : String → Prop} {w₀ w : World} (h : Tidies may w₀ w) (name : String) :
    Tidies may w₀ (w.unqueue name) :=
  ⟨⟨h.records, h.epoch, h.enabled, h.nextHandle, h.stateOf, h.wellFormed, h.script, h.history⟩,
    h.quiet⟩

theorem Flushed.unqueue {w₀ w : World} (h : Flushed w₀ w) {name : String}
    (hname : name ∈ w₀.bound ∨ ¬ w.server.Alive name) : Flushed w₀ (w.unqueue name) where
  tidies := h.tidies.unqueue name
  settled handle hqueued := by
    rcases h.settled handle hqueued with hstill | hgone
    · by_cases hself : handle = name
      · exact Or.inr (hself ▸ hname)
      · exact Or.inl (Dict.mem_keys_erase.mpr ⟨hstill, hself⟩)
    · exact Or.inr hgone

/-- A drop of a queued handle that is not bound. -/
theorem Flushed.drop {A : Adapter} {w₀ w w' : World} (h : Flushed w₀ w) (hw : w₀.Steady)
    {state : StateHandle} (hqueued : state.handle ∈ w₀.pending)
    (hunbound : state.handle ∉ w₀.bound) {r : Except PyError Unit}
    (hrun : dropState A state w = (r, w')) : Flushed w₀ w' := by
  have htidies := (dropState_tidies (A := A) (fun h => h ∈ w₀.pending ∧ h ∉ w₀.bound)
    (h.tidies.steady hw) ⟨hqueued, hunbound⟩
    (by rwa [h.tidies.bound])).state (.refl w)
  rw [hrun] at htidies
  refine ⟨h.tidies.trans htidies, fun handle hmem => ?_⟩
  rw [World.pending, (dropState_registry hrun).2]
  exact (h.settled handle hmem).imp_right
    (Or.imp_right fun hdead halive => hdead (htidies.alive halive))

/-- How far a flush has come: the handles in `done` have left the queue, each of them bound
or dead, and those in `rest` are queued as they were. -/
structure FlushedTo (w₀ w : World) (done rest : List (String × StateHandle)) : Prop where
  split : w₀.pendingDrops.items = done ++ rest
  left : w.pendingDrops.items = rest
  settled : ∀ item ∈ done, item.1 ∈ w₀.bound ∨ ¬ w.server.Alive item.1

theorem FlushedTo.unqueue {w₀ w : World} {done rest : List (String × StateHandle)}
    {item : String × StateHandle} (h : FlushedTo w₀ w done (item :: rest))
    (hitem : item.1 ∈ w₀.bound ∨ ¬ w.server.Alive item.1) :
    FlushedTo w₀ (w.unqueue item.1) (done ++ [item]) rest where
  split := by rw [h.split, List.append_assoc, List.singleton_append]
  left := by
    have hnodup := w.pendingDrops.keys_nodup
    rw [Dict.keys, h.left, List.map_cons, List.nodup_cons] at hnodup
    rw [World.unqueue, Dict.items_erase, h.left, List.filter_cons_of_neg (by simp)]
    refine List.filter_eq_self.mpr fun other hother => decide_eq_true fun heq => hnodup.1 ?_
    exact heq ▸ List.mem_map_of_mem hother
  settled other hother := by
    rcases List.mem_append.mp hother with hold | hnew
    · exact h.settled other hold
    · rwa [List.mem_singleton.mp hnew]

/-- A drop in between leaves the queue alone and revives nothing. -/
theorem FlushedTo.dropped {A : Adapter} {w₀ w w' : World}
    {done rest : List (String × StateHandle)} (h : FlushedTo w₀ w done rest)
    {may : String → Prop} (htidies : Tidies may w w') {state : StateHandle}
    {r : Except PyError Unit} (hrun : dropState A state w = (r, w')) : FlushedTo w₀ w' done rest where
  split := h.split
  left := (dropState_registry hrun).2 ▸ h.left
  settled item hitem :=
    (h.settled item hitem).imp_right fun hdead halive => hdead (htidies.alive halive)

/-- A flush that returns has settled every queued handle. One that raises has settled those
before the handle it stopped at; that handle and all after it stay queued. -/
theorem flushDrops_progress {A : Adapter} {w : World} (hw : w.Steady) (hqueued : w.Queued) :
    Holds (fun _ w' => Flushed w w' ∧ FlushedTo w w' w.pendingDrops.items [])
      (fun _ w' => Flushed w w' ∧
        ∃ done item rest, FlushedTo w w' done (item :: rest) ∧ item.1 ∉ w.bound)
      (flushDrops A w) := by
  have hloop := Triple.foldEach (f := flushDrop A w.bound)
    (R := fun _ w' => Flushed w w' ∧
      ∃ done item rest, FlushedTo w w' done (item :: rest) ∧ item.1 ∉ w.bound)
    (I := fun pre _ w' => Flushed w w' ∧ ∃ rest, FlushedTo w w' pre rest)
    w.pendingDrops.items [] 0 (by
      rintro pre ⟨name, state⟩ post dropped hsplit - w' ⟨hflushed, rest, hto⟩
      rw [List.nil_append] at hsplit
      obtain rfl : rest = (name, state) :: post :=
        List.append_cancel_left (hto.split.symm.trans hsplit)
      have hitem : w.pendingDrops.get? name = some state := by
        rw [Dict.get?_eq_some_iff, hsplit]
        simp
      have hname := hqueued hitem
      unfold flushDrop
      split
      · rename_i hbound
        exact ⟨hflushed.unqueue (Or.inl hbound), post, hto.unqueue (Or.inl hbound)⟩
      · rename_i hunbound
        dsimp only at hunbound ⊢
        have hunbound' : state.handle ∉ w'.bound := by rwa [hflushed.tidies.bound, hname]
        have htidies := (dropState_tidies (A := A) (fun _ => True) (hflushed.tidies.steady hw)
          trivial hunbound').state (.refl w')
        rcases hrun : dropState A state w' with ⟨⟨e⟩ | ⟨⟨⟩⟩, w''⟩ <;> rw [hrun] at htidies <;>
          have hdrop := hflushed.drop hw (hname ▸ Dict.mem_keys_of_get? hitem)
            (hname ▸ hunbound) hrun
        · rw [bind_of_error hrun]
          exact ⟨hdrop, pre, _, post, hto.dropped htidies hrun, hunbound⟩
        · have hdead : ¬ w''.server.Alive name := hname ▸ dropState_ok hrun
          rw [bind_of_ok hrun]
          exact ⟨hdrop.unqueue (Or.inr hdead), post,
            (hto.dropped htidies hrun).unqueue (Or.inr hdead)⟩)
    w ⟨⟨.refl w, fun _ => Or.inl⟩, w.pendingDrops.items, rfl, rfl, by simp⟩
  rw [flushDrops_eq]
  refine hloop.imp (fun n w' h => ?_) fun _ _ => id
  obtain ⟨hflushed, rest, hto⟩ := h
  obtain rfl : rest = [] := List.append_cancel_left (hto.split.symm.trans (by simp))
  exact ⟨hflushed, hto⟩

theorem flushDrops_flushed {A : Adapter} {w : World} (hw : w.Steady) (hqueued : w.Queued) :
    Flushed w (flushDrops A w).2 := by
  have hprogress := flushDrops_progress (A := A) hw hqueued
  revert hprogress
  rcases flushDrops A w with ⟨⟨e⟩ | ⟨n⟩, w'⟩ <;> exact And.left

/-- With nothing queued there is nothing to flush. -/
theorem flushDrops_empty {A : Adapter} {w : World} (h : w.pendingDrops.items = []) :
    flushDrops A w = (.ok 0, w) := by
  rw [flushDrops_eq, h]
  rfl

/-! ## Reconciling -/

/-- The part of a reconciliation that got from reading the store in `w₁` to `w'`: it only
removes handles that the client did not know when it had read the store. -/
structure Reconciling (w w₁ w' : World) : Prop where
  read : Tidies (fun _ => False) w w₁
  queue : w₁.pendingDrops = w.pendingDrops
  tidies : Tidies (fun h => h ∉ w.bound ∧ h ∉ w.pending)
    (w₁.note (.orphansListed w₁.server w.bound w.pending)) w'
  pending : w'.pendingDrops = w.pendingDrops

/-- How a reconciliation ends; one that completes has removed every unknown handle. -/
inductive Reconciled (w : World) : Except PyError (List String) × World → Prop
  | unread (e : PyError) (w₁ : World) (hread : Tidies (fun _ => False) w w₁)
      (hqueue : w₁.pendingDrops = w.pendingDrops) : Reconciled w (.error e, w₁)
  | interrupted (e : PyError) (w₁ w' : World) (h : Reconciling w w₁ w') :
      Reconciled w (.error e, w')
  | completed (handles : List String) (w₁ w' : World) (h : Reconciling w w₁ w')
      (hknown : ∀ h, w'.server.Alive h → h ∈ w.bound ∨ h ∈ w.pending) :
      Reconciled w (.ok handles, w'.note .reconcileCompleted)

theorem orphanOf_handleRow {A : Adapter} {known : List String} (kv : String × ManagedEntry) :
    orphanOf A known (Server.handleRow kv) = if kv.1 ∈ known then none
      else some ⟨A.backendIdentity, A.managedEpoch, kv.1, A.idSlot, kv.2.state.tokens.length,
        kv.2.state.size⟩ := by
  simp [orphanOf, Server.handleRow, Json.isObject, Json.get, Json.asStr?, Json.asInt?, List.lookup_cons]

/-- The orphans of a listing are the handles alive that the client does not know. -/
theorem mem_orphans {A : Adapter} {s : Server} {known : List String} {h : String} :
    (∃ orphan ∈ ((storeRows s.listReply).getD []).filterMap (orphanOf A known),
      orphan.handle = h) ↔ s.Alive h ∧ h ∉ known := by
  rw [storeRows_listReply, Option.getD_some, List.filterMap_map, Server.Alive, Dict.keys]
  constructor
  · rintro ⟨orphan, hmem, rfl⟩
    obtain ⟨kv, hkv, horphan⟩ := List.mem_filterMap.mp hmem
    rw [Function.comp_apply, orphanOf_handleRow] at horphan
    split_ifs at horphan with hunknown
    cases horphan
    exact ⟨List.mem_map_of_mem hkv, hunknown⟩
  · rintro ⟨hmem, hunknown⟩
    obtain ⟨kv, hkv, rfl⟩ := List.mem_map.mp hmem
    refine ⟨⟨A.backendIdentity, A.managedEpoch, kv.1, A.idSlot, kv.2.state.tokens.length,
      kv.2.state.size⟩, List.mem_filterMap.mpr ⟨kv, hkv, ?_⟩, rfl⟩
    rw [Function.comp_apply, orphanOf_handleRow, if_neg hunknown]

theorem reconcileOrphanedHandles_spec {A : Adapter} {w : World} (hw : w.Steady) :
    Reconciled w (reconcileOrphanedHandles A w) := by
  have hread := managedStore_tidies (A := A) (fun _ => False) hw w (.refl w)
  have hregistry := managedStore_keeps (A := A)
    (registry_keeps w.records w.pendingDrops .list) w ⟨rfl, rfl⟩
  unfold reconcileOrphanedHandles
  rcases hrun : managedStore A w with ⟨⟨e⟩ | ⟨store⟩, w₁⟩ <;> rw [hrun] at hread hregistry
  · rw [bind_of_error hrun]
    exact .unread e w₁ hread hregistry.2
  obtain ⟨hstore, -⟩ := managedStore_ok hrun
  obtain ⟨hrecords₁, hpending₁⟩ := hregistry
  have hbound₁ : w₁.bound = w.bound := by rw [World.bound, hrecords₁, World.bound]
  have hqueue₁ : w₁.pending = w.pending := by rw [World.pending, hpending₁, World.pending]
  rw [bind_of_ok hrun, gets_bind_apply, modify_bind_apply, hbound₁, hqueue₁, hstore]
  set listed := w₁.note (.orphansListed w₁.server w.bound w.pending) with hlisted
  have hsteady : listed.Steady := hread.steady hw
  set orphans := ((storeRows w₁.server.listReply).getD []).filterMap
    (orphanOf A (w.bound ++ w.pending)) with horphans
  -- every orphan already visited is dead, and stays dead
  have hloop := Triple.forEach orphans (f := dropState A)
    (R := fun _ w' => Tidies (fun h => h ∉ w.bound ∧ h ∉ w.pending) listed w' ∧
      w'.pendingDrops = w.pendingDrops)
    (I := fun pre w' => Tidies (fun h => h ∉ w.bound ∧ h ∉ w.pending) listed w' ∧
      w'.pendingDrops = w.pendingDrops ∧ ∀ orphan ∈ pre, ¬ w'.server.Alive orphan.handle) (by
      rintro pre orphan post hsplit w₂ ⟨htidies, hpending, hdead⟩
      have hunknown : orphan.handle ∉ w.bound ++ w.pending :=
        (mem_orphans.mp ⟨orphan, by rw [← horphans, hsplit]; simp, rfl⟩).2
      have hmay : orphan.handle ∉ w.bound ∧ orphan.handle ∉ w.pending := by
        simpa only [List.mem_append, not_or] using hunknown
      have hunbound : orphan.handle ∉ w₂.bound := by
        rw [htidies.bound]
        exact fun hmem => hmay.1 (hbound₁ ▸ hmem)
      have hdrop := dropState_tidies (A := A) (fun h => h ∉ w.bound ∧ h ∉ w.pending)
        (htidies.steady hsteady) hmay hunbound w₂ (.refl w₂)
      have hsame := dropState_keeps (A := A) orphan
        (registry_keeps w₂.records w₂.pendingDrops .list) (registry_keeps _ _ _) w₂ ⟨rfl, rfl⟩
      rcases hrun : dropState A orphan w₂ with ⟨⟨e⟩ | ⟨⟨⟩⟩, w₃⟩ <;> rw [hrun] at hdrop hsame
      · exact ⟨htidies.trans hdrop, hsame.2.trans hpending⟩
      · refine ⟨htidies.trans hdrop, hsame.2.trans hpending, fun visited hmem halive => ?_⟩
        rcases List.mem_append.mp hmem with hold | hnew
        · exact hdead visited hold (hdrop.alive halive)
        · rw [List.mem_singleton.mp hnew] at halive
          exact dropState_ok hrun halive)
    listed ⟨.refl listed, hpending₁, by simp⟩
  rcases hrun₂ : forEach orphans (dropState A) listed with ⟨⟨e⟩ | ⟨⟨⟩⟩, w₂⟩ <;> rw [hrun₂] at hloop
  · rw [bind_of_error hrun₂]
    exact .interrupted e w₁ w₂ ⟨hread, hpending₁, hloop.1, hloop.2⟩
  · rw [bind_of_ok hrun₂, modify_bind_apply, pure_apply]
    obtain ⟨htidies, hpending, hdead⟩ := hloop
    refine .completed _ w₁ w₂ ⟨hread, hpending₁, htidies, hpending⟩ fun h halive => ?_
    by_contra hunknown
    rw [← List.mem_append] at hunknown
    obtain ⟨orphan, hmem, rfl⟩ := mem_orphans.mpr ⟨htidies.alive halive, hunknown⟩
    exact hdead orphan hmem halive

theorem Reconciling.sheds {w w₁ w' : World} (h : Reconciling w w₁ w') :
    Sheds (fun h => h ∉ w.bound ∧ h ∉ w.pending) w w' := by
  have hread : Sheds (fun h => h ∉ w.bound ∧ h ∉ w.pending) w w₁ :=
    h.read.toSheds.mono fun _ => False.elim
  exact (hread.note (by trivial)).trans h.tidies.toSheds

/-- A reconciliation sheds at most the handles that the client does not know. -/
theorem Reconciled.sheds {w : World} {r : Except PyError (List String) × World}
    (h : Reconciled w r) : Sheds (fun h => h ∉ w.bound ∧ h ∉ w.pending) w r.2 := by
  cases h with
  | unread e w₁ hread hqueue => exact hread.toSheds.mono fun _ => False.elim
  | interrupted e w₁ w' hrun => exact hrun.sheds
  | completed handles w₁ w' hrun hknown => exact hrun.sheds.note (by trivial)

/-! ## Capturing -/

/-- The binding checks pass for a state of this adapter. -/
theorem stateBinding_ok {A : Adapter} {state : StateHandle} :
    stateBinding A state = .ok () ↔ state.backendIdentity = A.backendIdentity ∧
      state.epoch = A.managedEpoch ∧ state.idSlot = A.idSlot := by
  unfold stateBinding
  split_ifs <;> simp_all

theorem requireKey_ok {A : Adapter} {key : Key} :
    requireKey A key = .ok () ↔ key.cacheNamespace = A.cacheNamespace := by
  unfold requireKey
  split_ifs <;> simp_all

theorem requireState_ok {A : Adapter} {key : Key} {state : StateHandle} :
    requireState A key state = .ok () ↔ key.cacheNamespace = A.cacheNamespace ∧
      stateBinding A state = .ok () ∧ (key.tokens.length : ℤ) = state.nTokens := by
  rw [← requireKey_ok]
  unfold requireState
  rcases requireKey A key with e | ⟨⟩
  · simp [bind, Except.bind]
  rcases stateBinding A state with e | ⟨⟩
  · simp [bind, Except.bind]
  simp only [bind, Except.bind, true_and]
  split_ifs <;> simp_all

/-- How `capture_current` of the backend ends: over a queue that could not be flushed, in
the capture itself and then after a reconciliation, or with the state. -/
inductive CaptureCurrent (A : Adapter) (key : Key) (w : World) :
    Except PyError (StateHandle × List String) × World → Prop
  | blocked (e : PyError) (w₁ : World) (hflush : flushDrops A w = (.error e, w₁)) :
      CaptureCurrent A key w (.error e, w₁)
  | failed (e : PyError) (n : ℕ) (w₁ w₂ : World) (hflush : flushDrops A w = (.ok n, w₁))
      (hcapture : captureCurrentState A key.tokens w₁ = (.error e, w₂)) :
      CaptureCurrent A key w (.error e, (reconcileOrphanedHandles A w₂).2)
  | captured (state : StateHandle) (evicted : List String) (n : ℕ) (w₁ w₂ : World)
      (hflush : flushDrops A w = (.ok n, w₁))
      (hcapture : captureCurrentState A key.tokens w₁ = (.ok (state, evicted), w₂)) :
      CaptureCurrent A key w (.ok (state, evicted), w₂)

/-- A captured state passes the checks of the backend. -/
theorem captured_sound {A : Adapter} (key : Key) (hkey : key.cacheNamespace = A.cacheNamespace)
    {w w' : World} (hw : w.server.WellFormed) {state : StateHandle} {evicted : List String}
    (h : captureCurrentState A key.tokens w = (.ok (state, evicted), w')) :
    requireState A key state = .ok () := by
  obtain ⟨slot, -, htokens, -, -, rfl, -⟩ := capture_returned hw h
  exact requireState_ok.mpr ⟨hkey, stateBinding_ok.mpr ⟨rfl, rfl, rfl⟩, by rw [htokens]; rfl⟩

theorem captureCurrent_run {A : Adapter} (key : Key) (hkey : key.cacheNamespace = A.cacheNamespace)
    {w : World} (hw : w.server.WellFormed) :
    CaptureCurrent A key w (captureCurrent A key w) := by
  have hkeep := (flushDrops_keeps (A := A) (I := fun w => w.server.WellFormed)
    (exchange_wellFormed _) (fun _ => exchange_wellFormed _) (fun _ _ h => h)).state hw
  -- an empty queue is flushed too, in no step
  have hflush : captureCurrent A key w = (flushDrops A >>= fun _ => captureFlushed A key) w := by
    unfold captureCurrent
    rw [requireKey_ok.mpr hkey, ofExcept_ok_bind_apply, gets_bind_apply]
    by_cases hempty : w.pendingDrops.items = []
    · rw [if_neg (not_not.mpr hempty), bind_of_ok (flushDrops_empty hempty)]
    · rw [if_pos hempty]
  rw [hflush]
  rcases hrun : flushDrops A w with ⟨⟨e⟩ | ⟨n⟩, w₁⟩
  · rw [bind_of_error hrun]
    exact .blocked e w₁ hrun
  rw [hrun] at hkeep
  rw [bind_of_ok hrun]
  unfold captureFlushed
  rcases hcapture : captureCurrentState A key.tokens w₁ with ⟨⟨e⟩ | ⟨state, evicted⟩, w₂⟩
  · -- the reconciliation decides the state, the capture's error is raised again
    have hraise : (do
        Exec.tryExcept
          (do
            let _ ← reconcileOrphanedHandles A
            pure ())
          (fun _ => pure ())
        Exec.raise e : Exec PyError World (StateHandle × List String)) w₂ =
          (.error e, (reconcileOrphanedHandles A w₂).2) := by
      rcases hrec : reconcileOrphanedHandles A w₂ with ⟨⟨e'⟩ | ⟨names⟩, w₃⟩
      · rw [bind_of_ok (tryExcept_of_error (bind_of_error hrec _) _)]
        rfl
      · rw [bind_of_ok (tryExcept_of_ok (bind_of_ok hrec _) _)]
        rfl
    rw [bind_of_error ((tryExcept_of_error hcapture _).trans hraise)]
    exact .failed e n w₁ w₂ hrun hcapture
  · rw [bind_of_ok (tryExcept_of_ok hcapture _)]
    dsimp only
    rw [captured_sound key hkey hkeep hcapture, bind_of_ok (tryExcept_of_ok (ofExcept_apply _ _) _)]
    exact .captured state evicted n w₁ w₂ hrun hcapture

end StateBraid.Managed
