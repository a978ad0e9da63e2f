import StateBraid.Managed.Growth
import StateBraid.Managed.Pricing
import StateBraid.Managed.Protocol

/-!
# Runs without faults

When every request is delivered and every read of a sequence state is complete, a flush
always empties the queue. Between two calls the handles alive are then the bound ones, no
two keys share a handle, and the server and the policy count the same bytes.
-/

namespace StateBraid.Managed
open Library Policy Coordinator LlamaCpp Exec

/-! ## Exchanges without faults -/

/-- A request is served and answered, its server is not restarted, and a capture that is
not refused reads the whole state. -/
structure Exchange.FaultFree (x : Exchange) : Prop where
  delivered : x.delivery = .delivered
  restart : x.restart = none
  reads : ∀ n, x.upstream.readTarget n = n ∧ x.upstream.readDraft n = n

theorem Exchange.normal_faultFree : Exchange.normal.FaultFree := ⟨rfl, rfl, fun _ => ⟨rfl, rfl⟩⟩

/-- No exchange still to come has a fault. -/
def World.FaultFree (w : World) : Prop := ∀ x ∈ w.script, x.FaultFree

namespace World.FaultFree

variable {w : World}

theorem next (h : w.FaultFree) : w.next.FaultFree := by
  unfold World.next
  cases hscript : w.script with
  | nil => exact Exchange.normal_faultFree
  | cons x script => exact h x (by simp [hscript])

theorem steady (h : w.FaultFree) : w.Steady := fun x hx => (h x hx).restart

theorem sheds (h : w.FaultFree) {may : String → Prop} {w' : World} (hsheds : Sheds may w w') :
    w'.FaultFree := fun x hx => h x (hsheds.script x hx)

/-- Without faults a capture that fails was refused. -/
theorem failedCapture (h : w.FaultFree) {A : Adapter} {tokens : List ℤ} {server : Server}
    (hfailed : FailedCapture A tokens w server) : server = w.server := by
  cases hfailed with
  | refused => rw [h.steady.sent]
  | unread n hread =>
    obtain ⟨htarget, hdraft⟩ := h.next.reads n
    exact absurd hread (by simp [htarget, hdraft])
  | lost slot hslot htokens hne hlost =>
    rw [h.next.delivered] at hlost
    cases hlost

/-- A read that goes through returns the store, unless the server is off or in another epoch. -/
theorem readStore (h : w.FaultFree) {pinned : Option String} (hwell : w.server.WellFormed)
    (henabled : w.server.enabled = true) (hne : w.server.epoch ≠ "")
    (hpinned : ∀ epoch ∈ pinned, w.server.epoch = epoch) :
    ∃ w', Managed.readStore pinned w = (.ok w.server.listReply, w') ∧ w'.server = w.server ∧
      w'.FaultFree := by
  have hsent : w.sent.server = w.server := by rw [h.steady.sent]
  have hanswer : exchange .list w =
      (.ok w.server.listReply, w.sent.after .list .delivered w.server) := by
    rw [exchange_delivered h.next.delivered, hsent, Server.respond_list,
      if_neg (by simp [henabled])]
  obtain ⟨-, hread⟩ := readStore_answered h.steady hwell hne hpinned hanswer
  exact ⟨_, hread, rfl, fun x hx => h x (List.mem_of_mem_tail (w.sent_script ▸ hx))⟩

end World.FaultFree

/-- Steps that only shed states lead to a later server. -/
theorem Sheds.later {may : String → Prop} {w w' : World} (h : Sheds may w w')
    (hw : w.server.WellFormed) : w.server.Later w'.server where
  epoch := h.epoch
  nextHandle := h.nextHandle.ge
  stateOf _ _ := (h.stateOf _).imp_right And.right
  wellFormed := h.wellFormed hw

/-! ## A flush without faults -/

/-- A state with its accounting on record and its handle alive. -/
structure Stored (A : Adapter) (s : Server) (state : StateHandle) : Prop where
  recorded : Recorded A s state
  alive : s.Alive state.handle

/-- Dropping a stored state returns. -/
theorem dropState_returns {A : Adapter} {w : World} (h : w.FaultFree)
    (haccepts : w.server.Accepts A.managedEpoch) {state : StateHandle}
    (hstored : Stored A w.server state) : ∃ w', dropState A state w = (.ok (), w') := by
  have hsent : w.sent.server = w.server := by rw [h.steady.sent]
  obtain ⟨found, hfound⟩ := Server.alive_iff.mp hstored.alive
  have hdrop : ∃ reply, (w.server.drop state.handle).1 = .ok reply := by
    obtain ⟨entry, hentry, -⟩ := Option.map_eq_some_iff.mp hfound
    unfold Server.drop
    rw [hentry]
    exact ⟨_, rfl⟩
  obtain ⟨reply, hreply⟩ := hdrop
  have hanswer : exchange (.drop A.managedEpoch state.handle) w = _ :=
    exchange_delivered h.next.delivered
  rw [hsent] at hanswer
  rcases w.server.respond_drop w.next A.managedEpoch state.handle with
    ⟨-, hrespond⟩ | ⟨hrefuses, -⟩
  · rw [hrespond, hreply] at hanswer
    exact ⟨_, (dropState_answered (hsent ▸ hstored.recorded) hanswer).1⟩
  · exact absurd haccepts hrefuses

/-- A flush of stored states returns. -/
theorem flushDrops_returns {A : Adapter} {w : World} (h : w.FaultFree)
    (hwell : w.server.WellFormed) (haccepts : w.server.Accepts A.managedEpoch)
    (hqueued : w.Queued)
    (hstored : ∀ {name st}, w.pendingDrops.get? name = some st → Stored A w.server st) :
    ∃ n w', flushDrops A w = (.ok n, w') := by
  have hloop := Triple.foldEach (f := flushDrop A w.bound) (R := fun _ _ => False)
    (I := fun pre _ w' => Tidies (fun name => name ∈ pre.map Prod.fst) w w')
    w.pendingDrops.items [] 0 (by
      rintro pre ⟨name, state⟩ post dropped hsplit - w' htidies
      rw [List.nil_append] at hsplit
      have hitem : w.pendingDrops.get? name = some state := Dict.get?_of_items_eq hsplit
      have hname := hqueued hitem
      -- the names of a queue are distinct
      have hnew : name ∉ pre.map Prod.fst := by
        have hnodup := w.pendingDrops.nodup
        rw [hsplit, List.map_append, List.map_cons] at hnodup
        exact fun hmem => (List.nodup_append.mp hnodup).2.2 name hmem name
          List.mem_cons_self rfl
      have hmono : Tidies (fun other => other ∈ (pre ++ [(name, state)]).map Prod.fst) w w' :=
        ⟨htidies.toSheds.mono fun other hmem => by
          rw [List.map_append]
          exact List.mem_append_left _ hmem, htidies.quiet⟩
      unfold flushDrop
      split
      · exact hmono.unqueue name
      · rename_i hunbound
        dsimp only at hunbound ⊢
        have hfree := h.sheds htidies.toSheds
        have hstate : Stored A w'.server state :=
          ⟨(hstored hitem).recorded.later (htidies.toSheds.later hwell),
            htidies.alive_of_not_may (hstored hitem).alive (hname ▸ hnew)⟩
        obtain ⟨w'', hrun⟩ := dropState_returns hfree
          ⟨htidies.enabled.trans haccepts.1, haccepts.2.trans htidies.epoch.symm⟩ hstate
        have hmay : state.handle ∈ (pre ++ [(name, state)]).map Prod.fst := by simp [hname]
        have hspared : state.handle ∉ w'.bound := by rwa [htidies.bound, hname]
        have hdrop := (dropState_tidies (A := A)
          (fun other => other ∈ (pre ++ [(name, state)]).map Prod.fst) hfree.steady hmay
          hspared).state (.refl w')
        rw [hrun] at hdrop
        rw [bind_of_ok hrun]
        exact (hmono.trans hdrop).unqueue name)
    w (.refl w)
  rw [flushDrops_eq]
  revert hloop
  rcases foldEach (flushDrop A w.bound) 0 w.pendingDrops.items w with ⟨⟨e⟩ | ⟨n⟩, w'⟩
  · exact False.elim
  · exact fun _ => ⟨n, w', rfl⟩

/-! ## Exactness -/

/-- The state in hand. -/
def Phase.inHand : Phase → Option StateHandle
  | .holding _ state => some state
  | _ => none

theorem Phase.holds_iff {φ : Phase} {name : String} :
    φ.Holds name ↔ ∃ state, φ.inHand = some state ∧ state.handle = name := by
  cases φ <;> simp [Phase.Holds, Phase.inHand]

/-- The handles alive are the ones the client remembers, with their accounting on record;
no two keys share a handle, and only a mutation leaves drops in the queue. -/
structure Exact (A : Adapter) (config : PolicyConfig) (φ : Phase) (c : PromptCache) : Prop where
  config : c.policy.config = config
  orderly : Orderly A [] φ c
  faultFree : c.backend.FaultFree
  alive : ∀ h, c.backend.server.Alive h ↔ Remembers φ c h
  recorded : ∀ {st}, c.backend.Known φ.inHand st → Recorded A c.backend.server st
  apart : ∀ {k k' st st'}, c.backend.records.get? k = some st →
    c.backend.records.get? k' = some st' → st.handle = st'.handle → k = k'
  fresh : ∀ {h}, φ.Holds h → h ∉ c.backend.bound
  drained : φ = .idle → c.backend.pendingDrops = .empty

namespace Exact

variable {A : Adapter} {config : PolicyConfig} {φ φ' : Phase} {c c' : PromptCache}

theorem accepts (h : Exact A config φ c) : c.backend.server.Accepts A.managedEpoch :=
  ⟨h.orderly.enabled, h.orderly.epoch.symm⟩

/-- A known state is stored. -/
theorem stored (h : Exact A config φ c) {st : StateHandle} (hknown : c.backend.Known φ.inHand st) :
    Stored A c.backend.server st := by
  refine ⟨h.recorded hknown, (h.alive _).mpr ?_⟩
  rcases hknown with ⟨k, hk⟩ | hpending | hhold
  · exact Or.inl (Or.inl (World.bound_of_get? hk))
  · exact Or.inl (Or.inr (World.mem_pending.mpr ⟨st, hpending⟩))
  · exact Or.inr (Phase.holds_iff.mpr ⟨st, hhold, rfl⟩)

/-- Between two calls the handles alive are the bound ones. -/
theorem alive_iff_bound (h : Exact A config .idle c) (name : String) :
    c.backend.server.Alive name ↔ name ∈ c.backend.bound := by
  rw [h.alive]
  simp [Remembers, World.Tracked, Phase.Holds, World.pending, h.drained rfl]

/-- Steps that shed nothing and keep the registry. -/
theorem shed (h : Exact A config φ c) {w : World}
    (horderly : Orderly A [] φ { c with backend := w }) (ht : Sheds (fun _ => False) c.backend w)
    (hpending : w.pendingDrops = c.backend.pendingDrops) :
    Exact A config φ { c with backend := w } where
  config := h.config
  orderly := horderly
  faultFree := h.faultFree.sheds ht
  alive name := by
    rw [Accounted.remembers_congr ht.records hpending, ← h.alive]
    exact ⟨ht.alive, fun halive => ht.alive_of_not_may halive id⟩
  recorded {st} hknown := by
    have hknown : w.Known φ.inHand st := hknown
    rw [World.Known, ht.records, hpending] at hknown
    exact (h.recorded hknown).later (ht.later h.orderly.wellFormed)
  apart hk hk' := h.apart (ht.records ▸ hk) (ht.records ▸ hk')
  fresh hhold := by
    dsimp only
    rw [ht.bound]
    exact h.fresh hhold
  drained hidle := hpending.trans (h.drained hidle)

/-- Moving what is known within the client. -/
theorem rebind (h : Exact A config φ c) (hconfig : c'.policy.config = c.policy.config)
    (horderly : Orderly A [] φ' c') (hserver : c'.backend.server = c.backend.server)
    (hscript : ∀ x ∈ c'.backend.script, x ∈ c.backend.script)
    (hsame : ∀ name, Remembers φ' c' name ↔ Remembers φ c name)
    (hknown : ∀ {st}, c'.backend.Known φ'.inHand st → c.backend.Known φ.inHand st)
    (hapart : ∀ {k k' st st'}, c'.backend.records.get? k = some st →
      c'.backend.records.get? k' = some st' → st.handle = st'.handle → k = k')
    (hfresh : ∀ {name}, φ'.Holds name → name ∉ c'.backend.bound)
    (hdrained : φ' = .idle → c'.backend.pendingDrops = .empty) : Exact A config φ' c' where
  config := hconfig.trans h.config
  orderly := horderly
  faultFree x hx := h.faultFree x (hscript x hx)
  alive name := by rw [hserver, hsame, h.alive]
  recorded hst := hserver ▸ h.recorded (hknown hst)
  apart := hapart
  fresh := hfresh
  drained := hdrained

/-- What rebinding leaves known was known. -/
theorem known_rebound {offered : Option (Key × StateHandle)} (hrebinds : Rebinds A offered c c')
    (hoffered : ∀ o ∈ offered, φ.inHand = some o.2) {st : StateHandle}
    (hknown : c'.backend.Known φ.inHand st) : c.backend.Known φ.inHand st := by
  have hbefore {st : StateHandle} (hst : c.backend.Known (offered.map Prod.snd) st) :
      c.backend.Known φ.inHand st := by
    refine hst.imp_right (Or.imp_right fun hoffer => ?_)
    obtain ⟨o, ho, rfl⟩ := Option.map_eq_some_iff.mp hoffer
    exact hoffered o ho
  rcases hknown with ⟨k, hk⟩ | hpending | hhold
  · exact hbefore (hrebinds.rebound.bound hk).2
  · exact hbefore (hrebinds.rebound.queued hpending).2.2
  · exact Or.inr (Or.inr hhold)

/-- Rebinding keeps the keys apart: the state on offer is not bound yet. -/
theorem apart_rebound (h : Exact A config φ c) {offered : Option (Key × StateHandle)}
    (hrebinds : Rebinds A offered c c') (hoffered : ∀ o ∈ offered, φ.Holds o.2.handle)
    {k k' : Key} {st st' : StateHandle} (hk : c'.backend.records.get? k = some st)
    (hk' : c'.backend.records.get? k' = some st') (heq : st.handle = st'.handle) : k = k' := by
  rcases hrebinds.records hk with hold | hoffer <;> rcases hrebinds.records hk' with hold' | hoffer'
  · exact h.apart hold hold' heq
  · exact absurd (heq ▸ World.bound_of_get? hold) (h.fresh (hoffered _ hoffer'))
  · exact absurd (heq ▸ World.bound_of_get? hold') (h.fresh (hoffered _ hoffer))
  · rw [hoffer] at hoffer'
    cases hoffer'
    rfl

/-- A flush leaves exactly the bound handles alive. -/
theorem flushed (h : Exact A config .closing c) (hc : Coherent A c) :
    Exact A config .idle (flushed A c) := by
  have hqueued : c.backend.Queued := Orderly.queued hc
  obtain ⟨n, w, hrun⟩ := flushDrops_returns h.faultFree h.orderly.wellFormed h.accepts hqueued
    fun {name st} hst => h.stored (Or.inr (Or.inl ((hqueued hst).symm ▸ hst)))
  obtain ⟨heq, hdrained⟩ := flushed_empty hrun
  have hflushed := flushDrops_flushed (A := A) h.faultFree.steady hqueued
  have hidle : Orderly A [] .idle c := h.orderly.release fun _ => id
  have horderly := Orderly.flushed hc hidle
  rw [heq] at horderly ⊢
  rw [hrun] at hflushed
  have hsheds := hflushed.tidies.toSheds
  have hpending : w.pending = [] := by
    rw [World.pending, hdrained]
    rfl
  have hbound : w.bound = c.backend.bound := hsheds.bound
  refine ⟨h.config, horderly, h.faultFree.sheds hsheds,
    fun name => ⟨fun halive => ?_, fun hname => ?_⟩, fun {st} hknown => ?_,
    fun hk hk' => h.apart (hsheds.records ▸ hk) (hsheds.records ▸ hk'),
    fun hhold => hhold.elim, fun _ => hdrained⟩
  · rcases (h.alive name).mp (hsheds.alive halive) with (hmem | hmem) | hhold
    · exact Or.inl (Or.inl (hbound ▸ hmem))
    · rcases hflushed.settled name hmem with hstill | hbefore | hdead
      · rw [hpending] at hstill
        cases hstill
      · exact Or.inl (Or.inl (hbound ▸ hbefore))
      · exact absurd halive hdead
    · exact hhold.elim
  · rcases hname with (hmem | hmem) | hhold
    · have hmem : name ∈ c.backend.bound := hbound ▸ hmem
      exact hsheds.alive_of_not_may ((h.alive name).mpr (Or.inl (Or.inl hmem)))
        fun hmay => hmay.2 hmem
    · change name ∈ w.pending at hmem
      rw [hpending] at hmem
      cases hmem
    · exact hhold.elim
  · rcases hknown with ⟨k, hk⟩ | hmem | hhold
    · exact (h.recorded (Or.inl ⟨k, hsheds.records ▸ hk⟩)).later
        (hsheds.later h.orderly.wellFormed)
    · change w.pendingDrops.get? _ = _ at hmem
      rw [hdrained] at hmem
      cases hmem
    · cases hhold

/-- There is nothing to reconcile. -/
theorem reconciled (h : Exact A config .idle c) : Exact A config .idle (reconciled A c) := by
  have hsheds := (reconcileOrphanedHandles_spec (A := A) h.faultFree.steady).sheds
  refine h.shed h.orderly.reconciled ⟨hsheds.records, hsheds.epoch, hsheds.enabled,
    hsheds.nextHandle, fun name => Or.inl ?_, hsheds.wellFormed, hsheds.script, hsheds.history⟩
    (reconcileOrphanedHandles_registry A c.backend).2
  rcases hsheds.stateOf name with heq | ⟨⟨hunbound, hunqueued⟩, hnone⟩
  · exact heq
  · have hdead : ¬ c.backend.server.Alive name := fun halive => by
      rcases (h.alive name).mp halive with (hmem | hmem) | hhold
      · exact hunbound hmem
      · exact hunqueued hmem
      · exact hhold.elim
    rw [hnone, Server.not_alive_iff.mp hdead]

/-- A failed capture was refused, so the client only has one exchange less before it. -/
theorem captureFailed (h : Exact A config .idle c) {tokens : List ℤ} {e : PyError} {w : World}
    (hcapture : captureCurrentState A tokens c.backend = (.error e, w)) :
    Exact A config .idle { c with backend := w } := by
  obtain ⟨hrecords, hpending⟩ := captureCurrentState_registry hcapture
  have hserver : w.server = c.backend.server ∧ ∀ x ∈ w.script, x ∈ c.backend.script := by
    rcases capture_failed h.orderly.wellFormed hcapture with ⟨rfl, -⟩ | ⟨-, server, rfl, hfailed⟩
    · exact ⟨rfl, fun _ => id⟩
    · refine ⟨h.faultFree.failedCapture hfailed, fun x hx => ?_⟩
      rw [h.faultFree.steady.sent] at hx
      exact List.mem_of_mem_tail hx
  refine h.rebind rfl (h.orderly.captureFailed hcapture) hserver.1 hserver.2
    (Accounted.remembers_congr hrecords hpending) (fun {st} hknown => ?_)
    (fun hk hk' => h.apart (hrecords ▸ hk) (hrecords ▸ hk')) (fun hhold => hhold.elim)
    fun hidle => hpending.trans (h.drained hidle)
  have hknown : w.Known none st := hknown
  rwa [World.Known, hrecords, hpending] at hknown

/-- A capture that returned: what it reclaimed is forgotten, and its state is new. -/
theorem captured (h : Exact A config .idle c) {tokens : List ℤ} {state : StateHandle}
    {evicted : List String} {w : World}
    (hcapture : captureCurrentState A tokens c.backend = (.ok (state, evicted), w))
    (hforgets : Forgets A evicted { c with backend := w } c') :
    Exact A config (.holding (cacheKey A tokens) state) c' := by
  have horderly := h.orderly.captured hcapture hforgets (cacheKey A tokens)
  have hsent := h.faultFree.steady.sent
  have hserver : c.backend.sent.server = c.backend.server := by rw [hsent]
  have hwell := h.orderly.wellFormed
  obtain ⟨slot, hslot, -, hne, -, rfl, rfl, rfl⟩ := capture_returned hwell hcapture
  rw [hserver] at hslot
  have hrecords {k : Key} {st : StateHandle} : c'.backend.records.get? k = some st ↔
      c.backend.records.get? k = some st ∧ st.handle ∉ reclaimedBy A tokens c.backend := by
    rw [hforgets.records, hsent]
    rfl
  have hafter : c'.backend.server =
      (c.backend.server.reclaim (reclaimedBy A tokens c.backend)).store
        (c.backend.server.snapshot slot) := by
    rw [hforgets.server, ← hserver]
    rfl
  have hqueue : c'.backend.pendingDrops = .empty := by
    rw [hforgets.pendingDrops, hsent]
    exact h.drained rfl
  have hpending : c'.backend.pending = [] := by
    rw [World.pending, hqueue]
    rfl
  have hbound {name : String} : name ∈ c'.backend.bound ↔
      name ∈ c.backend.bound ∧ name ∉ reclaimedBy A tokens c.backend := by
    rw [hforgets.mem_bound, hsent]
    rfl
  have hname : (capturedHandle A c.backend.sent.server slot).handle =
      formatHandle c.backend.server.nextHandle := by rw [hserver]; rfl
  refine ⟨hforgets.config.trans h.config, horderly, fun x hx => ?_, fun name => ?_,
    fun {st} hknown => ?_,
    fun hk hk' => h.apart (hrecords.mp hk).1 (hrecords.mp hk').1, fun {name} hhold hmem => ?_,
    by simp⟩
  · rw [hforgets.script, hsent] at hx
    exact h.faultFree x (List.mem_of_mem_tail hx)
  · rw [hafter, Server.alive_captured hwell, h.alive_iff_bound, ← hbound]
    simp only [Remembers, World.Tracked, hpending, List.not_mem_nil, or_false, Phase.Holds, hname]
    exact or_comm.trans (or_congr_right eq_comm)
  · have hlater : c.backend.server.Later c'.backend.server := by
      rw [hafter]
      exact .stored hwell _ hslot hne
    rcases hknown with ⟨k, hk⟩ | hmem | hhold
    · exact (h.recorded (Or.inl ⟨k, (hrecords.mp hk).1⟩)).later hlater
    · rw [hqueue] at hmem
      cases hmem
    · cases hhold
      rw [hafter, hserver]
      exact .captured hwell _ _
  · have hself : name = formatHandle c.backend.server.nextHandle := hhold.symm.trans hname
    exact h.orderly.ne_next (Or.inl (Or.inl (hbound.mp hmem).1)) hself

end Exact

theorem exact_ledger (A : Adapter) (config : PolicyConfig) : Ledger A (Exact A config) where
  wellFormed h := h.orderly.wellFormed
  passive {c request} hpassive _ h := by
    obtain ⟨-, hpending⟩ := exchange_registry request c.backend
    have ht := exchange_passive (fun _ => False) h.faultFree.steady hpassive
    exact h.shed (h.orderly.shed ht.toSheds fun name hname => by
      rwa [World.pending, hpending] at hname) ht.toSheds hpending
  closing h := h.rebind rfl (h.orderly.release fun _ => id) rfl (fun _ => id) (fun _ => Iff.rfl) id
    h.apart (fun hhold => hhold.elim) (by simp)
  flush hc h := h.flushed hc
  reconcile _ h := h.reconciled
  captureFailed _ _ h hcapture := h.captureFailed hcapture
  captured _ _ h hcapture hforgets := h.captured hcapture hforgets
  accepted {c c' key state} h hrebinds hbound :=
    h.rebind hrebinds.config ((orderly_ledger A []).accepted h.orderly hrebinds hbound)
      hrebinds.rebound.server
      (fun x hx => hrebinds.rebound.script ▸ hx)
      (fun name => (remembers_release (World.bound_of_get? hbound) name).trans
        (hrebinds.remembers name))
      (fun hknown => Exact.known_rebound hrebinds (by simp [Phase.inHand])
        (hknown.imp_right (Or.imp_right fun hhold => by cases hhold)))
      (fun hk hk' => h.apart_rebound hrebinds (by simp [Phase.Holds]) hk hk')
      (fun hhold => hhold.elim) (by simp)
  kept {c c' key state} h hrebinds hkeep :=
    h.rebind hrebinds.config ((orderly_ledger A []).kept h.orderly hrebinds hkeep)
      hrebinds.rebound.server
      (fun x hx => hrebinds.rebound.script ▸ hx) hrebinds.remembers
      (Exact.known_rebound hrebinds (by simp [Phase.inHand]))
      (fun hk hk' => h.apart_rebound hrebinds (by simp [Phase.Holds]) hk hk')
      (fun {name} hhold hmem => by
        obtain ⟨k, st, hk, rfl⟩ := World.mem_bound.mp hmem
        exact h.fresh hhold (World.bound_of_get? (hkeep k ▸ hk)))
      (by simp)
  discarded {c key state} h :=
    h.rebind rfl ((orderly_ledger A []).discarded h.orderly) rfl (fun _ => id)
      (remembers_queued _ _ _)
      (fun {st} hknown => by
        rcases hknown with hbound | hpending | hhold
        · exact Or.inl hbound
        · rw [queued, World.queueDrop, Dict.get?_insert] at hpending
          split_ifs at hpending
          · exact Or.inr (Or.inr hpending)
          · exact Or.inr (Or.inl hpending)
        · cases hhold)
      h.apart (fun hhold => hhold.elim) (by simp)
  released {c key state} h hbound :=
    h.rebind rfl ((orderly_ledger A []).released h.orderly hbound) rfl (fun _ => id)
      (remembers_release hbound)
      (fun hknown => hknown.imp_right (Or.imp_right fun hhold => by cases hhold))
      h.apart (fun hhold => hhold.elim) (by simp)
  trimmed {c c'} h hrebinds :=
    h.rebind hrebinds.config ((orderly_ledger A []).trimmed h.orderly hrebinds)
      hrebinds.rebound.server
      (fun x hx => hrebinds.rebound.script ▸ hx)
      (fun name => by simpa [Remembers, Phase.Holds] using hrebinds.tracked_or_iff name)
      (fun hknown => Exact.known_rebound hrebinds (by simp) hknown)
      (fun hk hk' => h.apart_rebound hrebinds (by simp) hk hk')
      (fun hhold => hhold.elim) (by simp)
  observed {c c'} h hrebinds hbackend :=
    h.rebind hrebinds.config ((orderly_ledger A []).observed h.orderly hrebinds hbackend)
      (by rw [hbackend])
      (by rw [hbackend]; exact fun _ => id)
      (fun name => by simp [Remembers, Phase.Holds, hbackend])
      (by rw [hbackend]; exact id) (by rw [hbackend]; exact h.apart)
      (fun hhold => hhold.elim) (by rw [hbackend]; exact h.drained)

/-! ## Between two calls -/

namespace Exact

variable {A : Adapter} {config : PolicyConfig} {c : PromptCache}

/-- No handle is bound twice. -/
theorem bound_nodup (h : Exact A config .idle c) : c.backend.bound.Nodup := by
  have hitems : c.backend.records.items.Nodup := c.backend.records.nodup.of_map _
  have hbound : c.backend.bound = c.backend.records.items.map (fun kv => kv.2.handle) := by
    rw [World.bound, Dict.values, List.map_map]
    rfl
  rw [hbound]
  refine hitems.map_on fun kv hkv kv' hkv' heq => ?_
  have hget := Dict.get?_eq_some_iff.mpr hkv
  have hget' := Dict.get?_eq_some_iff.mpr hkv'
  have hkey := h.apart hget hget' heq
  rw [hkey, hget'] at hget
  exact Prod.ext hkey (Option.some.inj hget).symm

/-- The server holds the bytes that the bound handles state. -/
theorem managedBytes (h : Exact A config .idle c) : (c.backend.server.managedBytes : ℤ) =
    (c.backend.records.items.map (fun kv => kv.2.nbytes)).sum := by
  have hkeys : c.backend.server.states.keys.toFinset = c.backend.bound.toFinset := by
    ext name
    rw [List.mem_toFinset, List.mem_toFinset]
    exact h.alive_iff_bound name
  have hsizes : c.backend.records.items.map (fun kv => kv.2.nbytes) =
      c.backend.bound.map (fun name =>
        ((((c.backend.server.stateOf name).map ManagedState.size).getD 0 : ℕ) : ℤ)) := by
    rw [World.bound, Dict.values, List.map_map, List.map_map]
    refine List.map_congr_left fun kv hkv => ?_
    have hstored := h.stored (Or.inl ⟨kv.1, Dict.get?_eq_some_iff.mpr hkv⟩)
    obtain ⟨found, hfound⟩ := Server.alive_iff.mp hstored.alive
    rw [Function.comp_apply, Function.comp_apply, hfound]
    exact (hstored.recorded.accounting found hfound).2
  rw [Server.managedBytes_eq, hkeys, Nat.cast_sum, hsizes]
  exact List.sum_toFinset _ h.bound_nodup

end Exact

/-- A call that captures and admits in one go or does neither, with no fault ahead. -/
def Session.FaultFree (_ : Session) (call : Call) : Prop :=
  call.op.Packaged ∧ ∀ x ∈ call.script, x.FaultFree

/-- After every call of a run without faults, the server, the registry and the policy
agree: the same handles, the same keys, the same bytes, and nothing queued. -/
theorem three_levels_agree {A : Adapter} {config : PolicyConfig} {server : FreshServer A}
    {s : Session} (h : s.Reached A config server Session.FaultFree) :
    (∀ name, s.cache.backend.server.Alive name ↔ name ∈ s.cache.backend.bound) ∧
      s.cache.backend.pendingDrops = .empty ∧
      (∀ k, k ∈ s.cache.backend.records.keys ↔ k ∈ s.cache.policy.entries.keys) ∧
      (s.cache.backend.server.managedBytes : ℤ) = s.cache.policy.nbytes ∧
      s.cache.policy.nbytes ≤ config.maxBytes := by
  have hstart : Exact A config .idle (openCache config server.server) := by
    refine ⟨rfl, open_orderly config server, by simp [World.FaultFree, openCache], fun name => ?_,
      fun {st} hknown => ?_, by simp [openCache], fun hhold => hhold.elim, fun _ => rfl⟩
    · simp [Server.Alive, openCache, server.states, Remembers, World.Tracked, World.bound,
        World.pending, Phase.Holds]
    · simp [World.Known, openCache, Phase.inHand] at hknown
  obtain ⟨hc, hexact⟩ := h.between (exact_ledger A config) (fun _ _ hcall => hcall.1) hstart
    fun t call hcall hI =>
      ⟨hI.config, scripted_orderly hI.orderly fun x hx => (hcall.2 x hx).restart, hcall.2, hI.alive,
        hI.recorded, hI.apart, hI.fresh, hI.drained⟩
  have hpriced : s.Priced A := Session.Reached.priced (h.mono fun t call hcall => by
    rintro tokens state role predecessor heq
    have hpackaged := hcall.1
    rw [heq] at hpackaged
    exact hpackaged.elim)
  refine ⟨hexact.alive_iff_bound, hexact.drained rfl, fun _ => hc.mem_records, ?_, ?_⟩
  · rw [hexact.managedBytes, hpriced.between.2.total hc]
  · rw [hc.represents.total, ← hexact.config]
    exact hc.within.bytes

namespace Sample

/-- Two captures of the slot, the second over a full server, and then a reconciliation. -/
def refilled : Session :=
  ((start.step adapter (capture [])).step adapter (capture [])).step adapter ⟨.reconcileOrphans, []⟩

end Sample

open Sample

theorem refilled_levels_agree :
    refilled.cache.backend.pendingDrops = .empty ∧
      (refilled.cache.backend.server.managedBytes : ℤ) = refilled.cache.policy.nbytes :=
  have hreached : Session.Reached adapter config server Session.FaultFree refilled :=
    .next (.next (.next .start ⟨trivial, by simp [capture]⟩) ⟨trivial, by simp [capture]⟩)
      ⟨trivial, by simp⟩
  have hagree := three_levels_agree hreached
  ⟨hagree.2.1, hagree.2.2.2.1⟩

end StateBraid.Managed
