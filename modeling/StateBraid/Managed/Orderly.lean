import StateBraid.Managed.Ledger

/-!
# One epoch

While the server is not restarted its store stays well formed, every handle the client
knows was issued by it, and no drop request names a bound handle. These facts form the
first ledger; the others build on it.
-/

namespace StateBraid.Managed
open Library Policy Coordinator LlamaCpp Exec

/-- The handle is the one in hand. -/
def Phase.Holds : Phase → String → Prop
  | .holding _ state, h => state.handle = h
  | _, _ => False

/-- Rebinding around the state in hand binds nothing that was neither bound nor in hand. -/
theorem Rebinds.bound_or_holds {A : Adapter} {offered : Option (Key × StateHandle)}
    {c c' : PromptCache} {φ φ' : Phase} (h : Rebinds A offered c c')
    (hoffered : ∀ o ∈ offered, φ.Holds o.2.handle) (hholds : ∀ name, φ'.Holds name → φ.Holds name)
    {name : String} (hname : name ∈ c'.backend.bound ∨ φ'.Holds name) :
    name ∈ c.backend.bound ∨ φ.Holds name := by
  rcases hname with hbound | hhold
  · rcases h.bound hbound with hold | ⟨o, ho, rfl⟩
    · exact Or.inl hold
    · exact Or.inr (hoffered o ho)
  · exact Or.inr (hholds name hhold)

/-- The event is not a drop of a handle that was bound when it was sent. -/
def Event.SparesBound : Event → Prop
  | .exchanged (.drop _ handle) _ _ _ bound _ => handle ∉ bound
  | _ => True

theorem Event.Tame.sparesBound {event : Event} (h : event.Tame) : event.SparesBound := by
  cases event with
  | exchanged request => cases request <;> first | exact h | exact trivial
  | orphansListed | reconcileCompleted => trivial

/-- The client and its server within one epoch; `others` are handles that only the caller
remembers. -/
structure Orderly (A : Adapter) (others : List String) (φ : Phase) (c : PromptCache) : Prop where
  steady : c.backend.Steady
  wellFormed : c.backend.server.WellFormed
  enabled : c.backend.server.enabled = true
  epoch : c.backend.server.epoch = A.managedEpoch
  numbered : ∀ {h}, c.backend.Tracked h ∨ φ.Holds h ∨ h ∈ others →
    ∃ n < c.backend.server.nextHandle, h = formatHandle n
  sparesBound : ∀ event ∈ c.backend.history, event.SparesBound

namespace Orderly

variable {A : Adapter} {others : List String} {φ : Phase} {c : PromptCache}

/-- A handle the client knows is not the next name. -/
theorem ne_next (h : Orderly A others φ c) {name : String} 
    (hname : c.backend.Tracked name ∨ φ.Holds name ∨ name ∈ others) :
    name ≠ formatHandle c.backend.server.nextHandle := by
  obtain ⟨n, hn, rfl⟩ := h.numbered hname
  intro heq
  exact absurd (formatHandle_injective heq) (by omega)

theorem queued (hc : Coherent A c) : c.backend.Queued := fun hget => (hc.queued hget).1

/-- Shedding states keeps the order. -/
theorem shed (h : Orderly A others φ c) {may : String → Prop} {w : World}
    (ht : Sheds may c.backend w) (hpending : ∀ name ∈ w.pending, name ∈ c.backend.pending) :
    Orderly A others φ { c with backend := w } where
  steady := ht.steady h.steady
  wellFormed := ht.wellFormed h.wellFormed
  enabled := ht.enabled.trans h.enabled
  epoch := ht.epoch.trans h.epoch
  numbered {name} hname := by
    dsimp only
    rw [ht.nextHandle]
    refine h.numbered (hname.imp_left fun htracked => ?_)
    rcases htracked with hbound | hqueued
    · exact Or.inl (ht.bound ▸ hbound)
    · exact Or.inr (hpending name hqueued)
  sparesBound event hevent := by
    obtain ⟨events, heq, htame⟩ := ht.history
    rw [heq] at hevent
    rcases List.mem_append.mp hevent with hnew | hold
    · exact (htame event hnew).sparesBound
    · exact h.sparesBound event hold

/-- Serving a request that keeps the numbering keeps the order. -/
theorem served (h : Orderly A others φ c) (request : Request) (delivery : Delivery)
    {server : Server}
    (hspares : (Event.exchanged request delivery c.backend.server server c.backend.bound
      c.backend.pending).SparesBound)
    (hwell : server.WellFormed) (henabled : server.enabled = c.backend.server.enabled)
    (hepoch : server.epoch = c.backend.server.epoch)
    (hnext : c.backend.server.nextHandle ≤ server.nextHandle) :
    Orderly A others φ { c with backend := c.backend.sent.after request delivery server } := by
  rw [h.steady.sent]
  refine ⟨fun x hx => h.steady x (List.mem_of_mem_tail hx), hwell, henabled.trans h.enabled,
    hepoch.trans h.epoch, fun hname => ?_, fun event hevent => ?_⟩
  · obtain ⟨n, hn, heq⟩ := h.numbered hname
    exact ⟨n, lt_of_lt_of_le hn hnext, heq⟩
  · rcases List.mem_cons.mp hevent with rfl | hold
    · exact hspares
    · exact h.sparesBound event hold

/-- Rebinding asks nothing of the server. -/
theorem rebound (h : Orderly A others φ c) {offered : Option (Key × StateHandle)} {c' : PromptCache}
    {φ' : Phase} (hrebinds : Rebinds A offered c c')
    (hoffered : ∀ o ∈ offered, φ.Holds o.2.handle) (hholds : ∀ name, φ'.Holds name → φ.Holds name) :
    Orderly A others φ' c' where
  steady := by
    unfold World.Steady
    rw [hrebinds.rebound.script]
    exact h.steady
  wellFormed := hrebinds.rebound.server ▸ h.wellFormed
  enabled := hrebinds.rebound.server ▸ h.enabled
  epoch := hrebinds.rebound.server ▸ h.epoch
  numbered {name} hname := by
    rw [hrebinds.rebound.server]
    refine h.numbered ?_
    rcases hname with htracked | hhold | hother
    · rcases hrebinds.tracked htracked with hold | ⟨o, ho, rfl⟩
      · exact Or.inl hold
      · exact Or.inr (Or.inl (hoffered o ho))
    · exact Or.inr (Or.inl (hholds name hhold))
    · exact Or.inr (Or.inr hother)
  sparesBound := hrebinds.rebound.history ▸ h.sparesBound

/-- Forgetting only takes names away. -/
theorem forgot (h : Orderly A others φ c) {evicted : List String} {c' : PromptCache}
    (hforgets : Forgets A evicted c c') : Orderly A others φ c' where
  steady := by
    unfold World.Steady
    rw [hforgets.script]
    exact h.steady
  wellFormed := hforgets.server ▸ h.wellFormed
  enabled := hforgets.server ▸ h.enabled
  epoch := hforgets.server ▸ h.epoch
  numbered {name} hname := by
    rw [hforgets.server]
    exact h.numbered (hname.imp_left hforgets.tracked)
  sparesBound := hforgets.history ▸ h.sparesBound

/-- Taking a numbered state in hand. -/
theorem hold (h : Orderly A others .idle c) (key : Key) {state : StateHandle}
    (hstate : ∃ n < c.backend.server.nextHandle, state.handle = formatHandle n) :
    Orderly A others (.holding key state) c :=
  { h with
    numbered := fun hname => by
      rcases hname with htracked | hhold | hother
      · exact h.numbered (Or.inl htracked)
      · exact hhold ▸ hstate
      · exact h.numbered (Or.inr (Or.inr hother)) }

/-- Putting down what is in hand. -/
theorem release (h : Orderly A others φ c) {φ' : Phase} (hholds : ∀ name, ¬ φ'.Holds name) :
    Orderly A others φ' c :=
  { h with
    numbered := fun hname => h.numbered (hname.imp_right (Or.imp_left fun hhold =>
      (hholds _ hhold).elim)) }

/-! ## The ledger -/

theorem captureFailed (h : Orderly A others .idle c) {tokens : List ℤ} {e : PyError} {w : World}
    (hcapture : captureCurrentState A tokens c.backend = (.error e, w)) :
    Orderly A others .idle { c with backend := w } := by
  have hsent : c.backend.sent.server = c.backend.server := by rw [h.steady.sent]
  rcases capture_failed h.wellFormed hcapture with ⟨rfl, -⟩ | ⟨-, server, rfl, hfailed⟩
  · exact h
  · cases hfailed with
    | refused hkeep =>
      rw [hsent]
      exact h.served _ _ trivial h.wellFormed rfl rfl le_rfl
    | unread n hread =>
      rw [hsent]
      exact h.served _ _ trivial (h.wellFormed.reclaim _) rfl rfl le_rfl
    | lost slot hslot htokens hne hlost =>
      rw [hsent] at hslot ⊢
      exact h.served _ _ trivial (Server.wellFormed_captured h.wellFormed _ hslot hne) rfl rfl
        (Nat.le_succ _)

theorem captured (h : Orderly A others .idle c) {tokens : List ℤ} {state : StateHandle}
    {evicted : List String} {w : World} {c' : PromptCache}
    (hcapture : captureCurrentState A tokens c.backend = (.ok (state, evicted), w))
    (hforgets : Forgets A evicted { c with backend := w } c') (key : Key) :
    Orderly A others (.holding key state) c' := by
  have hsent : c.backend.sent.server = c.backend.server := by rw [h.steady.sent]
  obtain ⟨slot, hslot, -, hne, -, rfl, rfl, rfl⟩ := capture_returned h.wellFormed hcapture
  rw [hsent] at hslot hforgets ⊢
  have hserved := h.served (.capture A.managedEpoch A.idSlot tokens) .delivered trivial
    (Server.wellFormed_captured h.wellFormed (reclaimedBy A tokens c.backend) hslot hne) rfl rfl
    (Nat.le_succ _)
  refine (hserved.forgot hforgets).hold key ⟨c.backend.server.nextHandle, ?_, rfl⟩
  rw [hforgets.server]
  exact Nat.lt_succ_self _

theorem reconciled (h : Orderly A others φ c) : Orderly A others φ (reconciled A c) :=
  h.shed (reconcileOrphanedHandles_spec h.steady).sheds fun name hname => by
    rwa [World.pending, (reconcileOrphanedHandles_registry A c.backend).2] at hname

theorem flushed (hc : Coherent A c) (h : Orderly A others φ c) : Orderly A others φ (flushed A c) :=
  h.shed (flushDrops_flushed h.steady (queued hc)).tidies.toSheds fun _ => flushed_pending

end Orderly

theorem orderly_ledger (A : Adapter) (others : List String) : Ledger A (Orderly A others) where
  wellFormed h := h.wellFormed
  passive hpassive _ h := by
    obtain ⟨-, hpending⟩ := exchange_registry _ _
    exact h.shed (exchange_passive (fun _ => False) h.steady hpassive).toSheds
      fun name hname => by rwa [World.pending, hpending] at hname
  closing h := h.release fun _ hhold => hhold
  flush hc h := Orderly.flushed hc (h.release fun _ hhold => hhold)
  reconcile _ h := h.reconciled
  captureFailed _ _ h hcapture := h.captureFailed hcapture
  captured _ _ h hcapture hforgets := h.captured hcapture hforgets _
  accepted h hrebinds _ := h.rebound hrebinds (by simp [Phase.Holds]) (fun _ hhold => hhold.elim)
  kept h hrebinds _ := h.rebound hrebinds (by simp [Phase.Holds]) (fun _ hhold => hhold)
  discarded {c key state} h :=
    { h with
      numbered := fun {name} hname => by
        rcases hname with (hbound | hpending) | hhold | hother
        · exact h.numbered (Or.inl (Or.inl hbound))
        · rcases Dict.mem_keys_insert.mp hpending with rfl | hold
          · exact h.numbered (Or.inr (Or.inl rfl))
          · exact h.numbered (Or.inl (Or.inr hold))
        · exact hhold.elim
        · exact h.numbered (Or.inr (Or.inr hother)) }
  released h _ := h.release fun _ hhold => hhold
  trimmed h hrebinds := h.rebound hrebinds (by simp) (fun _ hhold => hhold.elim)
  observed h hrebinds _ := h.rebound hrebinds (by simp) (fun _ hhold => hhold.elim)

/-- A new client is coherent. -/
theorem open_coherent (A : Adapter) (config : PolicyConfig) (server : Server) :
    Coherent A (openCache config server) where
  represents := WorkingSetPolicy.new_represents config
  within := WorkingSetPolicy.new_withinLimits config
  namespaced hk := by simp [openCache, WorkingSetPolicy.new] at hk
  agrees := { resident := by simp [openCache, WorkingSetPolicy.new], absent := fun _ _ => rfl }
  bound hk := by simp [openCache] at hk
  queued hk := by simp [openCache] at hk

theorem open_tracked (config : PolicyConfig) (server : Server) (h : String) :
    ¬ (openCache config server).backend.Tracked h := by
  simp [World.Tracked, openCache, World.bound, World.pending]

theorem FreshServer.wellFormed {A : Adapter} (server : FreshServer A) :
    server.server.WellFormed where
  numbered halive := by simp [Server.Alive, server.states] at halive
  tokens hst := by simp [Server.stateOf, server.states] at hst
  slots := server.slots

theorem open_orderly {A : Adapter} (config : PolicyConfig) (server : FreshServer A) :
    Orderly A [] .idle (openCache config server.server) where
  steady := by simp [World.Steady, openCache]
  wellFormed := server.wellFormed
  enabled := server.enabled
  epoch := server.epoch
  numbered hname := by
    rcases hname with htracked | hhold | hother
    · exact (open_tracked config server.server _ htracked).elim
    · exact hhold.elim
    · simp at hother
  sparesBound := by simp [openCache]

end StateBraid.Managed
