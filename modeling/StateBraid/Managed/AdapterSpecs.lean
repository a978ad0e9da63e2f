import StateBraid.Managed.AdapterFacts

/-!
# The adapter against the patched server

What a returned or failed call says about the two ends: a completed drop leaves its
handle dead, a store read lists exactly the handles alive, and a capture either names
the state it stored or leaves one of three marks on the store.
-/

namespace StateBraid.Managed
open Library Policy LlamaCpp Exec

/-! ## Reading the store -/

theorem storeRows_listReply (s : Server) :
    storeRows s.listReply = some (s.states.items.map Server.handleRow) := rfl

theorem storeLists_listReply (s : Server) (h : String) :
    storeLists s.listReply h = true ↔ s.Alive h := by
  rw [storeLists, storeRows_listReply, Server.Alive, Dict.keys]
  simp [Server.handleRow, Json.isObject, Json.get, Json.eqStr, Json.asStr?]

/-- A read that returns has read the store as it is, of an enabled server in an epoch that has
a name, the pinned one if there is one. -/
theorem readStore_ok {pinned : Option String} {w w' : World} {store : Json}
    (h : readStore pinned w = (.ok store, w')) :
    store = w'.server.listReply ∧ w'.server.enabled = true ∧ w'.server.epoch ≠ "" ∧
      ∀ epoch ∈ pinned, w'.server.epoch = epoch := by
  obtain ⟨payload, w₁, hexchange, hchecks⟩ := bind_eq_ok h
  obtain ⟨hreply, rfl⟩ := exchange_ok hexchange
  set w₁ := w.sent.after .list .delivered (w.sent.server.respond w.next .list).2 with hw₁
  have hserver : w₁.server = w.sent.server := by
    rw [hw₁, Server.respond_list]
    split <;> rfl
  have hlisted : w₁.server.enabled = true ∧ payload = w₁.server.listReply := by
    rw [hserver]
    rw [Server.respond_list] at hreply
    split at hreply
    · cases hreply
    · rename_i henabled
      cases hreply
      exact ⟨by simpa using henabled, rfl⟩
  have hepoch : (payload.get "epoch").asStr? = some w₁.server.epoch := by
    rw [hlisted.2]
    rfl
  split at hchecks
  · cases hchecks
  rw [hepoch] at hchecks
  dsimp only at hchecks
  split at hchecks
  · cases hchecks
  rename_i hne
  split at hchecks
  · cases hchecks
  rename_i hpinned
  obtain ⟨_, w₂, hcheck, hreturn⟩ := bind_eq_ok hchecks
  obtain ⟨-, rfl⟩ := Prod.mk.inj hcheck
  obtain ⟨hstore, rfl⟩ := Prod.mk.inj hreturn
  cases hstore
  refine ⟨hlisted.2, hlisted.1, hne, ?_⟩
  rintro epoch hmem
  obtain rfl : pinned = some epoch := hmem
  simpa using hpinned

theorem managedStore_ok {A : Adapter} {w w' : World} {store : Json}
    (h : managedStore A w = (.ok store, w')) :
    store = w'.server.listReply ∧ w'.server.epoch = A.managedEpoch := by
  obtain ⟨hstore, -, -, hepoch⟩ := readStore_ok h
  exact ⟨hstore, hepoch _ rfl⟩

/-- A mutation that returns was answered by the server. -/
theorem postManaged_ok {A : Adapter} {request : Request} {w w' : World} {reply : Json}
    (h : postManaged A request w = (.ok reply, w')) : exchange request w = (.ok reply, w') := by
  obtain ⟨answer, w₁, hexchange, hchecks⟩ := bind_eq_ok h
  split at hchecks
  · cases hchecks
  split at hchecks
  · cases hchecks
  split at hchecks
  · cases hchecks
  rw [pure_apply, Prod.mk.injEq] at hchecks
  obtain ⟨hreply, rfl⟩ := hchecks
  cases hreply
  exact hexchange

/-! ## Dropping a state -/

/-- A drop that returns leaves the handle dead. -/
theorem dropState_ok {A : Adapter} {state : StateHandle} {w w' : World}
    (h : dropState A state w = (.ok (), w')) : ¬ w'.server.Alive state.handle := by
  obtain ⟨_, w₁, -, h⟩ := bind_eq_ok h
  obtain ⟨response, w₂, hdrop, h⟩ := bind_eq_ok h
  have hdead : ¬ w₂.server.Alive state.handle := by
    unfold tryExcept at hdrop
    split at hdrop
    · -- the request was answered: the server erased the handle
      rename_i response' w₃ hpost
      rw [Prod.mk.injEq] at hdrop
      obtain ⟨-, rfl⟩ := hdrop
      obtain ⟨reply, w₄, hanswered, hreturn⟩ := bind_eq_ok hpost
      rw [pure_apply, Prod.mk.injEq] at hreturn
      obtain ⟨-, rfl⟩ := hreturn
      obtain ⟨hreply, rfl⟩ := exchange_ok (postManaged_ok hanswered)
      rcases w₁.sent.server.respond_drop w₁.next A.managedEpoch state.handle with
        ⟨-, hrespond⟩ | ⟨-, e, hrespond⟩
      · change ¬ Server.Alive (w₁.sent.server.respond _ _).2 _
        rw [hrespond, Server.not_alive_iff, Server.stateOf_drop, if_pos rfl]
      · rw [hrespond] at hreply
        cases hreply
    · -- the request failed: the store does not list the handle
      obtain ⟨store, w₄, hread, hrest⟩ := bind_eq_ok hdrop
      obtain ⟨hstore, -⟩ := managedStore_ok hread
      split at hrest
      · cases hrest
      · rename_i hlisted
        rw [pure_apply, Prod.mk.injEq] at hrest
        obtain ⟨-, rfl⟩ := hrest
        rwa [hstore, storeLists_listReply] at hlisted
  have hsame : w' = w₂ := by
    split at h
    · exact (Prod.mk.inj h).2.symm
    split at h
    · cases h
    split at h
    · cases h
    exact (Prod.mk.inj h).2.symm
  rwa [hsame]

/-! ## Worlds in one epoch -/

/-- The environment restarts the server in none of the exchanges still to come. -/
def World.Steady (w : World) : Prop := ∀ x ∈ w.script, x.restart = none

theorem World.Steady.sent {w : World} (h : w.Steady) :
    w.sent = { w with script := w.script.tail } := by
  have hnext : w.next.restart = none := by
    unfold World.next
    cases hscript : w.script with
    | nil => rfl
    | cons x script => exact h x (by simp [hscript])
  simp only [World.sent, World.advance, hnext]

/-- An event that neither captures nor drops a bound handle. -/
def Event.Tame : Event → Prop
  | .exchanged (.capture ..) .. => False
  | .exchanged (.drop _ handle) _ _ _ bound _ => handle ∉ bound
  | _ => True

/-- A tame event that is a request. -/
def Event.Quiet : Event → Prop
  | .exchanged request delivery before after bound pending =>
    (Event.exchanged request delivery before after bound pending).Tame
  | _ => False

theorem Event.Quiet.tame {event : Event} (h : event.Quiet) : event.Tame := by
  cases event with
  | exchanged request => exact h
  | orphansListed | reconcileCompleted => exact h.elim

/-- Steps from `w₀` to `w` that leave the bindings alone and at most remove states that
`may` be removed from the store. -/
structure Sheds (may : String → Prop) (w₀ w : World) : Prop where
  records : w.records = w₀.records
  epoch : w.server.epoch = w₀.server.epoch
  enabled : w.server.enabled = w₀.server.enabled
  nextHandle : w.server.nextHandle = w₀.server.nextHandle
  stateOf : ∀ h, w.server.stateOf h = w₀.server.stateOf h ∨ may h ∧ w.server.stateOf h = none
  wellFormed : w₀.server.WellFormed → w.server.WellFormed
  script : ∀ x ∈ w.script, x ∈ w₀.script
  history : ∃ events, w.history = events ++ w₀.history ∧ ∀ event ∈ events, event.Tame

namespace Sheds

variable {may : String → Prop} {w₀ w w' : World}

theorem refl (w : World) : Sheds may w w where
  records := rfl
  epoch := rfl
  enabled := rfl
  nextHandle := rfl
  stateOf _ := Or.inl rfl
  wellFormed h := h
  script _ hx := hx
  history := ⟨[], rfl, by simp⟩

theorem trans (h : Sheds may w₀ w) (h' : Sheds may w w') : Sheds may w₀ w' where
  records := h'.records.trans h.records
  epoch := h'.epoch.trans h.epoch
  enabled := h'.enabled.trans h.enabled
  nextHandle := h'.nextHandle.trans h.nextHandle
  stateOf name := by
    rcases h'.stateOf name with heq | hgone
    · rw [heq]
      exact h.stateOf name
    · exact Or.inr hgone
  wellFormed hw := h'.wellFormed (h.wellFormed hw)
  script x hx := h.script x (h'.script x hx)
  history := by
    obtain ⟨events, heq, htame⟩ := h.history
    obtain ⟨events', heq', htame'⟩ := h'.history
    refine ⟨events' ++ events, by rw [heq', heq, List.append_assoc], fun event hevent => ?_⟩
    rcases List.mem_append.mp hevent with hevent | hevent
    · exact htame' event hevent
    · exact htame event hevent

theorem mono {may' : String → Prop} (h : Sheds may w₀ w) (hmay : ∀ name, may name → may' name) :
    Sheds may' w₀ w :=
  { h with stateOf := fun name => (h.stateOf name).imp_right (And.imp_left (hmay name)) }

/-- A mark in the history changes nothing else. -/
theorem note (h : Sheds may w₀ w) {event : Event} (hevent : event.Tame) :
    Sheds may w₀ (w.note event) :=
  { h with
    history := by
      obtain ⟨events, heq, htame⟩ := h.history
      exact ⟨event :: events, congrArg (event :: ·) heq, List.forall_mem_cons.mpr ⟨hevent, htame⟩⟩ }

theorem bound (h : Sheds may w₀ w) : w.bound = w₀.bound := by
  rw [World.bound, h.records, World.bound]

theorem steady (h : Sheds may w₀ w) (hw : w₀.Steady) : w.Steady :=
  fun x hx => hw x (h.script x hx)

theorem alive (h : Sheds may w₀ w) {name : String} (halive : w.server.Alive name) :
    w₀.server.Alive name := by
  obtain ⟨st, hst⟩ := Server.alive_iff.mp halive
  rcases h.stateOf name with heq | ⟨-, hnone⟩
  · exact Server.alive_iff.mpr ⟨st, heq ▸ hst⟩
  · rw [hnone] at hst
    cases hst

theorem alive_of_not_may (h : Sheds may w₀ w) {name : String} (halive : w₀.server.Alive name)
    (hmay : ¬ may name) : w.server.Alive name := by
  obtain ⟨st, hst⟩ := Server.alive_iff.mp halive
  rcases h.stateOf name with heq | ⟨hgone, -⟩
  · exact Server.alive_iff.mpr ⟨st, heq.trans hst⟩
  · exact absurd hgone hmay

end Sheds

/-- Such steps without the marks of a reconciliation. -/
structure Tidies (may : String → Prop) (w₀ w : World) : Prop extends Sheds may w₀ w where
  quiet : ∃ events, w.history = events ++ w₀.history ∧ ∀ event ∈ events, event.Quiet

namespace Tidies

variable {may : String → Prop} {w₀ w w' : World}

theorem refl (w : World) : Tidies may w w := ⟨.refl w, [], rfl, by simp⟩

theorem trans (h : Tidies may w₀ w) (h' : Tidies may w w') : Tidies may w₀ w' where
  toSheds := h.toSheds.trans h'.toSheds
  quiet := by
    obtain ⟨events, heq, hquiet⟩ := h.quiet
    obtain ⟨events', heq', hquiet'⟩ := h'.quiet
    refine ⟨events' ++ events, by rw [heq', heq, List.append_assoc], fun event hevent => ?_⟩
    rcases List.mem_append.mp hevent with hevent | hevent
    · exact hquiet' event hevent
    · exact hquiet event hevent

end Tidies

/-- A step that sends one request to a server that then only lost states. -/
theorem tidies_after {may : String → Prop} {w : World} (hw : w.Steady) {request : Request}
    {delivery : Delivery} {server : Server}
    (hquiet : (Event.exchanged request delivery w.server server w.bound w.pending).Quiet)
    (hepoch : server.epoch = w.server.epoch) (henabled : server.enabled = w.server.enabled)
    (hnext : server.nextHandle = w.server.nextHandle)
    (hstate : ∀ h, server.stateOf h = w.server.stateOf h ∨ may h ∧ server.stateOf h = none)
    (hwell : w.server.WellFormed → server.WellFormed) :
    Tidies may w (w.sent.after request delivery server) := by
  rw [hw.sent]
  have hevents : ∀ event ∈ [Event.exchanged request delivery w.server server w.bound w.pending],
      event.Quiet := fun event hevent => List.mem_singleton.mp hevent ▸ hquiet
  exact ⟨⟨rfl, hepoch, henabled, hnext, hstate, hwell, fun x hx => List.mem_of_mem_tail hx,
    [_], rfl, fun event hevent => (hevents event hevent).tame⟩, [_], rfl, hevents⟩

theorem exchange_passive (may : String → Prop) {w : World} (hw : w.Steady) {request : Request}
    (hpassive : Server.Passive request) : Tidies may w (exchange request w).2 := by
  have hsent : w.sent.server = w.server := by rw [hw.sent]
  have hquiet (delivery : Delivery) (server : Server) :
      (Event.exchanged request delivery w.server server w.bound w.pending).Quiet := by
    cases request <;> first | exact trivial | exact hpassive.elim
  have hsame := w.server.respond_passive w.next hpassive
  have hserved (delivery : Delivery) :
      Tidies may w (w.sent.after request delivery (w.server.respond w.next request).2) :=
    tidies_after hw (hquiet _ _) hsame.epoch hsame.enabled hsame.nextHandle
      (fun h => Or.inl (hsame.stateOf h)) (fun h => h.respond _ _)
  have hcases := exchange_cases request w
  generalize exchange request w = r at hcases ⊢
  cases hcases with
  | unsent =>
    rw [hsent]
    exact tidies_after hw (hquiet _ _) rfl rfl rfl (fun _ => Or.inl rfl) id
  | answered | lost =>
    rw [hsent]
    exact hserved _

theorem exchange_drop {may : String → Prop} {w : World} (hw : w.Steady) {epoch handle : String}
    (hmay : may handle) (hunbound : handle ∉ w.bound) :
    Tidies may w (exchange (.drop epoch handle) w).2 := by
  have hsent : w.sent.server = w.server := by rw [hw.sent]
  have hserved (delivery : Delivery) :
      Tidies may w (w.sent.after (.drop epoch handle) delivery
        (w.server.respond w.next (.drop epoch handle)).2) := by
    rcases w.server.respond_drop w.next epoch handle with ⟨-, hrespond⟩ | ⟨-, e, hrespond⟩ <;>
      rw [hrespond]
    · refine tidies_after hw hunbound (by rw [Server.drop_frame]) (by rw [Server.drop_frame])
        (by rw [Server.drop_frame]) (fun h => ?_) (fun h => h.drop _)
      rw [Server.stateOf_drop]
      split_ifs with hself
      · exact Or.inr ⟨hself ▸ hmay, rfl⟩
      · exact Or.inl rfl
    · exact tidies_after hw hunbound rfl rfl rfl (fun _ => Or.inl rfl) id
  have hcases := exchange_cases (.drop epoch handle) w
  generalize exchange (.drop epoch handle) w = r at hcases ⊢
  cases hcases with
  | unsent =>
    rw [hsent]
    exact tidies_after hw hunbound rfl rfl rfl (fun _ => Or.inl rfl) id
  | answered | lost =>
    rw [hsent]
    exact hserved _

section Keeps

variable {may : String → Prop} {w₀ : World} {A : Adapter}

theorem passive_keeps (hw : w₀.Steady) {request : Request} (hpassive : Server.Passive request) :
    Keeps (Tidies may w₀) (exchange request) :=
  Keeps.of_state fun _ h => h.trans (exchange_passive may (h.steady hw) hpassive)

/-- Dropping a handle that is not bound and may go. -/
theorem dropState_tidies (may : String → Prop) (hw : w₀.Steady) {state : StateHandle}
    (hmay : may state.handle) (hunbound : state.handle ∉ w₀.bound) :
    Keeps (Tidies may w₀) (dropState A state) :=
  dropState_keeps state (passive_keeps hw trivial)
    (Keeps.of_state fun _ h => h.trans (exchange_drop (h.steady hw) hmay (h.bound ▸ hunbound)))

theorem managedStore_tidies (may : String → Prop) (hw : w₀.Steady) :
    Keeps (Tidies may w₀) (managedStore A) :=
  readStore_keeps (passive_keeps hw trivial)

end Keeps

/-- The registry as it was: what every method of the adapter keeps. -/
theorem registry_keeps (records : Dict Key StateHandle) (pending : Dict String StateHandle)
    (request : Request) :
    Keeps (fun w => w.records = records ∧ w.pendingDrops = pending) (exchange request) :=
  Keeps.of_state fun w h => by
    obtain ⟨hrecords, hpending⟩ := exchange_registry request w
    exact ⟨hrecords.trans h.1, hpending.trans h.2⟩

end StateBraid.Managed
