import StateBraid.Managed.SessionFacts

/-!
# What a capture is sent over

A capture is sent only over an empty queue. The one way a handle gets lost to the client
is a capture whose response does not arrive; until such a state is off the server, or a
reconciliation has completed, further captures are sent beside it.
-/

namespace StateBraid.Managed
open Library Policy Coordinator LlamaCpp Exec

/-! ## Histories -/

/-- The name of a state that a capture stored without its response arriving. -/
def Event.lostName : Event → Option String
  | .exchanged (.capture ..) .responseLost before after _ _ =>
    if after.nextHandle = before.nextHandle then none else some (formatHandle before.nextHandle)
  | _ => none

/-- A capture of this history stored the handle and its response was lost. -/
def Lost (history : List Event) (h : String) : Prop := ∃ event ∈ history, event.lostName = some h

/-- No reconciliation has completed since a capture's response was lost. -/
def Unresolved : List Event → Prop
  | [] => False
  | .reconcileCompleted :: _ => False
  | event :: older => event.lostName.isSome ∨ Unresolved older

/-- Each capture request of the history was sent with nothing queued, over handles that are
bound or lost; lost ones are never bound. -/
def CapturesClean : List Event → Prop
  | [] => True
  | .exchanged (.capture ..) _ before _ bound pending :: older =>
    (pending = [] ∧ (∀ h, before.Alive h → h ∈ bound ∨ Lost older h) ∧
      (∀ h, Lost older h → h ∉ bound) ∧ (¬ Unresolved older → ∀ h, before.Alive h → h ∈ bound)) ∧
    CapturesClean older
  | _ :: older => CapturesClean older

/-- An event that none of these notices. -/
def Event.Plain (event : Event) : Prop := event.Tame ∧ event ≠ .reconcileCompleted

theorem Event.Quiet.plain {event : Event} (h : event.Quiet) : event.Plain :=
  ⟨h.tame, by rintro rfl; exact h⟩

theorem Event.Tame.lostName {event : Event} (h : event.Tame) : event.lostName = none := by
  cases event with
  | exchanged request delivery =>
    cases request with
    | capture => exact h.elim
    | _ => rfl
  | orphansListed | reconcileCompleted => rfl

section Append

variable {events history : List Event}

theorem lost_append (h : ∀ event ∈ events, event.Tame) {name : String} :
    Lost (events ++ history) name ↔ Lost history name := by
  constructor
  · rintro ⟨event, hmem, hname⟩
    rcases List.mem_append.mp hmem with hnew | hold
    · rw [(h event hnew).lostName] at hname
      cases hname
    · exact ⟨event, hold, hname⟩
  · rintro ⟨event, hmem, hname⟩
    exact ⟨event, List.mem_append_right _ hmem, hname⟩

theorem unresolved_append (h : ∀ event ∈ events, event.Plain) :
    Unresolved (events ++ history) ↔ Unresolved history := by
  induction events with
  | nil => rfl
  | cons event events ih =>
    obtain ⟨⟨htame, hne⟩, hrest⟩ := List.forall_mem_cons.mp h
    rw [List.cons_append, ← ih hrest]
    cases event with
    | reconcileCompleted => exact absurd rfl hne
    | _ => simp [Unresolved, htame.lostName]

theorem capturesClean_append (h : ∀ event ∈ events, event.Tame) :
    CapturesClean (events ++ history) ↔ CapturesClean history := by
  induction events with
  | nil => rfl
  | cons event events ih =>
    obtain ⟨htame, hrest⟩ := List.forall_mem_cons.mp h
    rw [List.cons_append, ← ih hrest]
    cases event with
    | exchanged request =>
      cases request with
      | capture => exact htame.elim
      | _ => rfl
    | _ => rfl

end Append

/-- What a clean history says of one of its captures. -/
theorem CapturesClean.at {newer older : List Event} {epoch : String} {idSlot : ℕ} {tokens : List ℤ}
    {delivery : Delivery} {before after : Server} {bound pending : List String}
    (h : CapturesClean (newer ++
      .exchanged (.capture epoch idSlot tokens) delivery before after bound pending :: older)) :
    pending = [] ∧ (∀ h, before.Alive h → h ∈ bound ∨ Lost older h) ∧
      (∀ h, Lost older h → h ∉ bound) ∧
      (¬ Unresolved older → ∀ h, before.Alive h → h ∈ bound) := by
  induction newer with
  | nil => exact h.1
  | cons event newer ih =>
    rw [List.cons_append] at h
    refine ih ?_
    cases event with
    | exchanged request =>
      cases request with
      | capture => exact h.2
      | _ => exact h
    | _ => exact h

/-! ## The ledger -/

/-- The client remembers the handle: it is bound, queued, or in hand. -/
def Remembers (φ : Phase) (c : PromptCache) (h : String) : Prop := c.backend.Tracked h ∨ φ.Holds h

/-- Every handle alive is remembered or lost, and no lost one is remembered. -/
structure Accounted (A : Adapter) (φ : Phase) (c : PromptCache) : Prop where
  orderly : Orderly A [] φ c
  known : ∀ h, c.backend.server.Alive h → Remembers φ c h ∨ Lost c.backend.history h
  lost : ∀ h, Lost c.backend.history h → ¬ Remembers φ c h ∧
    ∃ n < c.backend.server.nextHandle, h = formatHandle n
  resolved : ¬ Unresolved c.backend.history → ∀ h, c.backend.server.Alive h → Remembers φ c h
  clean : CapturesClean c.backend.history

namespace Accounted

variable {A : Adapter} {φ φ' : Phase} {c c' : PromptCache}

/-- Moving handles between the registry, the queue and the hand. -/
theorem rebind (h : Accounted A φ c) (horderly : Orderly A [] φ' c')
    (hserver : c'.backend.server = c.backend.server)
    (hhistory : c'.backend.history = c.backend.history)
    (hsame : ∀ name, Remembers φ' c' name ↔ Remembers φ c name) : Accounted A φ' c' where
  orderly := horderly
  known name halive := by
    rw [hhistory, hsame]
    exact h.known name (hserver ▸ halive)
  lost name hlost := by
    rw [hsame, hserver]
    exact h.lost name (hhistory ▸ hlost)
  resolved hresolved name halive :=
    (hsame name).mpr (h.resolved (hhistory ▸ hresolved) name (hserver ▸ halive))
  clean := hhistory ▸ h.clean

/-- Steps that shed states and complete no reconciliation. -/
theorem shed (h : Accounted A φ c) {may : String → Prop} {w : World}
    (horderly : Orderly A [] φ { c with backend := w }) (ht : Sheds may c.backend w)
    {events : List Event} (heq : w.history = events ++ c.backend.history)
    (hplain : ∀ event ∈ events, event.Plain)
    (hkept : ∀ name, w.server.Alive name → Remembers φ c name →
      Remembers φ { c with backend := w } name)
    (hknown : ∀ name, Remembers φ { c with backend := w } name → Remembers φ c name) :
    Accounted A φ { c with backend := w } where
  orderly := horderly
  known name halive := by
    dsimp only
    rw [heq, lost_append fun event hevent => (hplain event hevent).1]
    exact (h.known name (ht.alive halive)).imp_left (hkept name halive)
  lost name hlost := by
    dsimp only at hlost ⊢
    rw [heq, lost_append fun event hevent => (hplain event hevent).1] at hlost
    obtain ⟨hnot, hnumber⟩ := h.lost name hlost
    exact ⟨fun hname => hnot (hknown name hname), ht.nextHandle ▸ hnumber⟩
  resolved hresolved name halive := by
    dsimp only at hresolved
    rw [heq, unresolved_append hplain] at hresolved
    exact hkept name halive (h.resolved hresolved name (ht.alive halive))
  clean := by
    dsimp only
    rw [heq, capturesClean_append fun event hevent => (hplain event hevent).1]
    exact h.clean

/-- The registry decides what is remembered. -/
theorem remembers_congr {w : World} (hrecords : w.records = c.backend.records)
    (hpending : w.pendingDrops = c.backend.pendingDrops) (name : String) :
    Remembers φ { c with backend := w } name ↔ Remembers φ c name :=
  or_congr (World.tracked_congr hrecords hpending) Iff.rfl

theorem passive (h : Accounted A .idle c) {request : Request} (hpassive : Server.Passive request) :
    Accounted A .idle { c with backend := (exchange request c.backend).2 } := by
  obtain ⟨hrecords, hpending⟩ := exchange_registry request c.backend
  have ht := exchange_passive (fun _ => False) h.orderly.steady hpassive
  obtain ⟨events, heq, hquiet⟩ := ht.quiet
  have horderly := h.orderly.shed ht.toSheds fun name hname => by
    rwa [World.pending, hpending] at hname
  exact h.shed horderly ht.toSheds heq (fun event hevent => (hquiet event hevent).plain)
    (fun name _ => (remembers_congr hrecords hpending name).mpr)
    (fun name => (remembers_congr hrecords hpending name).mp)

theorem flushed (hc : Coherent A c) (h : Accounted A .idle c) :
    Accounted A .idle (flushed A c) := by
  have hflushed := flushDrops_flushed (A := A) h.orderly.steady (Orderly.queued hc)
  obtain ⟨events, heq, hquiet⟩ := hflushed.tidies.quiet
  refine h.shed (Orderly.flushed hc h.orderly) hflushed.tidies.toSheds heq
    (fun event hevent => (hquiet event hevent).plain) (fun name halive hname => ?_)
    fun name hname => ?_
  · rcases hname with (hbound | hpending) | hhold
    · exact Or.inl (Or.inl (hflushed.tidies.bound ▸ hbound))
    · rcases hflushed.settled name hpending with hstill | hbound | hdead
      · exact Or.inl (Or.inr hstill)
      · exact Or.inl (Or.inl (hflushed.tidies.bound ▸ hbound))
      · exact absurd halive hdead
    · exact hhold.elim
  · exact hname.imp_left (Or.imp (fun hbound => hflushed.tidies.bound ▸ hbound) flushed_pending)

/-- The part of a reconciliation before its last mark. -/
theorem reconciling (h : Accounted A .idle c) {w₁ w' : World}
    (hrun : Reconciling c.backend w₁ w') : Accounted A .idle { c with backend := w' } := by
  obtain ⟨events₁, heq₁, hquiet₁⟩ := hrun.read.quiet
  obtain ⟨events₂, heq₂, hquiet₂⟩ := hrun.tidies.quiet
  have horderly := h.orderly.shed hrun.sheds fun name hname => by
    rwa [World.pending, hrun.pending] at hname
  have heq : w'.history = (events₂ ++ .orphansListed w₁.server c.backend.bound c.backend.pending ::
      events₁) ++ c.backend.history := by
    rw [heq₂, World.note, heq₁, List.append_assoc, List.cons_append]
  refine h.shed horderly hrun.sheds heq (fun event hevent => ?_)
    (fun name _ => (remembers_congr hrun.sheds.records hrun.pending name).mpr)
    (fun name => (remembers_congr hrun.sheds.records hrun.pending name).mp)
  rcases List.mem_append.mp hevent with hnew | hold
  · exact (hquiet₂ event hnew).plain
  · rcases List.mem_cons.mp hold with rfl | hold
    · exact ⟨trivial, by simp⟩
    · exact (hquiet₁ event hold).plain

theorem reconciled (h : Accounted A .idle c) : Accounted A .idle (reconciled A c) := by
  have hspec := reconcileOrphanedHandles_spec (A := A) h.orderly.steady
  have horderly := h.orderly.reconciled
  unfold Managed.reconciled at horderly ⊢
  generalize reconcileOrphanedHandles A c.backend = r at hspec horderly ⊢
  cases hspec with
  | unread e w₁ hread hqueue =>
    obtain ⟨events, heq, hquiet⟩ := hread.quiet
    exact h.shed horderly hread.toSheds heq (fun event hevent => (hquiet event hevent).plain)
      (fun name _ => (remembers_congr hread.records hqueue name).mpr)
      (fun name => (remembers_congr hread.records hqueue name).mp)
  | interrupted e w₁ w' hrun => exact h.reconciling hrun
  | completed handles w₁ w' hrun hknown =>
    have h' := h.reconciling hrun
    have htame : ∀ event ∈ [Event.reconcileCompleted], event.Tame := by simp [Event.Tame]
    have hlost {name : String} : Lost (w'.note .reconcileCompleted).history name ↔
        Lost w'.history name := lost_append htame
    have hremembers {name : String} (halive : w'.server.Alive name) :
        Remembers .idle { c with backend := w'.note .reconcileCompleted } name :=
      Or.inl ((hknown name halive).imp (fun hbound => hrun.sheds.bound ▸ hbound)
        fun hpending => by rwa [World.pending, World.note, hrun.pending])
    exact ⟨horderly, fun name halive => Or.inl (hremembers halive),
      fun name hname => h'.lost name (hlost.mp hname), fun _ name halive => hremembers halive,
      h'.clean⟩

/-! ### Captures -/

/-- What a capture is sent over. -/
theorem at_send (h : Accounted A .idle c) (hdrained : c.backend.pendingDrops = .empty) :
    c.backend.pending = [] ∧
      (∀ name, c.backend.server.Alive name →
        name ∈ c.backend.bound ∨ Lost c.backend.history name) ∧
      (∀ name, Lost c.backend.history name → name ∉ c.backend.bound) ∧
      (¬ Unresolved c.backend.history →
        ∀ name, c.backend.server.Alive name → name ∈ c.backend.bound) := by
  have hpending : c.backend.pending = [] := by
    rw [World.pending, hdrained]
    rfl
  have hbound {name : String} (hname : Remembers .idle c name) : name ∈ c.backend.bound := by
    rcases hname with (hbound | hqueued) | hhold
    · exact hbound
    · simp [hpending] at hqueued
    · exact hhold.elim
  exact ⟨hpending, fun name halive => (h.known name halive).imp_left hbound,
    fun name hlost hmem => (h.lost name hlost).1 (Or.inl (Or.inl hmem)),
    fun hresolved name halive => hbound (h.resolved hresolved name halive)⟩

/-- A capture request that left this server. -/
def captureEvent (A : Adapter) (tokens : List ℤ) (delivery : Delivery) (w : World)
    (server : Server) : Event :=
  .exchanged (.capture A.managedEpoch A.idSlot tokens) delivery w.server server w.bound w.pending

/-- The name that a capture loses is the next one, which it used up. -/
theorem lostName_captureEvent {tokens : List ℤ} {delivery : Delivery} {w : World} {server : Server}
    {name : String} (h : (captureEvent A tokens delivery w server).lostName = some name) :
    name = formatHandle w.server.nextHandle ∧ server.nextHandle ≠ w.server.nextHandle := by
  cases delivery with
  | delivered | notApplied => cases h
  | responseLost =>
    dsimp only [captureEvent, Event.lostName] at h
    split_ifs at h with hnext
    exact ⟨(Option.some.inj h).symm, hnext⟩

theorem unresolved_captureEvent {tokens : List ℤ} {delivery : Delivery} {w : World}
    {server : Server} {older : List Event} :
    Unresolved (captureEvent A tokens delivery w server :: older) ↔
      (captureEvent A tokens delivery w server).lostName.isSome ∨ Unresolved older := Iff.rfl

/-- What a capture owes: its state is remembered or lost, and no other is. -/
theorem capture (h : Accounted A .idle c) (hdrained : c.backend.pendingDrops = .empty)
    (tokens : List ℤ) (delivery : Delivery) {event : Event}
    (hevent : event = captureEvent A tokens delivery c.backend c'.backend.server)
    (horderly : Orderly A [] φ' c') (hhistory : c'.backend.history = event :: c.backend.history)
    (hnext : c.backend.server.nextHandle ≤ c'.backend.server.nextHandle)
    (hknown : ∀ name, c'.backend.server.Alive name → Remembers φ' c' name ∨
      event.lostName = some name ∨
      c.backend.server.Alive name ∧ (name ∈ c.backend.bound → Remembers φ' c' name))
    (hremembers : ∀ name, Remembers φ' c' name → name ∈ c.backend.bound ∨
      event.lostName = none ∧ name = formatHandle c.backend.server.nextHandle) :
    Accounted A φ' c' := by
  obtain ⟨hpending, hsent, hunbound, hresolved⟩ := h.at_send hdrained
  refine ⟨horderly, fun name halive => ?_, fun name hlost => ?_, fun hnone name halive => ?_, ?_⟩
  · rcases hknown name halive with hname | hname | ⟨hbefore, hname⟩
    · exact Or.inl hname
    · exact Or.inr ⟨event, hhistory ▸ List.mem_cons_self, hname⟩
    · refine (hsent name hbefore).imp hname fun ⟨old, hold, heq⟩ => ⟨old, ?_, heq⟩
      rw [hhistory]
      exact List.mem_cons_of_mem _ hold
  · obtain ⟨old, hmem, heq⟩ := hlost
    rw [hhistory] at hmem
    rcases List.mem_cons.mp hmem with rfl | hold
    · obtain ⟨rfl, hne⟩ := lostName_captureEvent (hevent ▸ heq)
      refine ⟨fun hname => ?_, _, lt_of_le_of_ne hnext (Ne.symm hne), rfl⟩
      rcases hremembers _ hname with hbound | ⟨hkept, -⟩
      · exact h.orderly.ne_next (Or.inl (Or.inl hbound)) rfl
      · rw [heq] at hkept
        cases hkept
    · obtain ⟨hnot, n, hn, hnumber⟩ := h.lost name ⟨old, hold, heq⟩
      refine ⟨fun hname => ?_, n, lt_of_lt_of_le hn hnext, hnumber⟩
      rcases hremembers name hname with hbound | ⟨-, hself⟩
      · exact hnot (Or.inl (Or.inl hbound))
      · exact absurd (formatHandle_injective (hnumber.symm.trans hself)) (by omega)
  · rw [hhistory, hevent, unresolved_captureEvent, ← hevent, not_or] at hnone
    rcases hknown name halive with hname | hname | ⟨hbefore, hname⟩
    · exact hname
    · exact absurd (Option.isSome_iff_exists.mpr ⟨name, hname⟩) hnone.1
    · exact hname (hresolved hnone.2 name hbefore)
  · rw [hhistory, hevent]
    exact ⟨h.at_send hdrained, h.clean⟩

theorem captureFailed (h : Accounted A .idle c) (hdrained : c.backend.pendingDrops = .empty)
    {tokens : List ℤ} {e : PyError} {w : World}
    (hcapture : captureCurrentState A tokens c.backend = (.error e, w)) :
    Accounted A .idle { c with backend := w } := by
  have horderly := h.orderly.captureFailed hcapture
  have hserver : c.backend.sent.server = c.backend.server := by rw [h.orderly.steady.sent]
  rcases capture_failed h.orderly.wellFormed hcapture with ⟨rfl, -⟩ | ⟨-, server, rfl, hfailed⟩
  · exact h
  have hbound : (c.backend.sent.after (.capture A.managedEpoch A.idSlot tokens)
      c.backend.next.delivery server).bound = c.backend.bound := by rw [h.orderly.steady.sent]; rfl
  have hpending : (c.backend.sent.after (.capture A.managedEpoch A.idSlot tokens)
      c.backend.next.delivery server).pending = [] := by
    rw [h.orderly.steady.sent]
    exact (h.at_send hdrained).1
  refine h.capture hdrained tokens c.backend.next.delivery rfl horderly ?_ ?_
    (fun name halive => ?_) fun name hname => ?_
  · rw [h.orderly.steady.sent]
    rfl
  · cases hfailed with
    | refused | unread => exact hserver ▸ le_rfl
    | lost => exact hserver ▸ Nat.le_succ _
  · by_cases hself : name = formatHandle c.backend.server.nextHandle
    · subst hself
      obtain ⟨hlost, hne⟩ := hfailed.stored (hserver ▸ h.orderly.wellFormed) (hserver ▸ halive)
      rw [hserver] at hne
      refine Or.inr (Or.inl ?_)
      rw [hlost]
      exact if_neg hne
    · have := (hfailed.alive_iff (hserver ▸ h.orderly.wellFormed) (hserver ▸ hself)).mp halive
      exact Or.inr (Or.inr ⟨hserver ▸ this.1, fun hmem => Or.inl (Or.inl (hbound ▸ hmem))⟩)
  · rcases hname with (hmem | hqueued) | hhold
    · exact Or.inl (hbound ▸ hmem)
    · dsimp only at hqueued
      rw [hpending] at hqueued
      cases hqueued
    · exact hhold.elim

theorem captured (h : Accounted A .idle c) (hdrained : c.backend.pendingDrops = .empty)
    {tokens : List ℤ} {state : StateHandle} {evicted : List String} {w : World}
    (hcapture : captureCurrentState A tokens c.backend = (.ok (state, evicted), w))
    (hforgets : Forgets A evicted { c with backend := w } c') :
    Accounted A (.holding (cacheKey A tokens) state) c' := by
  have horderly := h.orderly.captured hcapture hforgets (cacheKey A tokens)
  have hserver : c.backend.sent.server = c.backend.server := by rw [h.orderly.steady.sent]
  obtain ⟨slot, -, -, -, -, rfl, rfl, rfl⟩ := capture_returned h.orderly.wellFormed hcapture
  refine h.capture hdrained tokens .delivered rfl horderly ?_ ?_
    (fun name halive => ?_) fun name hname => ?_
  · rw [hforgets.history, hforgets.server, h.orderly.steady.sent]
    rfl
  · rw [hforgets.server]
    exact hserver ▸ Nat.le_succ _
  · rw [hforgets.server] at halive
    rcases (Server.alive_captured (hserver ▸ h.orderly.wellFormed) _ _).mp halive with
      rfl | ⟨hbefore, hspared⟩
    · exact Or.inl (Or.inr rfl)
    · refine Or.inr (Or.inr ⟨hserver ▸ hbefore, fun hmem => Or.inl (Or.inl ?_)⟩)
      have hold : name ∈ c.backend.sent.bound := by
        rw [h.orderly.steady.sent]
        exact hmem
      exact hforgets.mem_bound.mpr ⟨hold, hspared⟩
  · rcases hname with (hmem | hqueued) | rfl
    · have hold := hforgets.bound hmem
      rw [h.orderly.steady.sent] at hold
      exact Or.inl hold
    · rw [World.pending, hforgets.pendingDrops, h.orderly.steady.sent] at hqueued
      change _ ∈ c.backend.pending at hqueued
      rw [(h.at_send hdrained).1] at hqueued
      cases hqueued
    · exact Or.inr ⟨rfl, by rw [hserver]; rfl⟩

end Accounted

/-- A state in hand need not be remembered once it is bound. -/
theorem remembers_release {c : PromptCache} {key : Key} {state : StateHandle}
    (hbound : state.handle ∈ c.backend.bound) (name : String) :
    Remembers .closing c name ↔ Remembers (.holding key state) c name := by
  constructor
  · exact Or.imp_right False.elim
  · rintro (htracked | rfl)
    · exact Or.inl htracked
    · exact Or.inl (Or.inl hbound)

theorem remembers_queued (c : PromptCache) (key : Key) (state : StateHandle) (name : String) :
    Remembers .closing (queued c state) name ↔ Remembers (.holding key state) c name := by
  have hpending : name ∈ (queued c state).backend.pending ↔
      name = state.handle ∨ name ∈ c.backend.pending := Dict.mem_keys_insert
  simp only [Remembers, World.Tracked, Phase.Holds, hpending]
  change (name ∈ c.backend.bound ∨ _) ∨ False ↔ _
  tauto

theorem Rebinds.remembers {A : Adapter} {c c' : PromptCache} {key : Key} {state : StateHandle}
    (h : Rebinds A (some (key, state)) c c') (name : String) :
    Remembers (.holding key state) c' name ↔ Remembers (.holding key state) c name := by
  simpa [Remembers, Phase.Holds] using h.tracked_or_iff name

theorem accounted_ledger (A : Adapter) : Ledger A (Accounted A) where
  wellFormed h := h.orderly.wellFormed
  passive hpassive _ h := h.passive hpassive
  closing h := h.rebind ((orderly_ledger A []).closing h.orderly) rfl rfl fun _ => Iff.rfl
  flush hc h := Accounted.flushed hc
    (h.rebind (h.orderly.release fun _ => id) rfl rfl fun _ => Iff.rfl)
  reconcile _ h := h.reconciled
  captureFailed _ hdrained h hcapture := h.captureFailed hdrained hcapture
  captured _ hdrained h hcapture hforgets := h.captured hdrained hcapture hforgets
  accepted h hrebinds hbound := h.rebind ((orderly_ledger A []).accepted h.orderly hrebinds hbound)
    hrebinds.rebound.server hrebinds.rebound.history fun name =>
      (remembers_release (World.bound_of_get? hbound) name).trans (hrebinds.remembers name)
  kept h hrebinds hkeep := h.rebind ((orderly_ledger A []).kept h.orderly hrebinds hkeep)
    hrebinds.rebound.server hrebinds.rebound.history hrebinds.remembers
  discarded h := h.rebind ((orderly_ledger A []).discarded h.orderly) rfl rfl
    (remembers_queued _ _ _)
  released h hbound := h.rebind ((orderly_ledger A []).released h.orderly hbound) rfl rfl
    (remembers_release hbound)
  trimmed h hrebinds := h.rebind ((orderly_ledger A []).trimmed h.orderly hrebinds)
    hrebinds.rebound.server hrebinds.rebound.history fun name => by
      simpa [Remembers, Phase.Holds] using hrebinds.tracked_or_iff name
  observed h hrebinds hbackend := h.rebind
    ((orderly_ledger A []).observed h.orderly hrebinds hbackend) (by rw [hbackend])
    (by rw [hbackend]) fun name => by simp [Remembers, Phase.Holds, hbackend]

/-! ## Sessions -/

/-- A call that captures and admits in one go or does neither, in one epoch. -/
def PackagedSteady (_ : Session) (call : Call) : Prop := call.op.Packaged ∧ call.Steady

theorem open_accounted {A : Adapter} (config : PolicyConfig) (server : FreshServer A) :
    Accounted A .idle (openCache config server.server) where
  orderly := open_orderly config server
  known name halive := by simp [openCache, Server.Alive, server.states] at halive
  lost name hlost := by simp [openCache, Lost] at hlost
  resolved _ name halive := by simp [openCache, Server.Alive, server.states] at halive
  clean := trivial

theorem scripted_accounted {A : Adapter} {c : PromptCache} (h : Accounted A .idle c) {call : Call}
    (hsteady : call.Steady) : Accounted A .idle (scripted c call.script) :=
  h.rebind (scripted_orderly h.orderly hsteady) rfl rfl fun _ => Iff.rfl

/-- Every capture request of a run is sent with nothing queued. The handles alive are then
all bound exactly when none of them was stored by a capture whose response was lost; they
are all bound if a reconciliation has completed since. -/
theorem capture_sent_over {A : Adapter} {config : PolicyConfig} {server : FreshServer A}
    {s : Session} (hs : s.Reached A config server PackagedSteady) {newer older : List Event}
    {epoch : String} {idSlot : ℕ} {tokens : List ℤ} {delivery : Delivery} {before after : Server}
    {bound pending : List String}
    (hsent : s.cache.backend.history = newer ++
      .exchanged (.capture epoch idSlot tokens) delivery before after bound pending :: older) :
    pending = [] ∧
    ((∀ h, before.Alive h → h ∈ bound) ↔ ∀ h, Lost older h → ¬ before.Alive h) ∧
    (¬ Unresolved older → ∀ h, before.Alive h → h ∈ bound) := by
  have hbetween := hs.between (accounted_ledger A) (fun _ _ h => h.1)
    (open_accounted config server) fun _ _ h hI => scripted_accounted hI h.2
  have hclean := hbetween.2.clean
  rw [hsent] at hclean
  obtain ⟨hpending, hknown, hlost, hresolved⟩ := hclean.at
  exact ⟨hpending, ⟨fun hbound h hmem halive => hlost h hmem (hbound h halive),
    fun hnone h halive => (hknown h halive).resolve_right fun hmem => hnone h hmem halive⟩,
    hresolved⟩

/-! ## A capture beside an orphan -/

namespace Sample

/-- A capture whose response is lost, reconciled. -/
def recovered : Session := start.step adapter (capture [lost])

/-- A capture whose response is lost; the request to reconcile does not arrive. -/
def leaky : Session := start.step adapter (capture [lost, unsent])

theorem capture_steady {script : List Exchange} (h : ∀ x ∈ script, x.restart = none) (s : Session) :
    PackagedSteady s (capture script) := ⟨trivial, h⟩

theorem recovered_reached : recovered.Reached adapter config server PackagedSteady :=
  .next .start (capture_steady (by simp [lost, Exchange.normal]) _)

theorem leaky_reached : leaky.Reached adapter config server PackagedSteady :=
  .next .start (capture_steady (by simp [lost, unsent, Exchange.normal]) _)

end Sample

open Sample

/-- After the reconciliation the next capture is sent over bound handles only. -/
theorem recovered_sent_over :
    (recovered.step adapter (capture [])).Reached adapter config server PackagedSteady ∧
    ∀ h, recovered.cache.backend.server.Alive h → h ∈ ([] : List String) := by
  have hreached : (recovered.step adapter (capture [])).Reached adapter config server PackagedSteady :=
    .next recovered_reached (capture_steady (fun _ => by simp) _)
  have hsent : (recovered.step adapter (capture [])).cache.backend.history = [] ++
      .exchanged (.capture "epoch-1" 0 [1, 2]) .delivered recovered.cache.backend.server
        (recovered.step adapter (capture [])).cache.backend.server [] [] ::
      recovered.cache.backend.history := rfl
  exact ⟨hreached, (capture_sent_over hreached hsent).2.2 id⟩

/-- The orphan of a lost response is alive and not bound when the next capture is sent. -/
theorem leaky_sent_over :
    (leaky.step adapter (capture [])).Reached adapter config server PackagedSteady ∧
    (leaky.step adapter (capture [])).cache.backend.history =
      .exchanged (.capture "epoch-1" 0 [1, 2]) .delivered leaky.cache.backend.server
        (leaky.step adapter (capture [])).cache.backend.server [] [] ::
      leaky.cache.backend.history ∧
    leaky.cache.backend.server.Alive "sbm1-0000000000000001" :=
  ⟨.next leaky_reached (capture_steady (fun _ => by simp) _), rfl, by decide +kernel⟩

end StateBraid.Managed
