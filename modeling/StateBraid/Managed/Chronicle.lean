import StateBraid.Managed.Reclaim

/-!
# The store as its replies tell it

The replies of a server name every handle in the order of creation and every handle that
was restored. In each reachable state the store is in that order and marks those handles,
so the shortest run that a capture reclaims is one of the oldest never-restored handles.
-/

namespace StateBraid.Managed
open Library Policy

/-! ## What the replies have told -/

/-- A server, and what its replies have told so far: the handles created, in order, and
the handles restored. -/
structure Observed where
  server : Server
  created : List String
  restored : List String

namespace Observed

/-- One input, with its reply noted. -/
def serve (o : Observed) : Server.Input → Observed
  | .task up action =>
    match o.server.processTask up action with
    | (.error _, server) => { o with server := server }
    | (.ok reply, server) =>
      { server := server
        created := if action.action = "capture" then
          o.created ++ (reply.get "handle").asStr?.toList else o.created
        restored := if action.action = "restore" then
          o.restored ++ [action.handle] else o.restored }
  | .slotChanged idSlot slot => { o with server := o.server.setSlot idSlot slot }

/-- The server itself notes nothing. -/
theorem serve_server (o : Observed) (input : Server.Input) :
    (o.serve input).server = o.server.serve input := by
  cases input with
  | slotChanged => rfl
  | task up action =>
    simp only [serve, Server.serve]
    split <;> rename_i h <;> rw [h]

/-- Every run of the store is observed, and nothing else is. -/
theorem run_iff {s t : Server} :
    Run Server.serve (fun _ _ => True) s t ↔
      ∃ o, Run serve (fun _ _ => True) ⟨s, [], []⟩ o ∧ o.server = t :=
  Run.project_iff (s := (⟨s, [], []⟩ : Observed)) (f := Observed.server) serve_server

/-- The handles that are there and have never been restored, in order of creation. -/
def neverRestored (o : Observed) : List String :=
  o.created.filter (fun handle => o.server.Alive handle ∧ handle ∉ o.restored)

/-- The store as the replies tell it: handles are created under ascending numbers, are
there in that order while the numbers have 64 bits, and are marked once restored. -/
structure Chronicle (first : ℕ) (o : Observed) : Prop where
  numbered : ∃ k, o.server.nextHandle = first + k ∧
    o.created = (List.range' first k).map formatHandle
  order : o.server.nextHandle ≤ 2 ^ 64 → o.server.states.keys.Sublist o.created
  alive : ∀ h, o.server.Alive h → h ∈ o.created
  known : ∀ h ∈ o.restored, h ∈ o.created
  marked : ∀ h e, o.server.states.get? h = some e → (e.restored = true ↔ h ∈ o.restored)

namespace Chronicle

variable {first : ℕ} {o : Observed}

theorem nodup (h : o.Chronicle first) : o.created.Nodup := by
  obtain ⟨k, -, hcreated⟩ := h.numbered
  rw [hcreated]
  have hrange : (List.range' first k).Nodup := List.nodup_range'
  exact hrange.map formatHandle_injective

/-- The next name is a new one. -/
theorem fresh (h : o.Chronicle first) : formatHandle o.server.nextHandle ∉ o.created := by
  obtain ⟨k, hnext, hcreated⟩ := h.numbered
  rw [hcreated, hnext]
  intro hmem
  obtain ⟨n, hn, heq⟩ := List.mem_map.mp hmem
  rw [formatHandle_injective heq, List.mem_range'_1] at hn
  omega

theorem not_alive (h : o.Chronicle first) :
    ¬ o.server.Alive (formatHandle o.server.nextHandle) := fun halive => h.fresh (h.alive _ halive)

/-- Fewer handles, with the marks they had. -/
theorem shrink (h : o.Chronicle first) {server : Server}
    (hnext : server.nextHandle = o.server.nextHandle)
    (hkeys : server.states.keys.Sublist o.server.states.keys)
    (hget : ∀ name e, server.states.get? name = some e → o.server.states.get? name = some e) :
    Chronicle first { o with server := server } where
  numbered := by
    rw [hnext]
    exact h.numbered
  order hbits := hkeys.trans (h.order (hnext ▸ hbits))
  alive name hname := h.alive name (hkeys.subset hname)
  known := h.known
  marked name e he := h.marked name e (hget name e he)

theorem reclaim (h : o.Chronicle first) (evicted : List String) :
    Chronicle first { o with server := o.server.reclaim evicted } := by
  refine h.shrink rfl ?_ fun name e he => ?_
  · rw [Server.reclaim, Dict.keys_filterKeys]
    exact List.filter_sublist
  · rw [Server.reclaim, Dict.get?_filterKeys] at he
    split_ifs at he
    exact he

theorem restore (h : o.Chronicle first) {server : Server} {handle : String} {entry : ManagedEntry}
    (hget : o.server.states.get? handle = some entry)
    (hstates : server.states = o.server.states.insert handle { entry with restored := true })
    (hnext : server.nextHandle = o.server.nextHandle) :
    Chronicle first ⟨server, o.created, o.restored ++ [handle]⟩ := by
  have hmem := Dict.mem_keys_of_get? hget
  have hkeys : server.states.keys = o.server.states.keys := by
    rw [hstates, Dict.keys_insert_of_mem _ hmem]
  refine ⟨by rw [hnext]; exact h.numbered, fun hbits => ?_, fun name hname => ?_, ?_, ?_⟩
  · rw [hkeys]
    exact h.order (hnext ▸ hbits)
  · rw [Server.Alive, hkeys] at hname
    exact h.alive name hname
  · intro name hname
    rcases List.mem_append.mp hname with hname | hname
    · exact h.known name hname
    · rw [List.mem_singleton.mp hname]
      exact h.alive handle hmem
  · intro name e he
    rw [hstates, Dict.get?_insert] at he
    split_ifs at he with hself
    · obtain rfl := Option.some.inj he
      simp [hself]
    · rw [h.marked name e he]
      simp [hself]

/-- A new entry is the last one and unmarked. -/
theorem store (h : o.Chronicle first) (state : ManagedState) :
    Chronicle first ⟨o.server.store state, o.created ++ [formatHandle o.server.nextHandle],
      o.restored⟩ := by
  have hnew := h.not_alive
  refine ⟨?_, fun hbits => ?_, fun name hname => ?_, fun name hname => ?_, fun name e he => ?_⟩
  · obtain ⟨k, hnext, hcreated⟩ := h.numbered
    refine ⟨k + 1, by simp [Server.store, hnext, add_assoc], ?_⟩
    rw [List.range'_concat, List.map_append, hcreated, hnext]
    simp
  · have hlast : ∀ name ∈ o.server.states.keys,
        decide (name < formatHandle o.server.nextHandle) = true := by
      intro name hname
      obtain ⟨k, hnext, hcreated⟩ := h.numbered
      have hmem := h.alive name hname
      rw [hcreated] at hmem
      obtain ⟨n, hn, rfl⟩ := List.mem_map.mp hmem
      rw [List.mem_range'_1] at hn
      change o.server.nextHandle + 1 ≤ 2 ^ 64 at hbits
      exact decide_eq_true ((formatHandle_lt_iff (by omega) (by omega)).mpr (by omega))
    change o.server.nextHandle + 1 ≤ 2 ^ 64 at hbits
    rw [Server.store, Dict.keys_emplace_last _ hnew hlast]
    exact (h.order (by omega)).append (List.Sublist.refl _)
  · rw [Server.Alive, Server.store, Dict.mem_keys_iff] at hname
    obtain ⟨e, he⟩ := hname
    rw [Dict.get?_emplace _ hnew] at he
    split_ifs at he with hself
    · simp [hself]
    · exact List.mem_append_left _ (h.alive name (Dict.mem_keys_of_get? he))
  · exact List.mem_append_left _ (h.known name hname)
  · rw [Server.store, Dict.get?_emplace _ hnew] at he
    split_ifs at he with hself
    · obtain rfl := Option.some.inj he
      rw [hself]
      exact iff_of_false Bool.false_ne_true fun hmem => h.fresh (h.known _ hmem)
    · exact h.marked name e he

end Chronicle

/-- Every input keeps the chronicle. -/
theorem Chronicle.serve {first : ℕ} {o : Observed} (h : o.Chronicle first) (input : Server.Input) :
    (o.serve input).Chronicle first := by
  cases input with
  | slotChanged idSlot slot => exact h.shrink rfl (List.Sublist.refl _) fun _ _ he => he
  | task up action =>
    have hstep := o.server.processTask_entryStep up action
    simp only [Observed.serve]
    generalize o.server.processTask up action = r at hstep
    cases hstep with
    | unchanged answer server hstates hnext hanswer =>
      have hshrunk : Chronicle first { o with server := server } :=
        h.shrink hnext (hstates ▸ List.Sublist.refl _) fun _ _ he => hstates ▸ he
      cases answer with
      | error refusal => exact hshrunk
      | ok reply =>
        obtain ⟨hcapture, hrestore⟩ := hanswer reply rfl
        simpa only [if_neg hcapture, if_neg hrestore] using hshrunk
    | dropped haction =>
      have hdropped : Chronicle first { o with server := (o.server.drop action.handle).2 } := by
        rw [Server.drop_frame]
        refine h.shrink rfl ?_ fun name e he => ?_
        · rw [Dict.keys_erase]
          exact List.filter_sublist
        · rw [Dict.get?_erase] at he
          split_ifs at he
          exact he
      rcases hr : o.server.drop action.handle with ⟨refusal | reply, server⟩ <;>
        rw [hr] at hdropped
      · exact hdropped
      · simpa [haction] using hdropped
    | restored reply server entry haction hget hstates hnext =>
      simpa [haction] using h.restore hget hstates hnext
    | unread refusal slot evicted hplan => exact h.reclaim evicted
    | stored slot evicted haction hplan =>
      have hhandle : ((o.server.captureReply action.idSlot (o.server.snapshot slot) evicted).get
          "handle").asStr? = some (formatHandle o.server.nextHandle) := rfl
      have hstored : Chronicle first ⟨(o.server.reclaim evicted).store (o.server.snapshot slot),
          o.created ++ [formatHandle o.server.nextHandle], o.restored⟩ :=
        (h.reclaim evicted).store (o.server.snapshot slot)
      simpa [haction, hhandle] using hstored

theorem chronicle_run {s : Server} {o : Observed} (hempty : s.states = .empty)
    (hrun : Run serve (fun _ _ => True) ⟨s, [], []⟩ o) : o.Chronicle s.nextHandle := by
  refine Run.invariant ⟨⟨0, rfl, rfl⟩, ?_, ?_, ?_, ?_⟩ (fun o input h _ => h.serve input) hrun
  · simp [hempty]
  · simp [Server.Alive, hempty]
  · simp
  · simp [hempty]

/-- The unused handles of the store are those that the replies tell of. -/
theorem Chronicle.unusedHandles_eq {first : ℕ} {o : Observed} (h : o.Chronicle first)
    (hbits : o.server.nextHandle ≤ 2 ^ 64) : o.server.unusedHandles = o.neverRestored := by
  have hkeys : o.created.filter (fun handle => handle ∈ o.server.states.keys) =
      o.server.states.keys := filter_mem_of_sublist (h.order hbits) h.nodup
  have hmarks : o.server.unusedHandles =
      o.server.states.keys.filter (fun handle => handle ∉ o.restored) := by
    rw [Server.unusedHandles, unusedOf, Dict.keys, List.filter_map]
    congr 1
    refine List.filter_congr fun kv hkv => ?_
    have hmark := h.marked kv.1 kv.2 (Dict.get?_eq_some_iff.mpr hkv)
    cases hrestored : kv.2.restored <;> simp [← hmark, hrestored]
  calc o.server.unusedHandles
      = (o.created.filter (fun handle => handle ∈ o.server.states.keys)).filter
          (fun handle => handle ∉ o.restored) := by rw [hkeys, hmarks]
    _ = o.neverRestored := by
        rw [List.filter_filter, neverRestored]
        refine List.filter_congr fun handle _ => ?_
        simp [Server.Alive, and_comm]

/-! ## The claim of a capture on the store -/

/-- A capture erases these handles and no others, and a reply lists them in order. -/
structure Takes (s : Server) (r : Except Refusal Json × Server) (taken : List String) : Prop where
  gone : ∀ handle, s.Alive handle → (r.2.Alive handle ↔ handle ∉ taken)
  listed : ∀ reply, r.1 = .ok reply → reply.field? "evicted" = some (.arr (taken.map Json.str))

/-- What a capture of a slot does to the handles in use. -/
structure ReclaimsOldest (o : Observed) (slot : Slot) (r : Except Refusal Json × Server) :
    Prop where
  within : o.server.managedBytes + o.server.need slot ≤ o.server.ramLimit → Takes o.server r []
  covered : o.server.ramLimit < o.server.managedBytes + o.server.need slot →
    o.server.deficit (o.server.need slot) ≤ (o.neverRestored.map o.server.stateBytes).sum →
    ∃ taken, ShortestPrefix
      (fun t => o.server.deficit (o.server.need slot) ≤ (t.map o.server.stateBytes).sum)
      o.neverRestored taken ∧ Takes o.server r taken
  refused : o.server.ramLimit < o.server.managedBytes + o.server.need slot →
    (o.neverRestored.map o.server.stateBytes).sum < o.server.deficit (o.server.need slot) →
    (∃ refusal, r.1 = .error refusal) ∧ r.2 = o.server

end Observed

namespace Server

/-- A capture that passes the checks on its prompt depends on its plan. -/
theorem capture_refused {s : Server} {slot : Slot} {refusal : Refusal} (hne : slot.tokens ≠ [])
    (hplan : s.budgetPlan (s.need slot) = .error refusal) (up : Upstream) (idSlot : ℤ) :
    s.capture up idSlot slot slot.tokens = (.error refusal, s) := by
  rw [need] at hplan
  simp [capture, hne, hplan]

theorem capture_takes {s : Server} {slot : Slot} {evicted : List String} (hne : slot.tokens ≠ [])
    (hfresh : ¬ s.Alive (formatHandle s.nextHandle))
    (hplan : s.budgetPlan (s.need slot) = .ok evicted) (up : Upstream) (idSlot : ℤ) :
    Observed.Takes s (s.capture up idSlot slot slot.tokens) evicted := by
  have hreclaimed (handle : String) (halive : s.Alive handle) :
      (s.reclaim evicted).Alive handle ↔ handle ∉ evicted := by
    rw [alive_reclaim]
    exact and_iff_right halive
  rw [need] at hplan
  unfold capture
  rw [if_neg (by simpa using hne), if_neg (not_not.mpr rfl), if_neg (not_not.mpr rfl)]
  dsimp only
  rw [hplan]
  dsimp only
  split_ifs
  · exact ⟨hreclaimed, fun reply hreply => by cases hreply⟩
  · exact ⟨hreclaimed, fun reply hreply => by cases hreply⟩
  · refine ⟨fun handle halive => ?_, fun reply hreply => ?_⟩
    · have hnew : ¬ (s.reclaim evicted).Alive (formatHandle (s.reclaim evicted).nextHandle) :=
        fun h => hfresh (alive_reclaim.mp h).1
      have hold : handle ≠ formatHandle (s.reclaim evicted).nextHandle := fun heq =>
        hfresh (heq ▸ halive)
      rw [← hreclaimed handle halive, alive_store hnew]
      exact or_iff_right hold
    · obtain rfl := Except.ok.inj hreply
      rfl

end Server

namespace Observed

theorem Chronicle.reclaimsOldest {first : ℕ} {o : Observed} (h : o.Chronicle first)
    (hbits : o.server.nextHandle ≤ 2 ^ 64) (hlimit : 0 ≤ o.server.ramLimitMib)
    {action : CacheAction} {slot : Slot} (hcaptures : o.server.CapturesSlot action slot)
    (up : Upstream) : ReclaimsOldest o slot (o.server.processTask up action) := by
  rw [Server.processTask_capture hcaptures.accepts hcaptures.captures hcaptures.slotAt,
    hcaptures.tokens]
  have hcover := o.server.coverable_iff (o.server.need slot)
  rw [h.unusedHandles_eq hbits] at hcover
  refine ⟨fun hwithin => ?_, fun hover hcovered => ?_, fun hover hshort => ?_⟩
  · have hplan : o.server.budgetPlan (o.server.need slot) = .ok [] :=
      Server.budgetPlan_within fun hover => absurd hover.2 (not_lt.mpr hwithin)
    exact Server.capture_takes hcaptures.nonempty h.not_alive hplan up _
  · obtain ⟨taken, hplan, hshortest⟩ :=
      Server.budgetPlan_shortest ⟨hlimit, hover⟩ (hcover.mpr hcovered)
    rw [h.unusedHandles_eq hbits] at hshortest
    exact ⟨taken, hshortest, Server.capture_takes hcaptures.nonempty h.not_alive hplan up _⟩
  · obtain ⟨refusal, hplan⟩ := Server.budgetPlan_hopeless ⟨hlimit, hover⟩
      fun hcoverable => absurd (hcover.mp hcoverable) (not_le.mpr hshort)
    rw [Server.capture_refused hcaptures.nonempty hplan]
    exact ⟨⟨refusal, rfl⟩, rfl⟩

/-- Only unused handles are reclaimed. -/
theorem Chronicle.keeps_restored {first : ℕ} {o : Observed} (h : o.Chronicle first)
    {action : CacheAction} (hdrop : action.action ≠ "drop") (up : Upstream) {handle : String}
    (hrestored : handle ∈ o.restored) (halive : o.server.Alive handle) :
    (o.server.processTask up action).2.Alive handle := by
  have hkept {slot : Slot} {evicted : List String}
      (hplan : o.server.budgetPlan (o.server.need slot) = .ok evicted) :
      (o.server.reclaim evicted).Alive handle := by
    refine Server.alive_reclaim.mpr ⟨halive, fun hmem => ?_⟩
    rcases Server.budgetPlan_ok hplan with ⟨-, rfl⟩ | ⟨hover, hcover, rfl⟩
    · simp at hmem
    · obtain ⟨taken, hplan', hshortest⟩ := Server.budgetPlan_shortest hover hcover
      obtain rfl := Except.ok.inj (hplan.symm.trans hplan')
      obtain ⟨kv, hkv, rfl⟩ := List.mem_map.mp (hshortest.isPrefix.subset hmem)
      obtain ⟨hitem, hunused⟩ := List.mem_filter.mp hkv
      have hmark := (h.marked _ _ (Dict.get?_eq_some_iff.mpr hitem)).mpr hrestored
      simp [hmark] at hunused
  have hstep := o.server.processTask_entryStep up action
  generalize o.server.processTask up action = r at hstep
  cases hstep with
  | unchanged answer server hstates => exact (hstates ▸ halive : handle ∈ server.states.keys)
  | dropped haction => exact absurd haction hdrop
  | restored reply server entry haction hget hstates =>
    change handle ∈ server.states.keys
    rw [hstates, Dict.mem_keys_insert]
    exact Or.inr halive
  | unread refusal slot evicted hplan => exact hkept hplan
  | stored slot evicted haction hplan =>
    have hnew : ¬ (o.server.reclaim evicted).Alive (formatHandle o.server.nextHandle) :=
      fun hmem => h.not_alive (Server.alive_reclaim.mp hmem).1
    exact (Server.alive_store hnew _).mpr (Or.inr (hkept hplan))

end Observed

/-- In every reachable store, a capture reclaims the shortest prefix of the never-restored
handles, oldest first, that covers its deficit, and nothing when that is not needed or not
possible. A handle that was ever restored stays until it is dropped. The store is in the
order of creation, because names are ordered like the counters they are made of. The stores
observed are those of the server's own runs. -/
theorem capture_reclaims_oldest {s : Server} {o : Observed} (hempty : s.states = .empty)
    (hrun : Run Observed.serve (fun _ _ => True) ⟨s, [], []⟩ o) :
    (o.server.nextHandle ≤ 2 ^ 64 → 0 ≤ o.server.ramLimitMib → ∀ up action slot,
      o.server.CapturesSlot action slot →
        Observed.ReclaimsOldest o slot (o.server.processTask up action)) ∧
    (∀ up action, action.action ≠ "drop" → ∀ handle ∈ o.restored, o.server.Alive handle →
      (o.server.processTask up action).2.Alive handle) ∧
    (o.server.nextHandle ≤ 2 ^ 64 → o.server.states.keys.Sublist o.created) ∧
    (∀ m n, m < 2 ^ 64 → n < 2 ^ 64 → (formatHandle m < formatHandle n ↔ m < n)) ∧
    Run Server.serve (fun _ _ => True) s o.server := by
  have h := Observed.chronicle_run hempty hrun
  exact ⟨fun hbits hlimit _ _ _ hcaptures => h.reclaimsOldest hbits hlimit hcaptures _,
    fun up _ hdrop _ hrestored halive => h.keeps_restored hdrop up hrestored halive, h.order,
    fun _ _ => formatHandle_lt_iff, Observed.run_iff.mpr ⟨o, hrun, rfl⟩⟩

namespace Sample

/-- The sample server after its first capture. -/
def observed : Observed :=
  Observed.serve ⟨server.server, [], []⟩ (.task .complete captureTask)

end Sample

open Sample

/-- A second capture over the limit reclaims the first one. -/
theorem second_capture_reclaims_first :
    Observed.ReclaimsOldest observed slot (observed.server.processTask .complete captureTask) ∧
      observed.neverRestored = ["sbm1-0000000000000001"] := by
  have hrun : Run Observed.serve (fun _ _ => True) ⟨server.server, [], []⟩ observed :=
    .next .start trivial
  refine ⟨(capture_reclaims_oldest rfl hrun).1 (by decide) (by decide) .complete captureTask slot
    ⟨⟨rfl, rfl⟩, rfl, rfl, rfl, by decide⟩, by decide +kernel⟩

end StateBraid.Managed
