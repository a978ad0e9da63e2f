import StateBraid.Managed.Later

/-!
# One protocol on both ends

Within an epoch the client and the server speak the same protocol: every success answer of
the server passes the client's checks, and the accounting that a handle was issued with is
what every later answer about that handle reports. The states are those of an epoch in
which tasks of any client are served, executions change the slots, and the adapter's own
captures and store reads hand it the states it knows.
-/

namespace StateBraid.Managed
open Library Policy LlamaCpp Exec

/-! ## The answers pass the checks -/

/-- A row passes the checks of one round of the loop. -/
theorem checkRows_cons {kv : String × ManagedEntry} {seen : List String} (hname : kv.1 ≠ "")
    (hseen : kv.1 ∉ seen) (htokens : 0 < kv.2.state.tokens.length) (hsize : 0 < kv.2.state.size)
    (items : List Json) (tokenSum byteSum : ℤ) :
    checkRows (Server.handleRow kv :: items) seen tokenSum byteSum =
      checkRows items (kv.1 :: seen) (tokenSum + kv.2.state.tokens.length)
        (byteSum + kv.2.state.size) := by
  have hne : kv.2.state.tokens ≠ [] := List.length_pos_iff.mp htokens
  have hnonzero : kv.2.state.size ≠ 0 := hsize.ne'
  rw [checkRows]
  simp [Server.handleRow, Json.isObject, Json.get, Json.asStr?, Json.asInt?, List.lookup_cons,
    hname, hseen, hne, hnonzero]

/-- The loop over the rows of a store adds up what the rows say. -/
theorem checkRows_ok (items : List (String × ManagedEntry)) :
    ∀ (seen : List String) (tokenSum byteSum : ℤ),
      (∀ kv ∈ items, kv.1 ≠ "" ∧ kv.1 ∉ seen ∧ 0 < kv.2.state.tokens.length ∧ 0 < kv.2.state.size) →
      (items.map Prod.fst).Nodup →
      checkRows (items.map Server.handleRow) seen tokenSum byteSum =
        .ok (tokenSum + (items.map (fun kv => (kv.2.state.tokens.length : ℤ))).sum,
          byteSum + (items.map (fun kv => (kv.2.state.size : ℤ))).sum) := by
  induction items with
  | nil =>
    intro seen tokenSum byteSum _ _
    simp [checkRows]
  | cons first items ih =>
    intro seen tokenSum byteSum hrows hnodup
    obtain ⟨hname, hseen, htokens, hsize⟩ := hrows first List.mem_cons_self
    obtain ⟨hnot, hrest⟩ := List.nodup_cons.mp hnodup
    rw [List.map_cons, checkRows_cons hname hseen htokens hsize, ih _ _ _ (fun kv hkv => ?_) hrest]
    · simp only [List.map_cons, List.sum_cons, add_assoc]
    · obtain ⟨hne, hfresh, hpos⟩ := hrows kv (List.mem_cons_of_mem _ hkv)
      refine ⟨hne, ?_, hpos⟩
      rw [List.mem_cons, not_or]
      refine ⟨fun heq => hnot ?_, hfresh⟩
      exact heq ▸ List.mem_map_of_mem hkv

/-- The reply to `list` passes every check after the epoch. -/
theorem checkStore_listReply {s : Server} (h : s.WellFormed) : checkStore s.listReply = .ok () := by
  have hrows (kv : String × ManagedEntry) (hkv : kv ∈ s.states.items) :
      kv.1 ≠ "" ∧ kv.1 ∉ [] ∧ 0 < kv.2.state.tokens.length ∧ 0 < kv.2.state.size := by
    have hget : s.states.get? kv.1 = some kv.2 := Dict.get?_eq_some_iff.mpr hkv
    have hstate : s.stateOf kv.1 = some kv.2.state := by rw [Server.stateOf, hget]; rfl
    obtain ⟨n, -, hname⟩ := h.numbered (Dict.mem_keys_of_get? hget)
    exact ⟨hname ▸ formatHandle_ne_empty n, by simp, h.size_pos hstate⟩
  have hsum := checkRows_ok s.states.items [] 0 0 hrows s.states.nodup
  have hcount (name : String) (n : ℕ) (hfield : s.listReply.get name = .int n) :
      storeCount s.listReply name = .ok n := by
    rw [storeCount, hfield]
    exact if_neg (by omega)
  have htokens : ((s.managedTokens : ℕ) : ℤ) =
      (s.states.items.map (fun kv => (kv.2.state.tokens.length : ℤ))).sum := by
    simp [Server.managedTokens, Function.comp_def]
  have hbytes : ((s.managedBytes : ℕ) : ℤ) =
      (s.states.items.map (fun kv => (kv.2.state.size : ℤ))).sum := by
    simp [Server.managedBytes, Function.comp_def]
  unfold checkStore
  rw [hcount "n_handles" s.states.size rfl, hcount "n_tokens" s.managedTokens rfl,
    hcount "n_bytes" s.managedBytes rfl, storeRows_listReply]
  dsimp only
  rw [hsum, zero_add, zero_add, htokens, hbytes]
  simp [Dict.size]

namespace Server

/-- The reply to a `restore` and, without the slot, to a `drop`. -/
def handleReply (s : Server) (handle : String) (idSlot : Option ℤ) (state : ManagedState) : Json :=
  .obj ([("success", .bool true), ("epoch", .str s.epoch), ("handle", .str handle)] ++
    (idSlot.map fun id => ("id_slot", Json.int id)).toList ++
    [("n_tokens", .int state.tokens.length), ("n_bytes", .int state.size)])

theorem drop_ok {s : Server} {handle : String} {reply : Json}
    (h : (s.drop handle).1 = .ok reply) :
    ∃ state, s.stateOf handle = some state ∧ reply = s.handleReply handle none state := by
  unfold drop at h
  split at h
  · cases h
  · rename_i entry hentry
    cases h
    exact ⟨entry.state, by rw [stateOf, hentry]; rfl, rfl⟩

theorem restore_ok {s : Server} {up : Upstream} {idSlot : ℤ} {slot : Slot} {handle : String}
    {reply : Json} (h : (s.restore up idSlot slot handle).1 = .ok reply) :
    ∃ state, s.stateOf handle = some state ∧ reply = s.handleReply handle (some idSlot) state := by
  unfold restore at h
  split at h
  · cases h
  · rename_i entry hentry
    dsimp only at h
    split_ifs at h
    cases h
    exact ⟨entry.state, by rw [stateOf, hentry]; rfl, rfl⟩

/-- A success answer to a mutation comes from the task, in the server's epoch. -/
theorem post_ok {s : Server} {up : Upstream} {data reply : Json} {action : CacheAction}
    (hparse : parseAction data = .ok action) (hlist : action.action ≠ "list")
    (h : httpResult (s.postStatebraidCache up data).1 = .ok reply) :
    s.Accepts action.epoch ∧ (s.processTask up action).1 = .ok reply := by
  by_cases haccepts : s.Accepts action.epoch
  · rw [post_accepted hparse haccepts] at h
    refine ⟨haccepts, ?_⟩
    cases htask : (s.processTask up action).1 <;> rw [htask] at h <;> cases h
    rfl
  · obtain ⟨refusal, hpost⟩ := post_rejected up hparse hlist haccepts
    rw [hpost] at h
    cases h

/-- What a success answer to `drop` says. -/
theorem respond_drop_ok {s : Server} {x : Exchange} {epoch handle : String} {reply : Json}
    (h : (s.respond x (.drop epoch handle)).1 = .ok reply) :
    epoch = s.epoch ∧ ∃ state, s.stateOf handle = some state ∧
      reply = s.handleReply handle none state := by
  obtain ⟨haccepts, htask⟩ := post_ok (parseAction_drop epoch handle) (by simp) h
  rw [processTask_drop haccepts rfl] at htask
  exact ⟨haccepts.2, drop_ok htask⟩

/-- What a success answer to `restore` says. -/
theorem respond_restore_ok {s : Server} {x : Exchange} {epoch handle : String} {idSlot : ℕ}
    (hslot : idSlot < 2 ^ 31) {reply : Json}
    (h : (s.respond x (.restore epoch idSlot handle)).1 = .ok reply) :
    epoch = s.epoch ∧ ∃ state, s.stateOf handle = some state ∧
      reply = s.handleReply handle (some idSlot) state := by
  unfold respond at h
  obtain ⟨haccepts, htask⟩ := post_ok (parseAction_restore_of_lt epoch handle hslot) (by simp) h
  cases hat : s.slotAt idSlot with
  | none =>
    rw [processTask_noSlot haccepts (by simp) (by simp) hat] at htask
    cases htask
  | some slot =>
    rw [processTask_restore haccepts rfl hat] at htask
    exact ⟨haccepts.2, restore_ok htask⟩

/-- What a success answer to `clear` says. -/
theorem respond_clear_ok {s : Server} {x : Exchange} {epoch : String} {idSlot : ℕ}
    (hslot : idSlot < 2 ^ 31) {reply : Json}
    (h : (s.respond x (.clear epoch idSlot)).1 = .ok reply) :
    epoch = s.epoch ∧ ∃ n : ℕ, reply = .obj [("success", .bool true), ("epoch", .str s.epoch),
      ("id_slot", .int idSlot), ("n_cleared", .int n)] := by
  unfold respond at h
  obtain ⟨haccepts, htask⟩ := post_ok (parseAction_clear_of_lt epoch hslot) (by simp) h
  cases hat : s.slotAt idSlot with
  | none =>
    rw [processTask_noSlot haccepts (by simp) (by simp) hat] at htask
    cases htask
  | some slot =>
    rw [processTask_clear haccepts rfl hat] at htask
    cases htask
    exact ⟨haccepts.2, slot.tokens.length, rfl⟩

/-- What a success answer to `capture` says. -/
theorem respond_capture_ok {s : Server} {x : Exchange} {epoch : String} {idSlot : ℕ}
    (hslot : idSlot < 2 ^ 31) {tokens : List ℤ} (hvalid : ValidTokens tokens) {reply : Json}
    (h : (s.respond x (.capture epoch idSlot tokens)).1 = .ok reply) :
    epoch = s.epoch ∧ ∃ slot, s.slotAt idSlot = some slot ∧ tokens = slot.tokens ∧
      reply = s.captureReply idSlot (s.snapshot slot) (s.captureReclaims idSlot tokens) := by
  rcases s.respond_capture x epoch hslot hvalid.1 hvalid.2 with
    ⟨haccepts, r, houtcome, hrespond⟩ | ⟨-, e, hrespond⟩
  · rw [hrespond] at h
    cases houtcome with
    | refused | unread => cases h
    | stored slot hslot htokens =>
      cases h
      exact ⟨haccepts.2, slot, hslot, htokens, rfl⟩
  · rw [hrespond] at h
    cases h

end Server

/-! ## What the adapter reads in them -/

/-- What a reply says of a handle: its name and the accounting it was issued with. -/
structure Reports (reply : Json) (state : StateHandle) : Prop where
  handle : (reply.get "handle").eqStr state.handle = true
  nTokens : (reply.get "n_tokens").eqInt state.nTokens = true
  nbytes : (reply.get "n_bytes").eqInt state.nbytes = true

/-- A handle object that this adapter was given in the server's epoch, and whose state, as
long as there is one, has the accounting that the object carries. -/
structure Recorded (A : Adapter) (s : Server) (state : StateHandle) : Prop where
  binding : stateBinding A state = .ok ()
  issued : ∃ n < s.nextHandle, state.handle = formatHandle n
  accounting : ∀ stored, s.stateOf state.handle = some stored →
    state.nTokens = stored.tokens.length ∧ state.nbytes = stored.size

namespace Recorded

variable {A : Adapter} {s s' : Server} {state : StateHandle}

/-- A handle keeps its accounting as the epoch goes on. -/
theorem later (h : Recorded A s state) (hlater : s.Later s') : Recorded A s' state where
  binding := h.binding
  issued :=
    let ⟨n, hn, hname⟩ := h.issued
    ⟨n, lt_of_lt_of_le hn hlater.nextHandle, hname⟩
  accounting stored hstored := by
    obtain ⟨n, hn, hname⟩ := h.issued
    rw [hname] at hstored
    rcases hlater.stateOf n hn with heq | hnone
    · rw [heq, ← hname] at hstored
      exact h.accounting stored hstored
    · rw [hnone] at hstored
      cases hstored

/-- The state that a capture has just stored. -/
theorem captured (h : s.WellFormed) (evicted : List String) (slot : Slot) :
    Recorded A ((s.reclaim evicted).store (s.snapshot slot)) (capturedHandle A s slot) where
  binding := by simp [stateBinding, capturedHandle]
  issued := ⟨s.nextHandle, Nat.lt_succ_self _, rfl⟩
  accounting stored hstored := by
    have hname : (capturedHandle A s slot).handle = formatHandle s.nextHandle := rfl
    rw [hname, Server.stateOf_captured h, if_pos rfl] at hstored
    cases hstored
    exact ⟨rfl, rfl⟩

/-- A row of the store, read as a handle object. -/
theorem of_row (h : s.WellFormed) {kv : String × ManagedEntry} (hkv : kv ∈ s.states.items)
    {known : List String} (horphan : orphanOf A known (Server.handleRow kv) = some state) :
    Recorded A s state := by
  have hget : s.states.get? kv.1 = some kv.2 := Dict.get?_eq_some_iff.mpr hkv
  have hstate : s.stateOf kv.1 = some kv.2.state := by rw [Server.stateOf, hget]; rfl
  have hread : state = ⟨A.backendIdentity, A.managedEpoch, kv.1, A.idSlot,
      kv.2.state.tokens.length, kv.2.state.size⟩ := by
    have hrow : orphanOf A known (Server.handleRow kv) =
        if kv.1 ∈ known then none else some ⟨A.backendIdentity, A.managedEpoch, kv.1, A.idSlot,
          kv.2.state.tokens.length, kv.2.state.size⟩ := rfl
    rw [hrow] at horphan
    split_ifs at horphan
    exact (Option.some.inj horphan).symm
  subst hread
  refine ⟨by simp [stateBinding], h.numbered (Dict.mem_keys_of_get? hget), ?_⟩
  intro stored hstored
  rw [hstate] at hstored
  cases hstored
  exact ⟨rfl, rfl⟩

/-- What a reply says that reports the state the server has. -/
theorem reports_handleReply (h : Recorded A s state) (idSlot : Option ℤ) {stored : ManagedState}
    (hstored : s.stateOf state.handle = some stored) :
    Reports (s.handleReply state.handle idSlot stored) state := by
  obtain ⟨htokens, hbytes⟩ := h.accounting stored hstored
  cases idSlot with
  | none =>
    constructor <;>
      simp [Server.handleReply, Json.get, Json.eqStr, Json.asStr?, Json.eqInt, List.lookup_cons,
        htokens, hbytes]
  | some id =>
    constructor <;>
      simp [Server.handleReply, Json.get, Json.eqStr, Json.asStr?, Json.eqInt, List.lookup_cons,
        htokens, hbytes]

/-- What a row says that bears the name of the handle. -/
theorem reports_row (h : Recorded A s state) {kv : String × ManagedEntry}
    (hkv : kv ∈ s.states.items)
    (hname : ((Server.handleRow kv).get "handle").eqStr state.handle = true) :
    Reports (Server.handleRow kv) state := by
  have heq : kv.1 = state.handle := by
    simpa [Server.handleRow, Json.get, Json.eqStr, Json.asStr?] using hname
  have hget : s.states.get? kv.1 = some kv.2 := Dict.get?_eq_some_iff.mpr hkv
  obtain ⟨htokens, hbytes⟩ := h.accounting kv.2.state (by
    rw [← heq, Server.stateOf, hget]
    rfl)
  refine ⟨hname, ?_, ?_⟩ <;>
    simp [Server.handleRow, Json.get, Json.eqInt, List.lookup_cons, htokens, hbytes]

end Recorded

section Answered

variable {A : Adapter} {w w' : World} {reply : Json}

/-- The reply to `list` is returned as it came, in the epoch that is asked for. -/
theorem readStore_answered {pinned : Option String} (hsteady : w.Steady)
    (hwell : w.server.WellFormed) (hne : w.server.epoch ≠ "")
    (hpinned : ∀ epoch ∈ pinned, w.server.epoch = epoch)
    (h : exchange .list w = (.ok reply, w')) :
    reply = w.server.listReply ∧ readStore pinned w = (.ok reply, w') := by
  have hsent : w.sent.server = w.server := by rw [hsteady.sent]
  obtain ⟨hreply, -⟩ := exchange_ok h
  rw [hsent, Server.respond_list] at hreply
  split_ifs at hreply
  cases hreply
  refine ⟨rfl, ?_⟩
  unfold readStore
  rw [bind_of_ok h, if_neg (by simp [Server.listReply, Json.isObject, Json.get, Json.isTrue])]
  have hread : (w.server.listReply.get "epoch").asStr? = some w.server.epoch := rfl
  rw [hread]
  dsimp only
  rw [if_neg hne, if_neg, checkStore_listReply hwell]
  · rfl
  · rw [Option.any_eq_true]
    rintro ⟨epoch, hmem, hother⟩
    exact (of_decide_eq_true hother) (hpinned epoch hmem)

theorem managedStore_answered (hsteady : w.Steady) (hwell : w.server.WellFormed)
    (hepoch : w.server.epoch = A.managedEpoch) (h : exchange .list w = (.ok reply, w')) :
    reply = w.server.listReply ∧ managedStore A w = (.ok reply, w') :=
  readStore_answered hsteady hwell (hepoch ▸ A.epoch_ne)
    (fun _ hmem => hepoch.trans (Option.some.inj hmem)) h

/-- A success answer to a mutation in the adapter's epoch is returned as it came. -/
theorem postManaged_answered {request : Request} (h : exchange request w = (.ok reply, w'))
    (hobject : reply.isObject = true) (hsuccess : (reply.get "success").isTrue = true)
    (hepoch : (reply.get "epoch").eqStr A.managedEpoch = true) :
    postManaged A request w = (.ok reply, w') := by
  unfold postManaged Transport.postManaged
  rw [bind_of_ok h, if_neg (by simp [hobject]), if_neg (by simp [hsuccess]),
    if_neg (by simp [hepoch])]
  rfl

theorem clearLiveSlot_answered
    (h : exchange (.clear A.managedEpoch A.idSlot) w = (.ok reply, w')) :
    ∃ n, clearLiveSlot A w = (.ok n, w') := by
  obtain ⟨hreply, -⟩ := exchange_ok h
  obtain ⟨hepoch, n, rfl⟩ := Server.respond_clear_ok A.idSlot_lt hreply
  have hpost := postManaged_answered (A := A) h rfl rfl
    (by simp [Json.get, Json.eqStr, Json.asStr?, List.lookup_cons, hepoch])
  refine ⟨n, ?_⟩
  unfold clearLiveSlot Transport.clearLiveSlot
  rw [bind_of_ok hpost, if_neg (by simp [Json.get, Json.eqInt, List.lookup_cons])]
  exact congrFun (if_neg (by omega)) w'

theorem captureCurrentState_answered {tokens : List ℤ} (hvalid : ValidTokens tokens)
    (hwell : w.sent.server.WellFormed)
    (h : exchange (.capture A.managedEpoch A.idSlot tokens) w = (.ok reply, w')) :
    ∃ captured, captureCurrentState A tokens w = (.ok captured, w') ∧
      Reports reply captured.1 := by
  obtain ⟨hreply, -⟩ := exchange_ok h
  obtain ⟨hepoch, slot, hslot, htokens, rfl⟩ :=
    Server.respond_capture_ok A.idSlot_lt hvalid hreply
  refine ⟨_, captureCurrentState_ok hvalid hwell hslot htokens hepoch.symm
    (fun _ => Server.captureReclaims_alive) h, ?_⟩
  constructor <;>
    simp [Server.captureReply, capturedHandle, Server.snapshot, Json.get, Json.eqStr, Json.asStr?,
      Json.eqInt, List.lookup_cons]

theorem restoreState_answered {state : StateHandle} (hrecorded : Recorded A w.sent.server state)
    (h : exchange (.restore A.managedEpoch A.idSlot state.handle) w = (.ok reply, w')) :
    restoreState A state w = (.ok (), w') ∧ Reports reply state := by
  obtain ⟨hreply, -⟩ := exchange_ok h
  obtain ⟨hepoch, stored, hstored, rfl⟩ := Server.respond_restore_ok A.idSlot_lt hreply
  have hreports := hrecorded.reports_handleReply (some A.idSlot) hstored
  refine ⟨?_, hreports⟩
  have hpost := postManaged_answered (A := A) h rfl rfl
    (by simp [Server.handleReply, Json.get, Json.eqStr, Json.asStr?, List.lookup_cons, hepoch])
  unfold restoreState Transport.restoreState
  rw [hrecorded.binding, ofExcept_ok_bind_apply, bind_of_ok hpost, if_neg, if_neg]
  · rfl
  · rw [hreports.nTokens, hreports.nbytes]
    simp
  · rw [hreports.handle]
    simp [Server.handleReply, Json.get, Json.eqInt, List.lookup_cons]

theorem dropState_answered {state : StateHandle} (hrecorded : Recorded A w.sent.server state)
    (h : exchange (.drop A.managedEpoch state.handle) w = (.ok reply, w')) :
    dropState A state w = (.ok (), w') ∧ Reports reply state := by
  obtain ⟨hreply, -⟩ := exchange_ok h
  obtain ⟨hepoch, stored, hstored, rfl⟩ := Server.respond_drop_ok hreply
  have hreports := hrecorded.reports_handleReply none hstored
  refine ⟨?_, hreports⟩
  have hpost := postManaged_answered (A := A) h rfl rfl
    (by simp [Server.handleReply, Json.get, Json.eqStr, Json.asStr?, List.lookup_cons, hepoch])
  have hreturn : (do
      let response ← postManaged A (.drop A.managedEpoch state.handle)
      pure (some response) : Exec PyError World (Option Json)) w =
        (.ok (some (w.sent.server.handleReply state.handle none stored)), w') := by
    rw [bind_of_ok hpost]
    rfl
  unfold dropState
  rw [hrecorded.binding, ofExcept_ok_bind_apply, bind_of_ok (tryExcept_of_ok hreturn _)]
  dsimp only
  rw [if_neg (by simp [hreports.handle]), if_neg (by simp [hreports.nTokens, hreports.nbytes])]
  rfl

end Answered

/-! ## An epoch -/

/-- The methods of the adapter that address the managed store. -/
inductive Method
  | managedStore
  | clearLiveSlot
  | captureCurrentState (expectedTokens : List ℤ)
  | restoreState (state : StateHandle)
  | dropState (state : StateHandle)

/-- Call a method. The handle objects it hands out are a captured state, and the rows of a
store read as an orphan reconciliation takes them. -/
def Method.call (A : Adapter) : Method → Exec PyError World (List StateHandle)
  | .managedStore => do
    let store ← Managed.managedStore A
    pure (((storeRows store).getD []).filterMap (orphanOf A []))
  | .clearLiveSlot => do
    let _ ← Managed.clearLiveSlot A
    pure []
  | .captureCurrentState expectedTokens => do
    let captured ← Managed.captureCurrentState A expectedTokens
    pure [captured.1]
  | .restoreState state => do
    Managed.restoreState A state
    pure []
  | .dropState state => do
    Managed.dropState A state
    pure []

/-- What can happen in an epoch: any client posts any body, an execution leaves a slot with
another content, or the adapter calls a method, its requests going by a script. -/
inductive Moment
  | posted (up : Upstream) (data : Json)
  | executed (idSlot : ℤ) (slot : LiveSlot)
  | called (method : Method) (script : List Exchange)

/-- No restart: the epoch goes on. -/
def Moment.Steady : Moment → Prop
  | .called _ script => ∀ x ∈ script, x.restart = none
  | _ => True

/-- The world with every handle object that the adapter has handed out in it. -/
structure Epoch where
  world : World
  issued : List StateHandle

namespace Epoch

/-- The epoch with other exchanges ahead. -/
def scripted (e : Epoch) (script : List Exchange) : World := { e.world with script := script }

/-- One moment. -/
def step (A : Adapter) (e : Epoch) : Moment → Epoch
  | .posted up data =>
    { e with world := { e.world with
      server := (e.world.server.postStatebraidCache up data).2 } }
  | .executed idSlot slot =>
    { e with world := { e.world with server := e.world.server.setSlot idSlot slot.val } }
  | .called method script =>
    match method.call A (e.scripted script) with
    | (.ok states, w) => ⟨w, states ++ e.issued⟩
    | (.error _, w) => ⟨w, e.issued⟩

/-- The beginning of an epoch. -/
def start (server : Server) : Epoch := ⟨⟨server, [], [], .empty, .empty, []⟩, []⟩

/-- The epochs that a started server can get to. -/
def Reached (A : Adapter) (server : FreshServer A) (e : Epoch) : Prop :=
  Run (step A) (fun _ moment => moment.Steady) (start server.server) e

end Epoch

/-- The server keeps its epoch, and knows every handle handed out or has dropped it. -/
structure InEpoch (A : Adapter) (e : Epoch) : Prop where
  wellFormed : e.world.server.WellFormed
  epoch : e.world.server.epoch = A.managedEpoch
  recorded : ∀ state ∈ e.issued, Recorded A e.world.server state

namespace InEpoch

variable {A : Adapter} {e : Epoch}

theorem start (server : FreshServer A) : InEpoch A (Epoch.start server.server) where
  wellFormed := server.wellFormed
  epoch := server.epoch
  recorded := by simp [Epoch.start]

/-- The server moves on, and the adapter learns of new handles. -/
theorem later (h : InEpoch A e) {w : World} (hlater : e.world.server.Later w.server)
    {states : List StateHandle} (hstates : ∀ state ∈ states, Recorded A w.server state) :
    InEpoch A ⟨w, states ++ e.issued⟩ where
  wellFormed := hlater.wellFormed
  epoch := hlater.epoch.trans h.epoch
  recorded state hmem := by
    rcases List.mem_append.mp hmem with hnew | hold
    · exact hstates state hnew
    · exact (h.recorded state hold).later hlater

theorem moved (h : InEpoch A e) (w : World) (hlater : e.world.server.Later w.server) :
    InEpoch A { e with world := w } :=
  h.later hlater (List.forall_mem_nil _)

end InEpoch

/-- No method takes the server out of its epoch. -/
theorem Method.call_later (A : Adapter) (s : Server) (method : Method) :
    Keeps (LaterWorld s) (method.call A) := by
  have hrequest := exchange_later s
  cases method with
  | managedStore => exact (managedStore_keeps (hrequest _)).bind fun _ => Keeps.pure _
  | clearLiveSlot => exact (clearLiveSlot_keeps (hrequest _)).bind fun _ => Keeps.pure _
  | captureCurrentState tokens =>
    exact (captureCurrentState_keeps tokens (hrequest _) (fun _ => hrequest _) (hrequest _)).bind
      fun _ => Keeps.pure _
  | restoreState state => exact (restoreState_keeps (hrequest _)).bind fun _ => Keeps.pure _
  | dropState state =>
    exact (dropState_keeps state (hrequest _) (hrequest _)).bind fun _ => Keeps.pure _

/-- What a method hands out is on record. -/
theorem Method.call_recorded {A : Adapter} {method : Method} {w w' : World}
    {states : List StateHandle} (hwell : w.server.WellFormed)
    (hwell' : w'.server.WellFormed) (h : method.call A w = (.ok states, w')) :
    ∀ state ∈ states, Recorded A w'.server state := by
  cases method with
  | managedStore =>
    obtain ⟨store, w₁, hread, hreturn⟩ := bind_eq_ok h
    cases hreturn
    obtain ⟨rfl, -⟩ := managedStore_ok hread
    intro state hmem
    obtain ⟨row, hrow, horphan⟩ := List.mem_filterMap.mp hmem
    rw [storeRows_listReply, Option.getD_some] at hrow
    obtain ⟨kv, hkv, rfl⟩ := List.mem_map.mp hrow
    exact Recorded.of_row hwell' hkv horphan
  | captureCurrentState tokens =>
    obtain ⟨⟨state, evicted⟩, w₁, hcapture, hreturn⟩ := bind_eq_ok h
    cases hreturn
    obtain ⟨slot, -, -, -, -, rfl, -, rfl⟩ := capture_returned hwell hcapture
    intro state hmem
    rw [List.mem_singleton.mp hmem]
    exact Recorded.captured (World.sent_wellFormed hwell) _ _
  | clearLiveSlot | restoreState | dropState =>
    obtain ⟨_, _, -, hreturn⟩ := bind_eq_ok h
    cases hreturn
    simp

/-- One moment keeps the epoch. -/
theorem InEpoch.step {A : Adapter} {e : Epoch} (h : InEpoch A e) {moment : Moment}
    (hsteady : moment.Steady) : InEpoch A (e.step A moment) := by
  cases moment with
  | posted up data => exact h.moved _ (.post h.wellFormed up data)
  | executed idSlot slot =>
    have hwell := h.wellFormed.setSlot idSlot slot.val slot.property
    exact h.moved _ (.of_sameStore (Server.sameStore_setSlot _ _ _) hwell)
  | called method script =>
    have hstart : LaterWorld e.world.server (e.scripted script) :=
      ⟨hsteady, .refl h.wellFormed⟩
    have hend := (method.call_later A e.world.server).state hstart
    unfold Epoch.step
    dsimp only
    rcases hcall : method.call A (e.scripted script) with ⟨⟨error⟩ | ⟨states⟩, w⟩
    · rw [hcall] at hend
      exact h.moved _ hend.2
    · rw [hcall] at hend
      exact h.later hend.2 (Method.call_recorded hstart.2.wellFormed hend.2.wellFormed hcall)

theorem Epoch.Reached.inEpoch {A : Adapter} {server : FreshServer A} {e : Epoch}
    (h : e.Reached A server) : InEpoch A e :=
  Run.invariant (I := InEpoch A) (.start server) (fun _ _ he hsteady => he.step hsteady) h

/-! ## Every success answer is understood -/

/-- A success answer to a request of the adapter passes every check of the method that
sent it, and what it says of a handle that was handed out is what the object says. -/
structure Understands (A : Adapter) (issued : List StateHandle) (w : World) : Prop where
  list : ∀ {reply w'}, exchange .list w = (.ok reply, w') →
    managedStore A w = (.ok reply, w') ∧
      ∀ state ∈ issued, ∀ row ∈ (storeRows reply).getD [],
        (row.get "handle").eqStr state.handle = true → Reports row state
  clear : ∀ {reply w'}, exchange (.clear A.managedEpoch A.idSlot) w = (.ok reply, w') →
    ∃ nCleared, clearLiveSlot A w = (.ok nCleared, w')
  capture : ∀ {tokens reply w'}, captureTokens tokens = .ok () →
    exchange (.capture A.managedEpoch A.idSlot tokens) w = (.ok reply, w') →
    ∃ captured, captureCurrentState A tokens w = (.ok captured, w') ∧ Reports reply captured.1
  restore : ∀ state ∈ issued, ∀ {reply w'},
    exchange (.restore A.managedEpoch A.idSlot state.handle) w = (.ok reply, w') →
    restoreState A state w = (.ok (), w') ∧ Reports reply state
  drop : ∀ state ∈ issued, ∀ {reply w'},
    exchange (.drop A.managedEpoch state.handle) w = (.ok reply, w') →
    dropState A state w = (.ok (), w') ∧ Reports reply state

/-- In every epoch, after any moments in it and whatever happens to its next requests, the
adapter understands the server. -/
theorem adapter_understands_server {A : Adapter} {server : FreshServer A} {e : Epoch}
    (h : e.Reached A server) {script : List Exchange} (hscript : ∀ x ∈ script, x.restart = none) :
    Understands A e.issued (e.scripted script) := by
  have hepoch := h.inEpoch
  have hsteady : (e.scripted script).Steady := hscript
  have hwell : (e.scripted script).server.WellFormed := hepoch.wellFormed
  have hsent : (e.scripted script).sent.server = e.world.server := by
    rw [hsteady.sent]
    rfl
  have hrecorded (state : StateHandle) (hmem : state ∈ e.issued) :
      Recorded A (e.scripted script).sent.server state := by
    rw [hsent]
    exact hepoch.recorded state hmem
  refine ⟨fun hanswer => ?_, clearLiveSlot_answered, fun {tokens reply w'} htokens hanswer => ?_,
    fun state hmem _ _ => restoreState_answered (hrecorded state hmem),
    fun state hmem _ _ => dropState_answered (hrecorded state hmem)⟩
  · obtain ⟨rfl, hread⟩ := managedStore_answered hsteady hwell hepoch.epoch hanswer
    refine ⟨hread, fun state hmem row hrow hname => ?_⟩
    rw [storeRows_listReply, Option.getD_some] at hrow
    obtain ⟨kv, hkv, rfl⟩ := List.mem_map.mp hrow
    exact (hepoch.recorded state hmem).reports_row hkv hname
  · have hvalid : ValidTokens tokens := by
      by_contra hinvalid
      obtain ⟨error, herror⟩ := captureTokens_error hinvalid
      rw [herror] at htokens
      cases htokens
    exact captureCurrentState_answered hvalid (hsent ▸ hwell) hanswer

open Sample

/-- A handle captured, then dropped: the answer to the drop is understood. -/
theorem captured_handle_understood :
    Understands adapter
      ((Epoch.start server.server).step adapter (.called (.captureCurrentState [1, 2]) [])).issued
      (((Epoch.start server.server).step adapter
        (.called (.captureCurrentState [1, 2]) [])).scripted [.normal]) :=
  have hreached : Epoch.Reached adapter server
      ((Epoch.start server.server).step adapter (.called (.captureCurrentState [1, 2]) [])) :=
    .next .start (by simp [Moment.Steady])
  adapter_understands_server hreached (by simp [Exchange.normal])

end StateBraid.Managed
