import StateBraid.LlamaCpp.HttpAdapter
import StateBraid.Managed.FaultFree
import StateBraid.Managed.Fence

/-!
# Opening a client

The constructors of the adapter, of the storage backend and of the facade, over whatever
earlier clients have left on the server. They only read. They return over an empty store
alone, so that a session never begins with handles of somebody else.
-/
namespace StateBraid.Managed
open Library Policy Coordinator LlamaCpp Exec

/-! ## The constructors -/

/-- The parts of a URL that the constructor reads; no host name reads as `""`. -/
structure ParsedUrl where
  scheme : String
  hostname : String

/-- `urlparse`, and whether `ipaddress` takes a host name for a loopback address. -/
structure UrlLibrary where
  urlparse : String → Except PyError ParsedUrl
  isLoopbackAddress : String → Bool

/-- The gate of the managed adapter in front of the stock constructor. -/
def loopbackGate (urls : UrlLibrary) (baseUrl : String) : Except PyError Unit :=
  match urls.urlparse baseUrl with
  | .error e => .error e
  | .ok parsed =>
    let isLoopback := parsed.hostname.toLower = "localhost" ∨ urls.isLoopbackAddress parsed.hostname
    if parsed.scheme ∉ ["http", "https"] ∨ ¬ isLoopback then
      .error (.unsupportedBackendCapability
        "llama.cpp managed-storage M1 is qualified only through a loopback base_url")
    else .ok ()

/-- What `LlamaCppManagedHTTPAdapter.__init__` leaves: the stock adapter and the epoch it is
pinned to. -/
structure PinnedAdapter extends HttpAdapter where
  managedEpoch : String

/-- `LlamaCppManagedHTTPAdapter.__init__`. -/
def openAdapter (urls : UrlLibrary) (baseUrl : String) (idSlot : ℤ) (trustDomain : String) :
    Exec PyError World PinnedAdapter := do
  Exec.ofExcept (loopbackGate urls baseUrl)
  let stock ← Exec.ofExcept (HttpAdapter.new baseUrl idSlot trustDomain)
  let totalSlots ← requireReferenceSource
  Transport.modelled.requireExactSlot stock.idSlot totalSlots
  let store ← readStore none
  pure ⟨stock, ((store.get "epoch").asStr?).getD ""⟩

/-- `LlamaCppManagedStorageBackend.__init__` with its default `require_empty=True`. -/
def openBackend (adapter : PinnedAdapter) : Exec PyError World Unit := do
  Exec.modify (fun w => { w with records := .empty, pendingDrops := .empty })
  let store ← readStore (some adapter.managedEpoch)
  if (store.get "n_handles").asInt?.any (· ≠ 0) then
    Exec.raise (.unsupportedBackendCapability
      "managed llama.cpp store is not empty; refusing to adopt unknown handles")
  else pure ()

/-- The arguments of the two constructors that a caller writes. -/
structure OpenArgs where
  baseUrl : String
  idSlot : ℤ
  trustDomain : String
  maxSequences : ℤ
  maxBytes : ℤ
  transientReserve : Option ℤ

/-- The policy that the facade makes of its arguments; it passes no pin roles. -/
def OpenArgs.config (args : OpenArgs) : PolicyConfig :=
  .new args.maxSequences args.maxBytes ∅ args.transientReserve

/-- `LlamaCppStateBraidPromptCache(LlamaCppManagedHTTPAdapter(...), ...)`. -/
def openClient (urls : UrlLibrary) (args : OpenArgs) :
    Exec PyError World (PinnedAdapter × PromptCache) := do
  let adapter ← openAdapter urls args.baseUrl args.idSlot args.trustDomain
  openBackend adapter
  let backend ← Exec.gets id
  pure (adapter, ⟨.new args.config, backend⟩)

/-! ## Reading -/

/-- The requests of a constructor. -/
def Request.Reads : Request → Prop
  | .props | .slots | .list => True
  | _ => False

theorem Server.respond_reads (s : Server) (x : Exchange) {request : Request} (h : request.Reads) :
    (s.respond x request).2 = s := by
  cases request with
  | props | slots => rfl
  | list =>
    rw [respond_list]
    split <;> rfl
  | completion | clear | capture | restore | drop => exact h.elim

/-! ## What a constructor keeps -/

section Keeps

variable {I : World → Prop}

theorem openAdapter_keeps (urls : UrlLibrary) (baseUrl : String) (idSlot : ℤ)
    (trustDomain : String) (hread : ∀ request, request.Reads → Keeps I (exchange request)) :
    Keeps I (openAdapter urls baseUrl idSlot trustDomain) :=
  (Keeps.ofExcept _).bind fun _ => (Keeps.ofExcept _).bind fun _ =>
    (requireReferenceSource_keeps (T := .modelled) (hread .props trivial)).bind fun _ =>
    (requireExactSlot_keeps (T := .modelled) (hread .slots trivial)).bind fun _ =>
    (readStore_keeps (hread _ trivial)).bind fun _ => Keeps.pure _

theorem openClient_keeps (urls : UrlLibrary) (args : OpenArgs)
    (hread : ∀ request, request.Reads → Keeps I (exchange request))
    (hrebound : ∀ w records pending, I w → I { w with records := records, pendingDrops := pending }) :
    Keeps I (openClient urls args) := by
  refine (openAdapter_keeps urls _ _ _ hread).bind fun adapter => ?_
  refine Keeps.bind ?_ fun _ => (Keeps.gets id).bind fun _ => Keeps.pure _
  refine (Keeps.modify fun w => hrebound w _ _).bind fun _ => ?_
  refine (readStore_keeps (hread _ trivial)).bind fun store => ?_
  split
  · exact Keeps.raise _
  · exact Keeps.pure ()

end Keeps

/-- Some restarts, and nothing else. -/
def Server.Restarts : Server → Server → Prop :=
  Relation.ReflTransGen fun s s' => ∃ epoch, s' = s.restart epoch

/-- Taking an exchange off the script restarts the server or leaves it. -/
theorem World.sent_restarts {s : Server} {w : World} (h : s.Restarts w.server) :
    s.Restarts w.sent.server := by
  unfold World.sent World.advance
  split
  · exact h
  dsimp only
  split
  · exact h
  · exact h.tail ⟨_, rfl⟩

/-- A read changes nothing on the server, and what follows in the script is what followed. -/
theorem exchange_reads (s : Server) (may : Exchange → Prop) {request : Request}
    (hreads : request.Reads) :
    Keeps (fun w => s.Restarts w.server ∧ ∀ x ∈ w.script, may x) (exchange request) := by
  refine Keeps.of_state fun w h => ?_
  have hserver : s.Restarts w.sent.server := World.sent_restarts h.1
  have hscript : ∀ x ∈ w.sent.script, may x := fun x hx =>
    h.2 x (List.mem_of_mem_tail (w.sent_script ▸ hx))
  have hcases := exchange_cases request w
  generalize exchange request w = r at hcases ⊢
  cases hcases with
  | unsent => exact ⟨hserver, hscript⟩
  | answered | lost =>
    refine ⟨?_, hscript⟩
    change s.Restarts (w.sent.server.respond w.next request).2
    rwa [Server.respond_reads _ _ hreads]

/-- Without restarts it stays the same server. -/
theorem exchange_reads_steady (s : Server) {request : Request} (hreads : request.Reads) :
    Keeps (fun w => w.server = s ∧ w.Steady) (exchange request) := by
  refine Keeps.of_state fun w h => ?_
  have hsteady : w.sent.Steady := fun x hx => h.2 x (List.mem_of_mem_tail (w.sent_script ▸ hx))
  have hserver : w.sent.server = s := by
    rw [h.2.sent]
    exact h.1
  have hcases := exchange_cases request w
  generalize exchange request w = r at hcases ⊢
  cases hcases with
  | unsent => exact ⟨hserver, hsteady⟩
  | answered | lost => exact ⟨(Server.respond_reads _ _ hreads).trans hserver, hsteady⟩

/-! ## What a constructor that returns has checked -/

/-- A server's slot ids are 32-bit. -/
def Exchange.Int32Slots (x : Exchange) : Prop :=
  ∀ items, x.answer = .ok (.arr items) → ∀ item ∈ items, ∀ id, (item.get "id").asInt? = some id →
    id < 2 ^ 31

/-- The slot was listed by the answer to the request. -/
theorem requireExactSlot_ok {idSlot totalSlots : ℤ} {w w' : World}
    (h : Transport.modelled.requireExactSlot idSlot totalSlots w = (.ok (), w')) :
    ∃ items, w.next.answer = .ok (.arr items) ∧
      ∃ item ∈ items, (item.get "id").asInt? = some idSlot := by
  obtain ⟨items, w₁, hslots, h⟩ := bind_eq_ok h
  obtain ⟨payload, w₂, hexchange, hslots⟩ := bind_eq_ok hslots
  obtain ⟨hreply, -⟩ := exchange_ok hexchange
  have hanswer : w.next.answer = .ok payload := by
    cases hx : w.next.answer with
    | error message =>
      rw [Server.respond, hx] at hreply
      cases hreply
    | ok reply =>
      rw [Server.respond, hx] at hreply
      exact congrArg _ (Except.ok.inj hreply)
  have hitems : payload = .arr items := by
    split at hslots
    · split at hslots
      · cases hslots
        rfl
      · cases hslots
    · cases hslots
  refine ⟨items, hitems ▸ hanswer, ?_⟩
  dsimp only at h
  split at h
  · cases h
  split at h
  · cases h
  rename_i hlisted
  simpa using hlisted

/-- An adapter that was constructed is pinned to an epoch that has a name, for a slot whose id
is 32-bit. -/
theorem openAdapter_ok {urls : UrlLibrary} {baseUrl trustDomain : String} {idSlot : ℤ}
    {P : PinnedAdapter} {w w' : World} (hslots : ∀ x ∈ w.script, x.Int32Slots)
    (h : openAdapter urls baseUrl idSlot trustDomain w = (.ok P, w')) :
    P.idSlot < 2 ^ 31 ∧ P.managedEpoch ≠ "" := by
  obtain ⟨_, w₁, hgate, h⟩ := bind_eq_ok h
  obtain ⟨-, rfl⟩ := Prod.mk.inj hgate
  obtain ⟨stock, w₁, hstock, h⟩ := bind_eq_ok h
  obtain ⟨-, rfl⟩ := Prod.mk.inj hstock
  obtain ⟨totalSlots, w₁, hsource, h⟩ := bind_eq_ok h
  obtain ⟨_, w₂, hlisted, h⟩ := bind_eq_ok h
  obtain ⟨store, w₃, hread, h⟩ := bind_eq_ok h
  obtain ⟨hadapter, -⟩ := Prod.mk.inj h
  obtain ⟨hstore, -, hne, -⟩ := readStore_ok hread
  cases hadapter
  have hrest : ∀ x ∈ w₁.script, x.Int32Slots := by
    have hprops := exchange_reads w.server Exchange.Int32Slots (show Request.props.Reads from trivial)
    have hkeeps := requireReferenceSource_keeps (T := .modelled) hprops
    exact (hkeeps.ok ⟨.refl, hslots⟩ hsource).2
  refine ⟨?_, ?_⟩
  · obtain ⟨items, hanswer, item, hitem, hid⟩ := requireExactSlot_ok hlisted
    have hnext : w₁.next.Int32Slots := by
      unfold World.next
      cases hscript : w₁.script with
      | nil => exact fun _ hnull => by cases hnull
      | cons x script => exact hrest x (by simp [hscript])
    exact hnext items hanswer item hitem _ hid
  · rw [hstore]
    exact hne

/-- An opened backend has an empty registry, over an empty store of the pinned epoch. -/
theorem openBackend_ok {P : PinnedAdapter} {w w' : World} (h : openBackend P w = (.ok (), w')) :
    w'.records = .empty ∧ w'.pendingDrops = .empty ∧ w'.server.enabled = true ∧
      w'.server.epoch = P.managedEpoch ∧ w'.server.states = .empty := by
  unfold openBackend at h
  rw [modify_bind_apply] at h
  obtain ⟨store, w₁, hread, h⟩ := bind_eq_ok h
  have hregistry : w₁.records = .empty ∧ w₁.pendingDrops = .empty := by
    have hlist := registry_keeps (.empty : Dict Key StateHandle) .empty .list
    exact (readStore_keeps hlist).ok ⟨rfl, rfl⟩ hread
  obtain ⟨hstore, henabled, -, hepoch⟩ := readStore_ok hread
  have hcount : (store.get "n_handles").asInt? = some (w₁.server.states.size : ℤ) := by
    rw [hstore]
    rfl
  rw [hcount] at h
  split at h
  · cases h
  rename_i hzero
  obtain ⟨-, rfl⟩ := Prod.mk.inj h
  refine ⟨hregistry.1, hregistry.2, henabled, hepoch _ rfl, ?_⟩
  have hsize : w₁.server.states.size = 0 := by simpa using hzero
  exact Dict.ext (List.eq_nil_of_length_eq_zero hsize)

/-- With the checks before it passed and the reads of the store going through, a constructor
returns exactly when the store is empty. -/
theorem opens_iff_empty {urls : UrlLibrary} {args : OpenArgs} {stock : HttpAdapter}
    {w w₁ w₂ : World} {totalSlots : ℤ} (hgate : loopbackGate urls args.baseUrl = .ok ())
    (hstock : HttpAdapter.new args.baseUrl args.idSlot args.trustDomain = .ok stock)
    (hsource : requireReferenceSource w = (.ok totalSlots, w₁))
    (hlisted : Transport.modelled.requireExactSlot stock.idSlot totalSlots w₁ = (.ok (), w₂))
    (hfaultFree : w₂.FaultFree) (hwell : w₂.server.WellFormed)
    (henabled : w₂.server.enabled = true) (hne : w₂.server.epoch ≠ "") :
    (∃ opened w', openClient urls args w = (.ok opened, w')) ↔ w₂.server.states = .empty := by
  have hunpinned : ∀ epoch ∈ (none : Option String), w₂.server.epoch = epoch :=
    fun _ hnone => by cases hnone
  obtain ⟨w₃, hread, hsame, hfaultFree₃⟩ :=
    hfaultFree.readStore hwell henabled hne hunpinned
  set P : PinnedAdapter := ⟨stock, w₂.server.epoch⟩ with hP
  have hadapter : openAdapter urls args.baseUrl args.idSlot args.trustDomain w = (.ok P, w₃) := by
    unfold openAdapter
    rw [hgate, ofExcept_ok_bind_apply, hstock, ofExcept_ok_bind_apply, bind_of_ok hsource,
      bind_of_ok hlisted, bind_of_ok hread]
    rfl
  have hpinned : ∀ epoch ∈ some P.managedEpoch, w₃.server.epoch = epoch := by
    rintro epoch hmem
    obtain rfl : P.managedEpoch = epoch := Option.some.inj hmem
    exact congrArg Server.epoch hsame
  obtain ⟨w₄, hread₄, -, -⟩ := World.FaultFree.readStore
    (w := { w₃ with records := .empty, pendingDrops := .empty }) hfaultFree₃ (hsame ▸ hwell)
    (hsame ▸ henabled) (hsame ▸ hne) hpinned
  have hcount : (w₃.server.listReply.get "n_handles").asInt? = some (w₂.server.states.size : ℤ) := by
    rw [hsame]
    rfl
  have hempty : w₂.server.states = .empty ↔ w₂.server.states.size = 0 := by
    refine ⟨fun hstates => by rw [hstates]; rfl, fun hsize => ?_⟩
    exact Dict.ext (List.eq_nil_of_length_eq_zero hsize)
  unfold openClient openBackend
  rw [bind_of_ok hadapter, bind_apply, modify_bind_apply, bind_of_ok hread₄, hcount, hempty]
  by_cases hsize : w₂.server.states.size = 0
  · rw [if_neg (by simp [hsize])]
    exact ⟨fun _ => hsize, fun _ => ⟨_, _, rfl⟩⟩
  · rw [if_pos (by simp [hsize])]
    refine ⟨?_, fun hzero => absurd hzero hsize⟩
    rintro ⟨_, _, hrun⟩
    cases hrun

/-! ## Clients one after another -/

/-- The adapter of a session, from what the constructor left. -/
def PinnedAdapter.adapter (P : PinnedAdapter) (hslot : P.idSlot < 2 ^ 31)
    (hepoch : P.managedEpoch ≠ "") : Adapter where
  backendIdentity := P.backendIdentity
  idSlot := P.idSlot.toNat
  managedEpoch := P.managedEpoch
  idSlot_lt := by
    have := P.idSlot_nonneg
    omega
  epoch_ne := hepoch

/-- A session of a client; what is written down about its run begins here. -/
def Session.over (c : PromptCache) : Session :=
  ⟨{ c with backend := { c.backend with script := [], pastEpochs := [], history := [] } }, [], []⟩

/-- A server with the client that uses it, if there is one. -/
inductive Lifetime
  | unattended (server : Server)
  | attended (A : Adapter) (session : Session)

/-- A client is opened, after which an earlier one makes no more calls, or makes a call. -/
inductive Visit
  | opens (args : OpenArgs) (script : List Exchange)
  | calls (call : Call)

/-- The slot ids listed to a client that is being opened are 32-bit. -/
def Visit.Int32Slots : Visit → Prop
  | .opens _ script => ∀ x ∈ script, x.Int32Slots
  | .calls _ => True

namespace Lifetime

def server : Lifetime → Server
  | .unattended server => server
  | .attended _ session => session.cache.backend.server

/-- The world of a new client. A restart in it may draw an epoch that was there before. -/
def world (l : Lifetime) (script : List Exchange) : World :=
  ⟨l.server, [], script, .empty, .empty, []⟩

/-- Open a client. -/
def opened (urls : UrlLibrary) (l : Lifetime) (args : OpenArgs) (script : List Exchange) :
    Lifetime :=
  match openClient urls args (l.world script) with
  | (.ok (P, c), w) =>
    if h : P.idSlot < 2 ^ 31 ∧ P.managedEpoch ≠ "" then .attended (P.adapter h.1 h.2) (.over c)
    else .unattended w.server
  | (.error _, w) => .unattended w.server

/-- One visit. -/
def step (urls : UrlLibrary) : Lifetime → Visit → Lifetime
  | l, .opens args script => l.opened urls args script
  | .attended A s, .calls call => .attended A (s.step A call)
  | .unattended server, .calls _ => .unattended server

end Lifetime

/-- A constructor that returns leaves its client at the start of a session with the server. -/
theorem openClient_ok {urls : UrlLibrary} {args : OpenArgs} {P : PinnedAdapter} {c : PromptCache}
    {w w' : World} (hwell : w.server.WellFormed) (hslots : ∀ x ∈ w.script, x.Int32Slots)
    (h : openClient urls args w = (.ok (P, c), w')) :
    ∃ (hslot : P.idSlot < 2 ^ 31) (hepoch : P.managedEpoch ≠ "")
      (fresh : FreshServer (P.adapter hslot hepoch)), fresh.server = w'.server ∧
        Session.over c = .start args.config w'.server := by
  have hwell' : w'.server.WellFormed := by
    have hkeeps := openClient_keeps urls args (fun request _ => exchange_wellFormed request)
      fun w _ _ hw => hw
    exact hkeeps.ok hwell h
  obtain ⟨P', w₁, hadapter, h⟩ := bind_eq_ok h
  obtain ⟨_, w₂, hbackend, h⟩ := bind_eq_ok h
  rw [gets_bind_apply] at h
  obtain ⟨hpair, rfl⟩ := Prod.mk.inj h
  cases hpair
  obtain ⟨hslot, hepoch⟩ := openAdapter_ok hslots hadapter
  obtain ⟨hrecords, hpending, henabled, hsame, hstates⟩ := openBackend_ok hbackend
  refine ⟨hslot, hepoch, ⟨w₂.server, henabled, hsame, hstates, hwell'.slots⟩, rfl, ?_⟩
  unfold Session.over Session.start openCache
  dsimp only [id]
  rw [hrecords, hpending]

namespace Lifetime

variable {urls : UrlLibrary} {l : Lifetime}

/-- A client in a session that began over an empty store. -/
def Sound : Lifetime → Prop
  | .unattended server => server.WellFormed
  | .attended A s =>
    ∃ config, ∃ fresh : FreshServer A, s.Reached A config fresh fun _ _ => True

theorem Sound.wellFormed (h : l.Sound) : l.server.WellFormed := by
  cases l with
  | unattended server => exact h
  | attended A s =>
    obtain ⟨config, fresh, hreached⟩ := h
    exact ((fenced_requested A).session (open_fenced config fresh) hreached).wellFormed

/-- An opening that returns begins a session. -/
theorem Sound.opened (h : l.Sound) {args : OpenArgs} {script : List Exchange}
    (hslots : ∀ x ∈ script, x.Int32Slots) {P : PinnedAdapter} {c : PromptCache} {w : World}
    (hrun : openClient urls args (l.world script) = (.ok (P, c), w)) :
    ∃ A, ∃ fresh : FreshServer A, fresh.server = w.server ∧
      l.opened urls args script = .attended A (.start args.config fresh.server) := by
  obtain ⟨hslot, hepoch, fresh, hserver, hover⟩ :=
    openClient_ok (w := l.world script) h.wellFormed hslots hrun
  refine ⟨_, fresh, hserver, ?_⟩
  unfold Lifetime.opened
  rw [hrun]
  dsimp only
  rw [dif_pos ⟨hslot, hepoch⟩, hover, hserver]

theorem Sound.step (h : l.Sound) {visit : Visit} (hslots : visit.Int32Slots) :
    (l.step urls visit).Sound := by
  cases visit with
  | calls call =>
    cases l with
    | unattended server => exact h
    | attended A s =>
      obtain ⟨config, fresh, hreached⟩ := h
      exact ⟨config, fresh, .next hreached trivial⟩
  | opens args script =>
    rcases hrun : openClient urls args (l.world script) with ⟨⟨e⟩ | ⟨P, c⟩, w⟩
    · have hkeeps := openClient_keeps urls args (fun request _ => exchange_wellFormed request)
        fun w _ _ hw => hw
      have hwell : w.server.WellFormed := hkeeps.error (s := l.world script) h.wellFormed hrun
      have hopened : l.opened urls args script = .unattended w.server := by
        unfold Lifetime.opened
        rw [hrun]
      exact (congrArg Sound hopened).mpr hwell
    · obtain ⟨A, fresh, -, hopened⟩ := h.opened hslots hrun
      exact (congrArg Sound hopened).mpr ⟨args.config, fresh, .start⟩

end Lifetime

/-- An opening on a server: it only reads; when it returns, the client is at the start of a
session with the server as it is; without a restart it raises as long as a state of an earlier
client is left; and it does return, once the checks have passed and the reads of the store go
through, when none is. -/
structure Lifetime.OpensFresh (urls : UrlLibrary) (l : Lifetime) (args : OpenArgs)
    (script : List Exchange) : Prop where
  reads : l.server.Restarts (openClient urls args (l.world script)).2.server
  begins : ∀ P c w, openClient urls args (l.world script) = (.ok (P, c), w) →
    ∃ A, ∃ fresh : FreshServer A, fresh.server = w.server ∧
      l.opened urls args script = .attended A (.start args.config fresh.server)
  refuses : (∀ x ∈ script, x.restart = none) → l.server.states ≠ .empty →
    ∃ e w, openClient urls args (l.world script) = (.error e, w) ∧ w.server = l.server
  returns : ∀ stock totalSlots w₁ w₂, loopbackGate urls args.baseUrl = .ok () →
    HttpAdapter.new args.baseUrl args.idSlot args.trustDomain = .ok stock →
    requireReferenceSource (l.world script) = (.ok totalSlots, w₁) →
    Transport.modelled.requireExactSlot stock.idSlot totalSlots w₁ = (.ok (), w₂) → w₂.FaultFree →
    w₂.server.enabled = true → w₂.server.epoch ≠ "" →
    ((∃ opened w, openClient urls args (l.world script) = (.ok opened, w)) ↔
      w₂.server.states = .empty)

theorem Lifetime.Sound.opensFresh {urls : UrlLibrary} {l : Lifetime} (h : l.Sound) {args : OpenArgs}
    {script : List Exchange} (hslots : ∀ x ∈ script, x.Int32Slots) :
    l.OpensFresh urls args script where
  reads := by
    have hkeeps := openClient_keeps urls args
      (fun request hreads => exchange_reads l.server (fun _ => True) hreads) fun w _ _ hw => hw
    exact (hkeeps.state (s := l.world script) ⟨.refl, fun _ _ => trivial⟩).1
  begins P c w hrun := h.opened hslots hrun
  refuses hsteady hstates := by
    have hkeeps := openClient_keeps urls args
      (fun request hreads => exchange_reads_steady l.server hreads) fun w _ _ hw => hw
    have hkept := hkeeps.state (s := l.world script) ⟨rfl, hsteady⟩
    rcases hrun : openClient urls args (l.world script) with ⟨⟨e⟩ | ⟨P, c⟩, w⟩ <;>
      rw [hrun] at hkept
    · exact ⟨e, w, rfl, hkept.1⟩
    · obtain ⟨A, fresh, hserver, -⟩ := h.opened hslots hrun
      rw [← hkept.1, ← hserver] at hstates
      exact absurd fresh.states hstates
  returns stock totalSlots w₁ w₂ hgate hstock hsource hlisted hfaultFree henabled hne := by
    have hwell₁ : w₁.server.WellFormed :=
      (requireReferenceSource_keeps (T := .modelled) (exchange_wellFormed _)).ok
        (s := l.world script) h.wellFormed hsource
    have hwell₂ : w₂.server.WellFormed :=
      (requireExactSlot_keeps (exchange_wellFormed _)).ok hwell₁ hlisted
    exact opens_iff_empty hgate hstock hsource hlisted hfaultFree hwell₂ henabled hne

/-- Clients use a server one after another, from the start of the process: any calls, any faults
and restarts, openings that fail; the server lists its slots with 32-bit ids. The client at work
is in a session that began over an empty store, and so will every next one be. -/
theorem clients_begin_over_empty_stores {urls : UrlLibrary} {server : Server} {epoch : String}
    {l : Lifetime} (h : Run (Lifetime.step urls) (fun _ visit => visit.Int32Slots)
      (.unattended (server.restart epoch)) l) :
    (∀ A s, l = .attended A s →
      ∃ config, ∃ fresh : FreshServer A, s.Reached A config fresh fun _ _ => True) ∧
    ∀ args script, (∀ x ∈ script, x.Int32Slots) → l.OpensFresh urls args script := by
  have hstart : (Lifetime.unattended (server.restart epoch)).Sound :=
    Server.WellFormed.restart server epoch
  have hsound : l.Sound := h.invariant hstart fun _ _ ht hslots => ht.step hslots
  refine ⟨?_, fun args script hslots => hsound.opensFresh hslots⟩
  rintro A s rfl
  exact hsound

namespace Sample

/-- The URL libraries on the one address that is used. -/
def urls : UrlLibrary where
  urlparse url :=
    if url = "http://127.0.0.1:8080" then .ok ⟨"http", "127.0.0.1"⟩ else .ok ⟨"", ""⟩
  isLoopbackAddress hostname := hostname = "127.0.0.1"

def openArgs : OpenArgs := ⟨"http://127.0.0.1:8080", 0, "local-default", 4, 2 ^ 22, none⟩

/-- The two answers of the audited source with one slot. -/
def audited : List Exchange :=
  let props : Json := .obj [("build_info", .str "b6000-09a4891"), ("total_slots", .int 1)]
  let slots : Json := .arr [.obj [("id", .int 0)]]
  [{ Exchange.normal with answer := .ok props }, { Exchange.normal with answer := .ok slots }]

theorem audited_int32Slots : ∀ x ∈ audited, x.Int32Slots := by
  intro x hx
  rcases List.mem_pair.mp hx with rfl | rfl
  · exact fun _ hanswer => by cases hanswer
  · rintro items hanswer item hitem id hid
    cases hanswer
    obtain rfl := List.mem_singleton.mp hitem
    cases hid
    decide

/-- Run a prompt on the slot. -/
def fill : Call :=
  ⟨.complete [1, 2] 0, [{ Exchange.normal with slotAfter := some ⟨slot, by decide⟩ }]⟩

/-- A process that has just been started. -/
def booted : Lifetime := .unattended (server.server.restart "epoch-1")

/-- A client that was opened there, ran a prompt and captured its state. -/
def used : Lifetime :=
  ([.opens openArgs audited, .calls fill, .calls (capture [])] : List Visit).foldl
    (Lifetime.step urls) booted

theorem used_reached :
    Run (Lifetime.step urls) (fun _ visit => visit.Int32Slots) booted used :=
  .next (.next (.next .start audited_int32Slots) trivial) trivial

end Sample

open Sample in
/-- The first client opens; the next one is refused, and the first one's state stays. -/
theorem next_client_refused : (∃ opened w, openClient urls openArgs (booted.world audited) =
      (.ok opened, w)) ∧
    ∃ e w, openClient urls openArgs (used.world audited) = (.error e, w) ∧
      w.server = used.server := by
  constructor
  · obtain ⟨-, hopens⟩ := clients_begin_over_empty_stores (l := booted) .start
    have hgate : loopbackGate urls openArgs.baseUrl = .ok () := by
      simp [loopbackGate, urls, openArgs]
    have hstock : HttpAdapter.new openArgs.baseUrl openArgs.idSlot openArgs.trustDomain =
        .ok ⟨"http://127.0.0.1:8080", 0, le_rfl⟩ := rfl
    have hsource : requireReferenceSource (booted.world audited) = (.ok 1, _) := rfl
    refine ((hopens openArgs audited audited_int32Slots).returns _ _ _ _ hgate hstock hsource rfl
      ?_ rfl (by decide)).mpr rfl
    exact fun x hx => absurd hx List.not_mem_nil
  · obtain ⟨-, hopens⟩ := clients_begin_over_empty_stores used_reached
    have hleft : used.server.states.items ≠ [] := by decide +kernel
    refine (hopens openArgs audited audited_int32Slots).refuses ?_ fun hempty => hleft (hempty ▸ rfl)
    simp [audited, Exchange.normal]

end StateBraid.Managed
