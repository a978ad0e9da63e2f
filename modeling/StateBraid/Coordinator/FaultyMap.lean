import StateBraid.Coordinator.Agreement

/-!
# A map backend whose forward calls may raise

The backend of the coordinator's own contract: a map from keys to a payload and a
role. One operation ends at its first exception, so one fault an operation is every
pattern of forward failures: the number of mutating calls that still succeed, and
whether the next one raises before or after its effect on its own key. The calls of
the rollback then succeed. Over this backend the policy and the map never diverge,
and admissions and trims are atomic.
-/

namespace StateBraid.Coordinator
open Library Policy WorkingSetPolicy

/-- When a raising call raises, relative to its effect on its own key. -/
inductive FaultTime
  | before | after
  deriving DecidableEq

/-- The forward failure of one operation. -/
structure Fault where
  survives : ℕ
  time : FaultTime
  error : PyError

/-- A call that changes the map. -/
inductive MapCall (N : Type)
  | remove (key : CacheKey N)
  | insert (key : CacheKey N)
  | restore (key : CacheKey N)
  deriving DecidableEq

/-- The map, the fault still ahead in this operation, and the changing calls made. -/
structure FaultyMap (N π : Type) where
  values : CacheKey N → Option (π × Role)
  fault : Option Fault
  calls : List (MapCall N)

variable {N π : Type} [DecidableEq N]

namespace FaultyMap

/-- The empty map without a fault. -/
def empty : FaultyMap N π := ⟨fun _ => none, none, []⟩

/-- Write one key of the map. -/
def assign (s : FaultyMap N π) (key : CacheKey N) (value : Option (π × Role)) : FaultyMap N π :=
  { s with values := fun j => if j = key then value else s.values j }

/-- A call with the effect of assigning `value` to `key`, which meets the fault when it
is due and uses it up. -/
def call (m : MapCall N) (key : CacheKey N) (value : Option (π × Role)) :
    Exec PyError (FaultyMap N π) Unit := fun s =>
  let s := { s with calls := s.calls ++ [m] }
  match s.fault with
  | none => (.ok (), s.assign key value)
  | some ⟨n + 1, time, e⟩ => (.ok (), { s.assign key value with fault := some ⟨n, time, e⟩ })
  | some ⟨0, .before, e⟩ => (.error e, { s with fault := none })
  | some ⟨0, .after, e⟩ => (.error e, { s.assign key value with fault := none })

/-- The backend: `remove` deletes, `insert` sets, `capture` reads, `restore` writes back. -/
def backend : TransactionalBackend N (FaultyMap N π) π (π × Role) where
  capture key := Exec.gets (fun s => s.values key)
  restore key snapshot := Exec.modify (fun s =>
    { s.assign key (some snapshot) with calls := s.calls ++ [.restore key] })
  remove key := call (.remove key) key none
  insert key payload role := call (.insert key) key (some (payload, role))
  forgetRemote := none

/-- A call that returns had its effect; one that raises touched its own key at most, and
no fault is left after it. -/
theorem call_spec (m : MapCall N) (key : CacheKey N) (value : Option (π × Role))
    (s : FaultyMap N π) :
    Exec.Holds (fun _ s' => (s.fault = none → s'.fault = none) ∧
        ∀ j, s'.values j = if j = key then value else s.values j)
      (fun _ s' => s.fault ≠ none ∧ s'.fault = none ∧ ∀ j, j ≠ key → s'.values j = s.values j)
      (call m key value s) := by
  unfold call
  dsimp only
  split
  · exact ⟨fun h => h, fun _ => rfl⟩
  · rename_i h
    exact ⟨fun hnone => by simp_all, fun _ => rfl⟩
  · rename_i h
    exact ⟨by simp_all, rfl, fun _ _ => rfl⟩
  · rename_i h
    exact ⟨by simp_all, rfl, fun j hj => if_neg hj⟩

theorem call_ok {m : MapCall N} {key : CacheKey N} {value : Option (π × Role)}
    {s s' : FaultyMap N π} (h : call m key value s = (.ok (), s')) :
    (s.fault = none → s'.fault = none) ∧
      ∀ j, s'.values j = if j = key then value else s.values j := by
  have := call_spec m key value s
  rwa [h] at this

theorem call_error {m : MapCall N} {key : CacheKey N} {value : Option (π × Role)}
    {s s' : FaultyMap N π} {e : PyError} (h : call m key value s = (.error e, s')) :
    s.fault ≠ none ∧ s'.fault = none ∧ ∀ j, j ≠ key → s'.values j = s.values j := by
  have := call_spec m key value s
  rwa [h] at this

/-- How the faulty map is read; it is calm once its fault is used up. -/
def mapSpec : MapSpec N (FaultyMap N π) π (π × Role) where
  view := values
  inv _ := True
  calm s := s.fault = none
  valid _ := True
  sound _ _ := True
  offered _ _ := True
  stored := Prod.mk

theorem mapBackend :
    ForgettingBackend (backend : TransactionalBackend N (FaultyMap N π) π (π × Role)) mapSpec where
  capture _ _ := rfl
  remove_ok _ _ h := ⟨trivial, (call_ok h).2⟩
  remove_error _ _ h := ⟨trivial, (call_error h).2⟩
  insert_ok _ _ _ _ h := ⟨trivial, (call_ok h).2⟩
  insert_error _ _ _ _ h := ⟨trivial, (call_error h).2⟩
  remove_calm {k s} _ hs := by
    rcases h : backend.remove k s with ⟨⟨e⟩ | ⟨⟨⟩⟩, s'⟩
    · exact absurd hs (call_error h).1
    · exact ⟨s', rfl, (call_ok h).1 hs⟩
  restore_calm _ _ _ hs _ := ⟨_, rfl, trivial, hs, fun _ => rfl⟩
  forget_ok _ _ h := ⟨trivial, (call_ok h).2⟩
  forget_error _ _ h := ⟨trivial, (call_error h).2⟩

end FaultyMap

/-! ## Runs with a history -/

/-- The key and the value an operation would admit. -/
def Operation.admission : Operation N π → Option (CacheKey N × π × Role)
  | .admitEntry key payload role _ _ => some (key, payload, role)
  | .admitStableCandidate key payload _ => some (key, payload, "stable")
  | _ => none

/-- The coordinator together with the operations it performed and how they ended, the
latest first. -/
structure Recorded (N π : Type) where
  cache : CacheCoordinator N (FaultyMap N π)
  history : List (Operation N π × Except PyError (Reply N))

/-- For each key the value of its last admission that returned true. -/
def lastAdmission :
    List (Operation N π × Except PyError (Reply N)) → CacheKey N → Option (π × Role)
  | [] => fun _ => none
  | (op, outcome) :: older =>
    match op.admission, outcome with
    | some (key, value), .ok (.flag accepted) =>
      recordAdmission (lastAdmission older) key value accepted
    | _, _ => lastAdmission older

/-- The cache with the next operation's fault armed. -/
def armed (c : CacheCoordinator N (FaultyMap N π)) (fault : Option Fault) :
    CacheCoordinator N (FaultyMap N π) :=
  { c with backend := { c.backend with fault := fault } }

/-- One operation under its fault. -/
def Recorded.step (r : Recorded N π) (input : Operation N π × Option Fault) : Recorded N π :=
  match perform FaultyMap.backend input.1 (armed r.cache input.2) with
  | (outcome, cache) => ⟨cache, (input.1, outcome) :: r.history⟩

/-- A run from the empty cache. -/
def Recorded.run (config : PolicyConfig) (inputs : List (Operation N π × Option Fault)) :
    Recorded N π := inputs.foldl Recorded.step ⟨⟨.new config, .empty⟩, []⟩

/-- The invariant of a recorded run. -/
def Recorded.Agrees (r : Recorded N π) : Prop :=
  AgreesWith FaultyMap.mapSpec (lastAdmission r.history) r.cache

/-- How a reply is built does not matter to what holds of the state. -/
theorem replyWith_holds {N σ α : Type} {f : α → Reply N} {m : Exec PyError σ α} {s : σ}
    {Q : Reply N → σ → Prop} {R : PyError → σ → Prop}
    (h : Exec.Holds (fun a => Q (f a)) R (m s)) : Exec.Holds Q R (replyWith f m s) := by
  unfold replyWith
  rcases hm : m s with ⟨⟨e⟩ | ⟨a⟩, s'⟩ <;> rw [hm] at h
  · rwa [Exec.bind_of_error hm]
  · rw [Exec.bind_of_ok hm]
    exact h

/-- One operation under any fault keeps the agreement with the recorded admissions. -/
theorem perform_agrees (op : Operation N π) {c : CacheCoordinator N (FaultyMap N π)}
    {history : List (Operation N π × Except PyError (Reply N))}
    (hc : AgreesWith FaultyMap.mapSpec (lastAdmission history) c) :
    Exec.Holds
      (fun reply => AgreesWith FaultyMap.mapSpec (lastAdmission ((op, .ok reply) :: history)))
      (fun e => AgreesWith FaultyMap.mapSpec (lastAdmission ((op, .error e) :: history)))
      (perform FaultyMap.backend op c) := by
  cases op with
  | admitEntry key payload role nbytes predecessor =>
    refine replyWith_holds ?_
    rw [admitEntry, Exec.gets_bind_apply]
    obtain ⟨hkey, hrole, -, -⟩ := c.policy.planAdmission_spec key role nbytes predecessor
    have h := admit_agrees FaultyMap.mapBackend.toMapBackend
      (c.policy.planAdmission key role nbytes predecessor) payload trivial hc
      (fun _ _ => trivial) (fun _ _ _ _ => trivial)
    rwa [hkey, hrole] at h
  | admitStableCandidate key payload nbytes =>
    refine replyWith_holds ?_
    rw [admitStableCandidate_apply]
    have hsame := c.policy.planStableCandidate_sameResidents key nbytes
    rcases hplan : planStableCandidate key nbytes c.policy with ⟨⟨e⟩ | ⟨plan⟩, policy⟩
    · rw [hplan] at hsame
      exact ⟨trivial, hc.agrees.congr fun k => by rw [hsame.entries]⟩
    · rw [hplan] at hsame
      have hprobed : AgreesWith FaultyMap.mapSpec (lastAdmission history)
          { c with policy := policy } :=
        ⟨trivial, hc.agrees.congr fun k => by rw [hsame.entries]⟩
      obtain ⟨hkey, hrole⟩ := planStableCandidate_plan hplan
      have h := admit_agrees FaultyMap.mapBackend.toMapBackend plan payload trivial
        hprobed (fun _ _ => trivial) (fun _ _ _ _ => trivial)
      rwa [hkey, hrole] at h
  | observeHit key => exact replyWith_holds (observeHit_agrees hc key)
  | trimTo nSequences nBytes =>
    refine replyWith_holds ?_
    unfold trimTo
    split
    · exact trim_agrees FaultyMap.mapBackend.toMapBackend _ hc (fun _ _ => trivial)
        (fun _ _ _ _ => trivial)
    · exact hc
  | forgetRemote keys =>
    refine replyWith_holds ?_
    exact Exec.Triple.foldEach
      (I := fun _ _ => AgreesWith FaultyMap.mapSpec (lastAdmission history)) keys [] []
      (fun _ _ _ removed _ _ _ hs =>
        forgetRemoteKey_agrees FaultyMap.mapBackend removed hs trivial (fun _ _ => trivial)) c hc

theorem Recorded.step_agrees (r : Recorded N π) (input : Operation N π × Option Fault)
    (h : r.Agrees) : (r.step input).Agrees := by
  have harmed : AgreesWith FaultyMap.mapSpec (lastAdmission r.history) (armed r.cache input.2) :=
    ⟨trivial, h.agrees⟩
  have hstep := perform_agrees input.1 harmed
  unfold Recorded.step Recorded.Agrees
  rcases hrun : perform FaultyMap.backend input.1 (armed r.cache input.2) with ⟨⟨e⟩ | ⟨reply⟩, c⟩ <;>
    rwa [hrun] at hstep

theorem Recorded.run_agrees (config : PolicyConfig)
    (inputs : List (Operation N π × Option Fault)) : (Recorded.run config inputs).Agrees :=
  Run.foldl_invariant (I := Recorded.Agrees) (fun r input h => r.step_agrees input h) inputs _
    ⟨trivial, { resident := by simp [WorkingSetPolicy.new], absent := fun _ _ => rfl }⟩

/-- After any run under any faults the map and the policy have the same keys, and the map
holds for each of them the value of its last admission that returned true. -/
theorem run_never_diverges (config : PolicyConfig)
    (inputs : List (Operation N π × Option Fault)) :
    (∀ k, ((Recorded.run config inputs).cache.backend.values k).isSome ↔
        k ∈ (Recorded.run config inputs).cache.policy.entries.keys) ∧
      ∀ k value, (Recorded.run config inputs).cache.backend.values k = some value →
        lastAdmission (Recorded.run config inputs).history k = some value :=
  ⟨(Recorded.run_agrees config inputs).agrees.isSome_iff,
    fun _ _ => (Recorded.run_agrees config inputs).agrees.value_eq⟩

end StateBraid.Coordinator
