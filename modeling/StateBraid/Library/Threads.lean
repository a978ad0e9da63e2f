import Mathlib.Data.DFinsupp.WellFounded
import StateBraid.Library.Code
import StateBraid.Library.Run

/-!
# Threads that share one reentrant lock

A `Machine` runs any number of threads, each with a list of calls, one step of one
thread at a time. A call whose steps all lie inside one critical section behaves as
if it took effect at one instant: every history of the machine is a history of the
`Atomic` machine, where a call changes the state in a single step between its
invocation and its response. No schedule deadlocks and none runs forever.
-/

namespace Library

/-! ## Machines -/

/-- What a client sees of a call. -/
inductive Event (ι κ ρ : Type)
  | invoke (thread : ι) (call : κ)
  | respond (thread : ι) (call : κ) (result : ρ)

/-- A thread: the calls it will still make and how far the current one is. -/
structure Thread (κ β : Type) where
  pending : List κ
  current : Option (κ × β)

/-- Nothing is left to do. -/
def Thread.Finished {κ β : Type} (t : Thread κ β) : Prop := t.pending = [] ∧ t.current = none

/-- The threads, the state they share, and the lock: its owner and how many times the owner
has taken it again. -/
structure Machine (ι κ ε σ ρ : Type) where
  shared : σ
  lock : Option (ι × ℕ)
  thread : ι → Thread κ (Code ε σ ρ)
  history : List (Event ι κ (Except ε ρ))

/-- The specification: a call that has taken effect holds its result until it responds.
`order` lists the calls in the order they took effect. -/
structure Atomic (ι κ ε σ ρ : Type) where
  state : σ
  thread : ι → Thread κ (Option (Except ε ρ))
  history : List (Event ι κ (Except ε ρ))
  order : List (ι × κ)

variable {ι κ ε σ ρ : Type} [DecidableEq ι]

namespace Machine

/-- No call was made yet and the lock is free. -/
def start (s : σ) (calls : ι → List κ) : Machine ι κ ε σ ρ where
  shared := s
  lock := none
  thread t := ⟨calls t, none⟩
  history := []

/-- The current call of `t` goes on with `code`. -/
def resume (m : Machine ι κ ε σ ρ) (t : ι) (call : κ) (code : Code ε σ ρ) : Machine ι κ ε σ ρ :=
  { m with thread := Function.update m.thread t ⟨(m.thread t).pending, some (call, code)⟩ }

theorem resume_thread {m : Machine ι κ ε σ ρ} {t : ι} {pending : List κ}
    {z : Option (κ × Code ε σ ρ)} (hx : m.thread t = ⟨pending, z⟩) (call : κ) (code : Code ε σ ρ) :
    (m.resume t call code).thread t = ⟨pending, some (call, code)⟩ := by
  simp [resume, hx]

/-- The next step of thread `t`: none when it has finished, and when it waits for the lock. -/
def advance (body : κ → Code ε σ ρ) (m : Machine ι κ ε σ ρ) (t : ι) :
    Option (Machine ι κ ε σ ρ) :=
  match (m.thread t).current with
  | none =>
    match (m.thread t).pending with
    | [] => none
    | call :: pending =>
      some { m with
        thread := Function.update m.thread t ⟨pending, some (call, body call)⟩
        history := m.history ++ [.invoke t call] }
  | some (call, .ret r) =>
    some { m with
      thread := Function.update m.thread t ⟨(m.thread t).pending, none⟩
      history := m.history ++ [.respond t call r] }
  | some (call, .act effect next) =>
    some { m.resume t call (next m.shared) with shared := effect m.shared }
  | some (call, .acquire next) =>
    match m.lock with
    | none => some { m.resume t call next with lock := some (t, 0) }
    | some (u, d) =>
      if u = t then some { m.resume t call next with lock := some (t, d + 1) } else none
  | some (call, .release next) =>
    match m.lock with
    | none => none
    | some (u, d) =>
      if u = t then
        some { m.resume t call next with
          lock := match d with
            | 0 => none
            | d + 1 => some (t, d) }
      else none

/-- Schedule thread `t`; a thread that cannot move stays where it is. -/
def step (body : κ → Code ε σ ρ) (m : Machine ι κ ε σ ρ) (t : ι) : Machine ι κ ε σ ρ :=
  (advance body m t).getD m

/-- A schedule is a list of threads. -/
theorem run_schedule (body : κ → Code ε σ ρ) (m : Machine ι κ ε σ ρ) (schedule : List ι) :
    Run (step body) (fun _ _ => True) m (schedule.foldl (step body) m) := by
  induction schedule using List.reverseRecOn with
  | nil => exact .start
  | append_singleton schedule t ih =>
    rw [List.foldl_append]
    exact ih.next trivial

end Machine

namespace Atomic

def start (s : σ) (calls : ι → List κ) : Atomic ι κ ε σ ρ where
  state := s
  thread t := ⟨calls t, none⟩
  history := []
  order := []

/-- The next step of thread `t`: invoke a call, let it take effect, respond. -/
def step (perform : κ → Exec ε σ ρ) (a : Atomic ι κ ε σ ρ) (t : ι) : Atomic ι κ ε σ ρ :=
  match (a.thread t).current with
  | none =>
    match (a.thread t).pending with
    | [] => a
    | call :: pending =>
      { a with
        thread := Function.update a.thread t ⟨pending, some (call, none)⟩
        history := a.history ++ [.invoke t call] }
  | some (call, none) =>
    { a with
      state := (perform call a.state).2
      thread := Function.update a.thread t
        ⟨(a.thread t).pending, some (call, some (perform call a.state).1)⟩
      order := a.order ++ [(t, call)] }
  | some (call, some r) =>
    { a with
      thread := Function.update a.thread t ⟨(a.thread t).pending, none⟩
      history := a.history ++ [.respond t call r] }

/-- The state is what the calls leave one after the other, in the order they took effect. -/
theorem state_eq_fold (perform : κ → Exec ε σ ρ) {s : σ} {calls : ι → List κ}
    {a : Atomic ι κ ε σ ρ}
    (h : Run (step perform) (fun _ _ => True) (start s calls) a) :
    a.state = (a.order.map Prod.snd).foldl (fun s call => (perform call s).2) s := by
  refine h.invariant
    (I := fun a => a.state = (a.order.map Prod.snd).foldl (fun s call => (perform call s).2) s)
    rfl fun a t ih _ => ?_
  unfold step
  split
  · split <;> exact ih
  · simp only [List.map_append, List.map_cons, List.map_nil, List.foldl_append, List.foldl_cons,
      List.foldl_nil, ← ih]
  · exact ih

end Atomic

/-! ## Calls take effect at one instant -/

section Refinement

variable {body : κ → Code ε σ ρ}

/-- How far one thread is in the machine (`x`) and in the specification (`y`), given the lock
and both states. Inside the critical section the rest of the code still has to do what the
whole call does from the specification's state; the call takes effect when the lock becomes
free. -/
inductive Corresponds (body : κ → Code ε σ ρ) (lock : Option (ι × ℕ)) (shared state : σ) (t : ι)
    (x : Thread κ (Code ε σ ρ)) (y : Thread κ (Option (Except ε ρ))) : Prop
  | idle (pending : List κ) (hx : x = ⟨pending, none⟩) (hy : y = ⟨pending, none⟩)
      (hlock : ∀ d, lock ≠ some (t, d))
  | waiting (pending : List κ) (call : κ) (hx : x = ⟨pending, some (call, body call)⟩)
      (hy : y = ⟨pending, some (call, none)⟩) (hlock : ∀ d, lock ≠ some (t, d))
  | inside (pending : List κ) (call : κ) (code : Code ε σ ρ) (d : ℕ)
      (hx : x = ⟨pending, some (call, code)⟩) (hy : y = ⟨pending, some (call, none)⟩)
      (hlock : lock = some (t, d)) (hinside : code.Inside 0 (d + 1))
      (hrun : code.run shared = (body call).run state)
  | responding (pending : List κ) (call : κ) (r : Except ε ρ)
      (hx : x = ⟨pending, some (call, .ret r)⟩) (hy : y = ⟨pending, some (call, some r)⟩)
      (hlock : ∀ d, lock ≠ some (t, d))

/-- The machine is where the specification is, up to the call that holds the lock. -/
structure Refines (body : κ → Code ε σ ρ) (m : Machine ι κ ε σ ρ) (a : Atomic ι κ ε σ ρ) :
    Prop where
  history : m.history = a.history
  free : m.lock = none → m.shared = a.state
  thread : ∀ t, Corresponds body m.lock m.shared a.state t (m.thread t) (a.thread t)

/-- The owner of the lock is the only thread whose position depends on the states. -/
theorem Corresponds.other {ι κ ε σ ρ : Type} {body : κ → Code ε σ ρ} {lock lock' : Option (ι × ℕ)}
    {shared shared' state state' : σ} {t u : ι} {x : Thread κ (Code ε σ ρ)}
    {y : Thread κ (Option (Except ε ρ))}
    (h : Corresponds body lock shared state u x y) (hu : u ≠ t)
    (hlock : ∀ v d, lock = some (v, d) → v = t) (hlock' : ∀ v d, lock' = some (v, d) → v = t) :
    Corresponds body lock' shared' state' u x y := by
  have hnot : ∀ d, lock' ≠ some (u, d) := fun d hd => hu (hlock' u d hd)
  cases h with
  | idle pending hx hy _ => exact .idle pending hx hy hnot
  | waiting pending call hx hy _ => exact .waiting pending call hx hy hnot
  | inside pending call code d hx hy hown _ _ => exact absurd (hlock u d hown) hu
  | responding pending call r hx hy _ => exact .responding pending call r hx hy hnot

/-- Thread `t` moved while it held the lock, took it or gave it back. -/
theorem Refines.moved {m m' : Machine ι κ ε σ ρ} {a a' : Atomic ι κ ε σ ρ} {t : ι}
    (h : Refines body m a) (hhistory : m'.history = a'.history)
    (hfree : m'.lock = none → m'.shared = a'.state)
    (hlock : ∀ v d, m.lock = some (v, d) → v = t) (hlock' : ∀ v d, m'.lock = some (v, d) → v = t)
    (hm : ∀ u, u ≠ t → m'.thread u = m.thread u) (ha : ∀ u, u ≠ t → a'.thread u = a.thread u)
    (ht : Corresponds body m'.lock m'.shared a'.state t (m'.thread t) (a'.thread t)) :
    Refines body m' a' := by
  refine ⟨hhistory, hfree, fun u => ?_⟩
  by_cases hu : u = t
  · exact hu ▸ ht
  · rw [hm u hu, ha u hu]
    exact (h.thread u).other hu hlock hlock'

/-- Thread `t` invoked a call or responded to one. -/
theorem Refines.outside {m m' : Machine ι κ ε σ ρ} {a a' : Atomic ι κ ε σ ρ} {t : ι}
    (h : Refines body m a) (hhistory : m'.history = a'.history) (hlock : m'.lock = m.lock)
    (hshared : m'.shared = m.shared) (hstate : a'.state = a.state)
    (hm : ∀ u, u ≠ t → m'.thread u = m.thread u) (ha : ∀ u, u ≠ t → a'.thread u = a.thread u)
    (ht : Corresponds body m.lock m.shared a.state t (m'.thread t) (a'.thread t)) :
    Refines body m' a' := by
  refine ⟨hhistory, fun hnone => ?_, fun u => ?_⟩
  · rw [hshared, hstate]
    exact h.free (hlock ▸ hnone)
  · rw [hlock, hshared, hstate]
    by_cases hu : u = t
    · exact hu ▸ ht
    · rw [hm u hu, ha u hu]
      exact h.thread u

theorem refines_start {ι κ ε σ ρ : Type} {body : κ → Code ε σ ρ} (s : σ) (calls : ι → List κ) :
    Refines body (Machine.start s calls) (Atomic.start s calls) where
  history := rfl
  free _ := rfl
  thread t := .idle (calls t) rfl rfl fun _ h => by cases h

/-- A step of the owner of the lock. Giving the lock back for the last time is the instant at
which the call takes effect. -/
theorem Refines.inside_step {m m' : Machine ι κ ε σ ρ} {a : Atomic ι κ ε σ ρ} {t : ι}
    (h : Refines body m a) {pending : List κ} {call : κ} {code : Code ε σ ρ} {d : ℕ}
    (hx : m.thread t = ⟨pending, some (call, code)⟩)
    (hy : a.thread t = ⟨pending, some (call, none)⟩) (hlock : m.lock = some (t, d))
    (hinside : code.Inside 0 (d + 1)) (hrun : code.run m.shared = (body call).run a.state)
    (hstep : Machine.advance body m t = some m') :
    Refines body m' a ∨ Refines body m' (Atomic.step (fun call => (body call).run) a t) := by
  have howner : ∀ v e, m.lock = some (v, e) → v = t := by
    intro v e hv
    rw [hlock] at hv
    cases hv
    rfl
  have hothers : ∀ (z : Thread κ (Code ε σ ρ)) u, u ≠ t →
      Function.update m.thread t z u = m.thread u := fun z u hu => Function.update_of_ne hu _ _
  cases code with
  | ret r => exact absurd hinside (Nat.succ_ne_zero d)
  | act effect next =>
    simp only [Machine.advance, hx, Option.some.injEq] at hstep
    subst hstep
    refine Or.inl (h.moved h.history (fun hnone => ?_) howner howner (hothers _) (fun _ _ => rfl) ?_)
    · simp [Machine.resume, hlock] at hnone
    · exact .inside pending call (next m.shared) d (Machine.resume_thread hx call _) hy hlock
        (hinside.2 m.shared) hrun
  | acquire next =>
    simp only [Machine.advance, hx, hlock, if_pos, Option.some.injEq] at hstep
    subst hstep
    refine Or.inl (h.moved h.history (fun hnone => ?_) howner (fun v e hv => ?_) (hothers _)
      (fun _ _ => rfl) ?_)
    · cases hnone
    · cases hv
      rfl
    · exact .inside pending call next (d + 1) (Machine.resume_thread hx call next) hy rfl
        hinside.2 hrun
  | release next =>
    simp only [Machine.advance, hx, hlock, if_pos, Option.some.injEq] at hstep
    subst hstep
    cases d with
    | succ d =>
      refine Or.inl (h.moved h.history (fun hnone => ?_) howner (fun v e hv => ?_) (hothers _)
        (fun _ _ => rfl) ?_)
      · cases hnone
      · cases hv
        rfl
      · exact .inside pending call next d (Machine.resume_thread hx call next) hy rfl
          hinside.2 hrun
    | zero =>
      -- only a result is left at depth zero, and it is the result of the whole call
      have hdone : next.Inside 0 0 := hinside.2
      cases next with
      | act effect next => exact absurd hdone.1 (lt_irrefl 0)
      | acquire next => exact absurd hdone.1 (lt_irrefl 0)
      | release next => exact absurd hdone.1 (lt_irrefl 0)
      | ret r =>
        have heffect : (body call).run a.state = (r, m.shared) := hrun.symm
        refine Or.inr (h.moved ?_ (fun _ => ?_) howner (fun v e hv => ?_) (hothers _)
          (fun u hu => ?_) ?_)
        · simp only [Atomic.step, hy]
          exact h.history
        · simp [Atomic.step, hy, heffect, Machine.resume]
        · cases hv
        · simp only [Atomic.step, hy]
          exact Function.update_of_ne hu _ _
        · refine .responding pending call r (Machine.resume_thread hx call _) ?_
            fun _ hnone => by cases hnone
          simp [Atomic.step, hy, heffect]

/-- Every step of a machine is matched by at most one step of the specification. -/
theorem Refines.step (hbody : ∀ call, (body call).Critical) {m m' : Machine ι κ ε σ ρ}
    {a : Atomic ι κ ε σ ρ} {t : ι} (h : Refines body m a)
    (hstep : Machine.advance body m t = some m') :
    Refines body m' a ∨ Refines body m' (Atomic.step (fun call => (body call).run) a t) := by
  have hothers : ∀ (z : Thread κ (Code ε σ ρ)) u, u ≠ t →
      Function.update m.thread t z u = m.thread u := fun z u hu => Function.update_of_ne hu _ _
  cases h.thread t with
  | inside pending call code d hx hy hlock hinside hrun =>
    exact h.inside_step hx hy hlock hinside hrun hstep
  | idle pending hx hy hlock =>
    cases pending with
    | nil =>
      simp only [Machine.advance, hx] at hstep
      cases hstep
    | cons call pending =>
      simp only [Machine.advance, hx, Option.some.injEq] at hstep
      subst hstep
      refine Or.inr (h.outside ?_ rfl rfl ?_ (hothers _) (fun u hu => ?_) ?_)
      · simp only [Atomic.step, hy, h.history]
      · simp only [Atomic.step, hy]
      · simp only [Atomic.step, hy]
        exact Function.update_of_ne hu _ _
      · exact .waiting pending call (Function.update_self _ _ _) (by simp [Atomic.step, hy]) hlock
  | waiting pending call hx hy hlock =>
    obtain ⟨next, hnext, hinside⟩ := hbody call
    simp only [Machine.advance, hx, hnext] at hstep
    rcases hm : m.lock with _ | ⟨v, d⟩
    · rw [hm] at hstep
      cases hstep
      refine Or.inl (h.moved h.history (fun hnone => ?_) (fun v e hv => ?_) (fun v e hv => ?_)
        (hothers _) (fun _ _ => rfl) ?_)
      · cases hnone
      · rw [hm] at hv
        cases hv
      · cases hv
        rfl
      · refine .inside pending call next 0 (Machine.resume_thread hx call next) hy rfl hinside ?_
        rw [hnext, ← h.free hm]
        rfl
    · have hv : v ≠ t := fun hv => hlock d (by rw [hm, hv])
      rw [hm] at hstep
      simp only [if_neg hv] at hstep
      cases hstep
  | responding pending call r hx hy hlock =>
    simp only [Machine.advance, hx, Option.some.injEq] at hstep
    subst hstep
    refine Or.inr (h.outside ?_ rfl rfl ?_ (hothers _) (fun u hu => ?_) ?_)
    · simp only [Atomic.step, hy, h.history]
    · simp only [Atomic.step, hy]
    · simp only [Atomic.step, hy]
      exact Function.update_of_ne hu _ _
    · exact .idle pending (by simp) (by simp [Atomic.step, hy]) hlock

/-- Every history of the machine, under any schedule, is a history of the specification, and
while the lock is free the shared state is the specification's. -/
theorem linearizable (hbody : ∀ call, (body call).Critical) {s : σ} {calls : ι → List κ}
    {m : Machine ι κ ε σ ρ}
    (h : Run (Machine.step body) (fun _ _ => True) (Machine.start s calls) m) :
    ∃ a, Run (Atomic.step fun call => (body call).run) (fun _ _ => True) (Atomic.start s calls) a ∧
      Refines body m a := by
  induction h with
  | start => exact ⟨_, .start, refines_start s calls⟩
  | @next m t _ _ ih =>
    obtain ⟨a, ha, hma⟩ := ih
    unfold Machine.step
    rcases hstep : Machine.advance body m t with _ | m'
    · exact ⟨a, ha, hma⟩
    · rcases hma.step hbody hstep with h' | h'
      · exact ⟨a, ha, h'⟩
      · exact ⟨_, ha.next trivial, h'⟩

/-- The owner of the lock has only states in `I` ahead of it, if it runs alone. -/
structure Guarded (I : σ → Prop) (m : Machine ι κ ε σ ρ) : Prop where
  shared : I m.shared
  owner : ∀ t d, m.lock = some (t, d) → ∀ pending call code,
    m.thread t = ⟨pending, some (call, code)⟩ → code.Along I m.shared

/-- A step that leaves the lock and the shared state alone, by a thread that is not inside. -/
theorem Guarded.outside {ι κ ε σ ρ : Type} {I : σ → Prop} {m m' : Machine ι κ ε σ ρ} {t : ι}
    (h : Guarded I m) (hlock : m'.lock = m.lock) (hshared : m'.shared = m.shared)
    (hm : ∀ u, u ≠ t → m'.thread u = m.thread u) (hnot : ∀ d, m.lock ≠ some (t, d)) :
    Guarded I m' := by
  refine ⟨hshared ▸ h.shared, fun u d hu pending call code hx => ?_⟩
  have hut : u ≠ t := fun he => hnot d (by rw [← hlock, hu, he])
  rw [hshared]
  exact h.owner u d (hlock ▸ hu) pending call code (hm u hut ▸ hx)

/-- A step of a thread that holds the lock afterwards, or has just given it back. -/
theorem Guarded.inside {ι κ ε σ ρ : Type} {I : σ → Prop} {m' : Machine ι κ ε σ ρ} {t : ι}
    {pending : List κ} {call : κ} {code : Code ε σ ρ}
    (hx : m'.thread t = ⟨pending, some (call, code)⟩)
    (hlock : ∀ u d, m'.lock = some (u, d) → u = t) (hshared : I m'.shared)
    (hcode : code.Along I m'.shared) : Guarded I m' := by
  refine ⟨hshared, fun u d hu pending' call' code' hx' => ?_⟩
  rw [hlock u d hu, hx] at hx'
  cases hx'
  exact hcode

theorem Guarded.step {I : σ → Prop} (hbody : ∀ call, (body call).Critical)
    (hI : ∀ call, Code.Stays I (body call)) {m m' : Machine ι κ ε σ ρ} {a : Atomic ι κ ε σ ρ}
    {t : ι} (h : Guarded I m) (hma : Refines body m a)
    (hstep : Machine.advance body m t = some m') : Guarded I m' := by
  cases hma.thread t with
  | idle pending hx hy hlock =>
    cases pending with
    | nil => simp [Machine.advance, hx] at hstep
    | cons call pending =>
      simp only [Machine.advance, hx, Option.some.injEq] at hstep
      subst hstep
      exact h.outside rfl rfl (fun u hu => Function.update_of_ne hu _ _) hlock
  | responding pending call r hx hy hlock =>
    simp only [Machine.advance, hx, Option.some.injEq] at hstep
    subst hstep
    exact h.outside rfl rfl (fun u hu => Function.update_of_ne hu _ _) hlock
  | waiting pending call hx hy hlock =>
    obtain ⟨next, hnext, -⟩ := hbody call
    have halong : (body call).Along I m.shared := hI call m.shared h.shared
    rw [hnext] at halong
    rcases hm : m.lock with _ | ⟨v, d⟩
    · simp only [Machine.advance, hx, hnext, hm, Option.some.injEq] at hstep
      subst hstep
      refine .inside (Machine.resume_thread hx call next) (fun u d hu => ?_) h.shared halong
      cases hu
      rfl
    · have hv : v ≠ t := fun hv => hlock d (by rw [hm, hv])
      simp [Machine.advance, hx, hnext, hm, hv] at hstep
  | inside pending call code d hx hy hlock hinside hrun =>
    have halong := h.owner t d hlock pending call code hx
    have howner : ∀ u e, m.lock = some (u, e) → u = t := by
      intro u e hu
      rw [hlock] at hu
      cases hu
      rfl
    cases code with
    | ret r => exact absurd hinside (Nat.succ_ne_zero d)
    | act effect next =>
      simp only [Machine.advance, hx, Option.some.injEq] at hstep
      subst hstep
      exact .inside (Machine.resume_thread hx call _) howner halong.1 halong.2
    | acquire next =>
      simp only [Machine.advance, hx, hlock, if_pos, Option.some.injEq] at hstep
      subst hstep
      refine .inside (Machine.resume_thread hx call next) (fun u e hu => ?_) h.shared halong
      cases hu
      rfl
    | release next =>
      simp only [Machine.advance, hx, hlock, if_pos, Option.some.injEq] at hstep
      subst hstep
      refine .inside (Machine.resume_thread hx call next) (fun u e hu => ?_) h.shared halong
      cases d with
      | zero => cases hu
      | succ d =>
        cases hu
        rfl

/-- What every call keeps at each of its steps holds at every point of every schedule, also
while a call is under way. -/
theorem always {I : σ → Prop} (hbody : ∀ call, (body call).Critical)
    (hI : ∀ call, Code.Stays I (body call)) {s : σ} {calls : ι → List κ} (hs : I s)
    {m : Machine ι κ ε σ ρ}
    (h : Run (Machine.step body) (fun _ _ => True) (Machine.start s calls) m) :
    I m.shared := by
  have hboth : Guarded I m ∧ ∃ a, Refines body m a := by
    induction h with
    | start => exact ⟨⟨hs, fun t d hlock => by cases hlock⟩, _, refines_start s calls⟩
    | @next m t _ _ ih =>
      obtain ⟨hguarded, a, hma⟩ := ih
      unfold Machine.step
      rcases hstep : Machine.advance body m t with _ | m'
      · exact ⟨hguarded, a, hma⟩
      · refine ⟨hguarded.step hbody hI hma hstep, ?_⟩
        rcases hma.step hbody hstep with h' | h'
        · exact ⟨a, h'⟩
        · exact ⟨_, h'⟩
  exact hboth.1.shared

/-! ## Schedules complete -/

/-- A thread that cannot move has finished or waits for a lock that another thread holds. -/
theorem Refines.blocked (hbody : ∀ call, (body call).Critical) {m : Machine ι κ ε σ ρ}
    {a : Atomic ι κ ε σ ρ} (h : Refines body m a) {t : ι}
    (hstuck : Machine.advance body m t = none) :
    (m.thread t).Finished ∨ ∃ u d, u ≠ t ∧ m.lock = some (u, d) := by
  cases h.thread t with
  | idle pending hx hy hlock =>
    cases pending with
    | nil => exact Or.inl (by rw [hx]; exact ⟨rfl, rfl⟩)
    | cons call pending => simp [Machine.advance, hx] at hstuck
  | waiting pending call hx hy hlock =>
    obtain ⟨next, hnext, -⟩ := hbody call
    rcases hm : m.lock with _ | ⟨u, d⟩
    · simp [Machine.advance, hx, hnext, hm] at hstuck
    · exact Or.inr ⟨u, d, fun hu => hlock d (by rw [hm, hu]), rfl⟩
  | inside pending call code d hx hy hlock hinside hrun =>
    cases code with
    | ret r => exact absurd hinside (Nat.succ_ne_zero d)
    | act effect next => simp [Machine.advance, hx] at hstuck
    | acquire next => simp [Machine.advance, hx, hlock] at hstuck
    | release next => simp [Machine.advance, hx, hlock] at hstuck
  | responding pending call r hx hy hlock => simp [Machine.advance, hx] at hstuck

/-- The owner of the lock can always move. -/
theorem Refines.owner_moves {m : Machine ι κ ε σ ρ} {a : Atomic ι κ ε σ ρ}
    (h : Refines body m a) {t : ι} {d : ℕ} (hlock : m.lock = some (t, d)) :
    Machine.advance body m t ≠ none := by
  cases h.thread t with
  | idle pending hx hy hnot => exact absurd hlock (hnot d)
  | waiting pending call hx hy hnot => exact absurd hlock (hnot d)
  | responding pending call r hx hy hnot => exact absurd hlock (hnot d)
  | inside pending call code e hx hy hown hinside hrun =>
    cases code with
    | ret r => exact absurd hinside (Nat.succ_ne_zero e)
    | act effect next => simp [Machine.advance, hx]
    | acquire next => simp [Machine.advance, hx, hown]
    | release next => simp [Machine.advance, hx, hown]

/-- No schedule deadlocks: when no thread can move, all have finished and the lock is free. -/
theorem Refines.no_deadlock (hbody : ∀ call, (body call).Critical) {m : Machine ι κ ε σ ρ}
    {a : Atomic ι κ ε σ ρ} (h : Refines body m a)
    (hstuck : ∀ t, Machine.advance body m t = none) :
    (∀ t, (m.thread t).Finished) ∧ m.lock = none := by
  have hfree : m.lock = none := by
    rcases hm : m.lock with _ | ⟨t, d⟩
    · rfl
    · exact absurd (hstuck t) (h.owner_moves hm)
  refine ⟨fun t => ?_, hfree⟩
  rcases h.blocked hbody (hstuck t) with hdone | ⟨u, d, -, hm⟩
  · exact hdone
  · rw [hfree] at hm
    cases hm

end Refinement

/-- Where a thread is after one more step. -/
inductive After (body : κ → Code ε σ ρ) :
    Thread κ (Code ε σ ρ) → Thread κ (Code ε σ ρ) → Prop
  | invoke (call : κ) (pending : List κ) :
      After body ⟨pending, some (call, body call)⟩ ⟨call :: pending, none⟩
  | proceed (pending : List κ) (call : κ) {rest code : Code ε σ ρ} (h : Code.Rest rest code) :
      After body ⟨pending, some (call, rest)⟩ ⟨pending, some (call, code)⟩
  | respond (pending : List κ) (call : κ) (r : Except ε ρ) :
      After body ⟨pending, none⟩ ⟨pending, some (call, .ret r)⟩

/-- A thread that will become idle is as well founded as it is then. -/
theorem after_acc_current {body : κ → Code ε σ ρ} {pending : List κ}
    (hidle : Acc (After body) ⟨pending, none⟩) (call : κ) (code : Code ε σ ρ) :
    Acc (After body) ⟨pending, some (call, code)⟩ := by
  induction code using Code.rest_wellFounded.induction with
  | _ code ih =>
    refine ⟨_, fun x hx => ?_⟩
    cases hx with
    | proceed _ _ hrest => exact ih _ hrest
    | respond _ _ r => exact hidle

/-- No thread takes infinitely many steps. -/
theorem after_wellFounded (body : κ → Code ε σ ρ) : WellFounded (After body) := by
  have hidle : ∀ pending : List κ, Acc (After body) ⟨pending, none⟩ := by
    intro pending
    induction pending with
    | nil => exact ⟨_, fun _ h => by cases h⟩
    | cons call pending ih =>
      refine ⟨_, fun x hx => ?_⟩
      cases hx with
      | invoke => exact after_acc_current ih call (body call)
  refine ⟨fun t => ?_⟩
  obtain ⟨pending, _ | ⟨call, code⟩⟩ := t
  · exact hidle pending
  · exact after_acc_current (hidle pending) call code

/-- What a step of thread `t` does to the threads and the history. -/
inductive Moved (body : κ → Code ε σ ρ) (m : Machine ι κ ε σ ρ) (t : ι)
    (m' : Machine ι κ ε σ ρ) : Prop
  | invoke (call : κ) (pending : List κ) (hx : m.thread t = ⟨call :: pending, none⟩)
      (hthread : m'.thread = Function.update m.thread t ⟨pending, some (call, body call)⟩)
      (hhistory : m'.history = m.history ++ [.invoke t call])
  | proceed (pending : List κ) (call : κ) (rest code : Code ε σ ρ)
      (hx : m.thread t = ⟨pending, some (call, code)⟩) (hrest : Code.Rest rest code)
      (hthread : m'.thread = Function.update m.thread t ⟨pending, some (call, rest)⟩)
      (hhistory : m'.history = m.history)
  | respond (pending : List κ) (call : κ) (r : Except ε ρ)
      (hx : m.thread t = ⟨pending, some (call, .ret r)⟩)
      (hthread : m'.thread = Function.update m.thread t ⟨pending, none⟩)
      (hhistory : m'.history = m.history ++ [.respond t call r])

theorem Machine.advance_moved {body : κ → Code ε σ ρ} {m m' : Machine ι κ ε σ ρ} {t : ι}
    (h : advance body m t = some m') : Moved body m t m' := by
  rcases hx : m.thread t with ⟨pending, _ | ⟨call, code⟩⟩
  · cases pending with
    | nil => simp [advance, hx] at h
    | cons call pending =>
      simp only [advance, hx, Option.some.injEq] at h
      subst h
      exact .invoke call pending hx rfl rfl
  · have hresume : ∀ rest, (m.resume t call rest).thread =
        Function.update m.thread t ⟨pending, some (call, rest)⟩ := by
      intro rest
      simp only [resume, hx]
    cases code with
    | ret r =>
      simp only [advance, hx, Option.some.injEq] at h
      subst h
      exact .respond pending call r hx rfl rfl
    | act effect next =>
      simp only [advance, hx, Option.some.injEq] at h
      subst h
      exact .proceed pending call _ _ hx (.act effect next m.shared) (hresume _) rfl
    | acquire next =>
      rcases hm : m.lock with _ | ⟨u, d⟩
      · simp only [advance, hx, hm, Option.some.injEq] at h
        subst h
        exact .proceed pending call _ _ hx (.acquire next) (hresume _) rfl
      · by_cases hu : u = t
        · simp only [advance, hx, hm, if_pos hu, Option.some.injEq] at h
          subst h
          exact .proceed pending call _ _ hx (.acquire next) (hresume _) rfl
        · simp [advance, hx, hm, hu] at h
    | release next =>
      rcases hm : m.lock with _ | ⟨u, d⟩
      · simp [advance, hx, hm] at h
      · by_cases hu : u = t
        · simp only [advance, hx, hm, if_pos hu, Option.some.injEq] at h
          subst h
          exact .proceed pending call _ _ hx (.release next) (hresume _) rfl
        · simp [advance, hx, hm, hu] at h

/-- A step takes one thread one step on and leaves the others where they are. -/
theorem Moved.after {body : κ → Code ε σ ρ} {m m' : Machine ι κ ε σ ρ} {t : ι}
    (h : Moved body m t m') :
    After body (m'.thread t) (m.thread t) ∧ ∀ u, u ≠ t → m'.thread u = m.thread u := by
  cases h with
  | invoke call pending hx hthread _ =>
    rw [hthread, hx, Function.update_self]
    exact ⟨.invoke call pending, fun u hu => Function.update_of_ne hu _ _⟩
  | proceed pending call rest code hx hrest hthread _ =>
    rw [hthread, hx, Function.update_self]
    exact ⟨.proceed pending call hrest, fun u hu => Function.update_of_ne hu _ _⟩
  | respond pending call r hx hthread _ =>
    rw [hthread, hx, Function.update_self]
    exact ⟨.respond pending call r, fun u hu => Function.update_of_ne hu _ _⟩

/-- No schedule of finitely many threads makes infinitely many moves. -/
theorem Machine.advance_wellFounded [Finite ι] (body : κ → Code ε σ ρ) :
    WellFounded fun m' m : Machine ι κ ε σ ρ => ∃ t, advance body m t = some m' := by
  have hlex := Pi.Lex.wellFounded (α := fun _ : ι => Thread κ (Code ε σ ρ))
    (WellOrderingRel : ι → ι → Prop) fun _ => after_wellFounded body
  refine Subrelation.wf ?_ (InvImage.wf Machine.thread hlex)
  rintro m' m ⟨t, h⟩
  obtain ⟨hafter, hothers⟩ := (advance_moved h).after
  exact ⟨t, fun u hu => hothers u (fun he => irrefl_of WellOrderingRel t (he ▸ hu)), hafter⟩

/-- The calls thread `t` has had a response to, in order. -/
def responded (t : ι) (history : List (Event ι κ ρ)) : List κ :=
  history.filterMap fun
    | .respond u call _ => if u = t then some call else none
    | .invoke _ _ => none

/-- The calls of thread `t`: answered, under way, and still to be made. -/
def Machine.callsOf (m : Machine ι κ ε σ ρ) (t : ι) : List κ :=
  responded t m.history ++ ((m.thread t).current.map Prod.fst).toList ++ (m.thread t).pending

/-- A step neither loses a call nor reorders the calls of a thread. -/
theorem Moved.callsOf {body : κ → Code ε σ ρ} {m m' : Machine ι κ ε σ ρ} {u : ι}
    (h : Moved body m u m') (t : ι) : m'.callsOf t = m.callsOf t := by
  have hothers := h.after.2 t
  unfold Machine.callsOf
  cases h with
  | invoke call pending hx hthread hhistory =>
    by_cases ht : t = u
    · subst ht
      simp [responded, hthread, hx, hhistory]
    · simp [responded, hothers ht, hhistory]
  | proceed pending call rest code hx hrest hthread hhistory =>
    by_cases ht : t = u
    · subst ht
      simp [hthread, hx, hhistory]
    · rw [hothers ht, hhistory]
  | respond pending call r hx hthread hhistory =>
    by_cases ht : t = u
    · subst ht
      simp [responded, hthread, hx, hhistory]
    · simp [responded, hothers ht, hhistory, Ne.symm ht]

/-- Every call of a thread is answered, under way, or still to be made, in program order. -/
theorem Machine.callsOf_run (body : κ → Code ε σ ρ) {s : σ} {calls : ι → List κ}
    {m : Machine ι κ ε σ ρ} (h : Run (step body) (fun _ _ => True) (start s calls) m) (t : ι) :
    m.callsOf t = calls t := by
  refine h.invariant (I := fun m => m.callsOf t = calls t) rfl fun m u ih _ => ?_
  unfold step
  rcases hstep : advance body m u with _ | m'
  · exact ih
  · exact ((advance_moved hstep).callsOf t).trans ih

end Library
