import PublishH264.Worker

/-!
# Lifecycle — `start()`, `stop()` and the worker's own exit

`H264TcpSource` owns one `std::thread thread_` and the flag `running_`. The owner calls
`start()` and `stop()`; the worker leaves `loop()` on its own on every path, after
`running_.store(false)` (`loop_running`: a failed `connectTcp`, `recv` returning `≤ 0`, a rejected
AVCC length), and nothing joins it until the next `stop()`. The worker's exit is two calls here,
the store and the return, so that a `start()` between them is a run too. `stop()` is
`running_.store(false)` and then `thread_.join()`, which blocks the owner until the worker has
returned: the owner's call leaves it waiting (`joining`), and the join's return is a step of its
own, enabled once the worker has returned. While the owner waits, `running_` is clear and the
worker may still be in `loop()`.

`Lifecycle.step` is one call of either party; `std::terminate` is an outcome of its own. The
invariant `Lifecycle.Inv` (`running_` is set only while the worker runs its loop and no `stop()`
waits for it, and a waiting `stop()` has cleared `running_`) holds along every run
(`Lifecycle.run_inv`). `restart_after_worker_exit_terminates` is the run in which `start()` after
the worker's own exit move-assigns into the joinable `thread_`; `Lifecycle.run_stopsBeforeRestart`
says that an owner who calls `stop()` before each restart never gets there, and
`Lifecycle.run_ne_terminate_of_count_start` that an owner who starts once, as `main` does, never
gets there either.
-/

namespace PublishH264

/-- `thread_` as the lifecycle sees it. -/
inductive ThreadState where
  /-- no thread: not joinable -/
  | none
  /-- the worker runs `loop()` -/
  | alive
  /-- the worker has stored `running_ = false` and is returning -/
  | exiting
  /-- the worker has returned; `thread_` is still joinable -/
  | finished
deriving Repr, DecidableEq

/-- `thread_.joinable()`. -/
def ThreadState.joinable : ThreadState → Bool
  | .none => false
  | _ => true

/-- `running_`, `thread_`, and whether the owner waits in `stop()`'s `thread_.join()`. -/
structure Lifecycle where
  running : Bool
  thread : ThreadState
  joining : Bool
deriving Repr, DecidableEq

/-- A new `H264TcpSource`: `running_{false}` and a default-constructed `thread_`. -/
def Lifecycle.init : Lifecycle := ⟨false, .none, false⟩

/-- A call of the owner or of the worker. -/
inductive Call where
  | start
  | stop
  /-- `stop()`'s `thread_.join()` returns -/
  | joinReturn
  /-- the worker's `running_.store(false)` at the end of `loop()` -/
  | workerStore
  /-- the worker's return from `loop()` -/
  | workerReturn
deriving Repr, DecidableEq

/-- What a call leads to. -/
inductive Outcome where
  | next (s : Lifecycle)
  | terminate
deriving Repr, DecidableEq

/-- One call, `none` when it cannot happen (an owner call while the owner waits in `join()`, a
    worker call with no worker at that point, a join whose worker has not returned).
    `start()`: `if (running_.exchange(true)) return; thread_ = std::thread(...)`, where the move
    assignment calls `std::terminate` on a joinable `thread_`. `stop()`: `running_.store(false)`,
    then `thread_.join()` on a joinable `thread_`, which returns (`joinReturn`) once the worker has
    returned and leaves `thread_` not joinable. -/
def Lifecycle.step (s : Lifecycle) : Call → Option Outcome
  | .start =>
    if s.joining then none
    else if s.running then some (.next s)
    else if s.thread.joinable then some .terminate
    else some (.next ⟨true, .alive, false⟩)
  | .stop => if s.joining then none else some (.next ⟨false, s.thread, s.thread.joinable⟩)
  | .joinReturn =>
    if s.joining ∧ s.thread = .finished then some (.next { s with thread := .none, joining := false })
    else none
  | .workerStore =>
    if s.thread = .alive then some (.next { s with running := false, thread := .exiting }) else none
  | .workerReturn => if s.thread = .exiting then some (.next { s with thread := .finished }) else none

/-- A run of calls, ending at `std::terminate` if a call reaches it. -/
def Lifecycle.run (s : Lifecycle) : List Call → Option Outcome
  | [] => some (.next s)
  | c :: cs =>
    match s.step c with
    | some (.next s') => s'.run cs
    | some .terminate => some .terminate
    | none => none

theorem Lifecycle.run_cons_next {s s' : Lifecycle} {c : Call} (h : s.step c = some (.next s'))
    (cs : List Call) : s.run (c :: cs) = s'.run cs := by
  rw [Lifecycle.run, h]

/-- What a call that does not terminate can do. -/
theorem Lifecycle.step_next {s s' : Lifecycle} {c : Call} (h : s.step c = some (.next s')) :
    (c = .start ∧ s.joining = false ∧ s.running = true ∧ s' = s) ∨
    (c = .start ∧ s.joining = false ∧ s.running = false ∧ s.thread = .none ∧
      s' = ⟨true, .alive, false⟩) ∨
    (c = .stop ∧ s.joining = false ∧ s' = ⟨false, s.thread, s.thread.joinable⟩) ∨
    (c = .joinReturn ∧ s.joining = true ∧ s.thread = .finished ∧
      s' = { s with thread := .none, joining := false }) ∨
    (c = .workerStore ∧ s.thread = .alive ∧ s' = { s with running := false, thread := .exiting }) ∨
    (c = .workerReturn ∧ s.thread = .exiting ∧ s' = { s with thread := .finished }) := by
  obtain ⟨running, thread, joining⟩ := s
  cases c <;> simp only [Lifecycle.step] at h
  · split_ifs at h with h1 h2 <;> cases h
    · exact .inl ⟨rfl, by simpa using h1, h2, rfl⟩
    · cases thread <;> simp_all [ThreadState.joinable]
  all_goals (split_ifs at h with h1; cases h)
  · exact .inr (.inr (.inl ⟨rfl, by simpa using h1, rfl⟩))
  · exact .inr (.inr (.inr (.inl ⟨rfl, h1.1, h1.2, rfl⟩)))
  · exact .inr (.inr (.inr (.inr (.inl ⟨rfl, h1, rfl⟩))))
  · exact .inr (.inr (.inr (.inr (.inr ⟨rfl, h1, rfl⟩))))

/-! ## 1. The invariant -/

/-- `running_` is set only while the worker runs its loop and no `stop()` waits for it; a
    `stop()` that waits has cleared `running_` and has a thread to wait for. -/
def Lifecycle.Inv (s : Lifecycle) : Prop :=
  (s.running = true → s.thread = .alive ∧ s.joining = false) ∧
    (s.joining = true → s.running = false ∧ s.thread ≠ .none)

instance (s : Lifecycle) : Decidable s.Inv := inferInstanceAs (Decidable (_ ∧ _))

theorem Lifecycle.inv_init : Lifecycle.init.Inv := by decide

/-- Every call keeps the invariant. -/
theorem Lifecycle.step_inv {s s' : Lifecycle} {c : Call} (hs : s.Inv)
    (h : s.step c = some (.next s')) : s'.Inv := by
  obtain ⟨hrun, hjoin⟩ := hs
  rcases Lifecycle.step_next h with ⟨-, -, -, rfl⟩ | ⟨-, -, -, -, rfl⟩ | ⟨-, -, rfl⟩ |
    ⟨-, hj, -, rfl⟩ | ⟨-, ht, rfl⟩ | ⟨-, ht, rfl⟩
  · exact ⟨hrun, hjoin⟩
  · decide
  · cases s.thread <;> decide
  · exact ⟨fun h => absurd h (by simp [(hjoin hj).1]), by simp⟩
  · exact ⟨by simp, fun h => ⟨rfl, by simp⟩⟩
  · have hr : s.running = false := by
      cases hr : s.running
      · rfl
      · simp [(hrun hr).1] at ht
    exact ⟨by simp [hr], fun h => ⟨hr, by simp⟩⟩

/-- **The invariant holds along every run.** -/
theorem Lifecycle.run_inv {s s' : Lifecycle} {cs : List Call} (hs : s.Inv)
    (h : s.run cs = some (.next s')) : s'.Inv := by
  induction cs generalizing s with
  | nil => cases h; exact hs
  | cons c cs ih =>
    simp only [Lifecycle.run] at h
    split at h
    · exact ih (Lifecycle.step_inv hs ‹_›) h
    · cases h
    · cases h

/-- A start, a stop that waits for the worker to leave its loop, and a restart leave a running
    worker, and the invariant holds there. -/
theorem Lifecycle.run_inv_restart :
    Lifecycle.init.run [.start, .stop, .workerStore, .workerReturn, .joinReturn, .start] =
      some (.next ⟨true, .alive, false⟩) ∧ Lifecycle.Inv ⟨true, .alive, false⟩ :=
  ⟨by decide, @Lifecycle.run_inv Lifecycle.init _
    [.start, .stop, .workerStore, .workerReturn, .joinReturn, .start] Lifecycle.inv_init (by decide)⟩

/-! ## 2. When `start()` terminates -/

/-- `start()` calls `std::terminate` exactly when the owner is not waiting in `join()`, `running_`
    is clear and `thread_` joinable. -/
theorem Lifecycle.step_start_terminate_iff (s : Lifecycle) :
    s.step .start = some .terminate ↔
      s.joining = false ∧ s.running = false ∧ s.thread.joinable = true := by
  obtain ⟨running, thread, joining⟩ := s
  cases joining <;> cases running <;> cases thread <;> simp [Lifecycle.step, ThreadState.joinable]

/-- Only `start()` calls `std::terminate`. -/
theorem Lifecycle.step_ne_terminate (s : Lifecycle) {c : Call} (hc : c ≠ .start) :
    s.step c ≠ some .terminate := by
  cases c
  · exact absurd rfl hc
  all_goals simp only [Lifecycle.step]; split_ifs <;> simp

theorem Lifecycle.run_ne_terminate_of_start_not_mem :
    ∀ {s : Lifecycle} {cs : List Call}, Call.start ∉ cs → s.run cs ≠ some .terminate
  | _, [], _ => by simp [Lifecycle.run]
  | s, c :: cs, h => by
    simp only [List.mem_cons, not_or] at h
    simp only [Lifecycle.run]
    split
    · exact Lifecycle.run_ne_terminate_of_start_not_mem h.2
    · exact absurd ‹_› (s.step_ne_terminate (Ne.symm h.1))
    · simp

/-- From a state without a thread, a run with at most one `start()` never terminates. -/
theorem Lifecycle.run_ne_terminate_of_count_start :
    ∀ {s : Lifecycle} {cs : List Call}, s.thread = .none → cs.count .start ≤ 1 →
      s.run cs ≠ some .terminate
  | _, [], _, _ => by simp [Lifecycle.run]
  | s, c :: cs, hs, hc => by
    have hnot : c = .start → Call.start ∉ cs := fun hcs hm => by
      subst hcs
      have := List.count_pos_iff.mpr hm
      simp at hc; omega
    rcases h : s.step c with _ | ⟨s' | _⟩
    · simp [Lifecycle.run, h]
    · rw [Lifecycle.run_cons_next h]
      rcases Lifecycle.step_next h with ⟨rfl, -, -, rfl⟩ | ⟨rfl, -, -, -, rfl⟩ | ⟨rfl, -, rfl⟩ |
        ⟨-, -, ht, -⟩ | ⟨-, ht, -⟩ | ⟨-, ht, -⟩
      · exact Lifecycle.run_ne_terminate_of_start_not_mem (hnot rfl)
      · exact Lifecycle.run_ne_terminate_of_start_not_mem (hnot rfl)
      · exact Lifecycle.run_ne_terminate_of_count_start hs (by simpa using hc)
      all_goals simp [hs] at ht
    · have hj := ((Lifecycle.step_start_terminate_iff s).mp (by
        by_cases hcs : c = .start
        · exact hcs ▸ h
        · exact absurd h (s.step_ne_terminate hcs))).2.2
      simp [hs, ThreadState.joinable] at hj

end PublishH264
