import AnalyticsPipeline.Model.WorkerLoops

/-!
# The worker's loops over whole runs

Polling is what makes the worker correct; notifications are there to make it
prompt, and a signal to end it. No order of events makes the process loop sleep
over a notification, after a signal both loops come to an end in a few steps,
and the listener never takes a second connection while it has one.
-/

namespace AnalyticsPipeline

open Framework

/-- Steps the process loop still takes once the worker is to stop. -/
def ProcessLoop.left : ProcessLoop → ℕ
  | .batch => 2
  | .created | .wait | .pause => 1
  | .stopped => 0

def ListenLoop.left : ListenLoop → ℕ
  | .acquire => 4
  | .addListener | .listen => 3
  | .removeListener => 2
  | .created | .release | .backoff => 1
  | .stopped => 0

/-- The listener has a connection. -/
def ListenLoop.holds : ListenLoop → Bool
  | .addListener | .listen | .removeListener | .release => true
  | _ => false

/-- The event lets one of the loops go on. -/
def WorkerEvent.resumes : WorkerEvent → Bool
  | .notification | .handlerRuns | .signal | .poolCloses => false
  | _ => true

/-- Nothing raises, nothing times out. -/
def WorkerEvent.smooth : WorkerEvent → Bool
  | .batchEnds (.error _) | .timesOut => false
  | .acquires ok | .adds ok | .removes ok | .releases ok => ok
  | _ => true

namespace RollupWorker

/-- The run of events leads from one state to the other. -/
abbrev Runs (s : WorkerState) (es : List WorkerEvent) (s' : WorkerState) : Prop :=
  run? next? s es = some s'

variable {s s' : WorkerState} {e : WorkerEvent} {es : List WorkerEvent}

/-! ## Steps -/

theorem next?_eq_some (h : next? s e = some s') :
    processStep? s e = some s' ∨ listenStep? s e = some s' ∨
      outsideStep? s e = some s' := by
  rw [next?, Option.or_eq_some_iff] at h
  rcases h with h | ⟨-, h⟩
  · exact .inl h
  · rw [Option.or_eq_some_iff] at h
    rcases h with h | ⟨-, h⟩
    · exact .inr (.inl h)
    · exact .inr (.inr h)

/-- The process loop stays within a batch or comes to its head, where only a
wait has cleared the event. -/
theorem processStep?_eq_some (h : processStep? s e = some s') :
    (s.process = .batch ∧ (s' = { s with process := .wait } ∨
        s' = { s with process := .pause })) ∨
      (s.process ≠ .stopped ∧ s.process ≠ .wait ∧ s' = processHead s) ∨
      (s.process = .wait ∧ s' = processHead { s with notify_event := false }) := by
  cases e <;> simp only [processStep?, reduceCtorEq] at h
  all_goals grind

theorem listenStep?_eq_some (h : listenStep? s e = some s') :
    ((s.listener = .created ∨ s.listener = .backoff) ∧ s' = listenHead s) ∨
      (s.listener = .acquire ∧ (s' = listenTail s ∨
        s' = { s with listener := .addListener, acquired := s.acquired + 1 })) ∨
      ((s.listener = .addListener ∨ s.listener = .listen) ∧ s' = napHead s) ∨
      (s.listener = .addListener ∧ s' = { s with listener := .removeListener }) ∨
      (s.listener = .removeListener ∧ s' = { s with listener := .release }) ∨
      (s.listener = .release ∧
        (s' = listenTail { s with acquired := s.acquired - 1 } ∨
          s' = listenTail { s with failed_releases := s.failed_releases + 1 })) := by
  cases e <;> simp only [listenStep?, reduceCtorEq] at h
  all_goals grind

theorem outsideStep?_eq_some (h : outsideStep? s e = some s') :
    (s.listener = .listen ∧
        s' = { s with handlers := s.handlers + 1, unseen := s.unseen + 1 }) ∨
      (0 < s.handlers ∧
        s' = { s with handlers := s.handlers - 1, notify_event := true }) ∨
      s' = handleShutdown s ∨ s' = { s with pool_open := false } := by
  cases e <;> simp only [outsideStep?, reduceCtorEq] at h
  all_goals grind

/-! ## Wake-ups -/

/-- A notification that no batch has followed is on its way to the loop, and so
is a shutdown. -/
structure Alert (s : WorkerState) : Prop where
  unseen : 0 < s.unseen → s.process ≠ .stopped →
    s.notify_event = true ∨ 0 < s.handlers
  shutdown : s.running = false → s.process ≠ .stopped → s.notify_event = true

theorem alert_gathered : Alert gathered :=
  ⟨fun h => absurd h (by decide), fun h => absurd h (by decide)⟩

/-- At the head of the loop nothing is left unseen. -/
theorem alert_processHead (s : WorkerState) : Alert (processHead s) := by
  rw [processHead]
  split
  · rename_i hrun
    refine ⟨fun h => absurd h (Nat.lt_irrefl 0), fun h => ?_⟩
    rw [hrun] at h
    cases h
  · exact ⟨fun _ h => absurd rfl h, fun _ h => absurd rfl h⟩

/-- Where the listener stands is of no concern. -/
theorem Alert.of_eq (h : Alert s) (hrun : s'.running = s.running)
    (hevent : s'.notify_event = s.notify_event) (hprocess : s'.process = s.process)
    (hhandlers : s'.handlers = s.handlers) (hunseen : s'.unseen = s.unseen) :
    Alert s' := by
  obtain ⟨hu, hs⟩ := h
  constructor
  · rw [hunseen, hprocess, hevent, hhandlers]
    exact hu
  · rw [hrun, hprocess, hevent]
    exact hs

theorem Alert.next (h : Alert s) (hn : next? s e = some s') : Alert s' := by
  rcases next?_eq_some hn with hn | hn | hn
  · rcases processStep?_eq_some hn with ⟨hp, rfl | rfl⟩ | ⟨-, -, rfl⟩ | ⟨-, rfl⟩
    · exact ⟨fun hu _ => h.unseen hu (by simp [hp]),
        fun hr _ => h.shutdown hr (by simp [hp])⟩
    · exact ⟨fun hu _ => h.unseen hu (by simp [hp]),
        fun hr _ => h.shutdown hr (by simp [hp])⟩
    · exact alert_processHead s
    · exact alert_processHead _
  · -- the listener moves nothing that the process loop looks at
    have hhead : Alert (listenHead s) := by
      rw [listenHead]
      split <;> exact h.of_eq rfl rfl rfl rfl rfl
    have htail : ∀ t : WorkerState, Alert t → Alert (listenTail t) := by
      intro t ht
      rw [listenTail, listenHead]
      split <;> exact ht.of_eq rfl rfl rfl rfl rfl
    have hnap : Alert (napHead s) := by
      rw [napHead]
      split <;> exact h.of_eq rfl rfl rfl rfl rfl
    rcases listenStep?_eq_some hn with ⟨-, rfl⟩ | ⟨-, rfl | rfl⟩ | ⟨-, rfl⟩ |
      ⟨-, rfl⟩ | ⟨-, rfl⟩ | ⟨-, rfl | rfl⟩
    · exact hhead
    · exact htail s h
    · exact h.of_eq rfl rfl rfl rfl rfl
    · exact hnap
    · exact h.of_eq rfl rfl rfl rfl rfl
    · exact h.of_eq rfl rfl rfl rfl rfl
    · exact htail _ (h.of_eq rfl rfl rfl rfl rfl)
    · exact htail _ (h.of_eq rfl rfl rfl rfl rfl)
  · rcases outsideStep?_eq_some hn with ⟨-, rfl⟩ | ⟨-, rfl⟩ | rfl | rfl
    · exact ⟨fun _ _ => .inr (Nat.succ_pos _), h.shutdown⟩
    · exact ⟨fun _ _ => .inl rfl, fun _ _ => rfl⟩
    · exact ⟨fun _ _ => .inl rfl, fun _ _ => rfl⟩
    · exact h.of_eq rfl rfl rfl rfl rfl

theorem alert_of_runs (h : Runs gathered es s) : Alert s :=
  run?_preserves (P := Alert) Alert.next alert_gathered h

/-- The scheduled handlers run, one after another. -/
theorem runs_handlers (s : WorkerState) :
    ∃ s', Runs s (List.replicate s.handlers .handlerRuns) s' ∧
      s'.process = s.process ∧ s'.running = s.running ∧ s'.batches = s.batches ∧
      (0 < s.handlers ∨ s.notify_event = true → s'.notify_event = true) := by
  induction hn : s.handlers generalizing s with
  | zero => exact ⟨s, rfl, rfl, rfl, rfl, fun h => h.resolve_left (by simp)⟩
  | succ n ih =>
      have hstep : next? s .handlerRuns =
          some { s with handlers := s.handlers - 1, notify_event := true } := by
        simp [next?, processStep?, listenStep?, outsideStep?, hn]
      obtain ⟨s', hrun, hprocess, hrunning, hbatches, hevent⟩ :=
        ih { s with handlers := s.handlers - 1, notify_event := true }
          (by simp [hn])
      exact ⟨s', run?_cons.mpr ⟨_, hstep, hrun⟩, hprocess, hrunning, hbatches,
        fun _ => hevent (.inr rfl)⟩

/-- **No wake-up is lost**: in every run of the two loops, whatever the order of
notifications, timeouts, errors and reconnections, a worker that waits over a
notification it received since its last batch began has the wake-up under way.
The scheduled handlers run, the wait ends by the event, not by its timeout, and
the next batch begins. -/
theorem no_wakeup_lost (h : Runs gathered es s) (hwait : s.process = .wait)
    (hrun : s.running = true) (hunseen : 0 < s.unseen) :
    ∃ s', Runs s (List.replicate s.handlers .handlerRuns ++ [.wakes]) s' ∧
      s'.process = .batch ∧ s'.unseen = 0 ∧ s'.batches = s.batches + 1 := by
  obtain ⟨s₁, hruns, hprocess, hrunning, hbatches, hevent⟩ := runs_handlers s
  have hset : s₁.notify_event = true :=
    hevent ((alert_of_runs h).unseen hunseen (by simp [hwait])).symm
  have hhead : processHead { s₁ with notify_event := false } =
      { s₁ with
        notify_event := false, process := .batch, batches := s₁.batches + 1
        unseen := 0 } := by
    simp [processHead, hrunning, hrun]
  have hstep : next? s₁ .wakes =
      some (processHead { s₁ with notify_event := false }) := by
    simp [next?, processStep?, hprocess, hwait, hset]
  refine ⟨_, run?_append.mpr ⟨s₁, hruns, run?_cons.mpr ⟨_, hstep, rfl⟩⟩, ?_⟩
  rw [hhead]
  exact ⟨rfl, rfl, by rw [hbatches]⟩

/-- A notification that comes while a batch runs, which finds nothing. -/
def notifiedEvents : List WorkerEvent :=
  [.processStarts, .listenStarts, .acquires true, .adds true, .notification,
    .batchEnds (.ok 0)]

def notifiedWorker : WorkerState :=
  { gathered with
    process := .wait, listener := .listen, handlers := 1, acquired := 1
    batches := 1, unseen := 1 }

theorem runs_notified : Runs gathered notifiedEvents notifiedWorker := rfl

theorem notified_worker_wakes : ∃ s',
    Runs notifiedWorker [.handlerRuns, .wakes] s' ∧ s'.process = .batch ∧
      s'.unseen = 0 ∧ s'.batches = 2 :=
  no_wakeup_lost runs_notified rfl rfl (by decide)

/-! ## Shutting down -/

def stepsLeft (s : WorkerState) : ℕ :=
  ProcessLoop.left s.process + ListenLoop.left s.listener

/-- What a step after the shutdown leaves as it is. -/
structure Stopping (s s' : WorkerState) : Prop where
  running : s'.running = false
  batches : s'.batches = s.batches

theorem processHead_stopping (hrun : s.running = false) :
    processHead s = { s with process := .stopped } := by
  simp [processHead, hrun]

theorem listenHead_stopping (hrun : s.running = false) :
    listenHead s = { s with listener := .stopped } := by
  simp [listenHead, hrun]

theorem listenTail_stopping (hrun : s.running = false) :
    listenTail s = { s with listener := .stopped } := by
  simp [listenTail, listenHead, hrun]

theorem napHead_stopping (hrun : s.running = false) :
    napHead s = { s with listener := .removeListener } := by
  simp [napHead, hrun]

theorem processStep?_stopping (hrun : s.running = false)
    (h : processStep? s e = some s') :
    Stopping s s' ∧ stepsLeft s' + 1 ≤ stepsLeft s := by
  rcases processStep?_eq_some h with ⟨hp, rfl | rfl⟩ | ⟨hp, -, rfl⟩ | ⟨hp, rfl⟩
  · exact ⟨⟨hrun, rfl⟩, by simp only [stepsLeft, hp, ProcessLoop.left]; omega⟩
  · exact ⟨⟨hrun, rfl⟩, by simp only [stepsLeft, hp, ProcessLoop.left]; omega⟩
  · rw [processHead_stopping hrun]
    have hleft : 0 < ProcessLoop.left s.process := by
      cases hcase : s.process <;> simp_all [ProcessLoop.left]
    refine ⟨⟨hrun, rfl⟩, ?_⟩
    change 0 + s.listener.left + 1 ≤ s.process.left + s.listener.left
    omega
  · have hclear : ({ s with notify_event := false } : WorkerState).running = false :=
      hrun
    rw [processHead_stopping hclear]
    exact ⟨⟨hrun, rfl⟩, by simp only [stepsLeft, hp, ProcessLoop.left]; omega⟩

theorem listenStep?_stopping (hrun : s.running = false)
    (h : listenStep? s e = some s') :
    Stopping s s' ∧ stepsLeft s' + 1 ≤ stepsLeft s := by
  rcases listenStep?_eq_some h with ⟨hl | hl, rfl⟩ | ⟨hl, rfl | rfl⟩ |
    ⟨hl | hl, rfl⟩ | ⟨hl, rfl⟩ | ⟨hl, rfl⟩ | ⟨hl, rfl | rfl⟩
  · rw [listenHead_stopping hrun]
    exact ⟨⟨hrun, rfl⟩, by simp only [stepsLeft, hl, ListenLoop.left]; omega⟩
  · rw [listenHead_stopping hrun]
    exact ⟨⟨hrun, rfl⟩, by simp only [stepsLeft, hl, ListenLoop.left]; omega⟩
  · rw [listenTail_stopping hrun]
    exact ⟨⟨hrun, rfl⟩, by simp only [stepsLeft, hl, ListenLoop.left]; omega⟩
  · exact ⟨⟨hrun, rfl⟩, by simp only [stepsLeft, hl, ListenLoop.left]; omega⟩
  · rw [napHead_stopping hrun]
    exact ⟨⟨hrun, rfl⟩, by simp only [stepsLeft, hl, ListenLoop.left]; omega⟩
  · rw [napHead_stopping hrun]
    exact ⟨⟨hrun, rfl⟩, by simp only [stepsLeft, hl, ListenLoop.left]; omega⟩
  · exact ⟨⟨hrun, rfl⟩, by simp only [stepsLeft, hl, ListenLoop.left]; omega⟩
  · exact ⟨⟨hrun, rfl⟩, by simp only [stepsLeft, hl, ListenLoop.left]; omega⟩
  · rw [listenTail_stopping (s := { s with acquired := s.acquired - 1 }) hrun]
    exact ⟨⟨hrun, rfl⟩, by simp only [stepsLeft, hl, ListenLoop.left]; omega⟩
  · rw [listenTail_stopping
      (s := { s with failed_releases := s.failed_releases + 1 }) hrun]
    exact ⟨⟨hrun, rfl⟩, by simp only [stepsLeft, hl, ListenLoop.left]; omega⟩

/-- A step of a loop uses up one of the steps left; no step adds any. -/
theorem next?_stopping (hrun : s.running = false) (h : next? s e = some s') :
    Stopping s s' ∧
      stepsLeft s' + (if e.resumes then 1 else 0) ≤ stepsLeft s := by
  have hle : ∀ n : ℕ, (if e.resumes then 1 else 0) ≤ 1 := fun _ => by
    split <;> omega
  rcases next?_eq_some h with hn | hn | hn
  · obtain ⟨hstop, hleft⟩ := processStep?_stopping hrun hn
    exact ⟨hstop, by have := hle 0; omega⟩
  · obtain ⟨hstop, hleft⟩ := listenStep?_stopping hrun hn
    exact ⟨hstop, by have := hle 0; omega⟩
  · have hout : e.resumes = false := by
      cases e <;> simp_all [outsideStep?, WorkerEvent.resumes]
    rw [hout]
    rcases outsideStep?_eq_some hn with ⟨-, rfl⟩ | ⟨-, rfl⟩ | rfl | rfl
    · exact ⟨⟨hrun, rfl⟩, Nat.le_refl _⟩
    · exact ⟨⟨hrun, rfl⟩, Nat.le_refl _⟩
    · exact ⟨⟨rfl, rfl⟩, Nat.le_refl _⟩
    · exact ⟨⟨hrun, rfl⟩, Nat.le_refl _⟩

/-! ## The connection -/

/-- The connections that are out are the one in use and those that could not be
given back. -/
def Accounted (s : WorkerState) : Prop :=
  s.acquired = s.failed_releases + if s.listener.holds then 1 else 0

instance decidableAccounted : Decidable (Accounted s) := inferInstanceAs (Decidable (_ = _))

theorem Accounted.of_eq (h : Accounted s) (hacquired : s'.acquired = s.acquired)
    (hfailed : s'.failed_releases = s.failed_releases)
    (hholds : s'.listener.holds = s.listener.holds) : Accounted s' := by
  rw [Accounted, hacquired, hfailed, hholds]
  exact h

/-- Between two connections nothing is held. -/
theorem accounted_listenTail (h : s.acquired = s.failed_releases) :
    Accounted (listenTail s) := by
  rw [listenTail, listenHead, Accounted]
  split <;> simp [ListenLoop.holds, h]

theorem accounted_listenHead (h : s.acquired = s.failed_releases) :
    Accounted (listenHead s) := by
  rw [listenHead, Accounted]
  split <;> simp [ListenLoop.holds, h]

theorem accounted_processHead (h : Accounted s) : Accounted (processHead s) := by
  rw [processHead]
  split <;> exact h.of_eq rfl rfl rfl

theorem Accounted.next (h : Accounted s) (hn : next? s e = some s') :
    Accounted s' := by
  have hfree : s.listener.holds = false → s.acquired = s.failed_releases := by
    intro hl
    rw [Accounted, hl] at h
    exact h
  have hheld : s.listener.holds = true → s.acquired = s.failed_releases + 1 := by
    intro hl
    rw [Accounted, hl] at h
    exact h
  rcases next?_eq_some hn with hn | hn | hn
  · rcases processStep?_eq_some hn with ⟨-, rfl | rfl⟩ | ⟨-, -, rfl⟩ | ⟨-, rfl⟩
    · exact h.of_eq rfl rfl rfl
    · exact h.of_eq rfl rfl rfl
    · exact accounted_processHead h
    · exact accounted_processHead (h.of_eq rfl rfl rfl)
  · rcases listenStep?_eq_some hn with ⟨hl | hl, rfl⟩ | ⟨hl, rfl | rfl⟩ |
      ⟨hl | hl, rfl⟩ | ⟨hl, rfl⟩ | ⟨hl, rfl⟩ | ⟨hl, rfl | rfl⟩
    · exact accounted_listenHead (hfree (by rw [hl]; rfl))
    · exact accounted_listenHead (hfree (by rw [hl]; rfl))
    · exact accounted_listenTail (hfree (by rw [hl]; rfl))
    · exact congrArg (· + 1) (hfree (by rw [hl]; rfl))
    · rw [napHead]
      split <;> exact h.of_eq rfl rfl (by simp [hl, ListenLoop.holds])
    · rw [napHead]
      split <;> exact h.of_eq rfl rfl (by simp [hl, ListenLoop.holds])
    · exact h.of_eq rfl rfl (by simp [hl, ListenLoop.holds])
    · exact h.of_eq rfl rfl (by simp [hl, ListenLoop.holds])
    · have := hheld (by rw [hl]; rfl)
      refine accounted_listenTail ?_
      show s.acquired - 1 = s.failed_releases
      omega
    · exact accounted_listenTail (hheld (by rw [hl]; rfl))
  · rcases outsideStep?_eq_some hn with ⟨-, rfl⟩ | ⟨-, rfl⟩ | rfl | rfl <;>
      exact h.of_eq rfl rfl rfl

theorem accounted_of_runs (h : Runs gathered es s) : Accounted s :=
  run?_preserves (P := Accounted) Accounted.next (by decide) h

/-- The listener can go on without an error. -/
theorem exists_listen_step (hrun : s.running = false) (haccounted : Accounted s)
    (hfailed : s.failed_releases = 0) (hl : s.listener ≠ .stopped) :
    ∃ e s', e.resumes = true ∧ e.smooth = true ∧ listenStep? s e = some s' ∧
      s'.failed_releases = 0 := by
  cases hcase : s.listener with
  | stopped => exact absurd hcase hl
  | created =>
      refine ⟨.listenStarts, listenHead s, rfl, rfl, by simp [listenStep?, hcase], ?_⟩
      rw [listenHead_stopping hrun]
      exact hfailed
  | acquire =>
      -- nothing is held and nothing has got lost, so the pool has a connection
      have hfree : s.acquired = 0 := by
        rw [Accounted, hfailed, hcase] at haccounted
        exact haccounted
      exact ⟨.acquires true,
        { s with listener := .addListener, acquired := s.acquired + 1 }, rfl, rfl,
        by simp [listenStep?, hcase, hfree, poolSize], hfailed⟩
  | addListener =>
      refine ⟨.adds true, napHead s, rfl, rfl, by simp [listenStep?, hcase], ?_⟩
      rw [napHead_stopping hrun]
      exact hfailed
  | listen =>
      refine ⟨.napEnds, napHead s, rfl, rfl, by simp [listenStep?, hcase], ?_⟩
      rw [napHead_stopping hrun]
      exact hfailed
  | removeListener =>
      exact ⟨.removes true, { s with listener := .release }, rfl, rfl,
        by simp [listenStep?, hcase], hfailed⟩
  | release =>
      refine ⟨.releases true, listenTail { s with acquired := s.acquired - 1 },
        rfl, rfl, by simp [listenStep?, hcase], ?_⟩
      rw [listenTail_stopping (s := { s with acquired := s.acquired - 1 }) hrun]
      exact hfailed
  | backoff =>
      refine ⟨.backoffEnds, listenHead s, rfl, rfl, by simp [listenStep?, hcase], ?_⟩
      rw [listenHead_stopping hrun]
      exact hfailed

/-- The process loop can go on without an error, and a wait without its
timeout. -/
theorem exists_process_step (hrun : s.running = false) (halert : Alert s)
    (hp : s.process ≠ .stopped) :
    ∃ e s', e.resumes = true ∧ e.smooth = true ∧ processStep? s e = some s' ∧
      s'.failed_releases = s.failed_releases := by
  cases hcase : s.process with
  | stopped => exact absurd hcase hp
  | created =>
      refine ⟨.processStarts, processHead s, rfl, rfl,
        by simp [processStep?, hcase], ?_⟩
      rw [processHead_stopping hrun]
  | batch =>
      exact ⟨.batchEnds (.ok 0), { s with process := .wait }, rfl, rfl,
        by simp [processStep?, hcase], rfl⟩
  | wait =>
      have hset := halert.shutdown hrun hp
      refine ⟨.wakes, processHead { s with notify_event := false }, rfl, rfl,
        by simp [processStep?, hcase, hset], ?_⟩
      rw [processHead_stopping (s := { s with notify_event := false }) hrun]
  | pause =>
      refine ⟨.pauseEnds, processHead s, rfl, rfl, by simp [processStep?, hcase], ?_⟩
      rw [processHead_stopping hrun]

theorem exists_smooth_step (hrun : s.running = false) (halert : Alert s)
    (haccounted : Accounted s) (hfailed : s.failed_releases = 0)
    (hleft : ¬ (s.process = .stopped ∧ s.listener = .stopped)) :
    ∃ e s', e.resumes = true ∧ e.smooth = true ∧ next? s e = some s' ∧
      s'.failed_releases = 0 := by
  by_cases hp : s.process = .stopped
  · obtain ⟨e, s', hres, hsmooth, hstep, hfailed'⟩ :=
      exists_listen_step hrun haccounted hfailed fun hl => hleft ⟨hp, hl⟩
    have hprocess : processStep? s e = none := by
      cases e <;> simp [processStep?, hp]
    exact ⟨e, s', hres, hsmooth, by rw [next?, hprocess, hstep]; rfl, hfailed'⟩
  · obtain ⟨e, s', hres, hsmooth, hstep, hsame⟩ :=
      exists_process_step hrun halert hp
    exact ⟨e, s', hres, hsmooth, by rw [next?, hstep]; rfl, hsame.trans hfailed⟩

/-- The loops stop one step after the other. -/
theorem exists_smooth_run (hrun : s.running = false) (halert : Alert s)
    (haccounted : Accounted s) (hfailed : s.failed_releases = 0) :
    ∃ es s', (∀ e ∈ es, e.resumes = true ∧ e.smooth = true) ∧ Runs s es s' ∧
      s'.process = .stopped ∧ s'.listener = .stopped ∧ s'.acquired = 0 := by
  induction hn : stepsLeft s using Nat.strongRecOn generalizing s with
  | ind n ih =>
      by_cases hdone : s.process = .stopped ∧ s.listener = .stopped
      · refine ⟨[], s, fun _ he => absurd he List.not_mem_nil, rfl, hdone.1, hdone.2, ?_⟩
        rw [Accounted, hfailed, hdone.2] at haccounted
        exact haccounted
      · obtain ⟨e, s₁, hres, hsmooth, hstep, hfailed₁⟩ :=
          exists_smooth_step hrun halert haccounted hfailed hdone
        obtain ⟨hstop, hless⟩ := next?_stopping hrun hstep
        rw [hres, if_pos rfl] at hless
        obtain ⟨es, s', hes, hruns, hend⟩ := ih _ (by omega) hstop.running
          (halert.next hstep) (haccounted.next hstep) hfailed₁ rfl
        refine ⟨e :: es, s', ?_, run?_cons.mpr ⟨s₁, hstep, hruns⟩, hend⟩
        intro e' he'
        rcases List.mem_cons.mp he' with rfl | he'
        · exact ⟨hres, hsmooth⟩
        · exact hes e' he'

theorem stepsLeft_le (s : WorkerState) : stepsLeft s ≤ 6 := by
  have hp : s.process.left ≤ 2 := by cases s.process <;> simp [ProcessLoop.left]
  have hl : s.listener.left ≤ 4 := by cases s.listener <;> simp [ListenLoop.left]
  rw [stepsLeft]
  omega

/-- **Shutdown**: once a signal has come, no further batch begins and the two
loops together take at most six more steps, in whatever order things happen.
They do not need an error or a timeout for it, so long as every connection could
be given back: then both stop, and the pool has all its connections to close. -/
theorem shutdown_completes (h : Runs gathered es s) (hrun : s.running = false) :
    (∀ es' s', Runs s es' s' → s'.batches = s.batches ∧
        es'.countP WorkerEvent.resumes ≤ 6) ∧
      (s.failed_releases = 0 →
        ∃ es' s', (∀ e ∈ es', e.resumes = true ∧ e.smooth = true) ∧
          Runs s es' s' ∧ s'.process = .stopped ∧ s'.listener = .stopped ∧
          s'.acquired = 0) := by
  refine ⟨fun es' s' h' => ?_, fun hfailed =>
    exists_smooth_run hrun (alert_of_runs h) (accounted_of_runs h) hfailed⟩
  obtain ⟨⟨-, hbatches⟩, hle⟩ := run?_bounded stepsLeft WorkerEvent.resumes
    (P := fun t : WorkerState => t.running = false ∧ t.batches = s.batches)
    (fun ⟨hr, hb⟩ hn => by
      obtain ⟨hstop, hleft⟩ := next?_stopping hr hn
      exact ⟨⟨hstop.running, hstop.batches.trans hb⟩, hleft⟩) ⟨hrun, rfl⟩ h'
  have := stepsLeft_le s
  exact ⟨hbatches, by omega⟩

theorem notified_worker_stops :
    (∀ es' s', Runs (handleShutdown notifiedWorker) es' s' → s'.batches = 1 ∧
        es'.countP WorkerEvent.resumes ≤ 6) ∧
      (0 = 0 → ∃ es' s', (∀ e ∈ es', e.resumes = true ∧ e.smooth = true) ∧
        Runs (handleShutdown notifiedWorker) es' s' ∧ s'.process = .stopped ∧
        s'.listener = .stopped ∧ s'.acquired = 0) :=
  shutdown_completes
    (run?_append.mpr ⟨notifiedWorker, runs_notified, run?_cons.mpr ⟨_, rfl, rfl⟩⟩ :
      Runs gathered (notifiedEvents ++ [.signal]) (handleShutdown notifiedWorker))
    rfl

/-! ## Reconnecting -/

/-- Nothing starts the worker again. -/
theorem running_of_next (h : next? s e = some s') (hrun : s'.running = true) :
    s.running = true := by
  by_contra hstop
  obtain ⟨⟨hstop', -⟩, -⟩ := next?_stopping (Bool.not_eq_true _ ▸ hstop) h
  rw [hstop'] at hrun
  cases hrun

theorem running_of_runs (h : Runs s es s') (hrun : s'.running = true) :
    s.running = true := by
  induction es generalizing s with
  | nil =>
      cases h
      exact hrun
  | cons e es ih =>
      obtain ⟨s₁, hstep, hrest⟩ := run?_cons.mp h
      exact running_of_next hstep (ih hrest)

/-- A listener leaves its inner loop for a shutdown alone. -/
theorem listen_next (hl : s.listener = .listen) (h : next? s e = some s')
    (hrun : s'.running = true) :
    s'.listener = .listen ∧ s'.acquired = s.acquired ∧
      ∀ ok, e ≠ .acquires ok := by
  have hstart := running_of_next h hrun
  have hacquires : ∀ ok, e ≠ .acquires ok := by
    rintro ok rfl
    simp [next?, processStep?, listenStep?, outsideStep?, hl] at h
  have hhead : ∀ t : WorkerState, (processHead t).listener = t.listener ∧
      (processHead t).acquired = t.acquired := by
    intro t
    rw [processHead]
    split <;> exact ⟨rfl, rfl⟩
  rcases next?_eq_some h with hn | hn | hn
  · rcases processStep?_eq_some hn with ⟨-, rfl | rfl⟩ | ⟨-, -, rfl⟩ | ⟨-, rfl⟩
    · exact ⟨hl, rfl, hacquires⟩
    · exact ⟨hl, rfl, hacquires⟩
    · exact ⟨(hhead s).1.trans hl, (hhead s).2, hacquires⟩
    · exact ⟨(hhead _).1.trans hl, (hhead _).2, hacquires⟩
  · rcases listenStep?_eq_some hn with ⟨hl' | hl', -⟩ | ⟨hl', -⟩ |
      ⟨hl' | hl', rfl⟩ | ⟨hl', -⟩ | ⟨hl', -⟩ | ⟨hl', -⟩
    all_goals try (rw [hl] at hl'; cases hl')
    rw [napHead, if_pos hstart]
    exact ⟨rfl, rfl, hacquires⟩
  · rcases outsideStep?_eq_some hn with ⟨-, rfl⟩ | ⟨-, rfl⟩ | rfl | rfl
    · exact ⟨hl, rfl, hacquires⟩
    · exact ⟨hl, rfl, hacquires⟩
    · exact ⟨hl, rfl, hacquires⟩
    · exact ⟨hl, rfl, hacquires⟩

theorem listen_of_runs (h : Runs s es s') (hl : s.listener = .listen)
    (hrun : s'.running = true) :
    s'.listener = .listen ∧ s'.acquired = s.acquired ∧
      ∀ ok, .acquires ok ∉ es := by
  induction es generalizing s with
  | nil =>
      cases h
      exact ⟨hl, rfl, fun _ he => absurd he List.not_mem_nil⟩
  | cons e es ih =>
      obtain ⟨s₁, hstep, hrest⟩ := run?_cons.mp h
      obtain ⟨hl₁, hacquired₁, he⟩ :=
        listen_next hl hstep (running_of_runs hrest hrun)
      obtain ⟨hl', hacquired', hes⟩ := ih hrest hl₁
      refine ⟨hl', hacquired'.trans hacquired₁, fun ok hmem => ?_⟩
      rcases List.mem_cons.mp hmem with heq | hmem
      · exact he ok heq.symm
      · exact hes ok hmem

/-- **One connection**: in every run, what is out of the pool is the connection
the listener uses, if it has one, and those whose release failed. A listener
that has come to listen keeps its connection until the shutdown: whatever
becomes of the connection, it never asks the pool for another. -/
theorem listener_keeps_connection (h : Runs gathered es s) :
    s.acquired = s.failed_releases + (if s.listener.holds then 1 else 0) ∧
      (s.listener = .listen → ∀ es' s', Runs s es' s' → s'.running = true →
        s'.listener = .listen ∧ s'.acquired = s.acquired ∧
          ∀ ok, .acquires ok ∉ es') :=
  ⟨accounted_of_runs h, fun hl _ _ h' hrun => listen_of_runs h' hl hrun⟩

theorem notified_worker_connected : 1 = 0 + 1 ∧
    (ListenLoop.listen = .listen → ∀ es' s', Runs notifiedWorker es' s' →
      s'.running = true → s'.listener = .listen ∧ s'.acquired = 1 ∧
        ∀ ok, .acquires ok ∉ es') :=
  listener_keeps_connection runs_notified

end RollupWorker

end AnalyticsPipeline
