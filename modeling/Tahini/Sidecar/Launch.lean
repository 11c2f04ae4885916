import Mathlib.Data.List.Basic

/-!
# Launching a service and opening its key pipe

`launch_binary` (`tahini_attest/src/sidecar.rs`) creates the FIFO, spawns
the service, and opens the FIFO's write end (`enable_fifo`); afterwards each
attestation writes one line to it (`write_session_key`). In the service, the
pre-main constructor `client_map_state_constructor`
(`hoodini-server/src/lib.rs`) opens a read end, spawns the reader thread and
returns. The thread opens its own read end in `FifoReadHandle::new`. The
constructor's handle `fifo_read` is not captured by the thread's closure, so
it is dropped, and its read end closed, when the constructor returns.

Three actors (`Actor`) take steps in any order (`LaunchState.step`). Opening
a FIFO follows Linux's `fifo_open`: the opener is counted at once, and if no
partner end is open it waits until a partner open happens (the partner's
open counter moves). The reader thread then reads lines until one of them
fails to decode or finds `CLIENT_MAP`'s lock poisoned; it panics there, and
its read end closes with it (`exited`). Its reads change nothing here, so a
schedule that never moves it again keeps it reading. A `write(2)` with no
read end open fails with `EPIPE` (Rust ignores `SIGPIPE`), and
`write_session_key` turns that into a panic; each write's outcome is
recorded in `writes`.

`launch_write_without_reader` is the schedule in which a client attests
between the constructor's return and the thread's `open`: the write finds no
reader. `run_writes_fail_after_reader_exit` is what does hold over every
schedule once the reader thread has opened its end: the writes succeed
until the thread has exited and the constructor has returned, and from then
on every write fails, since nothing opens a read end again.
-/

namespace Tahini.Sidecar

/-- The sidecar's progress through `launch_binary` and the attestations. -/
inductive SidecarPc where
  | createFifo
  | spawn
  | openWrite
  | waitWrite (seen : Nat)
  | serving
  deriving DecidableEq, Repr

/-- The constructor's progress in the child's main thread. -/
inductive CtorPc where
  | notStarted
  | openRead
  | waitRead (seen : Nat)
  | spawnThread
  | dropReader
  | returned
  deriving DecidableEq, Repr

/-- The reader thread's progress. -/
inductive ThreadPc where
  | notStarted
  | openRead
  | waitRead (seen : Nat)
  | reading
  /-- Panicked on a line that did not decode, or on a poisoned map. -/
  | exited
  deriving DecidableEq, Repr

/-- The FIFO's open ends and open counters, and the three actors. -/
structure LaunchState where
  fifoExists : Bool
  readers : Nat
  writers : Nat
  rCounter : Nat
  wCounter : Nat
  sidecar : SidecarPc
  ctor : CtorPc
  thread : ThreadPc
  /-- Each `write_session_key` so far: `true` if a read end was open. -/
  writes : List Bool

/-- Before `launch_binary`. -/
def LaunchState.init : LaunchState :=
  ⟨false, 0, 0, 0, 0, .createFifo, .notStarted, .notStarted, []⟩

/-- Who moves. -/
inductive Actor where
  | sidecar
  | ctor
  | thread
  deriving DecidableEq, Repr

/-- One step of one actor; a blocked or finished actor does nothing. -/
def LaunchState.step (s : LaunchState) : Actor → LaunchState
  | .sidecar =>
    match s.sidecar with
    | .createFifo => { s with fifoExists := true, sidecar := .spawn }
    | .spawn => { s with ctor := .openRead, sidecar := .openWrite }
    | .openWrite =>
      { s with writers := s.writers + 1, wCounter := s.wCounter + 1,
               sidecar := if 0 < s.readers then .serving else .waitWrite s.rCounter }
    | .waitWrite seen => if s.rCounter ≠ seen then { s with sidecar := .serving } else s
    | .serving => { s with writes := s.writes ++ [decide (0 < s.readers)] }
  | .ctor =>
    match s.ctor with
    | .openRead =>
      { s with readers := s.readers + 1, rCounter := s.rCounter + 1,
               ctor := if 0 < s.writers then .spawnThread else .waitRead s.wCounter }
    | .waitRead seen => if s.wCounter ≠ seen then { s with ctor := .spawnThread } else s
    | .spawnThread => { s with thread := .openRead, ctor := .dropReader }
    | .dropReader => { s with readers := s.readers - 1, ctor := .returned }
    | _ => s
  | .thread =>
    match s.thread with
    | .openRead =>
      { s with readers := s.readers + 1, rCounter := s.rCounter + 1,
               thread := if 0 < s.writers then .reading else .waitRead s.wCounter }
    | .waitRead seen => if s.wCounter ≠ seen then { s with thread := .reading } else s
    | .reading => { s with readers := s.readers - 1, thread := .exited }
    | _ => s

/-- The state after the actors moved as `schedule` says. -/
def LaunchState.run (s : LaunchState) (schedule : List Actor) : LaunchState :=
  schedule.foldl LaunchState.step s

/-- The sidecar creates the FIFO and spawns the service; the constructor
starts its `open`; the sidecar's `open` finds it and completes; the
constructor's `open` completes, it spawns the thread and returns, closing its
end; a client attests before the thread runs. The write finds no reader. -/
theorem launch_write_without_reader :
    (LaunchState.init.run [.sidecar, .sidecar, .ctor, .sidecar, .ctor, .ctor, .ctor, .sidecar]).writes =
      [false] := by
  decide

/-- The read end the constructor holds, if it is counted. -/
def CtorPc.readEnd : CtorPc → Nat
  | .waitRead _ | .spawnThread | .dropReader => 1
  | _ => 0

/-- The read end the reader thread holds, if it is counted. -/
def ThreadPc.readEnd : ThreadPc → Nat
  | .waitRead _ | .reading => 1
  | _ => 0

/-- Whether the constructor has spawned the reader thread. -/
def CtorPc.spawned : CtorPc → Bool
  | .dropReader | .returned => true
  | _ => false

/-- What every reachable state satisfies: the open read ends are exactly the
constructor's and the thread's, the child is not running before it is
spawned, and the thread is not running before the constructor spawns it. -/
structure LaunchWf (s : LaunchState) : Prop where
  readers : s.readers = s.ctor.readEnd + s.thread.readEnd
  unspawned : s.sidecar = .createFifo ∨ s.sidecar = .spawn → s.ctor = .notStarted
  noThread : s.ctor.spawned = false → s.thread = .notStarted

theorem init_launchWf : LaunchWf LaunchState.init := ⟨rfl, fun _ => rfl, fun _ => rfl⟩

/-- The sidecar's moves keep the invariant; only `spawn` touches the
constructor, which it starts from `notStarted`. -/
theorem step_sidecar_launchWf {s : LaunchState} (h : LaunchWf s) : LaunchWf (s.step .sidecar) := by
  obtain ⟨hr, hu, hn⟩ := h
  cases hs : s.sidecar with
  | createFifo =>
    simp only [LaunchState.step, hs]
    exact ⟨hr, fun _ => hu (.inl hs), hn⟩
  | spawn =>
    have hc := hu (.inr hs)
    have ht := hn (by rw [hc]; rfl)
    simp only [LaunchState.step, hs]
    exact ⟨by simp [hr, hc, ht, CtorPc.readEnd, ThreadPc.readEnd], fun h => by simp at h, fun _ => ht⟩
  | openWrite | waitWrite _ | serving =>
    simp only [LaunchState.step, hs]
    (try split) <;> exact ⟨hr, fun h => by simp [hs] at h, hn⟩

/-- The constructor's moves keep the invariant: each open and close of its
read end moves `readers` with it, and it spawns the thread on its way out. -/
theorem step_ctor_launchWf {s : LaunchState} (h : LaunchWf s) : LaunchWf (s.step .ctor) := by
  obtain ⟨hr, hu, hn⟩ := h
  cases hc : s.ctor with
  | notStarted | returned =>
    simp only [LaunchState.step, hc]
    exact ⟨hr, hu, hn⟩
  | dropReader =>
    simp only [LaunchState.step, hc]
    refine ⟨?_, fun h => by simpa [hc] using hu h, fun h => by simp [CtorPc.spawned] at h⟩
    simp only [hr, hc, CtorPc.readEnd]; omega
  | openRead | waitRead _ | spawnThread =>
    -- before the spawn the thread has not started
    have ht := hn (by simp [hc, CtorPc.spawned])
    simp only [LaunchState.step, hc]
    (try split) <;> exact ⟨by simp [hr, hc, ht, CtorPc.readEnd, ThreadPc.readEnd],
      fun h => by simpa [hc] using hu h, by simp [CtorPc.spawned, ht]⟩

/-- The thread's moves keep the invariant: it runs only once spawned, and its
open and its exit move `readers` with it. -/
theorem step_thread_launchWf {s : LaunchState} (h : LaunchWf s) : LaunchWf (s.step .thread) := by
  obtain ⟨hr, hu, hn⟩ := h
  cases ht : s.thread with
  | notStarted | exited =>
    simp only [LaunchState.step, ht]
    exact ⟨hr, hu, hn⟩
  | openRead | waitRead _ | reading =>
    have hc : s.ctor.spawned = true := by
      by_contra hf; simpa [ht] using hn (by simpa using hf)
    simp only [LaunchState.step, ht]
    (try split) <;> exact ⟨by simp [hr, ht, ThreadPc.readEnd], hu, by simp [hc]⟩

theorem step_launchWf (s : LaunchState) (a : Actor) (h : LaunchWf s) : LaunchWf (s.step a) := by
  cases a with
  | sidecar => exact step_sidecar_launchWf h
  | ctor => exact step_ctor_launchWf h
  | thread => exact step_thread_launchWf h

theorem run_launchWf (sched : List Actor) : ∀ s : LaunchState, LaunchWf s → LaunchWf (s.run sched) := by
  induction sched with
  | nil => intro s h; exact h
  | cons a as ih => intro s h; exact ih _ (step_launchWf s a h)

/-- Each step records at most one write, whose outcome is whether a read
end is open. -/
theorem step_writes (s : LaunchState) (a : Actor) :
    (s.step a).writes = s.writes ∨ (s.step a).writes = s.writes ++ [decide (0 < s.readers)] := by
  cases a <;> simp only [LaunchState.step] <;> split <;> (try split) <;> simp

/-- A thread that has opened its end was spawned. -/
theorem LaunchWf.spawned_of_opened {s : LaunchState} (h : LaunchWf s)
    (ho : s.thread = .reading ∨ s.thread = .exited) : s.ctor.spawned = true := by
  by_contra hne
  have := h.noThread (by simpa using hne)
  rcases ho with ho | ho <;> rw [ho] at this <;> cases this

/-- Once the thread has opened its end, no read end is open exactly when the
thread has exited and the constructor has returned. -/
theorem LaunchWf.readers_eq_zero_iff {s : LaunchState} (h : LaunchWf s)
    (ho : s.thread = .reading ∨ s.thread = .exited) :
    s.readers = 0 ↔ s.thread = .exited ∧ s.ctor = .returned := by
  have hsp := h.spawned_of_opened ho
  rw [h.readers]
  cases hc : s.ctor <;> simp [hc, CtorPc.spawned] at hsp <;> rcases ho with ho | ho <;>
    simp [ho, CtorPc.readEnd, ThreadPc.readEnd]

/-- A step keeps the thread's end opened, or exited. -/
theorem step_opened {s : LaunchState} (h : LaunchWf s) (ho : s.thread = .reading ∨ s.thread = .exited)
    (a : Actor) : (s.step a).thread = .reading ∨ (s.step a).thread = .exited := by
  have hsp := h.spawned_of_opened ho
  cases a with
  | sidecar => simp only [LaunchState.step]; split <;> (try split) <;> exact ho
  | ctor =>
    simp only [LaunchState.step]
    cases hc : s.ctor <;> simp [hc, CtorPc.spawned] at hsp <;> exact ho
  | thread => rcases ho with ho | ho <;> simp [LaunchState.step, ho]

/-- Once the thread has exited and the constructor has returned, they stay
so: nothing opens a read end again. -/
theorem run_closed (sched : List Actor) : ∀ s : LaunchState, LaunchWf s →
    s.thread = .exited ∧ s.ctor = .returned →
      (s.run sched).thread = .exited ∧ (s.run sched).ctor = .returned := by
  induction sched with
  | nil => exact fun _ _ hc => hc
  | cons a as ih =>
    intro s h ⟨ht, hc⟩
    refine ih _ (step_launchWf s a h) ?_
    -- the sidecar has spawned the child, so its steps leave the child alone
    have hs : s.sidecar ≠ .spawn := fun hs => by
      have := h.unspawned (.inr hs)
      rw [hc] at this
      cases this
    cases a with
    | sidecar => simp only [LaunchState.step]; split <;> (try split) <;> simp_all
    | ctor | thread => simp [LaunchState.step, ht, hc]

/-- Over a schedule from a state where the thread has opened its end, the
writes succeed for a while and then fail for good, and they fail only once
every read end is closed for good. -/
theorem run_writes_of_opened (sched : List Actor) : ∀ s : LaunchState, LaunchWf s →
    (s.thread = .reading ∨ s.thread = .exited) →
    ∃ a b, (s.run sched).writes = s.writes ++ List.replicate a true ++ List.replicate b false ∧
      (0 < b → (s.run sched).thread = .exited ∧ (s.run sched).ctor = .returned) ∧
      (s.readers = 0 → a = 0) := by
  induction sched with
  | nil => exact fun s _ _ => ⟨0, 0, by simp [LaunchState.run], by simp, fun _ => rfl⟩
  | cons x xs ih =>
    intro s h ho
    have hx' := (step_launchWf s x h).readers_eq_zero_iff (step_opened h ho x)
    have hclosed : s.readers = 0 → (s.step x).readers = 0 := fun h0 =>
      hx'.2 (run_closed [x] s h ((h.readers_eq_zero_iff ho).1 h0))
    obtain ⟨a, b, hw, hb, ha⟩ := ih _ (step_launchWf s x h) (step_opened h ho x)
    have hrun : s.run (x :: xs) = (s.step x).run xs := rfl
    rw [hrun]
    rcases step_writes s x with hx | hx <;> rw [hx] at hw
    · exact ⟨a, b, hw, hb, fun h0 => ha (hclosed h0)⟩
    · by_cases h0 : s.readers = 0
      · -- closed for good: the write fails, and so does every later one
        refine ⟨0, b + 1, ?_, fun _ => run_closed xs _ (step_launchWf s x h) (hx'.1 (hclosed h0)),
          fun _ => rfl⟩
        rw [hw, ha (hclosed h0)]
        simp [h0, List.replicate_succ]
      · refine ⟨a + 1, b, ?_, hb, fun h' => absurd h' h0⟩
        rw [hw]
        simp [Nat.pos_of_ne_zero h0, List.replicate_succ]

/-- Over every schedule, once the reader thread has opened its end, the
later writes succeed for a while and then fail for good. A write fails only
after the thread has exited and the constructor has returned, closing the
last read end, and no read end opens again. -/
theorem run_writes_fail_after_reader_exit (pre sched : List Actor)
    (ht : (LaunchState.init.run pre).thread = .reading) :
    ∃ a b, ((LaunchState.init.run pre).run sched).writes =
        (LaunchState.init.run pre).writes ++ List.replicate a true ++ List.replicate b false ∧
      (0 < b → ((LaunchState.init.run pre).run sched).thread = .exited ∧
        ((LaunchState.init.run pre).run sched).ctor = .returned) := by
  obtain ⟨a, b, hw, hb, -⟩ := run_writes_of_opened sched _ (run_launchWf pre _ init_launchWf) (.inl ht)
  exact ⟨a, b, hw, hb⟩

theorem run_writes_fail_after_reader_exit_schedule :
    (LaunchState.init.run [.sidecar, .sidecar, .ctor, .sidecar, .ctor, .ctor, .thread]).thread = .reading ∧
    ∃ a b, ((LaunchState.init.run [.sidecar, .sidecar, .ctor, .sidecar, .ctor, .ctor, .thread]).run
          [.sidecar, .thread, .sidecar, .ctor, .sidecar]).writes =
        (LaunchState.init.run [.sidecar, .sidecar, .ctor, .sidecar, .ctor, .ctor, .thread]).writes ++
          List.replicate a true ++ List.replicate b false ∧
      (0 < b → ((LaunchState.init.run [.sidecar, .sidecar, .ctor, .sidecar, .ctor, .ctor, .thread]).run
          [.sidecar, .thread, .sidecar, .ctor, .sidecar]).thread = .exited ∧
        ((LaunchState.init.run [.sidecar, .sidecar, .ctor, .sidecar, .ctor, .ctor, .thread]).run
          [.sidecar, .thread, .sidecar, .ctor, .sidecar]).ctor = .returned) :=
  ⟨by decide, run_writes_fail_after_reader_exit _ _ (by decide)⟩

/-- The thread opens its end and a client attests; the thread exits while
the constructor still holds its end, so a second client's write still finds
a reader; the constructor returns, and a third client's write fails. -/
example : ((LaunchState.init.run [.sidecar, .sidecar, .ctor, .sidecar, .ctor, .ctor, .thread]).run
    [.sidecar, .thread, .sidecar, .ctor, .sidecar]).writes = [true, true, false] := by
  decide

end Tahini.Sidecar
