import DraftKeeper.Proofs.Shutdown

namespace DraftKeeper.Daemon

variable {s s' : Daemon}

section Running

variable {keeper : Keeper} {dispatch dispatch' : Dispatch} {queue accepted : List Event}
  {capacity senders granted : Nat} {signalled : Bool} {sweeps : List (Option (List String))} {stage : Stage}

theorem owns_receive (hstage : stage = .serving ∨ stage = .draining) :
    Owns ⟨keeper, dispatch, queue, accepted, capacity, senders, granted, signalled, sweeps, stage⟩
      ⟨keeper, queue.foldl Dispatch.dispatch dispatch, [], accepted, capacity, senders, granted, signalled,
        sweeps, stage⟩ := by
  induction queue generalizing dispatch with
  | nil => exact .refl
  | cons e rest ih => exact .head (.receive e rest hstage rfl) ih

theorem owns_of_acts {keeper' : Keeper}
    (h : Relation.ReflTransGen Dispatch.Acts (dispatch, keeper) (dispatch', keeper')) :
    Owns ⟨keeper, dispatch, queue, accepted, capacity, senders, granted, signalled, sweeps, stage⟩
      ⟨keeper', dispatch', queue, accepted, capacity, senders, granted, signalled, sweeps, stage⟩ := by
  generalize ha : (dispatch, keeper) = a at h
  induction h using Relation.ReflTransGen.head_induction_on generalizing dispatch keeper with
  | refl =>
      cases ha
      exact .refl
  | head hstep _ ih =>
      subst ha
      exact .head (.work _ _ hstep) (ih rfl)

theorem owns_sweep (left : List String) (report : SweepReport) :
    Owns ⟨keeper, dispatch, queue, accepted, capacity, senders, granted, signalled, sweeps,
        .sweeping left report⟩
      ⟨(left.foldl Keeper.sweepOne (report, keeper)).2, dispatch, queue, accepted, capacity, senders, granted,
        signalled, sweeps, .ended (left.foldl Keeper.sweepOne (report, keeper)).1⟩ := by
  induction left generalizing report keeper with
  | nil => exact .single (.stop report rfl)
  | cons path left ih => exact .head (.lastVisit path left report rfl) (ih _)

theorem owns_visits (left : List String) (report : SweepReport) :
    Owns ⟨keeper, dispatch, queue, accepted, capacity, senders, granted, signalled, [some left], stage⟩
      ⟨(left.foldl Keeper.sweepOne (report, keeper)).2, dispatch, queue, accepted, capacity, senders, granted,
        signalled, [], stage⟩ := by
  induction left generalizing report keeper with
  | nil => exact .single (.endSweep [] [] rfl)
  | cons path left ih =>
      refine .head (.visit [] [] path left rfl) ?_
      rw [List.foldl_cons, ← Prod.eta (Keeper.sweepOne (report, keeper) path),
        ← Keeper.sweepOne_snd ⟨0, 0⟩ report]
      exact ih _

theorem owns_settle (hd : dispatch.Reached) (hidle : dispatch.running = [])
    (hstage : stage = .serving ∨ stage = .draining) : ∃ d : Dispatch,
    Owns ⟨keeper, dispatch, queue, accepted, capacity, senders, granted, signalled, sweeps, stage⟩
      ⟨((queue.foldl Schedule.add dispatch.schedule).drain keeper).2, d, [], accepted, capacity, senders,
        granted, signalled, sweeps, stage⟩ ∧
    d.schedule = ((queue.foldl Schedule.add dispatch.schedule).drain keeper).1 ∧
    d.schedule.tasks = [] ∧ d.running = [] := by
  obtain ⟨d, hrun, htasks, hrest, hlast⟩ :=
    (hd.foldl_dispatch queue).drain ((Dispatch.running_foldl_dispatch queue dispatch).trans hidle) keeper
  rw [Dispatch.schedule_foldl_dispatch] at hrun hlast
  exact ⟨d, (owns_receive hstage).trans (owns_of_acts hrun), hlast.symm, htasks, hrest⟩

end Running

/-- The worker at a time when nothing is under way is one of these daemons. -/
structure Serves (w : Worker) (s : Daemon) : Prop where
  sound : s.Sound
  keeper : s.keeper = w.keeper
  schedule : s.dispatch.schedule = w.schedule
  queue : s.queue = w.queue
  stage : s.stage = .serving
  settled : s.granted = 0
  idle : s.dispatch.running = []
  sweeps : s.sweeps = []
  isOpen : w.closed = false

theorem serves_new (k : Keeper) (interval : Option Nat) (capacity senders : Nat) :
    Serves (.new k interval) (start k capacity senders) :=
  ⟨sound_start, rfl, rfl, rfl, rfl, rfl, rfl, rfl, rfl⟩

theorem Serves.send {w w' : Worker} {e : Event} (h : Serves w s) (hsend : w.send e = some w')
    (hthere : 0 < s.senders) (hroom : s.queue.length < s.capacity) : ∃ s', Steps s s' ∧ Serves w' s' := by
  have hadmission : s.admission = .granted := by
    simp [admission, h.stage, h.settled, Stage.isClosed, hroom]
  have hsteps : Steps s { s with queue := s.queue ++ [e], accepted := s.accepted ++ [e] } :=
    .head (.inr (.reserve hthere hadmission)) (.single (.inr (.push e (Nat.succ_pos s.granted))))
  rw [Worker.send, h.isOpen, if_neg Bool.false_ne_true, Option.some.injEq] at hsend
  subst hsend
  exact ⟨_, hsteps, hsteps.sound h.sound, h.keeper, h.schedule, congrArg (· ++ [e]) h.queue, h.stage,
    h.settled, h.idle, h.sweeps, rfl⟩

/-- What the worker does with all that has come in is a run of the daemon. -/
theorem Serves.settle {w : Worker} (h : Serves w s) : ∃ s', Owns s s' ∧ Serves w.settle s' := by
  obtain ⟨k, d, q, accepted, capacity, senders, granted, signalled, sweeps, stage⟩ := s
  obtain ⟨hs, rfl, hschedule, rfl, rfl, rfl, hidle, rfl, hopen⟩ := h
  obtain ⟨d', hrun, hlast, -, hrest⟩ := owns_settle hs.dispatch hidle (.inl rfl)
  have hsound := hrun.steps.sound hs
  rw [hschedule] at hrun hlast hsound
  exact ⟨_, hrun, hsound, rfl, hlast, rfl, rfl, rfl, hrest, rfl, hopen⟩

theorem Serves.advance {w : Worker} (h : Serves w s) (milliseconds : Nat) :
    ∃ s', Steps s s' ∧ Serves (w.advance milliseconds) s' := by
  have hnothing (now : Nat) (sweeps : Option Sweeps) : Serves { w with now, sweeps } s :=
    ⟨h.sound, h.keeper, h.schedule, h.queue, h.stage, h.settled, h.idle, h.sweeps, h.isOpen⟩
  rw [Worker.advance]
  cases w.sweeps with
  | none => exact ⟨s, .refl, hnothing _ _⟩
  | some sweeps =>
      simp only
      split
      · exact ⟨s, .refl, hnothing _ _⟩
      · obtain ⟨k, d, q, accepted, capacity, senders, granted, signalled, sweeps, stage⟩ := s
        obtain ⟨hs, rfl, hschedule, rfl, rfl, rfl, hidle, rfl, hopen⟩ := h
        have hsteps : Steps ⟨w.keeper, d, w.queue, accepted, capacity, senders, 0, signalled, [], .serving⟩
            ⟨w.keeper.sweep.2, d, w.queue, accepted, capacity, senders, 0, signalled, [], .serving⟩ :=
          .head (.inr (.tick rfl)) (.head (.inl (.beginSweep [] [] rfl))
            (owns_visits w.keeper.tracked ⟨0, 0⟩).steps)
        exact ⟨_, hsteps, hsteps.sound hs, rfl, hschedule, rfl, rfl, rfl, hidle, rfl, hopen⟩

theorem Serves.shutdown {w : Worker} (h : Serves w s) (hstop : s.signalled = true) :
    ∃ s' report, Owns s s' ∧ s'.stage = .ended report ∧ s'.keeper = w.shutdown.keeper ∧
      s'.dispatch.schedule = w.shutdown.schedule := by
  obtain ⟨k, d, q, accepted, capacity, senders, granted, signalled, sweeps, stage⟩ := s
  obtain ⟨hs, rfl, hschedule, rfl, rfl, rfl, hidle, rfl, hopen⟩ := h
  obtain ⟨d', hrun, hlast, htasks, -⟩ := owns_settle hs.dispatch hidle (.inr rfl)
  rw [hschedule] at hrun hlast
  have hshutdown : w.shutdown = ({ w with closed := true }.settle).sweep := by
    rw [Worker.shutdown, hopen]
    rfl
  have hend := hrun.tail (.drained rfl rfl rfl) |>.tail (.joined rfl htasks rfl) |>.trans (owns_sweep _ _)
  refine ⟨_, _, .head (.leave rfl (.inl hstop)) (.head (.close rfl) hend), rfl, ?_, ?_⟩
  · rw [hshutdown]
    rfl
  · rw [hshutdown]
    exact hlast

end DraftKeeper.Daemon
