import DraftKeeper.Worker
import DraftKeeper.Proofs.Dispatching
import DraftKeeper.Proofs.Sessions
import DraftKeeper.Proofs.Sweeps

namespace DraftKeeper

namespace Daemon

/-- How far the daemon has come. The last sweep is listed with the paths that it has yet to visit. -/
inductive Stage
  | serving
  | leaving
  | draining
  | joining
  | sweeping (left : List String) (report : SweepReport)
  | ended (report : SweepReport)
deriving DecidableEq, Repr

namespace Stage

def isClosed : Stage → Bool
  | .serving | .leaving => false
  | .draining | .joining | .sweeping .. | .ended _ => true

def isDrained : Stage → Bool
  | .serving | .leaving | .draining => false
  | .joining | .sweeping .. | .ended _ => true

/-- What the last sweep has to visit yet and has counted so far, if it has begun. -/
def last? : Stage → Option (List String × SweepReport)
  | .sweeping left report => some (left, report)
  | .ended report => some ([], report)
  | .serving | .leaving | .draining | .joining => none

end Stage

end Daemon

/-- What a send is told that asks for a place in the queue. -/
inductive Admission
  | granted
  | waits
  | refused
deriving DecidableEq, Repr

/-- The events whose sends have succeeded are kept in the order in which they came into the queue. A send
succeeds in two steps, the first of which grants it a place. A sweep beside the loop looks up the tracked
paths when it begins, and is `none` until then. -/
structure Daemon where
  keeper : Keeper
  dispatch : Dispatch
  queue : List Event
  accepted : List Event
  capacity : Nat
  senders : Nat
  granted : Nat
  signalled : Bool
  sweeps : List (Option (List String))
  stage : Daemon.Stage

namespace Daemon

def start (keeper : Keeper) (capacity senders : Nat) : Daemon :=
  ⟨keeper, .empty, [], [], capacity, senders, 0, false, [], .serving⟩

def admission (s : Daemon) : Admission :=
  if s.stage.isClosed then .refused
  else if s.queue.length + s.granted < s.capacity then .granted
  else .waits

inductive Own (s : Daemon) : Daemon → Prop
  | receive (e : Event) (rest : List Event) (stage : s.stage = .serving ∨ s.stage = .draining)
      (queue : s.queue = e :: rest) : Own s { s with queue := rest, dispatch := s.dispatch.dispatch e }
  | work (dispatch : Dispatch) (keeper : Keeper) (acts : Dispatch.Acts (s.dispatch, s.keeper) (dispatch, keeper)) :
      Own s { s with dispatch, keeper }
  | beginSweep (before after : List (Option (List String))) (sweeps : s.sweeps = before ++ none :: after) :
      Own s { s with sweeps := before ++ some s.keeper.tracked :: after }
  | visit (before after : List (Option (List String))) (path : String) (left : List String)
      (sweeps : s.sweeps = before ++ some (path :: left) :: after) : Own s { s with
        sweeps := before ++ some left :: after
        keeper := (Keeper.sweepOne (⟨0, 0⟩, s.keeper) path).2 }
  | endSweep (before after : List (Option (List String))) (sweeps : s.sweeps = before ++ some [] :: after) :
      Own s { s with sweeps := before ++ after }
  | leave (stage : s.stage = .serving)
      (cause : s.signalled = true ∨ (s.senders = 0 ∧ s.granted = 0 ∧ s.queue = [])) :
      Own s { s with stage := .leaving }
  | close (stage : s.stage = .leaving) : Own s { s with stage := .draining }
  | drained (stage : s.stage = .draining) (queue : s.queue = []) (granted : s.granted = 0) :
      Own s { s with stage := .joining }
  | joined (stage : s.stage = .joining) (tasks : s.dispatch.schedule.tasks = []) (sweeps : s.sweeps = []) :
      Own s { s with stage := .sweeping s.keeper.tracked ⟨0, 0⟩ }
  | lastVisit (path : String) (left : List String) (report : SweepReport)
      (stage : s.stage = .sweeping (path :: left) report) : Own s { s with
        keeper := (Keeper.sweepOne (report, s.keeper) path).2
        stage := .sweeping left (Keeper.sweepOne (report, s.keeper) path).1 }
  | stop (report : SweepReport) (stage : s.stage = .sweeping [] report) :
      Own s { s with stage := .ended report }

/-- One step of those around the daemon. Clients come and go and send events, the shutdown is signalled, the
time for a sweep comes, and others use the keeper, though no longer once the last sweep has begun. -/
inductive Around (s : Daemon) : Daemon → Prop
  | clone (there : 0 < s.senders) : Around s { s with senders := s.senders + 1 }
  | drop (there : 0 < s.senders) : Around s { s with senders := s.senders - 1 }
  | reserve (there : 0 < s.senders) (admission : s.admission = .granted) :
      Around s { s with granted := s.granted + 1 }
  | giveUp (there : 0 < s.granted) : Around s { s with granted := s.granted - 1 }
  | push (e : Event) (there : 0 < s.granted) : Around s { s with
      granted := s.granted - 1
      queue := s.queue ++ [e]
      accepted := s.accepted ++ [e] }
  | signal : Around s { s with signalled := true }
  | tick (stage : s.stage = .serving) : Around s { s with sweeps := s.sweeps ++ [none] }
  | other (a : Action) (alone : s.stage.last? ≠ none → ∀ o, a ≠ .operation o) :
      Around s { s with keeper := ((⟨s.keeper, []⟩ : Session).after a).keeper }

def Step (s s' : Daemon) : Prop := Own s s' ∨ Around s s'

abbrev Steps : Daemon → Daemon → Prop := Relation.ReflTransGen Step

structure Sound (s : Daemon) : Prop where
  dispatch : s.dispatch.Reached
  order : s.dispatch.arrived ++ s.queue = s.accepted
  drained : s.stage.isDrained = true → s.queue = [] ∧ s.granted = 0
  joined : s.stage.last? ≠ none → s.dispatch.schedule.tasks = [] ∧ s.sweeps = []
  counted : ∀ left report, s.stage.last? = some (left, report) → s.keeper.HasSwept left report

theorem admission_of_closed {s : Daemon} (hc : s.stage.isClosed = true) : s.admission = .refused := by
  rw [admission, if_pos hc]

section Invariants

variable {s s' : Daemon} {keeper : Keeper} {capacity senders : Nat}

theorem sound_start : (start keeper capacity senders).Sound :=
  ⟨.empty, rfl, nofun, fun h => absurd rfl h, nofun⟩

theorem Sound.last?_eq_none (hs : s.Sound)
    (h : s.dispatch.schedule.tasks ≠ [] ∨ s.sweeps ≠ []) : s.stage.last? = none := by
  by_contra hlast
  obtain ⟨htasks, hsweeps⟩ := hs.joined hlast
  exact h.elim (· htasks) (· hsweeps)

theorem Sound.of_last?_eq_none (dispatch : s.dispatch.Reached)
    (order : s.dispatch.arrived ++ s.queue = s.accepted)
    (drained : s.stage.isDrained = true → s.queue = [] ∧ s.granted = 0) (hlast : s.stage.last? = none) :
    s.Sound :=
  ⟨dispatch, order, drained, fun h => absurd hlast h, fun _ _ h => nomatch hlast.symm.trans h⟩

theorem Own.sound (h : Own s s') (hs : s.Sound) : s'.Sound := by
  cases h with
  | receive e rest stage queue =>
      have hlast : s.stage.last? = none := by rcases stage with h | h <;> rw [h] <;> rfl
      refine .of_last?_eq_none (.dispatch e hs.dispatch) ?_ (fun hd => ?_) hlast
      · rw [← hs.order, queue]
        exact List.append_assoc ..
      · rcases stage with h | h <;> cases (congrArg Stage.isDrained h).symm.trans hd
  | work dispatch keeper acts =>
      have hw := acts.works
      have hlast := hs.last?_eq_none (.inl hw.tasks_ne_nil)
      refine .of_last?_eq_none (hs.dispatch.work hw) ?_ hs.drained hlast
      rw [← hs.order, hw.arrived_eq]
  | beginSweep before after sweeps | visit before after path left sweeps | endSweep before after sweeps =>
      have hlast := hs.last?_eq_none (.inr (by simp [sweeps]))
      exact .of_last?_eq_none hs.dispatch hs.order hs.drained hlast
  | leave stage cause | close stage => exact .of_last?_eq_none hs.dispatch hs.order nofun rfl
  | drained stage queue granted =>
      exact .of_last?_eq_none hs.dispatch hs.order (fun _ => ⟨queue, granted⟩) rfl
  | joined stage tasks sweeps =>
      -- from here on the last sweep has something to show: it has counted nothing yet
      have hdrained := hs.drained (by rw [stage]; rfl)
      refine ⟨hs.dispatch, hs.order, fun _ => hdrained, fun _ => ⟨tasks, sweeps⟩, ?_⟩
      rintro left report ⟨⟩
      exact .start s.keeper
  | lastVisit path left report stage =>
      have hdrained := hs.drained (by rw [stage]; rfl)
      have hjoined := hs.joined (by rw [stage]; exact nofun)
      refine ⟨hs.dispatch, hs.order, fun _ => hdrained, fun _ => hjoined, ?_⟩
      rintro left report ⟨⟩
      exact (hs.counted _ _ (by rw [stage]; rfl)).visit
  | stop report stage =>
      have hdrained := hs.drained (by rw [stage]; rfl)
      have hjoined := hs.joined (by rw [stage]; exact nofun)
      refine ⟨hs.dispatch, hs.order, fun _ => hdrained, fun _ => hjoined, ?_⟩
      rintro left report ⟨⟩
      exact hs.counted _ _ (by rw [stage]; rfl)

theorem isClosed_of_isDrained {stage : Stage} (h : stage.isDrained = true) : stage.isClosed = true := by
  cases stage <;> first | rfl | cases h

theorem isDrained_of_last? {stage : Stage} (h : stage.last? ≠ none) : stage.isDrained = true := by
  cases stage <;> first | rfl | exact absurd rfl h

theorem Around.sound (h : Around s s') (hs : s.Sound) : s'.Sound := by
  cases h with
  | clone | drop | signal => exact ⟨hs.dispatch, hs.order, hs.drained, hs.joined, hs.counted⟩
  | reserve there admission =>
      refine ⟨hs.dispatch, hs.order, fun hd => ?_, hs.joined, hs.counted⟩
      cases (admission_of_closed (s := s) (isClosed_of_isDrained hd)).symm.trans admission
  | giveUp there =>
      refine ⟨hs.dispatch, hs.order, fun hd => ?_, hs.joined, hs.counted⟩
      exact absurd (hs.drained hd).2 (Nat.ne_of_gt there)
  | push e there =>
      refine ⟨hs.dispatch, ?_, fun hd => ?_, hs.joined, hs.counted⟩
      · rw [← hs.order]
        exact (List.append_assoc ..).symm
      · exact absurd (hs.drained hd).2 (Nat.ne_of_gt there)
  | tick stage =>
      exact .of_last?_eq_none hs.dispatch hs.order hs.drained (by rw [stage]; rfl)
  | other a alone =>
      refine ⟨hs.dispatch, hs.order, hs.drained, hs.joined, fun left report hlast => ?_⟩
      refine (hs.counted left report hlast).of_drafts ?_
      cases a with
      | operation o => exact absurd rfl (alone (by rw [hlast]; exact nofun) o)
      | outside disk | tick clock | delivery => rfl

theorem Steps.sound (h : Steps s s') (hs : s.Sound) : s'.Sound := by
  induction h with
  | refl => exact hs
  | tail _ hstep ih => exact hstep.elim (·.sound ih) (·.sound ih)

end Invariants

section Closing

variable {s s' : Daemon}

theorem Step.closed (h : Step s s') (hc : s.stage.isClosed = true) : s'.stage.isClosed = true ∧
    s'.accepted.length + s'.granted ≤ s.accepted.length + s.granted := by
  rcases h with h | h
  · cases h with
    | leave stage | close stage => rw [stage] at hc; cases hc
    | drained | joined | lastVisit | stop => exact ⟨rfl, Nat.le_refl _⟩
    | _ => exact ⟨hc, Nat.le_refl _⟩
  · cases h with
    | reserve there admission => cases (admission_of_closed hc).symm.trans admission
    | giveUp there => exact ⟨hc, Nat.add_le_add_left (Nat.sub_le ..) _⟩
    | push e there =>
        refine ⟨hc, ?_⟩
        change (s.accepted ++ [e]).length + (s.granted - 1) ≤ _
        rw [List.length_append, List.length_singleton]
        omega
    | _ => exact ⟨hc, Nat.le_refl _⟩

theorem Steps.closed (h : Steps s s') (hc : s.stage.isClosed = true) : s'.stage.isClosed = true ∧
    s'.accepted.length + s'.granted ≤ s.accepted.length + s.granted := by
  induction h with
  | refl => exact ⟨hc, Nat.le_refl _⟩
  | tail _ hstep ih =>
      obtain ⟨hc', hle⟩ := hstep.closed ih.1
      exact ⟨hc', hle.trans ih.2⟩

end Closing

end Daemon

end DraftKeeper
