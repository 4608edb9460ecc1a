import DraftKeeper.Proofs.DaemonSteps

namespace DraftKeeper

namespace Daemon

namespace Stage

def rank : Stage → Nat
  | .serving => 5
  | .leaving => 4
  | .draining => 3
  | .joining => 2
  | .sweeping .. => 1
  | .ended _ => 0

def unvisited : Stage → Nat
  | .sweeping left _ => left.length
  | .serving | .leaving | .draining | .joining | .ended _ => 0

end Stage

variable {s s' : Daemon}

abbrev Owns : Daemon → Daemon → Prop := Relation.ReflTransGen Own

theorem Owns.steps (h : Owns s s') : Steps s s' := Relation.ReflTransGen.mono (fun _ _ => Or.inl) s s' h

section Ending

/-- What is left to do, the more lasting things first: a step may bring about any amount of what comes after
the thing that it does. -/
def weight (s : Daemon) : Nat × Nat × Nat × Nat × Nat :=
  (s.stage.rank, s.queue.length + s.stage.unvisited, s.dispatch.arrived.length * 2 - s.dispatch.log.length,
    s.sweeps.countP Option.isNone, (s.sweeps.filterMap id).flatten.length + s.sweeps.length)

abbrev Lighter : Nat × Nat × Nat × Nat × Nat → Nat × Nat × Nat × Nat × Nat → Prop :=
  Prod.Lex (· < ·) (Prod.Lex (· < ·) (Prod.Lex (· < ·) (Prod.Lex (· < ·) (· < ·))))

theorem lighter_wf : WellFounded Lighter := by
  have hlt : WellFounded fun a b : Nat => a < b := Nat.lt_wfRel.wf
  exact hlt.prod_lex (hlt.prod_lex (hlt.prod_lex (hlt.prod_lex hlt)))

theorem Own.lighter (h : Own s s') (hs : s.Sound) : Lighter s'.weight s.weight := by
  cases h with
  | receive e rest stage queue =>
      refine .right _ (.left _ _ ?_)
      rw [queue]
      exact Nat.add_lt_add_right (Nat.lt_succ_self _) _
  | work dispatch keeper acts =>
      have hw : Dispatch.Works s.dispatch dispatch := acts.works
      have hle := (hs.dispatch.work hw).length_log_le
      refine .right _ (.right _ (.left _ _ ?_))
      change dispatch.arrived.length * 2 - dispatch.log.length < _
      rw [hw.log_length, hw.arrived_eq] at hle ⊢
      omega
  | beginSweep before after sweeps =>
      -- however many paths are tracked by now, the sweep has begun, and what it visits counts for less
      refine .right _ (.right _ (.right _ (.left _ _ ?_)))
      simp [sweeps]
  | visit before after path left sweeps =>
      have hsame : s.sweeps.countP Option.isNone = (before ++ some left :: after).countP Option.isNone := by
        simp [sweeps]
      rw [weight, weight, hsame]
      refine .right _ (.right _ (.right _ (.right _ ?_)))
      simp [sweeps]
  | endSweep before after sweeps =>
      have hsame : s.sweeps.countP Option.isNone = (before ++ after).countP Option.isNone := by
        simp [sweeps]
      rw [weight, weight, hsame]
      refine .right _ (.right _ (.right _ (.right _ ?_)))
      simp [sweeps]
  | leave stage | close stage | drained stage | joined stage | stop report stage =>
      refine .left _ _ ?_
      rw [stage]
      exact Nat.lt_succ_self _
  | lastVisit path left report stage =>
      have hrank : s.stage.rank = 1 := by rw [stage]; rfl
      rw [weight, weight, hrank]
      refine .right _ (.left _ _ ?_)
      rw [stage]
      exact Nat.lt_succ_self _

theorem Sound.comes_to_rest (hs : s.Sound) : Acc (fun s' s => Own s s') s := by
  generalize hw : s.weight = w
  induction w using lighter_wf.induction generalizing s with
  | h w ih =>
      subst hw
      exact .intro s fun s' h => ih s'.weight (h.lighter hs) (h.sound hs) rfl

structure IsToStop (s : Daemon) : Prop where
  settled : s.granted = 0
  cause : s.signalled = true ∨ s.senders = 0 ∨ s.stage ≠ .serving

theorem Own.isToStop (h : Own s s') (hs : s.IsToStop) : s'.IsToStop := by
  cases h with
  | leave | close | drained | joined | lastVisit | stop => exact ⟨hs.settled, .inr (.inr nofun)⟩
  | _ => exact ⟨hs.settled, hs.cause⟩

/-- A daemon that is to stop rests only when it has ended. -/
theorem IsToStop.exists_own (h : s.IsToStop) (hs : s.Sound) (hnot : ∀ report, s.stage ≠ .ended report) :
    ∃ s', Own s s' := by
  cases hstage : s.stage with
  | serving =>
      rcases h.cause with hsignal | hnobody | hserving
      · exact ⟨_, .leave hstage (.inl hsignal)⟩
      · cases hq : s.queue with
        | nil => exact ⟨_, .leave hstage (.inr ⟨hnobody, h.settled, hq⟩)⟩
        | cons e rest => exact ⟨_, .receive e rest (.inl hstage) hq⟩
      · exact absurd hstage hserving
  | leaving => exact ⟨_, .close hstage⟩
  | draining =>
      cases hq : s.queue with
      | nil => exact ⟨_, .drained hstage hq h.settled⟩
      | cons e rest => exact ⟨_, .receive e rest (.inr hstage) hq⟩
  | joining =>
      cases htasks : s.dispatch.schedule.tasks with
      | cons t ts =>
          obtain ⟨d, hw⟩ := hs.dispatch.ordered.1.works (htasks ▸ List.mem_cons_self (a := t))
          obtain ⟨keeper, hacts⟩ := hw.acts s.keeper
          exact ⟨_, .work d keeper hacts⟩
      | nil =>
          cases hsweeps : s.sweeps with
          | nil => exact ⟨_, .joined hstage htasks hsweeps⟩
          | cons sweep rest =>
              rcases sweep with _ | _ | ⟨path, left⟩
              · exact ⟨_, .beginSweep [] rest hsweeps⟩
              · exact ⟨_, .endSweep [] rest hsweeps⟩
              · exact ⟨_, .visit [] rest path left hsweeps⟩
  | sweeping left report =>
      cases left with
      | nil => exact ⟨_, .stop report hstage⟩
      | cons path left => exact ⟨_, .lastVisit path left report hstage⟩
  | ended report => exact absurd hstage (hnot report)

theorem IsToStop.ends (h : s.IsToStop) (hs : s.Sound) :
    ∃ s' report, Owns s s' ∧ s'.stage = .ended report := by
  induction hs.comes_to_rest with
  | intro s _ ih =>
      by_cases hended : ∃ report, s.stage = .ended report
      · obtain ⟨report, hended⟩ := hended
        exact ⟨s, report, .refl, hended⟩
      · obtain ⟨s', hown⟩ := h.exists_own hs fun report hr => hended ⟨report, hr⟩
        obtain ⟨s'', report, hrun, hended⟩ := ih s' hown (hown.isToStop h) (hown.sound hs)
        exact ⟨s'', report, .head hown hrun, hended⟩

end Ending

section Outcome

theorem Own.accepted_eq (h : Own s s') : s'.accepted = s.accepted := by
  cases h <;> rfl

theorem Owns.accepted_eq (h : Owns s s') : s'.accepted = s.accepted := by
  induction h with
  | refl => rfl
  | tail _ hown ih => exact hown.accepted_eq.trans ih

/-- Every accepted event is handed on once and in order, and is handled before the last sweep begins, as every
other sweep is done by then; a closed queue grants no more places; the last sweep counts as failed what it
leaves dirty; and the daemon, which comes to rest in any case, will have ended then if it is to stop. -/
theorem shutdown_loses_nothing {keeper : Keeper} {capacity senders : Nat}
    (h : Steps (start keeper capacity senders) s) :
    s.dispatch.arrived ++ s.queue = s.accepted ∧
      (s.dispatch.log.Nodup ∧
        ∀ n, .finished n ∈ s.dispatch.log → [.started n, .finished n].Sublist s.dispatch.log) ∧
      (s.stage.last? ≠ none → s.dispatch.arrived = s.accepted ∧ s.granted = 0 ∧ s.sweeps = [] ∧
        ∀ n < s.accepted.length, .finished n ∈ s.dispatch.log) ∧
      (s.stage.isClosed = true → ∀ s', Steps s s' → s'.admission = .refused ∧
        s'.accepted.length + s'.granted ≤ s.accepted.length + s.granted) ∧
      (∀ report, s.stage = .ended report →
        report.failed = (s.keeper.tracked.filter s.keeper.isDirty).length) ∧
      Acc (fun s' s => Own s s') s ∧
      (s.IsToStop → ∃ s' report, Owns s s' ∧ s'.stage = .ended report) := by
  have hs : s.Sound := h.sound sound_start
  obtain ⟨-, hl⟩ := hs.dispatch.ordered
  refine ⟨hs.order, ⟨hl.once, hl.handled⟩, fun hlast => ?_, fun hc s' hrun => ?_, fun report hended => ?_,
    hs.comes_to_rest, fun hstop => hstop.ends hs⟩
  · obtain ⟨hqueue, hgranted⟩ := hs.drained (isDrained_of_last? hlast)
    obtain ⟨htasks, hsweeps⟩ := hs.joined hlast
    have harrived : s.dispatch.arrived = s.accepted := by
      rw [← hs.order, hqueue, List.append_nil]
    refine ⟨harrived, hgranted, hsweeps, fun n hn => (hl.finished n).2 ⟨harrived ▸ hn, ?_⟩⟩
    exact Schedule.isDone_iff.2 (by simp [htasks])
  · obtain ⟨hc', hle⟩ := hrun.closed hc
    exact ⟨admission_of_closed hc', hle⟩
  · exact (hs.counted [] report (by rw [hended]; rfl)).failed_eq

theorem last_event_is_handled :
    let e : Event := .tracking "e" (.start "/p/a")
    ∃ s report, Steps (start (.new .sample .sample 4 ⟨0, 0, 0⟩) 1 1) s ∧ s.stage = .ended report ∧
      s.dispatch.arrived = [e] ∧ .finished 0 ∈ s.dispatch.log ∧
      report.failed = (s.keeper.tracked.filter s.keeper.isDirty).length := by
  intro e
  let k : Keeper := .new .sample .sample 4 ⟨0, 0, 0⟩
  have hsteps : Steps (start k 1 1) ⟨k, .empty, [e], [e], 1, 1, 0, true, [], .serving⟩ :=
    .head (.inr (.reserve Nat.one_pos rfl)) (.head (.inr (.push e Nat.one_pos)) (.single (.inr .signal)))
  obtain ⟨-, -, -, -, -, -, hends⟩ := shutdown_loses_nothing hsteps
  obtain ⟨s, report, hrun, hended⟩ := hends ⟨rfl, .inl rfl⟩
  have hall : Steps (start k 1 1) s := hsteps.trans hrun.steps
  obtain ⟨-, -, hlast, -, hcount, -, -⟩ := shutdown_loses_nothing hall
  obtain ⟨harrived, -, -, hfinished⟩ := hlast (by rw [hended]; exact nofun)
  have haccepted : s.accepted = [e] := hrun.accepted_eq
  exact ⟨s, report, hall, hended, harrived.trans haccepted, hfinished 0 (by simp [haccepted]),
    hcount report hended⟩

end Outcome

end Daemon

end DraftKeeper
