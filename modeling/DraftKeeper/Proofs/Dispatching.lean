import DraftKeeper.Proofs.ScheduleOrder
import Mathlib.Logic.Relation

namespace DraftKeeper.Dispatch

variable {s s' : Dispatch} {t : Task} {n : Nat}

structure Logged (s : Dispatch) : Prop where
  started : ∀ n, .started n ∈ s.log ↔ s.HasStarted n
  finished : ∀ n, .finished n ∈ s.log ↔ n < s.arrived.length ∧ s.isDone n = true
  once : s.log.Nodup
  handled : ∀ n, .finished n ∈ s.log → [.started n, .finished n].Sublist s.log
  inOrder : ∀ m n k, m < n → k ∈ s.keysOf m → k ∈ s.keysOf n → .started n ∈ s.log →
    [.started m, .finished m, .started n].Sublist s.log

section Log

theorem logged_empty : Logged empty := by
  constructor <;> simp [empty, HasStarted]

theorem Logged.dispatch (hl : Logged s) (ho : Ordered s) (e : Event) : Logged (s.dispatch e) where
  started n := (hl.started n).trans ho.hasStarted_dispatch.symm
  finished n := by
    rw [arrived_length_dispatch, ho.isDone_dispatch]
    refine (hl.finished n).trans ⟨fun ⟨hn, hd⟩ => ⟨by omega, hd, by omega⟩, ?_⟩
    exact fun ⟨hn, hd, hne⟩ => ⟨by omega, hd⟩
  once := hl.once
  handled := hl.handled
  inOrder m n k hmn hm hn hs := by
    have hlt := ((hl.started n).1 hs).1
    rw [keysOf_dispatch (by omega)] at hm hn
    exact hl.inOrder m n k hmn hm hn hs

theorem mem_log_start {a : Mark} : a ∈ (s.start t).log ↔ a ∈ s.log ∨ a = .started t.number := by
  rw [start, List.mem_append, List.mem_singleton]

theorem mem_log_finish {a : Mark} : a ∈ (s.finish t).log ↔ a ∈ s.log ∨ a = .finished t.number := by
  rw [finish, List.mem_append, List.mem_singleton]

theorem nodup_concat {α : Type} {l : List α} {a : α} (h : l.Nodup) (ha : a ∉ l) :
    (l ++ [a]).Nodup := by
  rw [List.nodup_append]
  refine ⟨h, List.pairwise_singleton .., ?_⟩
  rintro b hb c hc rfl
  exact ha (List.mem_singleton.1 hc ▸ hb)

theorem Logged.start (hl : Logged s) (ho : Ordered s) (ht : t ∈ s.schedule.tasks)
    (hwait : t.number ∉ s.running) (hready : s.schedule.isReady t = true) :
    Logged (s.start t) where
  started n := by
    rw [mem_log_start, hl.started, ho.hasStarted_start ht, Mark.started.injEq, or_comm]
  finished n := by
    rw [mem_log_start, hl.finished]
    exact or_iff_left nofun
  once := by
    refine nodup_concat hl.once fun h => ?_
    rcases ((hl.started _).1 h).2 with hrun | hdone
    · exact hwait hrun
    · exact Bool.false_ne_true ((isDone_of_mem ht).symm.trans hdone)
  handled n h := by
    rcases mem_log_start.1 h with h | h
    · exact (hl.handled n h).trans (List.sublist_append_left ..)
    · cases h
  inOrder m n k hmn hm hn h := by
    rcases mem_log_start.1 h with h | h
    · exact (hl.inOrder m n k hmn hm hn h).trans (List.sublist_append_left ..)
    · cases h
      have hdone := ho.isDone_of_ready ht hready hmn hm hn
      have hfinished := (hl.finished m).2 ⟨lt_of_mem_keysOf hm, hdone⟩
      exact (hl.handled m hfinished).append (List.Sublist.refl [_])

theorem Logged.finish (hl : Logged s) (ho : Ordered s) (ht : t ∈ s.schedule.tasks)
    (hrun : t.number ∈ s.running) : Logged (s.finish t) where
  started n := by
    rw [mem_log_finish, hl.started, hasStarted_finish hrun]
    exact or_iff_left nofun
  finished n := by
    have hlt := ho.lt_of_not_done (isDone_of_mem ht)
    rw [mem_log_finish, hl.finished, isDone_finish, Mark.finished.injEq]
    change _ ↔ n < s.arrived.length ∧ _
    constructor
    · rintro (⟨hn, hd⟩ | rfl)
      · exact ⟨hn, .inl hd⟩
      · exact ⟨hlt, .inr rfl⟩
    · rintro ⟨hn, hd | rfl⟩
      · exact .inl ⟨hn, hd⟩
      · exact .inr rfl
  once := by
    refine nodup_concat hl.once fun h => ?_
    exact Bool.false_ne_true ((isDone_of_mem ht).symm.trans ((hl.finished _).1 h).2)
  handled n h := by
    rcases mem_log_finish.1 h with h | h
    · exact (hl.handled n h).trans (List.sublist_append_left ..)
    · cases h
      have hstarted : .started t.number ∈ s.log :=
        (hl.started _).2 ⟨ho.lt_of_not_done (isDone_of_mem ht), .inl hrun⟩
      exact (List.singleton_sublist.2 hstarted).append (List.Sublist.refl [_])
  inOrder m n k hmn hm hn h := by
    rcases mem_log_finish.1 h with h | h
    · exact (hl.inOrder m n k hmn hm hn h).trans (List.sublist_append_left ..)
    · cases h

end Log

theorem Reached.ordered (h : Reached s) : Ordered s ∧ Logged s := by
  induction h with
  | empty => exact ⟨ordered_empty, logged_empty⟩
  | dispatch e _ ih => exact ⟨ih.1.dispatch e, ih.2.dispatch ih.1 e⟩
  | work _ hw ih =>
      cases hw with
      | start t ht hwait hready =>
          exact ⟨ih.1.start ht hready, ih.2.start ih.1 ht hwait hready⟩
      | finish t ht hrun => exact ⟨ih.1.finish hrun, ih.2.finish ih.1 ht hrun⟩

section Arrivals

theorem schedule_foldl_dispatch (es : List Event) (s : Dispatch) :
    (es.foldl dispatch s).schedule = es.foldl Schedule.add s.schedule := by
  induction es generalizing s with
  | nil => rfl
  | cons e es ih => exact ih (s.dispatch e)

theorem Reached.foldl_dispatch (h : Reached s) (es : List Event) :
    Reached (es.foldl Dispatch.dispatch s) := by
  induction es generalizing s with
  | nil => exact h
  | cons e es ih => exact ih (.dispatch e h)

theorem running_foldl_dispatch (es : List Event) (s : Dispatch) :
    (es.foldl dispatch s).running = s.running := by
  induction es generalizing s with
  | nil => rfl
  | cons e es ih => exact ih (s.dispatch e)

end Arrivals

section Completion

theorem Reached.length_log_le (h : Reached s) : s.log.length ≤ s.arrived.length * 2 := by
  obtain ⟨-, hl⟩ := h.ordered
  have hsub : s.log ⊆ (List.range s.arrived.length).flatMap fun n => [.started n, .finished n] := by
    intro a ha
    rw [List.mem_flatMap]
    cases a with
    | started n => exact ⟨n, List.mem_range.2 ((hl.started n).1 ha).1, List.mem_cons_self⟩
    | finished n => exact ⟨n, List.mem_range.2 ((hl.finished n).1 ha).1, by simp⟩
  refine Nat.le_trans (hl.once.length_le_of_subset hsub) (Nat.le_of_eq ?_)
  have htwo : (List.range s.arrived.length).map (fun n => [Mark.started n, .finished n].length) =
      List.replicate s.arrived.length 2 := by
    rw [← List.length_range (n := s.arrived.length), ← List.map_const', List.length_range]
    rfl
  rw [List.length_flatMap, htwo, List.sum_replicate_nat]

theorem Works.log_length (h : Works s s') : s'.log.length = s.log.length + 1 := by
  cases h <;> exact List.length_append

theorem Works.arrived_eq (h : Works s s') : s'.arrived = s.arrived := by
  cases h <;> rfl

theorem Works.tasks_ne_nil (h : Works s s') : s.schedule.tasks ≠ [] := by
  cases h with
  | start t mem | finish t mem => exact List.ne_nil_of_mem mem

/-- Tasks that are let work, in any way, come to an end, and then every event has been handled. -/
theorem Reached.handles_all (h : Reached s) :
    ∃ s', Relation.ReflTransGen Works s s' ∧ ∀ n < s.arrived.length, .finished n ∈ s'.log := by
  generalize hleft : s.arrived.length * 2 - s.log.length = left
  induction left generalizing s with
  | zero =>
      refine ⟨s, .refl, fun n hn => ?_⟩
      obtain ⟨ho, hl⟩ := h.ordered
      refine (hl.finished n).2 ⟨hn, (Bool.eq_false_or_eq_true _).resolve_right fun hd => ?_⟩
      obtain ⟨t, ht, -⟩ := Schedule.isDone_eq_false_iff.1 hd
      obtain ⟨s', hw⟩ := ho.works ht
      have hle := (h.work hw).length_log_le
      rw [hw.log_length, hw.arrived_eq] at hle
      omega
  | succ left ih =>
      cases htasks : s.schedule.tasks with
      | nil =>
          refine ⟨s, .refl, fun n hn => (h.ordered.2.finished n).2 ⟨hn, ?_⟩⟩
          exact Schedule.isDone_iff.2 (by simp [htasks])
      | cons t ts =>
          obtain ⟨s', hw⟩ := h.ordered.1.works (htasks ▸ List.mem_cons_self (a := t))
          have hlog := hw.log_length
          have hlen := congrArg List.length hw.arrived_eq
          obtain ⟨s'', hrun, hall⟩ := ih (h.work hw) (by omega)
          exact ⟨s'', .head hw hrun, fun n hn => hall n (by omega)⟩

/-- One step of the tasks, and what it does to the keeper: an event is handled when its task finishes. -/
inductive Acts : Dispatch × Keeper → Dispatch × Keeper → Prop
  | start {s : Dispatch} {keeper : Keeper} (t : Task) (mem : t ∈ s.schedule.tasks)
      (waiting : t.number ∉ s.running) (ready : s.schedule.isReady t = true) :
      Acts (s, keeper) (s.start t, keeper)
  | finish {s : Dispatch} {keeper : Keeper} (t : Task) (mem : t ∈ s.schedule.tasks)
      (running : t.number ∈ s.running) : Acts (s, keeper) (s.finish t, t.event.handle keeper)

theorem Acts.works {a b : Dispatch × Keeper} (h : Acts a b) : Works a.1 b.1 := by
  cases h with
  | start t mem waiting ready => exact .start t mem waiting ready
  | finish t mem running => exact .finish t mem running

theorem Works.acts (h : Works s s') (keeper : Keeper) : ∃ keeper', Acts (s, keeper) (s', keeper') := by
  cases h with
  | start t mem waiting ready => exact ⟨_, .start t mem waiting ready⟩
  | finish t mem running => exact ⟨_, .finish t mem running⟩

theorem acts_step (ho : Ordered s) (hidle : s.running = []) (keeper : Keeper)
    (ht : t ∈ s.schedule.tasks) :
    ∃ u ∈ s.schedule.tasks, Acts (s, keeper) (s.start u, keeper) ∧
      Acts (s.start u, keeper) ((s.start u).finish u, u.event.handle keeper) ∧
      ((s.start u).finish u).running = [] ∧
      Schedule.step (s.schedule, keeper) = (s.schedule.finish u, u.event.handle keeper) := by
  obtain ⟨u, hu, hready⟩ : ∃ u ∈ s.schedule.tasks, s.schedule.isReady u = true := by
    obtain ⟨s', hw⟩ := ho.works ht
    cases hw with
    | start u hu _ hready => exact ⟨u, hu, hready⟩
    | finish u _ hrun => rw [hidle] at hrun; cases hrun
  obtain ⟨first, hfirst⟩ := Option.isSome_iff_exists.1 (List.find?_isSome.2 ⟨u, hu, hready⟩)
  have hmem := List.mem_of_find?_eq_some hfirst
  have hnot : first.number ∉ s.running := by simp [hidle]
  refine ⟨first, hmem, .start first hmem hnot (List.find?_some hfirst), ?_, ?_, ?_⟩
  · exact .finish first hmem List.mem_cons_self
  · simp [finish, start, hidle]
  · rw [Schedule.step, hfirst]

theorem Reached.foldl_step (h : Reached s) (hidle : s.running = []) (keeper : Keeper)
    (ts : List Task) (hlen : s.schedule.tasks.length ≤ ts.length) :
    ∃ s', Relation.ReflTransGen Acts (s, keeper)
        (s', (ts.foldl (fun r _ => Schedule.step r) (s.schedule, keeper)).2) ∧
      s'.schedule.tasks = [] ∧ s'.running = [] ∧
      (ts.foldl (fun r _ => Schedule.step r) (s.schedule, keeper)).1 = s'.schedule := by
  induction ts generalizing s keeper with
  | nil => exact ⟨s, .refl, List.eq_nil_of_length_eq_zero (Nat.le_zero.1 hlen), hidle, rfl⟩
  | cons a ts ih =>
      cases htasks : s.schedule.tasks with
      | nil =>
          have hstep : Schedule.step (s.schedule, keeper) = (s.schedule, keeper) := by
            rw [Schedule.step, htasks]
            rfl
          rw [List.foldl_cons, hstep]
          exact ih h hidle keeper (by simp [htasks])
      | cons t rest =>
          obtain ⟨u, hu, hstart, hfinish, hidle', hstep⟩ :=
            acts_step h.ordered.1 hidle keeper (htasks ▸ List.mem_cons_self (a := t))
          have hless : (s.schedule.finish u).tasks.length < s.schedule.tasks.length :=
            List.length_filter_lt_length_iff_exists.2 ⟨u, hu, by simp⟩
          rw [List.length_cons] at hlen
          rw [List.foldl_cons, hstep]
          obtain ⟨s', hrun, hnone, hlast⟩ :=
            ih ((h.work hstart.works).work hfinish.works) hidle' (u.event.handle keeper) (by
              change (s.schedule.finish u).tasks.length ≤ ts.length
              omega)
          exact ⟨s', .head hstart (.head hfinish hrun), hnone, hlast⟩

/-- Draining the queue is one of the orders in which the tasks may work, and it handles them all. -/
theorem Reached.drain (h : Reached s) (hidle : s.running = []) (keeper : Keeper) :
    ∃ s', Relation.ReflTransGen Acts (s, keeper) (s', (s.schedule.drain keeper).2) ∧
      s'.schedule.tasks = [] ∧ s'.running = [] ∧ (s.schedule.drain keeper).1 = s'.schedule :=
  h.foldl_step hidle keeper s.schedule.tasks (Nat.le_refl _)

end Completion

/-- Events that share a key are handled one after the other, in order of arrival; events for which
the keeper locks one path share a key; nothing is handled twice; and while an event has not been
handled some task can go on. -/
theorem Reached.handles_in_order (h : Reached s) :
    (∀ m n k, m < n → k ∈ s.keysOf m → k ∈ s.keysOf n → .started n ∈ s.log →
      [.started m, .finished m, .started n].Sublist s.log) ∧
    (∀ (e e' : Event) (p : String), p ∈ e.locks → p ∈ e'.locks → ∃ k ∈ e.keys, k ∈ e'.keys) ∧
    (s.log.Nodup ∧ ∀ n, .finished n ∈ s.log → [.started n, .finished n].Sublist s.log) ∧
    ∀ n < s.arrived.length, .finished n ∉ s.log → ∃ s', Works s s' := by
  obtain ⟨ho, hl⟩ := h.ordered
  refine ⟨hl.inOrder, fun e e' p he he' => ?_, ⟨hl.once, hl.handled⟩, fun n hn hnot => ?_⟩
  · exact ⟨p, Event.mem_keys_of_mem_locks he, Event.mem_keys_of_mem_locks he'⟩
  · have hd : s.isDone n = false :=
      Bool.eq_false_iff.2 fun hd => hnot ((hl.finished n).2 ⟨hn, hd⟩)
    obtain ⟨t, ht, -⟩ := Schedule.isDone_eq_false_iff.1 hd
    exact ho.works ht

def sampleArrived : Dispatch :=
  ((empty.dispatch (.tracking "e" (.start "/p/a"))).dispatch
    (.tracking "e" (.start "/p/b"))).dispatch (.tracking "e" (.move "p//a" "/p/b"))

def sampleTask (n : Nat) : Task :=
  sampleArrived.schedule.tasks.getD n ⟨0, .tracking "" (.start ""), []⟩

def sampleMoved : Dispatch :=
  ((((sampleArrived.start (sampleTask 1)).start (sampleTask 0)).finish (sampleTask 1)).finish
    (sampleTask 0)).start (sampleTask 2)

theorem reached_sampleMoved : Reached sampleMoved := by
  have h : Reached sampleArrived := .dispatch _ (.dispatch _ (.dispatch _ .empty))
  refine .work (.work (.work (.work (.work h (.start _ ?_ ?_ ?_)) (.start _ ?_ ?_ ?_))
    (.finish _ ?_ ?_)) (.finish _ ?_ ?_)) (.start _ ?_ ?_ ?_) <;> decide

theorem move_waits_for_both :
    [.started 0, .finished 0, .started 2].Sublist sampleMoved.log ∧
      [.started 1, .finished 1, .started 2].Sublist sampleMoved.log ∧
      ∃ s', Works sampleMoved s' := by
  obtain ⟨hinOrder, -, -, hworks⟩ := reached_sampleMoved.handles_in_order
  refine ⟨hinOrder 0 2 "/p/a" (by decide) ?_ ?_ ?_, hinOrder 1 2 "/p/b" (by decide) ?_ ?_ ?_,
    hworks 2 ?_ ?_⟩ <;> decide

end DraftKeeper.Dispatch
