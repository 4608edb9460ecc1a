import DraftKeeper.Proofs.EventKeys

namespace DraftKeeper

namespace Assoc

variable {κ α : Type} [DecidableEq κ] {k : κ} {v : α} {l : List (κ × α)}

theorem mem_of_get? (h : get? k l = some v) : (k, v) ∈ l := by
  induction l with
  | nil => cases h
  | cons e r ih =>
      rw [get?] at h
      split at h
      · next he => cases h; subst he; exact List.mem_cons_self
      · exact List.mem_cons_of_mem _ (ih h)

theorem get?_of_fresh (h : ∀ e ∈ l, e.1 ≠ k) : get? k l = none :=
  Option.eq_none_iff_forall_ne_some.2 fun _ hv => h _ (mem_of_get? hv) rfl

theorem put_of_fresh (v : α) (h : ∀ e ∈ l, e.1 ≠ k) : put k v l = l ++ [(k, v)] := by
  induction l with
  | nil => rfl
  | cons e l ih =>
      rw [List.forall_mem_cons] at h
      rw [put, if_neg h.1, ih h.2, List.cons_append]

theorem mem_put {e : κ × α} (h : e ∈ put k v l) : e = (k, v) ∨ e ∈ l := by
  induction l with
  | nil => exact .inl (List.mem_singleton.1 h)
  | cons a r ih =>
      rw [put] at h
      split at h
      · exact (List.mem_cons.1 h).imp_right (List.mem_cons_of_mem a)
      · rcases List.mem_cons.1 h with rfl | h
        · exact .inr List.mem_cons_self
        · exact (ih h).imp_right (List.mem_cons_of_mem a)

theorem get?_filter {keep : κ × α → Bool} (h : get? k l = some v) (hk : keep (k, v) = true) :
    get? k (l.filter keep) = some v := by
  induction l with
  | nil => cases h
  | cons e r ih =>
      rw [get?] at h
      split at h
      · next he =>
          cases h
          subst he
          rw [List.filter_cons_of_pos hk, get?, if_pos rfl]
      · next he =>
          rw [List.filter_cons]
          split
          · rw [get?, if_neg he, ih h]
          · exact ih h

theorem get?_foldl_put (ks : List κ) (v : α) (l : List (κ × α)) :
    get? k (ks.foldl (fun l j => put j v l) l) = if k ∈ ks then some v else get? k l := by
  induction ks generalizing l with
  | nil => rfl
  | cons j ks ih =>
      rw [List.foldl_cons, ih, get?_put]
      by_cases hj : j = k
      · simp [hj]
      · simp [hj, Ne.symm hj]

theorem mem_foldl_put {ks : List κ} {e : κ × α} (h : e ∈ ks.foldl (fun l j => put j v l) l) :
    e.2 = v ∨ e ∈ l := by
  induction ks generalizing l with
  | nil => exact .inr h
  | cons j ks ih =>
      rcases ih h with h | h
      · exact .inl h
      · exact (mem_put h).imp_left fun he => by rw [he]

end Assoc

namespace Schedule

variable {d : Schedule} {e : Event} {t : Task} {n : Nat} {k : String}

theorem isDone_iff : d.isDone n = true ↔ ∀ t ∈ d.tasks, t.number ≠ n := by
  simp [isDone]

theorem isDone_eq_false_iff : d.isDone n = false ↔ ∃ t ∈ d.tasks, t.number = n := by
  simp [isDone]

@[simp] theorem tasks_prune : d.prune.tasks = d.tasks := by
  rw [prune]
  split <;> rfl

@[simp] theorem next_prune : d.prune.next = d.next := by
  rw [prune]
  split <;> rfl

theorem mem_tails_prune {a : String × Nat} (h : a ∈ d.prune.tails) : a ∈ d.tails := by
  rw [prune] at h
  split at h
  · exact (List.mem_filter.1 h).1
  · exact h

/-- Pruning forgets the last task of a path only if that is finished. -/
theorem get?_tails_prune (h : Assoc.get? k d.tails = some n) (hn : d.isDone n = false) :
    Assoc.get? k d.prune.tails = some n := by
  rw [prune]
  split
  · exact Assoc.get?_filter h (by simp [hn])
  · exact h

theorem tasks_add : (d.add e).tasks =
    d.tasks ++ [⟨d.next, e, e.keys.filterMap fun k => Assoc.get? k d.prune.tails⟩] := by
  rw [add, tasks_prune, next_prune]

theorem next_add : (d.add e).next = d.next + 1 := by
  rw [add, next_prune]

theorem get?_tails_add : Assoc.get? k (d.add e).tails =
    if k ∈ e.keys then some d.next else Assoc.get? k d.prune.tails := by
  rw [add, next_prune, Assoc.get?_foldl_put]

theorem mem_tails_add {a : String × Nat} (h : a ∈ (d.add e).tails) :
    a.2 = d.next ∨ a ∈ d.tails := by
  rw [add, next_prune] at h
  exact (Assoc.mem_foldl_put h).imp_right mem_tails_prune

theorem isDone_add : (d.add e).isDone n = true ↔ d.isDone n = true ∧ n ≠ d.next := by
  simp only [isDone_iff, tasks_add, List.mem_append, List.mem_singleton, or_imp, forall_and,
    forall_eq, ne_comm]

theorem isDone_finish : (d.finish t).isDone n = true ↔ d.isDone n = true ∨ n = t.number := by
  simp only [isDone_iff, finish, List.mem_filter, decide_eq_true_eq]
  constructor
  · intro h
    by_cases hn : n = t.number
    · exact .inr hn
    · exact .inl fun u hu he => h u ⟨hu, fun hut => hn (he.symm.trans hut)⟩ he
  · rintro (h | rfl) u ⟨hu, hne⟩
    · exact h u hu
    · exact hne

end Schedule

/-- What a log of the dispatcher says: the task of a number has started, or has finished. -/
inductive Mark
  | started (n : Nat)
  | finished (n : Nat)
deriving DecidableEq, Repr

/-- A schedule at work. The events are kept in order of arrival, so that the number of a task is the
place of its event; `running` are the tasks that have started and not finished. -/
structure Dispatch where
  schedule : Schedule
  arrived : List Event
  running : List Nat
  log : List Mark
deriving DecidableEq, Repr

namespace Dispatch

def empty : Dispatch := ⟨.empty, [], [], []⟩

def dispatch (s : Dispatch) (e : Event) : Dispatch :=
  { s with schedule := s.schedule.add e, arrived := s.arrived ++ [e] }

def start (s : Dispatch) (t : Task) : Dispatch :=
  { s with running := t.number :: s.running, log := s.log ++ [.started t.number] }

def finish (s : Dispatch) (t : Task) : Dispatch :=
  { s with
    schedule := s.schedule.finish t
    running := s.running.filter (· ≠ t.number)
    log := s.log ++ [.finished t.number] }

/-- One step of the tasks themselves: one that need not wait starts, or a running one finishes. -/
inductive Works (s : Dispatch) : Dispatch → Prop
  | start (t : Task) (mem : t ∈ s.schedule.tasks) (waiting : t.number ∉ s.running)
      (ready : s.schedule.isReady t = true) : Works s (s.start t)
  | finish (t : Task) (mem : t ∈ s.schedule.tasks) (running : t.number ∈ s.running) :
      Works s (s.finish t)

/-- The states that come of arriving events and working tasks, in any order. -/
inductive Reached : Dispatch → Prop
  | empty : Reached .empty
  | dispatch {s : Dispatch} (e : Event) : Reached s → Reached (s.dispatch e)
  | work {s s' : Dispatch} : Reached s → Works s s' → Reached s'

def keysOf (s : Dispatch) (n : Nat) : List String := (s.arrived[n]?.map Event.keys).getD []

def isDone (s : Dispatch) (n : Nat) : Bool := s.schedule.isDone n

def HasStarted (s : Dispatch) (n : Nat) : Prop :=
  n < s.arrived.length ∧ (n ∈ s.running ∨ s.isDone n = true)

variable {s s' : Dispatch} {e : Event} {t : Task} {m n : Nat} {k : String}

/-- What the schedule keeps true. An unfinished task is at or before the last task of each of its
keys; it waits, for each of them, for a task at or behind every earlier unfinished one; and nothing
has started before all that it shares a key with and that came earlier had finished. -/
structure Ordered (s : Dispatch) : Prop where
  next : s.schedule.next = s.arrived.length
  sorted : (s.schedule.tasks.map Task.number).Pairwise (· < ·)
  event : ∀ t ∈ s.schedule.tasks, s.arrived[t.number]? = some t.event
  running : ∀ n ∈ s.running, s.isDone n = false
  tails : ∀ a ∈ s.schedule.tails, a.2 < s.arrived.length
  earlier : ∀ t ∈ s.schedule.tasks, ∀ n ∈ t.after, n < t.number
  covered : ∀ n k, s.isDone n = false → k ∈ s.keysOf n →
    ∃ last, Assoc.get? k s.schedule.tails = some last ∧ n ≤ last ∧ k ∈ s.keysOf last
  awaited : ∀ t ∈ s.schedule.tasks, ∀ n k, n < t.number → s.isDone n = false →
    k ∈ s.keysOf n → k ∈ s.keysOf t.number → ∃ last ∈ t.after, n ≤ last ∧ k ∈ s.keysOf last
  settled : ∀ m n k, m < n → k ∈ s.keysOf m → k ∈ s.keysOf n → s.HasStarted n → s.isDone m = true

section Keys

theorem arrived_length_dispatch : (s.dispatch e).arrived.length = s.arrived.length + 1 :=
  List.length_append

theorem lt_of_mem_keysOf (h : k ∈ s.keysOf n) : n < s.arrived.length := by
  refine Nat.lt_of_not_le fun hle => ?_
  rw [keysOf, List.getElem?_eq_none hle] at h
  cases h

theorem keysOf_of_event (h : s.arrived[n]? = some e) : s.keysOf n = e.keys := by
  rw [keysOf, h]
  rfl

theorem keysOf_dispatch (hn : n < s.arrived.length) : (s.dispatch e).keysOf n = s.keysOf n := by
  rw [keysOf, dispatch, List.getElem?_append_left hn]
  rfl

theorem keysOf_dispatch_last : (s.dispatch e).keysOf s.arrived.length = e.keys :=
  keysOf_of_event List.getElem?_concat_length

theorem mem_keysOf_dispatch (h : k ∈ (s.dispatch e).keysOf n) :
    n < s.arrived.length ∧ k ∈ s.keysOf n ∨ n = s.arrived.length ∧ k ∈ e.keys := by
  have hlt := lt_of_mem_keysOf h
  rw [arrived_length_dispatch] at hlt
  rcases Nat.lt_or_eq_of_le (Nat.le_of_lt_succ hlt) with hn | rfl
  · exact .inl ⟨hn, keysOf_dispatch hn ▸ h⟩
  · exact .inr ⟨rfl, keysOf_dispatch_last (s := s) ▸ h⟩

theorem mem_keysOf_dispatch_of_mem (h : k ∈ s.keysOf n) : k ∈ (s.dispatch e).keysOf n := by
  rwa [keysOf_dispatch (lt_of_mem_keysOf h)]

end Keys

section Progress

theorem isDone_of_mem (ht : t ∈ s.schedule.tasks) : s.isDone t.number = false :=
  Schedule.isDone_eq_false_iff.2 ⟨t, ht, rfl⟩

theorem isDone_start : (s.start t).isDone n = s.isDone n := rfl

theorem isDone_finish : (s.finish t).isDone n = true ↔ s.isDone n = true ∨ n = t.number :=
  Schedule.isDone_finish

theorem Ordered.isDone_dispatch (ho : Ordered s) :
    (s.dispatch e).isDone n = true ↔ s.isDone n = true ∧ n ≠ s.arrived.length := by
  rw [← ho.next]
  exact Schedule.isDone_add

theorem Ordered.lt_of_not_done (ho : Ordered s) (h : s.isDone n = false) :
    n < s.arrived.length := by
  obtain ⟨t, ht, rfl⟩ := Schedule.isDone_eq_false_iff.1 h
  exact (List.getElem?_eq_some_iff.1 (ho.event t ht)).1

theorem Ordered.hasStarted_dispatch (ho : Ordered s) :
    (s.dispatch e).HasStarted n ↔ s.HasStarted n := by
  have hrun : n ∈ s.running → n < s.arrived.length := fun h => ho.lt_of_not_done (ho.running n h)
  rw [HasStarted, HasStarted, arrived_length_dispatch, ho.isDone_dispatch]
  change n < s.arrived.length + 1 ∧ (n ∈ s.running ∨ _) ↔ _
  constructor
  · rintro ⟨hlt, h | ⟨h, hne⟩⟩
    · exact ⟨hrun h, .inl h⟩
    · exact ⟨by omega, .inr h⟩
  · rintro ⟨hlt, h | h⟩
    · exact ⟨by omega, .inl h⟩
    · exact ⟨by omega, .inr ⟨h, by omega⟩⟩

theorem Ordered.hasStarted_start (ho : Ordered s) (ht : t ∈ s.schedule.tasks) :
    (s.start t).HasStarted n ↔ n = t.number ∨ s.HasStarted n := by
  have hlt := ho.lt_of_not_done (isDone_of_mem ht)
  rw [HasStarted, HasStarted, isDone_start]
  change n < s.arrived.length ∧ (n ∈ t.number :: s.running ∨ _) ↔ _
  rw [List.mem_cons]
  constructor
  · rintro ⟨hn, (rfl | h) | h⟩
    · exact .inl rfl
    · exact .inr ⟨hn, .inl h⟩
    · exact .inr ⟨hn, .inr h⟩
  · rintro (rfl | ⟨hn, h⟩)
    · exact ⟨hlt, .inl (.inl rfl)⟩
    · exact ⟨hn, h.imp_left .inr⟩

theorem hasStarted_finish (hrun : t.number ∈ s.running) :
    (s.finish t).HasStarted n ↔ s.HasStarted n := by
  rw [HasStarted, HasStarted, isDone_finish]
  refine and_congr_right fun _ => ?_
  by_cases hn : n = t.number
  · subst hn
    exact iff_of_true (.inr (.inr rfl)) (.inl hrun)
  · simp [finish, hn]

end Progress

section Order

theorem ordered_empty : Ordered empty := by
  constructor <;> simp [empty, Schedule.empty, isDone, Schedule.isDone, keysOf]

/-- Whatever pruning forgets, no unfinished task goes without a last task at or behind it. -/
theorem Ordered.covered_prune (ho : Ordered s) (hn : s.isDone n = false) (hk : k ∈ s.keysOf n) :
    ∃ last, Assoc.get? k s.schedule.prune.tails = some last ∧ n ≤ last ∧ k ∈ s.keysOf last := by
  obtain ⟨last, hget, hle, hlast⟩ := ho.covered n k hn hk
  have hdone : s.isDone last = false := by
    -- were the last task finished, then `n` would be, by the order of the two
    refine Bool.eq_false_iff.2 fun hdone => ?_
    rcases Nat.lt_or_eq_of_le hle with hlt | rfl
    · have hs := ho.settled n last k hlt hk hlast ⟨lt_of_mem_keysOf hlast, .inr hdone⟩
      exact Bool.false_ne_true (hn.symm.trans hs)
    · exact Bool.false_ne_true (hn.symm.trans hdone)
  exact ⟨last, Schedule.get?_tails_prune hget hdone, hle, hlast⟩

theorem Ordered.not_done_of_dispatch (ho : Ordered s) (hn : n < s.arrived.length)
    (h : (s.dispatch e).isDone n = false) : s.isDone n = false := by
  refine Bool.eq_false_iff.2 fun hd => ?_
  rw [ho.isDone_dispatch.2 ⟨hd, by omega⟩] at h
  cases h

theorem Ordered.mem_tasks_dispatch (ho : Ordered s) (ht : t ∈ (s.dispatch e).schedule.tasks) :
    t ∈ s.schedule.tasks ∨ t = ⟨s.arrived.length, e,
      e.keys.filterMap fun k => Assoc.get? k s.schedule.prune.tails⟩ := by
  change t ∈ (s.schedule.add e).tasks at ht
  rw [Schedule.tasks_add, ho.next] at ht
  exact (List.mem_append.1 ht).imp_right List.mem_singleton.1

theorem Ordered.covered_dispatch (ho : Ordered s) (hn : (s.dispatch e).isDone n = false)
    (hk : k ∈ (s.dispatch e).keysOf n) :
    ∃ last, Assoc.get? k (s.dispatch e).schedule.tails = some last ∧ n ≤ last ∧
      k ∈ (s.dispatch e).keysOf last := by
  change ∃ last, Assoc.get? k (s.schedule.add e).tails = some last ∧ _
  rw [Schedule.get?_tails_add, ho.next]
  have hcases := mem_keysOf_dispatch hk
  by_cases hke : k ∈ e.keys
  · -- the new task is now the last one of the key
    rw [if_pos hke]
    have hlast : k ∈ (s.dispatch e).keysOf s.arrived.length := by
      rwa [keysOf_dispatch_last]
    exact ⟨_, rfl, by omega, hlast⟩
  · rw [if_neg hke]
    rcases hcases with ⟨hlt, hk⟩ | ⟨-, hk⟩
    · obtain ⟨last, hget, hle, hlast⟩ := ho.covered_prune (ho.not_done_of_dispatch hlt hn) hk
      exact ⟨last, hget, hle, mem_keysOf_dispatch_of_mem hlast⟩
    · exact absurd hk hke

theorem Ordered.awaited_dispatch (ho : Ordered s) (ht : t ∈ (s.dispatch e).schedule.tasks)
    (hn : n < t.number) (hd : (s.dispatch e).isDone n = false)
    (hk : k ∈ (s.dispatch e).keysOf n) (hkt : k ∈ (s.dispatch e).keysOf t.number) :
    ∃ last ∈ t.after, n ≤ last ∧ k ∈ (s.dispatch e).keysOf last := by
  rcases ho.mem_tasks_dispatch ht with ht | rfl
  · have hlt := ho.lt_of_not_done (isDone_of_mem ht)
    rw [keysOf_dispatch (by omega)] at hk hkt
    have hd' := ho.not_done_of_dispatch (by omega) hd
    obtain ⟨last, hlast, hle, hkl⟩ := ho.awaited t ht n k hn hd' hk hkt
    exact ⟨last, hlast, hle, mem_keysOf_dispatch_of_mem hkl⟩
  · rw [keysOf_dispatch hn] at hk
    rw [keysOf_dispatch_last] at hkt
    obtain ⟨last, hget, hle, hlast⟩ := ho.covered_prune (ho.not_done_of_dispatch hn hd) hk
    exact ⟨last, List.mem_filterMap.2 ⟨k, hkt, hget⟩, hle, mem_keysOf_dispatch_of_mem hlast⟩

theorem Ordered.dispatch (ho : Ordered s) (e : Event) : Ordered (s.dispatch e) where
  next := by
    rw [arrived_length_dispatch, ← ho.next]
    exact Schedule.next_add
  sorted := by
    change ((s.schedule.add e).tasks.map Task.number).Pairwise (· < ·)
    rw [Schedule.tasks_add, List.map_append, List.pairwise_append]
    refine ⟨ho.sorted, List.pairwise_singleton .., fun a ha b hb => ?_⟩
    obtain ⟨t, ht, rfl⟩ := List.mem_map.1 ha
    obtain rfl := List.mem_singleton.1 hb
    rw [ho.next]
    exact ho.lt_of_not_done (isDone_of_mem ht)
  event t ht := by
    change (s.arrived ++ [e])[t.number]? = some t.event
    rcases ho.mem_tasks_dispatch ht with ht | rfl
    · rw [List.getElem?_append_left (ho.lt_of_not_done (isDone_of_mem ht)), ho.event t ht]
    · exact List.getElem?_concat_length
  running n hn := by
    refine Bool.eq_false_iff.2 fun hd => ?_
    exact Bool.false_ne_true ((ho.running n hn).symm.trans (ho.isDone_dispatch.1 hd).1)
  tails a ha := by
    rw [arrived_length_dispatch]
    rcases Schedule.mem_tails_add ha with h | h
    · rw [h, ho.next]
      exact Nat.lt_succ_self _
    · exact Nat.lt_succ_of_lt (ho.tails a h)
  earlier t ht n hn := by
    rcases ho.mem_tasks_dispatch ht with ht | rfl
    · exact ho.earlier t ht n hn
    · obtain ⟨k, -, hget⟩ := List.mem_filterMap.1 hn
      exact ho.tails (k, n) (Schedule.mem_tails_prune (Assoc.mem_of_get? hget))
  covered n k hn hk := ho.covered_dispatch hn hk
  awaited t ht n k hn hd hk hkt := ho.awaited_dispatch ht hn hd hk hkt
  settled m n k hmn hm hn hs := by
    rw [ho.hasStarted_dispatch] at hs
    have hlt := hs.1
    rw [keysOf_dispatch (by omega)] at hm hn
    exact ho.isDone_dispatch.2 ⟨ho.settled m n k hmn hm hn hs, by omega⟩

/-- What a task need not wait for any longer, directly or through others, is finished. -/
theorem Ordered.isDone_of_ready (ho : Ordered s) (ht : t ∈ s.schedule.tasks)
    (hready : s.schedule.isReady t = true) (hm : m < t.number) (hk : k ∈ s.keysOf m)
    (hkt : k ∈ s.keysOf t.number) : s.isDone m = true := by
  refine (Bool.eq_false_or_eq_true _).resolve_right fun hd => ?_
  obtain ⟨last, hlast, hle, hkl⟩ := ho.awaited t ht m k hm hd hk hkt
  have hdone : s.isDone last = true := List.all_eq_true.1 hready last hlast
  rcases Nat.lt_or_eq_of_le hle with hlt | rfl
  · have hs := ho.settled m last k hlt hk hkl ⟨lt_of_mem_keysOf hkl, .inr hdone⟩
    exact Bool.false_ne_true (hd.symm.trans hs)
  · exact Bool.false_ne_true (hd.symm.trans hdone)

theorem Ordered.start (ho : Ordered s) (ht : t ∈ s.schedule.tasks)
    (hready : s.schedule.isReady t = true) : Ordered (s.start t) where
  next := ho.next
  sorted := ho.sorted
  event := ho.event
  running n hn := by
    rcases List.mem_cons.1 hn with rfl | hn
    · exact isDone_of_mem ht
    · exact ho.running n hn
  tails := ho.tails
  earlier := ho.earlier
  covered := ho.covered
  awaited := ho.awaited
  settled m n k hmn hm hn hs := by
    rcases (ho.hasStarted_start ht).1 hs with rfl | hs
    · exact ho.isDone_of_ready ht hready hmn hm hn
    · exact ho.settled m n k hmn hm hn hs

theorem Ordered.finish (ho : Ordered s) (hrun : t.number ∈ s.running) : Ordered (s.finish t) := by
  have hmem {u : Task} (hu : u ∈ (s.finish t).schedule.tasks) : u ∈ s.schedule.tasks :=
    (List.mem_filter.1 hu).1
  have hdone {n : Nat} (h : (s.finish t).isDone n = false) : s.isDone n = false := by
    refine Bool.eq_false_iff.2 fun hd => ?_
    rw [isDone_finish.2 (.inl hd)] at h
    cases h
  exact {
    next := ho.next
    sorted := ho.sorted.sublist (List.filter_sublist.map _)
    event := fun u hu => ho.event u (hmem hu)
    running := fun n hn => by
      obtain ⟨hn, hne⟩ := List.mem_filter.1 hn
      refine Bool.eq_false_iff.2 fun hd => ?_
      rcases isDone_finish.1 hd with hd | rfl
      · exact Bool.false_ne_true ((ho.running n hn).symm.trans hd)
      · simp at hne
    tails := ho.tails
    earlier := fun u hu => ho.earlier u (hmem hu)
    covered := fun n k hn => ho.covered n k (hdone hn)
    awaited := fun u hu n k hn hd => ho.awaited u (hmem hu) n k hn (hdone hd)
    settled := fun m n k hmn hm hn hs =>
      isDone_finish.2 (.inl (ho.settled m n k hmn hm hn ((hasStarted_finish hrun).1 hs))) }

theorem Ordered.works (ho : Ordered s) (ht : t ∈ s.schedule.tasks) : ∃ s', Works s s' := by
  by_cases hrun : ∃ u ∈ s.schedule.tasks, u.number ∈ s.running
  · obtain ⟨u, hu, hrun⟩ := hrun
    exact ⟨_, .finish u hu hrun⟩
  · obtain ⟨first, rest, htasks⟩ := List.exists_cons_of_ne_nil (List.ne_nil_of_mem ht)
    have hmem : first ∈ s.schedule.tasks := htasks ▸ List.mem_cons_self
    refine ⟨_, .start first hmem (fun h => hrun ⟨first, hmem, h⟩) ?_⟩
    refine List.all_eq_true.2 fun n hn => Schedule.isDone_iff.2 fun u hu => ?_
    have hlt := ho.earlier first hmem n hn
    have hsorted := ho.sorted
    rw [htasks] at hu hsorted
    rcases List.mem_cons.1 hu with rfl | hu
    · omega
    · have := (List.pairwise_cons.1 hsorted).1 u.number (List.mem_map_of_mem hu)
      omega

end Order

end Dispatch

end DraftKeeper
