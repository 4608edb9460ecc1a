import DraftKeeper.LockTable
import DraftKeeper.Proofs.ScheduleOrder
import Mathlib.Data.List.Nodup

namespace DraftKeeper.LockTable

/-- The tables that come of requests and of guards given back, with the guards that are out, each with its
path, in the order of the requests. -/
inductive Reached : LockTable → List (String × Guard) → Prop
  | empty : Reached .empty []
  | request {l : LockTable} {live : List (String × Guard)} (path : String) : Reached l live →
      Reached (l.request path).2 (live ++ [(path, (l.request path).1)])
  | release {l : LockTable} {live : List (String × Guard)} {e : String × Guard} : Reached l live →
      e ∈ live → Reached (l.release e.2) (live.filter (· ≠ e))

/-- Every lock is found by its path as long as a guard of it is out, and its queue holds the tickets of its
guards in the order of the requests. -/
structure Faithful (l : LockTable) (live : List (String × Guard)) : Prop where
  mapped : ∀ e ∈ live, Assoc.get? e.1 l.table = some e.2.lock
  queued : ∀ lock, l.queue lock = (live.filter fun e => e.2.lock = lock).map fun e => e.2.ticket
  apart : ∀ e ∈ l.table, ∀ e' ∈ l.table, e.2 = e'.2 → e.1 = e'.1
  numbered : ∀ e ∈ l.table, e.2 < l.nextLock
  ticketed : ∀ e ∈ live, e.2.ticket < l.nextTicket
  distinct : (live.map fun e => e.2.ticket).Nodup

/-- The lock of a path in the table as it is, a new one if it has none. -/
def find (l : LockTable) (path : String) : Nat × LockTable :=
  match Assoc.get? path l.table with
  | some lock => (lock, l)
  | none =>
    (l.nextLock,
      { l with table := Assoc.put path l.nextLock l.table, nextLock := l.nextLock + 1 })

def enqueue (l : LockTable) (lock : Nat) : Guard × LockTable :=
  (⟨lock, l.nextTicket⟩,
    { l.withQueue lock (l.queue lock ++ [l.nextTicket]) with nextTicket := l.nextTicket + 1 })

variable {l : LockTable} {live : List (String × Guard)} {path p : String} {g g' : Guard}
  {e : String × Guard} {lock : Nat}

theorem entry_eq (l : LockTable) (path : String) : l.entry path = l.prune.find path := rfl

theorem request_eq (l : LockTable) (path : String) :
    l.request path = (l.entry path).2.enqueue (l.entry path).1 := rfl

section Fields

@[simp] theorem queue_prune (l : LockTable) (lock : Nat) : l.prune.queue lock = l.queue lock := by
  rw [prune]
  split <;> rfl

@[simp] theorem nextTicket_prune (l : LockTable) : l.prune.nextTicket = l.nextTicket := by
  rw [prune]
  split <;> rfl

@[simp] theorem queue_find (l : LockTable) (path : String) (lock : Nat) :
    (l.find path).2.queue lock = l.queue lock := by
  rw [find]
  split <;> rfl

@[simp] theorem nextTicket_find (l : LockTable) (path : String) :
    (l.find path).2.nextTicket = l.nextTicket := by
  rw [find]
  split <;> rfl

@[simp] theorem queue_entry (l : LockTable) (path : String) (lock : Nat) :
    (l.entry path).2.queue lock = l.queue lock := by
  rw [entry_eq, queue_find, queue_prune]

@[simp] theorem queue_enqueue (l : LockTable) (lock j : Nat) :
    (l.enqueue lock).2.queue j = if lock = j then l.queue j ++ [l.nextTicket] else l.queue j := by
  have h : (l.enqueue lock).2.queue j =
      (l.withQueue lock (l.queue lock ++ [l.nextTicket])).queue j := rfl
  rw [h, queue_withQueue]
  split
  · next heq => rw [heq]
  · rfl

@[simp] theorem queue_request (l : LockTable) (path : String) (lock : Nat) :
    (l.request path).2.queue lock =
      if (l.entry path).1 = lock then l.queue lock ++ [l.nextTicket] else l.queue lock := by
  rw [request_eq, queue_enqueue, queue_entry, entry_eq, nextTicket_find, nextTicket_prune]

@[simp] theorem queue_release (l : LockTable) (g : Guard) (lock : Nat) :
    (l.release g).queue lock =
      if g.lock = lock then (l.queue lock).filter (· ≠ g.ticket) else l.queue lock := by
  rw [release, queue_withQueue]
  split
  · next heq => rw [heq]
  · rfl

end Fields

namespace Faithful

theorem not_idle (h : Faithful l live) (he : e ∈ live) : l.isIdle e.2.lock = false := by
  rw [isIdle, h.queued, List.isEmpty_eq_false_iff]
  exact List.ne_nil_of_mem (List.mem_map_of_mem (List.mem_filter.2 ⟨he, by simp⟩))

theorem empty : Faithful .empty [] :=
  ⟨nofun, fun _ => rfl, nofun, nofun, nofun, List.nodup_nil⟩

/-- A table that loses only locks of which no guard is out is as good as before. -/
theorem filter (h : Faithful l live) (keep : Nat → Bool) (hkeep : ∀ e ∈ live, keep e.2.lock = true) :
    Faithful { l with table := l.table.filter fun e => keep e.2 } live where
  mapped e he := Assoc.get?_filter (h.mapped e he) (hkeep e he)
  queued := h.queued
  apart m hm m' hm' := h.apart m (List.mem_filter.1 hm).1 m' (List.mem_filter.1 hm').1
  numbered m hm := h.numbered m (List.mem_filter.1 hm).1
  ticketed := h.ticketed
  distinct := h.distinct

theorem prune (h : Faithful l live) : Faithful l.prune live := by
  rw [LockTable.prune]
  split
  · exact h.filter (fun lock => !l.isIdle lock) fun e he => by simp [h.not_idle he]
  · exact h

theorem find (h : Faithful l live) (path : String) : Faithful (l.find path).2 live ∧
    Assoc.get? path (l.find path).2.table = some (l.find path).1 := by
  rw [LockTable.find]
  split
  · next lock hlock => exact ⟨h, hlock⟩
  · next hnone =>
      have hold {m : String × Nat} (hm : m ∈ Assoc.put path l.nextLock l.table) :
          m = (path, l.nextLock) ∨ m ∈ l.table ∧ m.2 < l.nextLock :=
        (Assoc.mem_put hm).imp_right fun hm => ⟨hm, h.numbered m hm⟩
      refine ⟨⟨fun e he => ?_, h.queued, fun m hm m' hm' heq => ?_, fun m hm => ?_, h.ticketed,
        h.distinct⟩, ?_⟩
      · rw [Assoc.get?_put, if_neg]
        · exact h.mapped e he
        · rintro rfl
          rw [h.mapped e he] at hnone
          cases hnone
      · rcases hold hm with rfl | ⟨hm, hlt⟩ <;> rcases hold hm' with rfl | ⟨hm', hlt'⟩
        · rfl
        · exact absurd heq.symm (Nat.ne_of_lt hlt')
        · exact absurd heq (Nat.ne_of_lt hlt)
        · exact h.apart m hm m' hm' heq
      · rcases hold hm with rfl | ⟨hm, hlt⟩
        · exact Nat.lt_succ_self _
        · exact Nat.lt_succ_of_lt hlt
      · rw [Assoc.get?_put, if_pos rfl]

theorem entry (h : Faithful l live) (path : String) : Faithful (l.entry path).2 live ∧
    Assoc.get? path (l.entry path).2.table = some (l.entry path).1 := h.prune.find path

theorem enqueue (h : Faithful l live) (hlock : Assoc.get? path l.table = some lock) :
    Faithful (l.enqueue lock).2 (live ++ [(path, (l.enqueue lock).1)]) := by
  refine ⟨fun e he => ?_, fun j => ?_, h.apart, h.numbered, fun e he => ?_, ?_⟩
  · rcases List.mem_append.1 he with he | he
    · exact h.mapped e he
    · rw [List.mem_singleton.1 he]
      exact hlock
  · rw [queue_enqueue, List.filter_append, List.map_append, ← h.queued]
    by_cases heq : lock = j
    · rw [if_pos heq, List.filter_cons_of_pos (by simp [LockTable.enqueue, heq])]
      rfl
    · rw [if_neg heq, List.filter_cons_of_neg (by simp [LockTable.enqueue, heq])]
      exact (List.append_nil _).symm
  · rcases List.mem_append.1 he with he | he
    · exact Nat.lt_succ_of_lt (h.ticketed e he)
    · rw [List.mem_singleton.1 he]
      exact Nat.lt_succ_self _
  · rw [List.map_append]
    refine List.nodup_append.2 ⟨h.distinct, List.nodup_singleton _, fun ticket ht t hnext => ?_⟩
    obtain ⟨e, he, rfl⟩ := List.mem_map.1 ht
    rw [List.mem_singleton.1 hnext]
    exact Nat.ne_of_lt (h.ticketed e he)

theorem request (h : Faithful l live) (path : String) :
    Faithful (l.request path).2 (live ++ [(path, (l.request path).1)]) :=
  (h.entry path).1.enqueue (h.entry path).2

theorem eq_of_ticket (h : Faithful l live) {e' : String × Guard} (he : e ∈ live) (he' : e' ∈ live)
    (hticket : e.2.ticket = e'.2.ticket) : e = e' :=
  List.inj_on_of_nodup_map h.distinct he he' hticket

theorem release (h : Faithful l live) (he : e ∈ live) :
    Faithful (l.release e.2) (live.filter (· ≠ e)) := by
  refine ⟨fun a ha => h.mapped a (List.mem_filter.1 ha).1, fun lock => ?_, h.apart, h.numbered,
    fun a ha => h.ticketed a (List.mem_filter.1 ha).1,
    h.distinct.sublist (List.filter_sublist.map _)⟩
  -- among the guards that are out a ticket is as good as its guard
  have hfilter : ((live.filter fun a => a.2.lock = lock).filter fun a => a ≠ e) =
      (live.filter fun a => a.2.lock = lock).filter fun a => a.2.ticket ≠ e.2.ticket := by
    refine List.filter_congr fun a ha => ?_
    rw [decide_eq_decide]
    refine not_congr ⟨fun heq => by rw [heq], ?_⟩
    exact h.eq_of_ticket (List.mem_filter.1 ha).1 he
  rw [List.filter_filter, List.filter_congr fun a _ => Bool.and_comm _ _, ← List.filter_filter, hfilter,
    queue_release, h.queued]
  split
  · rw [List.filter_map]
    rfl
  · next hne =>
      refine congrArg _ (List.filter_eq_self.2 fun a ha => ?_).symm
      have hlock : a.2.lock = lock := by simpa using (List.mem_filter.1 ha).2
      rw [decide_eq_true_iff]
      intro hticket
      rw [h.eq_of_ticket (List.mem_filter.1 ha).1 he hticket] at hlock
      exact hne hlock

theorem queue_eq (h : Faithful l live) (hg : (p, g) ∈ live) :
    l.queue g.lock = ((live.filter fun e => e.1 = p).map Prod.snd).map Guard.ticket := by
  have hlock := h.mapped _ hg
  rw [h.queued, List.map_map]
  refine congrArg _ (List.filter_congr fun e he => ?_)
  have helock := h.mapped e he
  rw [decide_eq_decide]
  constructor
  · intro heq
    exact h.apart _ (Assoc.mem_of_get? helock) _ (Assoc.mem_of_get? hlock) heq
  · rintro rfl
    exact Option.some.inj (helock.symm.trans hlock)

theorem eq_of_holds (h : Faithful l live) (hg : (p, g) ∈ live) (hg' : (p, g') ∈ live)
    (hh : l.holds g = true) (hh' : l.holds g' = true) : g = g' := by
  have hlock : g.lock = g'.lock :=
    Option.some.inj ((h.mapped _ hg).symm.trans (h.mapped _ hg'))
  simp only [holds, decide_eq_true_eq] at hh hh'
  rw [hlock, hh'] at hh
  exact congrArg Prod.snd (h.eq_of_ticket hg hg' (Option.some.inj hh).symm)

end Faithful

theorem Reached.faithful (h : Reached l live) : Faithful l live := by
  induction h with
  | empty => exact .empty
  | request path _ ih => exact ih.request path
  | release _ he ih => exact ih.release he

theorem holds_request (h : l.holds g = true) (path : String) : (l.request path).2.holds g = true := by
  simp only [holds, decide_eq_true_eq] at h ⊢
  rw [queue_request]
  split
  · rw [List.head?_append, h]
    rfl
  · exact h

theorem holds_release (hne : g.ticket ≠ g'.ticket) (h : l.holds g = true) :
    (l.release g').holds g = true := by
  simp only [holds, decide_eq_true_eq] at h ⊢
  rw [queue_release]
  split
  · obtain ⟨rest, hrest⟩ := List.head?_eq_some_iff.1 h
    rw [hrest, List.filter_cons_of_pos (by simpa using hne)]
    rfl
  · exact h

end DraftKeeper.LockTable
