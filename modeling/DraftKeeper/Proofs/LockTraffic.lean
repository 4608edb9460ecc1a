import DraftKeeper.Proofs.PathLocks
import Mathlib.Data.List.Perm.Basic
import Mathlib.Logic.Relation

namespace DraftKeeper

namespace LockTable

/-- The paths of two that are locked together, the lesser one first, equal ones once. -/
def inOrder (a b : String) : List String :=
  if a = b then [a] else if a < b then [a, b] else [b, a]

def keepUsed (l : LockTable) (used : List Nat) : LockTable :=
  if tableLimit ≤ l.table.length then
    { l with table := l.table.filter fun e => used.contains e.2 }
  else l

def fetch (l : LockTable) (used : List Nat) (path : String) : Nat × LockTable :=
  (l.keepUsed used).find path

end LockTable

/-- What an errand asks guards for: one path, two paths together, or many paths one after another. -/
inductive Demand
  | one (path : String)
  | both (a b : String)
  | each (paths : List String)

/-- The paths that are locked together, round by round. The guards of a round are given back before the next
round begins. -/
def Demand.rounds : Demand → List (List String)
  | .one path => [[path]]
  | .both a b => [LockTable.inOrder a b]
  | .each paths => paths.map fun path => [path]

/-- How far an errand has come with the path that it asks for. -/
inductive Stage
  | ready
  | found (path : String) (lock : Nat)
  | queued (path : String) (guard : Guard)
deriving DecidableEq

/-- An errand with the guards that it holds, the paths of this round that it has not asked for, and the rounds
to come. -/
structure Errand where
  held : List (String × Guard)
  stage : Stage
  wanted : List String
  later : List (List String)
deriving DecidableEq

namespace Stage

def path? : Stage → Option String
  | .ready => none
  | .found path _ | .queued path _ => some path

def out : Stage → List (String × Guard)
  | .queued path g => [(path, g)]
  | .ready | .found .. => []

def uses : Stage → List Nat
  | .ready => []
  | .found _ lock => [lock]
  | .queued _ g => [g.lock]

end Stage

namespace Errand

def new (d : Demand) : Errand := ⟨[], .ready, [], d.rounds⟩

def finished : Errand := ⟨[], .ready, [], []⟩

def out (t : Errand) : List (String × Guard) := t.held ++ t.stage.out

def uses (t : Errand) : List Nat := t.held.map (fun e => e.2.lock) ++ t.stage.uses

def next? (t : Errand) : Option String := t.stage.path?.or t.wanted.head?

/-- An errand asks for its paths in their order and holds a guard of no path that comes later. -/
def Ordered (t : Errand) : Prop :=
  (t.held.map Prod.fst ++ t.stage.path?.toList ++ t.wanted).Pairwise (· < ·) ∧
    ∀ round ∈ t.later, round.Pairwise (· < ·)

end Errand

/-- The errands at work on one table, and the guards that are out, in the order in which they were queued for. -/
structure Traffic where
  locks : LockTable
  line : List (String × Guard)
  errands : List Errand

namespace Traffic

def empty : Traffic := ⟨.empty, [], []⟩

def out (s : Traffic) : List (String × Guard) := s.errands.flatMap Errand.out

def uses (s : Traffic) : List Nat := s.errands.flatMap Errand.uses

/-- One step of one errand. It may give up at any time; it asks for nothing then and gives back what it
holds. A lock that is let go of while the table is pruned may be kept: these are the locks `late`. -/
inductive Step (s : Traffic) : Traffic → Prop
  | arrive (d : Demand) : Step s { s with errands := s.errands ++ [.new d] }
  | next (before after : List Errand) (round : List String) (later : List (List String))
      (errands : s.errands = before ++ ⟨[], .ready, [], round :: later⟩ :: after) :
      Step s { s with errands := before ++ ⟨[], .ready, round, later⟩ :: after }
  | find (before after : List Errand) (held : List (String × Guard)) (path : String)
      (wanted : List String) (later : List (List String)) (late : List Nat)
      (errands : s.errands = before ++ ⟨held, .ready, path :: wanted, later⟩ :: after) : Step s { s with
        locks := (s.locks.fetch (s.uses ++ late) path).2
        errands := before ++
          ⟨held, .found path (s.locks.fetch (s.uses ++ late) path).1, wanted, later⟩ :: after }
  | queue (before after : List Errand) (held : List (String × Guard)) (path : String) (lock : Nat)
      (wanted : List String) (later : List (List String))
      (errands : s.errands = before ++ ⟨held, .found path lock, wanted, later⟩ :: after) : Step s {
        locks := (s.locks.enqueue lock).2
        line := s.line ++ [(path, (s.locks.enqueue lock).1)]
        errands := before ++ ⟨held, .queued path (s.locks.enqueue lock).1, wanted, later⟩ :: after }
  | grant (before after : List Errand) (held : List (String × Guard)) (path : String) (g : Guard)
      (wanted : List String) (later : List (List String))
      (errands : s.errands = before ++ ⟨held, .queued path g, wanted, later⟩ :: after)
      (holds : s.locks.holds g = true) :
      Step s { s with errands := before ++ ⟨held ++ [(path, g)], .ready, wanted, later⟩ :: after }
  | giveBack (before after : List Errand) (left right : List (String × Guard)) (e : String × Guard)
      (later : List (List String))
      (errands : s.errands = before ++ ⟨left ++ e :: right, .ready, [], later⟩ :: after) : Step s {
        locks := s.locks.release e.2
        line := s.line.filter (· ≠ e)
        errands := before ++ ⟨left ++ right, .ready, [], later⟩ :: after }
  | giveUp (before after : List Errand) (t : Errand) (errands : s.errands = before ++ t :: after)
      (unqueued : t.stage.out = []) :
      Step s { s with errands := before ++ ⟨t.held, .ready, [], []⟩ :: after }
  | leave (before after : List Errand) (held : List (String × Guard)) (path : String) (g : Guard)
      (wanted : List String) (later : List (List String))
      (errands : s.errands = before ++ ⟨held, .queued path g, wanted, later⟩ :: after) : Step s {
        locks := s.locks.release g
        line := s.line.filter (· ≠ (path, g))
        errands := before ++ ⟨held, .ready, [], []⟩ :: after }

abbrev Steps : Traffic → Traffic → Prop := Relation.ReflTransGen Step

/-- The states that any number of errands can lead to from an empty table. -/
abbrev Reached (s : Traffic) : Prop := Steps .empty s

end Traffic

namespace LockTable

variable {l : LockTable} {live : List (String × Guard)} {used : List Nat} {path : String} {lock : Nat}

@[simp] theorem queue_keepUsed (l : LockTable) (used : List Nat) (lock : Nat) :
    (l.keepUsed used).queue lock = l.queue lock := by
  rw [keepUsed]
  split <;> rfl

@[simp] theorem queue_fetch (l : LockTable) (used : List Nat) (path : String) (lock : Nat) :
    (l.fetch used path).2.queue lock = l.queue lock := by
  rw [fetch, queue_find, queue_keepUsed]

theorem holds_congr {l' : LockTable} {g : Guard} (h : l'.queue g.lock = l.queue g.lock) :
    l'.holds g = l.holds g := by
  rw [holds, h, holds]

theorem get?_keepUsed (h : Assoc.get? path l.table = some lock) (hused : lock ∈ used) :
    Assoc.get? path (l.keepUsed used).table = some lock := by
  rw [keepUsed]
  split
  · exact Assoc.get?_filter h (by simpa using hused)
  · exact h

theorem get?_find {p : String} (h : Assoc.get? p l.table = some lock) :
    Assoc.get? p (l.find path).2.table = some lock := by
  rw [find]
  split
  · exact h
  · next hnone =>
      rw [Assoc.get?_put, if_neg]
      · exact h
      · rintro rfl
        rw [h] at hnone
        cases hnone

/-- A lock in use stays the lock of its path while another one is found. -/
theorem get?_fetch {p : String} (h : Assoc.get? p l.table = some lock) (hused : lock ∈ used) :
    Assoc.get? p (l.fetch used path).2.table = some lock := get?_find (get?_keepUsed h hused)

theorem Faithful.keepUsed (h : Faithful l live) (hused : ∀ e ∈ live, e.2.lock ∈ used) :
    Faithful (l.keepUsed used) live := by
  rw [LockTable.keepUsed]
  split
  · exact h.filter (fun lock => used.contains lock) fun e he => by simpa using hused e he
  · exact h

theorem Faithful.fetch (h : Faithful l live) (hused : ∀ e ∈ live, e.2.lock ∈ used) (path : String) :
    Faithful (l.fetch used path).2 live ∧
      Assoc.get? path (l.fetch used path).2.table = some (l.fetch used path).1 :=
  (h.keepUsed hused).find path

/-- If only those locks are in use of which a guard is out, then the locks in use are those that are not idle. -/
theorem Faithful.fetch_eq_entry (h : Faithful l live)
    (hused : ∀ lock, lock ∈ used ↔ ∃ e ∈ live, e.2.lock = lock) (path : String) :
    l.fetch used path = l.entry path := by
  have hkeep : l.keepUsed used = l.prune := by
    rw [LockTable.keepUsed, LockTable.prune]
    split
    · congr 1
      refine List.filter_congr fun e _ => ?_
      rw [Bool.eq_iff_iff, List.contains_iff_mem, hused, Bool.not_eq_true', isIdle, h.queued,
        List.isEmpty_eq_false_iff, ne_eq, List.map_eq_nil_iff, List.filter_eq_nil_iff]
      simp
    · rfl
  rw [LockTable.fetch, hkeep, entry_eq]

theorem holds_enqueue {g : Guard} (h : l.holds g = true) (lock : Nat) :
    (l.enqueue lock).2.holds g = true := by
  simp only [holds, decide_eq_true_eq] at h ⊢
  rw [queue_enqueue]
  split
  · rw [List.head?_append, h]
    rfl
  · exact h

theorem inOrder_pairwise (a b : String) : (inOrder a b).Pairwise (· < ·) := by
  rw [inOrder]
  split
  · exact List.pairwise_singleton _ _
  · next hne =>
      split
      · next hlt => simpa using hlt
      · next hlt => simpa using DraftList.lt_or_gt_of_ne hne hlt

end LockTable

namespace Errand

variable {t : Errand} {d : Demand}

theorem ordered_new (d : Demand) : (new d).Ordered := by
  refine ⟨.nil, fun round hround => ?_⟩
  cases d with
  | one path =>
      rw [List.mem_singleton.1 hround]
      exact List.pairwise_singleton _ _
  | both a b =>
      rw [List.mem_singleton.1 hround]
      exact LockTable.inOrder_pairwise a b
  | each paths =>
      obtain ⟨path, -, rfl⟩ := List.mem_map.1 hround
      exact List.pairwise_singleton _ _

theorem Ordered.next {round : List String} {later : List (List String)}
    (h : Ordered ⟨[], .ready, [], round :: later⟩) : Ordered ⟨[], .ready, round, later⟩ :=
  ⟨h.2 round List.mem_cons_self, fun r hr => h.2 r (List.mem_cons_of_mem _ hr)⟩

theorem Ordered.less {held : List (String × Guard)} {later : List (List String)} (h : t.Ordered)
    (hheld : held.Sublist t.held) (hlater : ∀ round ∈ later, round ∈ t.later) :
    Ordered ⟨held, .ready, [], later⟩ := by
  refine ⟨?_, fun round hr => h.2 round (hlater round hr)⟩
  have hp := h.1
  rw [List.append_assoc, List.pairwise_append] at hp
  simpa [Stage.path?] using hp.1.sublist (hheld.map _)

theorem Ordered.lt_next {path : String} {e : String × Guard} (h : t.Ordered) (hnext : t.next? = some path)
    (he : e ∈ t.held) : e.1 < path := by
  have hp := h.1
  rw [List.append_assoc, List.pairwise_append] at hp
  refine hp.2.2 e.1 (List.mem_map_of_mem he) path ?_
  rw [next?] at hnext
  cases hstage : t.stage.path? with
  | some p =>
      rw [hstage] at hnext
      obtain rfl : p = path := Option.some.inj hnext
      simp
  | none =>
      rw [hstage, Option.none_or] at hnext
      exact List.mem_append_right _ (List.mem_of_mem_head? hnext)

end Errand

namespace Traffic

variable {s s' : Traffic} {t t' x : Errand} {before after : List Errand} {e : String × Guard}

/-- What every step keeps: the guards that are out are those of the errands, and what an errand holds is first
in its queue. -/
structure Orderly (s : Traffic) : Prop where
  faithful : s.locks.Faithful s.line
  out : s.out.Perm s.line
  sorted : (s.line.map fun e => e.2.ticket).Pairwise (· < ·)
  found : ∀ t ∈ s.errands, ∀ path lock, t.stage = .found path lock →
    Assoc.get? path s.locks.table = some lock
  holder : ∀ t ∈ s.errands, ∀ e ∈ t.held, s.locks.holds e.2 = true
  ordered : ∀ t ∈ s.errands, t.Ordered

theorem flatMap_middle {α : Type} (f : Errand → List α) (before after : List Errand) (t : Errand) :
    ((before ++ t :: after).flatMap f).Perm ((before ++ after).flatMap f ++ f t) := by
  rw [List.flatMap_append, List.flatMap_cons, List.flatMap_append, List.append_assoc]
  exact List.perm_append_comm.append_left _

theorem mem_middle (h : x ∈ before ++ t' :: after) : x = t' ∨ x ∈ before ++ after := by
  simpa [or_left_comm] using h

theorem mem_of_mem_others (h : x ∈ before ++ after) : x ∈ before ++ t :: after := by
  rcases List.mem_append.1 h with h | h <;> simp [h]

namespace Orderly

theorem mem_line_iff (h : Orderly s) : e ∈ s.line ↔ ∃ t ∈ s.errands, e ∈ t.out := by
  rw [← h.out.mem_iff, Traffic.out, List.mem_flatMap]

theorem mem_uses (h : Orderly s) (he : e ∈ s.line) : e.2.lock ∈ s.uses := by
  obtain ⟨t, ht, he⟩ := h.mem_line_iff.1 he
  refine List.mem_flatMap.2 ⟨t, ht, ?_⟩
  rcases List.mem_append.1 he with he | he
  · exact List.mem_append_left _ (List.mem_map.2 ⟨e, he, rfl⟩)
  · refine List.mem_append_right _ ?_
    cases hstage : t.stage with
    | ready | found =>
        rw [hstage] at he
        cases he
    | queued path g =>
        rw [hstage] at he
        rw [List.mem_singleton.1 he]
        exact List.mem_singleton_self _

theorem rest (h : Orderly s) (ht : s.errands = before ++ t :: after) :
    ((before ++ after).flatMap Errand.out ++ t.out).Perm s.line := by
  have hmiddle := flatMap_middle Errand.out before after t
  rw [← ht] at hmiddle
  exact hmiddle.symm.trans h.out

theorem nodup (h : Orderly s) : s.line.Nodup := h.faithful.distinct.of_map

theorem ne_of_others (h : Orderly s) (ht : s.errands = before ++ t :: after) {other : String × Guard}
    (hother : other ∈ (before ++ after).flatMap Errand.out) (he : e ∈ t.out) : other ≠ e := by
  have hnodup := (h.rest ht).nodup_iff.2 h.nodup
  rintro rfl
  exact (List.nodup_append.1 hnodup).2.2 other hother other he rfl

theorem empty : Orderly .empty :=
  ⟨.empty, .nil, .nil, fun _ ht => absurd ht List.not_mem_nil, fun _ ht => absurd ht List.not_mem_nil,
    fun _ ht => absurd ht List.not_mem_nil⟩

theorem change (h : Orderly s) (ht : s.errands = before ++ t :: after) {l : LockTable}
    {line : List (String × Guard)} (faithful : l.Faithful line)
    (sorted : (line.map fun e => e.2.ticket).Pairwise (· < ·))
    (out : ∀ rest : List (String × Guard), (rest ++ t.out).Perm s.line → (rest ++ t'.out).Perm line)
    (keeps : ∀ path, ∀ lock ∈ s.uses, Assoc.get? path s.locks.table = some lock →
      Assoc.get? path l.table = some lock)
    (others : ∀ e ∈ (before ++ after).flatMap Errand.out, s.locks.holds e.2 = true → l.holds e.2 = true)
    (found : ∀ path lock, t'.stage = .found path lock → Assoc.get? path l.table = some lock)
    (holder : ∀ e ∈ t'.held, l.holds e.2 = true) (ordered : t'.Ordered) :
    Orderly ⟨l, line, before ++ t' :: after⟩ := by
  have hmem {x : Errand} (hx : x ∈ before ++ after) : x ∈ s.errands := ht ▸ mem_of_mem_others hx
  refine ⟨faithful, (flatMap_middle Errand.out before after t').trans (out _ (h.rest ht)), sorted,
    fun x hx path lock hstage => ?_, fun x hx e he => ?_, fun x hx => ?_⟩
  · rcases mem_middle hx with rfl | hx
    · exact found path lock hstage
    · refine keeps path lock ?_ (h.found x (hmem hx) path lock hstage)
      exact List.mem_flatMap.2 ⟨x, hmem hx, List.mem_append_right _ (by simp [hstage, Stage.uses])⟩
  · rcases mem_middle hx with rfl | hx
    · exact holder e he
    · exact others e (List.mem_flatMap.2 ⟨x, hx, List.mem_append_left _ he⟩) (h.holder x (hmem hx) e he)
  · rcases mem_middle hx with rfl | hx
    · exact ordered
    · exact h.ordered x (hmem hx)

theorem go_on (h : Orderly s) (ht : s.errands = before ++ t :: after) (hout : t'.out = t.out)
    (found : ∀ path lock, t'.stage ≠ .found path lock) (holder : ∀ e ∈ t'.held, s.locks.holds e.2 = true)
    (ordered : t'.Ordered) : Orderly { s with errands := before ++ t' :: after } :=
  h.change ht h.faithful h.sorted (fun rest hrest => by rwa [hout]) (fun _ _ _ => id) (fun _ _ => id)
    (fun path lock hstage => absurd hstage (found path lock)) holder ordered

theorem drop (h : Orderly s) (ht : s.errands = before ++ t :: after) (he : e ∈ t.out)
    (hout : t'.out.Perm (t.out.erase e)) (hheld : ∀ x ∈ t'.held, x ∈ t.held ∧ x ≠ e)
    (hstage : t'.stage = .ready) (ordered : t'.Ordered) :
    Orderly ⟨s.locks.release e.2, s.line.filter (· ≠ e), before ++ t' :: after⟩ := by
  have hline {t : Errand} (ht : t ∈ s.errands) {e : String × Guard} (he : e ∈ t.out) : e ∈ s.line :=
    h.mem_line_iff.2 ⟨t, ht, he⟩
  have hmem : t ∈ s.errands := by simp [ht]
  have hkeeps {other : String × Guard} (hother : other ∈ s.line) (hne : other ≠ e)
      (hholds : s.locks.holds other.2 = true) : (s.locks.release e.2).holds other.2 = true :=
    LockTable.holds_release (fun hticket =>
      hne (h.faithful.eq_of_ticket hother (hline hmem he) hticket)) hholds
  refine h.change ht (h.faithful.release (hline hmem he))
    (h.sorted.sublist (List.filter_sublist.map _)) (fun rest hrest => ?_) (fun _ _ _ => id)
    (fun other hother => ?_) (fun path lock hf => ?_) (fun x hx => ?_) ordered
  · -- without the guard the errands have what the line has without it
    have hperm := (hrest.erase e).symm
    have hrest_notMem : e ∉ rest := by
      have hnodup := hrest.nodup_iff.2 h.nodup
      exact fun hr => (List.nodup_append.1 hnodup).2.2 e hr e he rfl
    rw [h.nodup.erase_eq_filter, List.erase_append_right _ hrest_notMem] at hperm
    have hfilter : (s.line.filter fun x => x ≠ e) = s.line.filter (· != e) :=
      List.filter_congr fun x _ => by rw [Bool.eq_iff_iff]; simp
    rw [hfilter]
    exact (hout.append_left rest).trans hperm.symm
  · refine hkeeps ?_ (h.ne_of_others ht hother he)
    obtain ⟨x, hx, hother⟩ := List.mem_flatMap.1 hother
    exact hline (ht ▸ mem_of_mem_others hx) hother
  · rw [hstage] at hf
    cases hf
  · obtain ⟨hx, hne⟩ := hheld x hx
    exact hkeeps (hline hmem (List.mem_append_left _ hx)) hne (h.holder t hmem x hx)

theorem arrive (h : Orderly s) (d : Demand) : Orderly { s with errands := s.errands ++ [.new d] } := by
  have hnew {x : Errand} (hx : x ∈ s.errands ++ [.new d]) : x ∈ s.errands ∨ x = .new d := by
    simpa using hx
  refine ⟨h.faithful, ?_, h.sorted, fun x hx path lock hstage => ?_, fun x hx e he => ?_, fun x hx => ?_⟩
  · have hout : Traffic.out { s with errands := s.errands ++ [.new d] } = s.out := by
      rw [Traffic.out, List.flatMap_append]
      exact List.append_nil _
    rw [hout]
    exact h.out
  · rcases hnew hx with hx | rfl
    · exact h.found x hx path lock hstage
    · cases hstage
  · rcases hnew hx with hx | rfl
    · exact h.holder x hx e he
    · cases he
  · rcases hnew hx with hx | rfl
    · exact h.ordered x hx
    · exact Errand.ordered_new d

theorem step (h : Orderly s) (hs : Step s s') : Orderly s' := by
  cases hs with
  | arrive d => exact h.arrive d
  | next before after round later ht =>
      exact h.go_on ht rfl nofun nofun (h.ordered _ (by simp [ht])).next
  | find before after held path wanted later late ht =>
      have hmem : (⟨held, .ready, path :: wanted, later⟩ : Errand) ∈ s.errands := by simp [ht]
      -- what is in use survives the pruning, so no path of a guard that is out gets another lock
      have hused : ∀ lock ∈ s.uses, lock ∈ s.uses ++ late := fun _ => List.mem_append_left _
      obtain ⟨hfaithful, hfound⟩ := h.faithful.fetch (fun e he => hused _ (h.mem_uses he)) path
      refine h.change ht hfaithful h.sorted (fun rest hrest => hrest)
        (fun p lock hlock => (LockTable.get?_fetch · (hused lock hlock)))
        (fun e _ => ?_) (fun p lock hstage => ?_) (fun e he => ?_) ?_
      · rw [LockTable.holds_congr (LockTable.queue_fetch ..)]
        exact id
      · cases hstage
        exact hfound
      · rw [LockTable.holds_congr (LockTable.queue_fetch ..)]
        exact h.holder _ hmem e he
      · simpa [Errand.Ordered, Stage.path?] using h.ordered _ hmem
  | queue before after held path lock wanted later ht =>
      have hmem : (⟨held, .found path lock, wanted, later⟩ : Errand) ∈ s.errands := by simp [ht]
      refine h.change ht (h.faithful.enqueue (h.found _ hmem path lock rfl)) ?_ (fun rest hrest => ?_)
        (fun _ _ _ => id) (fun e _ hholds => LockTable.holds_enqueue hholds lock) nofun
        (fun e he => LockTable.holds_enqueue (h.holder _ hmem e he) lock) ?_
      · -- the new ticket is later than all that are out
        rw [List.map_append, List.pairwise_append]
        refine ⟨h.sorted, List.pairwise_singleton _ _, fun ticket hticket other hother => ?_⟩
        obtain ⟨e, he, rfl⟩ := List.mem_map.1 hticket
        rw [List.mem_singleton.1 hother]
        exact h.faithful.ticketed e he
      · have hperm := hrest.append_right [(path, (s.locks.enqueue lock).1)]
        simpa [Errand.out, Stage.out] using hperm
      · simpa [Errand.Ordered, Stage.path?] using h.ordered _ hmem
  | grant before after held path g wanted later ht hholds =>
      have hmem : (⟨held, .queued path g, wanted, later⟩ : Errand) ∈ s.errands := by simp [ht]
      refine h.go_on ht (by simp [Errand.out, Stage.out]) nofun (fun e he => ?_) ?_
      · rcases List.mem_append.1 he with he | he
        · exact h.holder _ hmem e he
        · rw [List.mem_singleton.1 he]
          exact hholds
      · simpa [Errand.Ordered, Stage.path?] using h.ordered _ hmem
  | giveBack before after left right e later ht =>
      have hmem : (⟨left ++ e :: right, .ready, [], later⟩ : Errand) ∈ s.errands := by simp [ht]
      have hnodup : (left ++ e :: right).Nodup := by
        have hrest := (h.rest ht).nodup_iff.2 h.nodup
        exact (List.nodup_append.1 (List.nodup_append.1 hrest).2.1).1
      have hout : (⟨left ++ e :: right, .ready, [], later⟩ : Errand).out = left ++ e :: right :=
        List.append_nil _
      have hless : (left ++ right).Sublist (left ++ e :: right) :=
        (List.sublist_cons_self e right).append_left left
      refine h.drop ht ?_ ?_ (fun x hx => ⟨hless.mem hx, ?_⟩) rfl
        ((h.ordered _ hmem).less hless fun _ => id)
      · simp [hout]
      · have hmiddle : (left ++ e :: right).Perm (e :: (left ++ right)) := List.perm_middle
        have hperm := hmiddle.erase e
        rw [List.erase_cons_head] at hperm
        rw [hout, Errand.out, Stage.out, List.append_nil]
        exact hperm.symm
      · rintro rfl
        rw [List.perm_middle.nodup_iff, List.nodup_cons] at hnodup
        exact hnodup.1 hx
  | giveUp before after t ht hout =>
      have hmem : t ∈ s.errands := by simp [ht]
      refine h.go_on ht (by rw [Errand.out, Errand.out, hout, Stage.out]) nofun (h.holder t hmem) ?_
      exact (h.ordered t hmem).less (List.Sublist.refl _) fun round hr => absurd hr List.not_mem_nil
  | leave before after held path g wanted later ht =>
      have hmem : (⟨held, .queued path g, wanted, later⟩ : Errand) ∈ s.errands := by simp [ht]
      have hnodup : (held ++ [(path, g)]).Nodup := by
        have hrest := (h.rest ht).nodup_iff.2 h.nodup
        exact (List.nodup_append.1 hrest).2.1
      have hnotMem : (path, g) ∉ held := fun hg => (List.nodup_append.1 hnodup).2.2 _ hg _ (by simp) rfl
      refine h.drop (e := (path, g)) ht (by simp [Errand.out, Stage.out]) ?_ (fun x hx => ⟨hx, ?_⟩) rfl
        ((h.ordered _ hmem).less (List.Sublist.refl held) fun round hr => absurd hr List.not_mem_nil)
      · rw [Errand.out, Errand.out, Stage.out, Stage.out, List.erase_append_right _ hnotMem,
          List.erase_cons_head]
      · rintro rfl
        exact hnotMem hx

theorem steps (h : Orderly s) (hs : Steps s s') : Orderly s' := by
  induction hs with
  | refl => exact h
  | tail _ hs ih => exact ih.step hs

end Orderly

theorem Reached.orderly (h : Reached s) : Orderly s := Orderly.empty.steps h

/-- Two errands ask for the same two paths in opposite orders. The first holds the lesser path, and the second
waits for it. -/
def opposite : Traffic where
  locks := ⟨[("/p/a", 0)], [(0, [0, 1])], 1, 2⟩
  line := [("/p/a", ⟨0, 0⟩), ("/p/a", ⟨0, 1⟩)]
  errands := [⟨[("/p/a", ⟨0, 0⟩)], .ready, ["/p/b"], []⟩, ⟨[], .queued "/p/a" ⟨0, 1⟩, ["/p/b"], []⟩]

theorem reached_opposite : Reached opposite := by
  let ahead : Errand := ⟨[("/p/a", ⟨0, 0⟩)], .ready, ["/p/b"], []⟩
  have first : Reached ⟨⟨[("/p/a", 0)], [(0, [0])], 1, 1⟩, [("/p/a", ⟨0, 0⟩)], [ahead]⟩ :=
    ((((Relation.ReflTransGen.single (Step.arrive (.both "/p/a" "/p/b"))).tail
      (.next [] [] ["/p/a", "/p/b"] [] (by decide))).tail
      (.find [] [] [] "/p/a" ["/p/b"] [] [] rfl)).tail
      (.queue [] [] [] "/p/a" 0 ["/p/b"] [] (by decide))).tail
      (.grant [] [] [] "/p/a" ⟨0, 0⟩ ["/p/b"] [] (by decide) (by decide))
  exact (((first.tail (.arrive (.both "/p/b" "/p/a"))).tail
    (.next [ahead] [] ["/p/a", "/p/b"] [] (by decide))).tail
    (.find [ahead] [] [] "/p/a" ["/p/b"] [] [] rfl)).tail
    (.queue [ahead] [] [] "/p/a" 0 ["/p/b"] [] (by decide))

end Traffic

end DraftKeeper
