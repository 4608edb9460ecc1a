import DraftKeeper.Proofs.LockTraffic
import Mathlib.Data.List.Flatten

namespace DraftKeeper

namespace LockTable

variable {l : LockTable} {live : List (String × Guard)} {path : String} {lock : Nat}
  {e : String × Guard}

theorem tryLock_eq (l : LockTable) (path : String) : l.tryLock path =
    if (l.request path).2.holds (l.request path).1 then
      (some (l.request path).1, (l.request path).2)
    else (none, (l.request path).2.release (l.request path).1) := rfl

theorem tryLockPair_self (l : LockTable) (a : String) :
    l.tryLockPair a a = ((l.tryLock a).1.map .single, (l.tryLock a).2) := by
  rw [tryLockPair, if_pos rfl]

theorem pair_of_inOrder {a b first second : String} (h : inOrder a b = [first, second]) :
    a ≠ b ∧ (if a < b then (a, b) else (b, a)) = (first, second) := by
  rw [inOrder] at h
  split at h
  · cases h
  · next hne =>
      refine ⟨hne, ?_⟩
      split at h
      · next hlt =>
          cases h
          exact if_pos hlt
      · next hlt =>
          cases h
          exact if_neg hlt

theorem tryLockPair_fst_busy {a b first second : String} {l₁ : LockTable}
    (h : inOrder a b = [first, second]) (hfirst : l.tryLock first = (none, l₁)) :
    l.tryLockPair a b = (none, l₁) := by
  obtain ⟨hne, hpair⟩ := pair_of_inOrder h
  simp only [tryLockPair, if_neg hne, hpair, hfirst]

theorem tryLockPair_snd_busy {a b first second : String} {l₁ l₂ : LockTable} {g : Guard}
    (h : inOrder a b = [first, second]) (hfirst : l.tryLock first = (some g, l₁))
    (hsecond : l₁.tryLock second = (none, l₂)) : l.tryLockPair a b = (none, l₂.release g) := by
  obtain ⟨hne, hpair⟩ := pair_of_inOrder h
  simp only [tryLockPair, if_neg hne, hpair, hfirst, hsecond]

theorem tryLockPair_both {a b first second : String} {l₁ l₂ : LockTable} {g g' : Guard}
    (h : inOrder a b = [first, second]) (hfirst : l.tryLock first = (some g, l₁))
    (hsecond : l₁.tryLock second = (some g', l₂)) : l.tryLockPair a b = (some (.both g g'), l₂) := by
  obtain ⟨hne, hpair⟩ := pair_of_inOrder h
  simp only [tryLockPair, if_neg hne, hpair, hfirst, hsecond]

theorem Faithful.filter_last (h : Faithful l (live ++ [e])) : (live ++ [e]).filter (· ≠ e) = live := by
  have hnotMem : e ∉ live := fun he =>
    (List.nodup_append.1 h.distinct.of_map).2.2 e he e (List.mem_singleton_self e) rfl
  rw [List.filter_append, List.filter_eq_self.2 fun x hx => ?_]
  · simp
  · rw [decide_eq_true_iff]
    rintro rfl
    exact hnotMem hx

theorem Faithful.holds_iff (h : Faithful l live) (he : e ∈ live) :
    l.holds e.2 = true ↔ live.find? (fun x => x.1 = e.1) = some e := by
  rw [holds, decide_eq_true_eq, h.queue_eq (p := e.1) he, List.head?_map, List.head?_map, List.head?_filter,
    Option.map_map, Option.map_eq_some_iff]
  constructor
  · rintro ⟨x, hx, hticket⟩
    rw [hx, h.eq_of_ticket (List.mem_of_find?_eq_some hx) he hticket]
  · exact fun hfind => ⟨e, hfind, rfl⟩

theorem Faithful.holds_enqueue_iff (h : Faithful l live) (hlock : Assoc.get? path l.table = some lock) :
    (l.enqueue lock).2.holds (l.enqueue lock).1 = true ↔ ∀ e ∈ live, e.1 ≠ path := by
  rw [(h.enqueue hlock).holds_iff (e := (path, (l.enqueue lock).1)) (by simp), List.find?_append]
  constructor
  · intro hfind e he hpath
    cases hx : live.find? fun x => x.1 = path with
    | none => simpa [hpath] using List.find?_eq_none.1 hx e he
    | some x =>
        rw [hx, Option.some_or] at hfind
        have hticket := h.ticketed x (List.mem_of_find?_eq_some hx)
        rw [Option.some.inj hfind] at hticket
        exact absurd hticket (Nat.lt_irrefl _)
  · intro hfree
    rw [List.find?_eq_none.2 fun x hx => by simpa using hfree x hx, Option.none_or]
    simp

end LockTable

namespace Traffic

variable {s s' : Traffic} {before : List Errand} {held : List (String × Guard)} {path : String}
  {wanted : List String} {later : List (List String)}

def Free (s : Traffic) (path : String) : Prop := ∀ e ∈ s.out, e.1 ≠ path

def Settled (s : Traffic) : Prop := ∀ t ∈ s.errands, ∀ path lock, t.stage ≠ .found path lock

/-- An attempt at the guards of two paths that does not wait is a run of an errand. It gets them if both paths
are free; else it ends without a guard, and the guards that were out are those that are out. -/
def Attempts (s : Traffic) (a b : String) : Prop :=
  ∃ s', Steps s s' ∧ s'.locks = (s.locks.tryLockPair a b).2 ∧
    match (s.locks.tryLockPair a b).1 with
    | some acquired => (s.Free a ∧ s.Free b) ∧ s'.errands = s.errands ++
        [⟨(LockTable.inOrder a b).zip (LockTable.guards acquired), .ready, [], []⟩]
    | none => ¬ (s.Free a ∧ s.Free b) ∧ s'.errands = s.errands ++ [.finished] ∧ s'.line = s.line

/-- The table answers as one would that keeps every lock forever: no two errands hold the guard of one path at a
time, a path of which a guard is out or that has been looked up has its lock in the table, the first request for a
path has its guard and the others wait, a request is granted at once exactly if the path is free, and an attempt
that may not wait comes to the same. -/
structure AsUnpruned (s : Traffic) : Prop where
  exclusive : ((s.errands.flatMap Errand.held).map Prod.fst).Nodup
  mapped : ∀ e ∈ s.out, Assoc.get? e.1 s.locks.table = some e.2.lock
  found : ∀ t ∈ s.errands, ∀ path lock, t.stage = .found path lock →
    Assoc.get? path s.locks.table = some lock
  queued : s.out.Perm s.line
  served : ∀ e ∈ s.out, (s.locks.holds e.2 = true ↔ s.line.find? (fun x => x.1 = e.1) = some e)
  granted : ∀ t ∈ s.errands, ∀ path lock, t.stage = .found path lock →
    ((s.locks.enqueue lock).2.holds (s.locks.enqueue lock).1 = true ↔ s.Free path)
  attempts : s.Settled → ∀ a b, s.Attempts a b

namespace Orderly

theorem free_iff (h : Orderly s) : s.Free path ↔ ∀ e ∈ s.line, e.1 ≠ path := by
  rw [Free]
  exact forall_congr' fun e => imp_congr_left h.out.mem_iff

theorem nodup_held (h : Orderly s) : ((s.errands.flatMap Errand.held).map Prod.fst).Nodup := by
  have hless : (s.errands.flatMap Errand.held).Sublist s.out :=
    List.Sublist.flatMap_right _ fun t _ => List.sublist_append_left _ _
  have hline {e : String × Guard} (he : e ∈ s.errands.flatMap Errand.held) :
      e ∈ s.line ∧ s.locks.holds e.2 = true := by
    obtain ⟨t, ht, he'⟩ := List.mem_flatMap.1 he
    exact ⟨h.out.mem_iff.1 (hless.mem he), h.holder t ht e he'⟩
  refine List.Nodup.map_on (fun e he e' he' hpath => ?_) ((h.out.nodup_iff.2 h.nodup).sublist hless)
  obtain ⟨p, g⟩ := e
  obtain ⟨p', g'⟩ := e'
  obtain rfl : p = p' := hpath
  rw [h.faithful.eq_of_holds (hline he).1 (hline he').1 (hline he).2 (hline he').2]

theorem mem_uses_iff (h : Orderly s) (hs : s.Settled) (lock : Nat) :
    lock ∈ s.uses ↔ ∃ e ∈ s.line, e.2.lock = lock := by
  constructor
  · intro hlock
    obtain ⟨t, ht, hlock⟩ := List.mem_flatMap.1 hlock
    rcases List.mem_append.1 hlock with hlock | hlock
    · obtain ⟨e, he, rfl⟩ := List.mem_map.1 hlock
      exact ⟨e, h.mem_line_iff.2 ⟨t, ht, List.mem_append_left _ he⟩, rfl⟩
    · cases hstage : t.stage with
      | ready =>
          rw [hstage] at hlock
          cases hlock
      | found p other => exact absurd hstage (hs t ht p other)
      | queued p g =>
          rw [hstage] at hlock
          refine ⟨(p, g), h.mem_line_iff.2 ⟨t, ht, List.mem_append_right _ ?_⟩,
            (List.mem_singleton.1 hlock).symm⟩
          simp [hstage, Stage.out]
  · rintro ⟨e, he, rfl⟩
    exact h.mem_uses he

theorem steps_tryLock (h : Orderly s) (hs : s.Settled)
    (ht : s.errands = before ++ [⟨held, .ready, path :: wanted, later⟩]) :
    ∃ s', Steps s s' ∧ s'.locks = (s.locks.tryLock path).2 ∧
      match (s.locks.tryLock path).1 with
      | some g => s.Free path ∧ s'.errands = before ++ [⟨held ++ [(path, g)], .ready, wanted, later⟩] ∧
          s'.line = s.line ++ [(path, g)]
      | none => ¬ s.Free path ∧ s'.errands = before ++ [⟨held, .ready, [], []⟩] ∧ s'.line = s.line := by
  have hentry : s.locks.fetch (s.uses ++ []) path = s.locks.entry path :=
    h.faithful.fetch_eq_entry (by simpa using h.mem_uses_iff hs) path
  obtain ⟨hfaithful, hlock⟩ := h.faithful.entry path
  have hqueued : Steps s ⟨(s.locks.request path).2, s.line ++ [(path, (s.locks.request path).1)],
      before ++ [⟨held, .queued path (s.locks.request path).1, wanted, later⟩]⟩ := by
    have hfind := Relation.ReflTransGen.single (Step.find before [] held path wanted later [] ht)
    rw [hentry] at hfind
    exact hfind.tail (.queue before [] held path _ wanted later rfl)
  have hholds : (s.locks.request path).2.holds (s.locks.request path).1 = true ↔ s.Free path := by
    rw [h.free_iff, LockTable.request_eq]
    exact hfaithful.holds_enqueue_iff hlock
  cases hgrant : (s.locks.request path).2.holds (s.locks.request path).1 with
  | true =>
      rw [LockTable.tryLock_eq, if_pos hgrant]
      exact ⟨_, hqueued.tail (.grant before [] held path _ wanted later rfl hgrant), rfl, hholds.1 hgrant,
        rfl, rfl⟩
  | false =>
      rw [LockTable.tryLock_eq, if_neg (by rw [hgrant]; exact Bool.false_ne_true)]
      refine ⟨_, hqueued.tail (.leave before [] held path _ wanted later rfl), rfl, ?_, rfl, ?_⟩
      · rw [← hholds, hgrant]
        exact Bool.false_ne_true
      · exact (hfaithful.enqueue hlock).filter_last

theorem free_of_concat (h : Orderly s) (h' : Orderly s') {e : String × Guard}
    (hline : s'.line = s.line ++ [e]) (hne : e.1 ≠ path) : s'.Free path ↔ s.Free path := by
  rw [h.free_iff, h'.free_iff, hline]
  constructor
  · exact fun hfree x hx => hfree x (List.mem_append_left _ hx)
  · intro hfree x hx
    rcases List.mem_append.1 hx with hx | hx
    · exact hfree x hx
    · rwa [List.mem_singleton.1 hx]

theorem settled_concat {t : Errand} (hs : ∀ x ∈ before, ∀ path lock, x.stage ≠ .found path lock)
    (ht : t.stage = .ready) (hs' : s'.errands = before ++ [t]) : s'.Settled := by
  intro x hx path lock
  rw [hs'] at hx
  rcases List.mem_append.1 hx with hx | hx
  · exact hs x hx path lock
  · rw [List.mem_singleton.1 hx, ht]
    exact nofun

theorem inOrder_of_ne {a b : String} (hne : a ≠ b) : ∃ first second,
    LockTable.inOrder a b = [first, second] ∧ first ≠ second ∧
      ∀ s : Traffic, s.Free a ∧ s.Free b ↔ s.Free first ∧ s.Free second := by
  rw [LockTable.inOrder, if_neg hne]
  split
  · exact ⟨a, b, rfl, hne, fun s => Iff.rfl⟩
  · exact ⟨b, a, rfl, hne.symm, fun s => and_comm⟩

theorem attempts (h : Orderly s) (hs : s.Settled) (a b : String) : s.Attempts a b := by
  obtain ⟨s₁, harrived, hlocks₁, hline₁, herrands₁⟩ : ∃ s₁, Steps s s₁ ∧ s₁.locks = s.locks ∧
      s₁.line = s.line ∧ s₁.errands = s.errands ++ [⟨[], .ready, LockTable.inOrder a b, []⟩] :=
    ⟨_, (Relation.ReflTransGen.single (Step.arrive (.both a b))).tail (.next s.errands [] _ [] rfl), rfl, rfl,
      rfl⟩
  have h₁ : Orderly s₁ := h.steps harrived
  have hs₁ : s₁.Settled := settled_concat hs rfl herrands₁
  have hfree {path : String} : s₁.Free path ↔ s.Free path := by rw [h.free_iff, h₁.free_iff, hline₁]
  rw [Attempts]
  by_cases hab : a = b
  · -- equal paths take one guard
    subst hab
    have hone : LockTable.inOrder a a = [a] := if_pos rfl
    rw [hone] at herrands₁ ⊢
    obtain ⟨s₂, hsteps, hlocks, hend⟩ := h₁.steps_tryLock hs₁ herrands₁
    rw [hlocks₁] at hlocks hend
    rw [LockTable.tryLockPair_self]
    refine ⟨s₂, harrived.trans hsteps, hlocks, ?_⟩
    cases htry : (s.locks.tryLock a).1 with
    | some g =>
        rw [htry] at hend
        obtain ⟨ha, herrands, -⟩ := hend
        exact ⟨⟨hfree.1 ha, hfree.1 ha⟩, herrands⟩
    | none =>
        rw [htry] at hend
        obtain ⟨ha, herrands, hline⟩ := hend
        exact ⟨fun hboth => ha (hfree.2 hboth.1), herrands, hline.trans hline₁⟩
  · obtain ⟨first, second, hin, hne, hboth⟩ := inOrder_of_ne hab
    rw [hin] at herrands₁
    obtain ⟨s₂, hfirst, hlocks₂, hend⟩ := h₁.steps_tryLock hs₁ herrands₁
    rw [hlocks₁] at hlocks₂ hend
    rw [hboth, hin]
    cases htry : s.locks.tryLock first with
    | mk got l =>
        rw [htry] at hlocks₂ hend
        cases got with
        | none =>
            -- the first path is busy
            obtain ⟨hbusy, herrands, hline⟩ := hend
            rw [LockTable.tryLockPair_fst_busy hin htry]
            exact ⟨s₂, harrived.trans hfirst, hlocks₂, fun hf => hbusy (hfree.2 hf.1), herrands,
              hline.trans hline₁⟩
        | some g =>
            obtain ⟨hfreeFirst, herrands₂, hline₂⟩ := hend
            have h₂ : Orderly s₂ := h₁.steps hfirst
            have hs₂ : s₂.Settled := settled_concat hs rfl herrands₂
            have hfreeSecond : s₂.Free second ↔ s.Free second :=
              (free_of_concat h₁ h₂ hline₂ hne).trans hfree
            obtain ⟨s₃, hsecond, hlocks₃, hend⟩ := h₂.steps_tryLock hs₂ herrands₂
            rw [hlocks₂] at hlocks₃ hend
            have hsteps : Steps s s₃ := (harrived.trans hfirst).trans hsecond
            cases htry₂ : l.tryLock second with
            | mk got l' =>
                rw [htry₂] at hlocks₃ hend
                cases got with
                | some g' =>
                    obtain ⟨hf, herrands, -⟩ := hend
                    rw [LockTable.tryLockPair_both hin htry htry₂]
                    exact ⟨s₃, hsteps, hlocks₃, ⟨hfree.1 hfreeFirst, hfreeSecond.1 hf⟩, herrands⟩
                | none =>
                    -- the second path is busy, and the first guard is given back
                    obtain ⟨hbusy, herrands, hline⟩ := hend
                    rw [LockTable.tryLockPair_snd_busy hin htry htry₂]
                    refine ⟨_, hsteps.tail (.giveBack s.errands [] [] [] (first, g) [] herrands),
                      congrArg (·.release g) hlocks₃, fun hf => hbusy (hfreeSecond.2 hf.2), rfl, ?_⟩
                    have hfaithful := h₂.faithful
                    rw [hline₂] at hfaithful
                    rw [hline, hline₂]
                    exact hfaithful.filter_last.trans hline₁

end Orderly

/-- However often the table is pruned, it answers as one that never is. -/
theorem Reached.pruning_keeps_locks (h : Reached s) : s.AsUnpruned where
  exclusive := h.orderly.nodup_held
  mapped e he := h.orderly.faithful.mapped e (h.orderly.out.mem_iff.1 he)
  found := h.orderly.found
  queued := h.orderly.out
  served e he := h.orderly.faithful.holds_iff (h.orderly.out.mem_iff.1 he)
  granted t ht path lock hstage := by
    rw [h.orderly.free_iff]
    exact h.orderly.faithful.holds_enqueue_iff (h.orderly.found t ht path lock hstage)
  attempts := h.orderly.attempts

end Traffic

namespace LockTable

variable {l : LockTable} {path : String}

theorem find_of_fresh (h : ∀ e ∈ l.table, e.1 ≠ path) : l.find path = (l.nextLock,
    { l with table := l.table ++ [(path, l.nextLock)], nextLock := l.nextLock + 1 }) := by
  rw [find, Assoc.get?_of_fresh h, Assoc.put_of_fresh _ h]

def pathOf (n : Nat) : String := String.ofList ('/' :: 'p' :: '/' :: List.replicate (n + 1) 'x')

theorem pathOf_ne {m n : Nat} (h : m ≠ n) : pathOf m ≠ pathOf n := by
  intro heq
  have hlength := congrArg String.length heq
  simp [pathOf] at hlength
  omega

def crowded (n : Nat) : LockTable := ⟨(List.range (n + 1)).map fun i => (pathOf i, i), [(0, [0])], n + 1, n + 1⟩

theorem fresh_crowded (n : Nat) : ∀ e ∈ (crowded n).table, e.1 ≠ pathOf (n + 1) := by
  intro e he
  obtain ⟨i, hi, rfl⟩ := List.mem_map.1 he
  exact pathOf_ne (Nat.ne_of_lt (List.mem_range.1 hi))

theorem fetch_crowded {n : Nat} (h : n + 1 < tableLimit) (used : List Nat) :
    (crowded n).fetch used (pathOf (n + 1)) = (n + 1, { crowded (n + 1) with nextTicket := n + 1 }) := by
  have hkeep : (crowded n).keepUsed used = crowded n := by
    rw [keepUsed, if_neg]
    simpa [crowded] using h
  rw [fetch, hkeep, find_of_fresh (fresh_crowded n)]
  simp [crowded, List.range_succ]

def crowdedBusy (n : Nat) : LockTable := { crowded n with queues := [(0, [0]), (n, [n])] }

theorem enqueue_crowded (n : Nat) : { crowded (n + 1) with nextTicket := n + 1 }.enqueue (n + 1) =
    (⟨n + 1, n + 1⟩, crowdedBusy (n + 1)) := by
  simp [enqueue, withQueue, queue, crowded, crowdedBusy, Assoc.get?, Assoc.put]

theorem holds_crowdedBusy (n : Nat) : (crowdedBusy (n + 1)).holds ⟨n + 1, n + 1⟩ = true := by
  simp [holds, queue, crowdedBusy, Assoc.get?]

theorem release_crowdedBusy (n : Nat) : (crowdedBusy (n + 1)).release ⟨n + 1, n + 1⟩ = crowded (n + 1) := by
  simp [release, withQueue, queue, crowded, crowdedBusy, Assoc.get?, Assoc.erase]

theorem fetch_crowded_full {n : Nat} (h : tableLimit ≤ n + 1) :
    (crowded n).fetch [0] (pathOf (n + 1)) =
      (n + 1, ⟨[(pathOf 0, 0), (pathOf (n + 1), n + 1)], [(0, [0])], n + 2, n + 1⟩) := by
  have hkeep : (crowded n).keepUsed [0] = { crowded n with table := [(pathOf 0, 0)] } := by
    have hfirst : (crowded n).table.filter (fun e => [0].contains e.2) = [(pathOf 0, 0)] := by
      rw [crowded, List.range_succ_eq_map, List.map_cons, List.filter_cons_of_pos rfl, List.map_map,
        List.filter_eq_nil_iff.2]
      simp
    rw [keepUsed, if_pos, hfirst]
    simpa [crowded] using h
  rw [fetch, hkeep, find_of_fresh]
  · rfl
  · simpa using pathOf_ne (Nat.succ_ne_zero n).symm

end LockTable

namespace Traffic

open LockTable (pathOf crowded)

def first : String × Guard := (pathOf 0, ⟨0, 0⟩)

/-- One errand holds the first guard, and another one looks up paths. -/
def crowd (locks : LockTable) (line : List (String × Guard)) (t : Errand) : Traffic :=
  ⟨locks, line, [⟨[first], .ready, [], []⟩, t]⟩

def lookingUp (n left : Nat) : Errand := .new (.each ((List.range' n left).map pathOf))

theorem reached_crowd (left : Nat) : Reached (crowd (crowded 0) [first] (lookingUp 1 left)) := by
  have hheld : Reached ⟨crowded 0, [first], [⟨[first], .ready, [], []⟩]⟩ :=
    ((((Relation.ReflTransGen.single (Step.arrive (.one (pathOf 0)))).tail
      (.next [] [] [pathOf 0] [] rfl)).tail
      (.find [] [] [] (pathOf 0) [] [] [] rfl)).tail
      (.queue [] [] [] (pathOf 0) 0 [] [] rfl)).tail
      (.grant [] [] [] (pathOf 0) ⟨0, 0⟩ [] [] rfl rfl)
  exact hheld.tail (.arrive (.each ((List.range' 1 left).map pathOf)))

theorem steps_crowd {n left : Nat} (h : n + 1 < LockTable.tableLimit) :
    Steps (crowd (crowded n) [first] (lookingUp (n + 1) (left + 1)))
      (crowd (crowded (n + 1)) [first] (lookingUp (n + 2) left)) := by
  let holder : Errand := ⟨[first], .ready, [], []⟩
  let path := pathOf (n + 1)
  let g : Guard := ⟨n + 1, n + 1⟩
  let later := (lookingUp (n + 2) left).later
  have hnext : Step _ (crowd (crowded n) [first] ⟨[], .ready, [path], later⟩) :=
    .next (s := crowd (crowded n) [first] (lookingUp (n + 1) (left + 1))) [holder] [] [path] later rfl
  have hfind := Step.find (s := crowd (crowded n) [first] ⟨[], .ready, [path], later⟩) [holder] [] [] path []
    later [] rfl
  rw [crowd, LockTable.fetch_crowded h] at hfind
  have hqueue := Step.queue (s := crowd { crowded (n + 1) with nextTicket := n + 1 } [first]
    ⟨[], .found path (n + 1), [], later⟩) [holder] [] [] path (n + 1) [] later rfl
  rw [crowd, LockTable.enqueue_crowded] at hqueue
  have hgrant : Step _ (crowd (LockTable.crowdedBusy (n + 1)) [first, (path, g)] ⟨[(path, g)], .ready, [], later⟩) :=
    .grant (s := crowd (LockTable.crowdedBusy (n + 1)) [first, (path, g)] ⟨[], .queued path g, [], later⟩)
      [holder] [] [] path g [] later rfl (LockTable.holds_crowdedBusy n)
  have hback := Step.giveBack (s := crowd (LockTable.crowdedBusy (n + 1)) [first, (path, g)]
    ⟨[(path, g)], .ready, [], later⟩) [holder] [] [] [] (path, g) later rfl
  have hline : [first, (path, g)].filter (· ≠ (path, g)) = [first] := by simp [first, g]
  rw [crowd, LockTable.release_crowdedBusy, hline] at hback
  exact ((((Relation.ReflTransGen.single hnext).tail hfind).tail hqueue).tail hgrant).tail hback

theorem reached_crowd_of_lt (n left : Nat) (h : n < LockTable.tableLimit) :
    Reached (crowd (crowded n) [first] (lookingUp (n + 1) left)) := by
  induction n generalizing left with
  | zero => exact reached_crowd left
  | succ n ih => exact (ih (left + 1) (Nat.lt_of_succ_lt h)).trans (steps_crowd h)

/-- The last path is looked up when the table has grown to its limit. -/
def pruned : Traffic :=
  crowd ⟨[(pathOf 0, 0), (pathOf 256, 256)], [(0, [0])], 257, 256⟩ [first] ⟨[], .found (pathOf 256) 256, [], []⟩

theorem steps_pruned : Steps (crowd (crowded 255) [first] (lookingUp 256 1)) pruned := by
  have hnext : Step _ (crowd (crowded 255) [first] ⟨[], .ready, [pathOf 256], []⟩) :=
    .next (s := crowd (crowded 255) [first] (lookingUp 256 1)) [⟨[first], .ready, [], []⟩] [] [pathOf 256] [] rfl
  have hfind := Step.find (s := crowd (crowded 255) [first] ⟨[], .ready, [pathOf 256], []⟩)
    [⟨[first], .ready, [], []⟩] [] [] (pathOf 256) [] [] [] rfl
  rw [show uses (crowd (crowded 255) [first] ⟨[], .ready, [pathOf 256], []⟩) ++ [] = [0] from rfl, crowd,
    LockTable.fetch_crowded_full (by decide)] at hfind
  exact (Relation.ReflTransGen.single hnext).tail hfind

theorem free_pruned : pruned.Free (pathOf 256) := by
  intro e he
  obtain rfl : e = first := by simpa [out, pruned, crowd, Errand.out, Stage.out] using he
  exact LockTable.pathOf_ne (by decide)

theorem settled_opposite : opposite.Settled := by
  intro t ht path lock
  simp only [opposite, List.mem_cons, List.not_mem_nil, or_false] at ht
  rcases ht with rfl | rfl <;> exact nofun

/-- An errand that may not wait gives up where another one holds a guard, and when many paths have been looked up
the table has lost an idle lock, but not the one that is held. -/
theorem pruning_keeps_locks_crowded : Reached (crowd (crowded 255) [first] (lookingUp 256 1)) ∧
    Steps (crowd (crowded 255) [first] (lookingUp 256 1)) pruned ∧
    Assoc.get? (pathOf 1) (crowded 255).table = some 1 ∧ Assoc.get? (pathOf 1) pruned.locks.table = none ∧
    Assoc.get? (pathOf 0) pruned.locks.table = some 0 ∧
    (pruned.locks.enqueue 256).2.holds (pruned.locks.enqueue 256).1 = true ∧ Reached opposite ∧
    ∃ s', Steps opposite s' ∧ s'.errands = opposite.errands ++ [.finished] ∧ s'.line = opposite.line := by
  have hcrowd : Reached (crowd (crowded 255) [first] (lookingUp 256 1)) := reached_crowd_of_lt 255 1 (by decide)
  have hreached : Reached pruned := hcrowd.trans steps_pruned
  have hgranted := (hreached.pruning_keeps_locks.granted ⟨[], .found (pathOf 256) 256, [], []⟩
    (by simp [pruned, crowd]) _ _ rfl).2 free_pruned
  obtain ⟨s', hsteps, -, -, herrands, hline⟩ :=
    reached_opposite.pruning_keeps_locks.attempts settled_opposite "/p/b" "/p/a"
  exact ⟨hcrowd, steps_pruned, by decide +kernel, by decide +kernel,
    hreached.pruning_keeps_locks.mapped first List.mem_cons_self, hgranted, reached_opposite, s', hsteps, herrands,
    hline⟩

end Traffic

end DraftKeeper
