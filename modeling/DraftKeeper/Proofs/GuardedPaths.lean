import DraftKeeper.Proofs.EventKeys
import DraftKeeper.Proofs.LockTraffic

namespace DraftKeeper

variable {k : Keeper} {p : String}

def Demand.paths (d : Demand) : List String := d.rounds.flatten

/-- What an operation asks guards for. A question for the text of a path needs no guard, and neither does a
file that is moved onto itself. -/
def Operation.demand? (k : Keeper) : Operation → Option Demand
  | .track _ (.start path) | .track _ (.stop path) | .persistentLocation path | .recoverable path =>
    (Path.normalize path).toOption.map .one
  | .edit _ e => (Path.normalize e.location).toOption.map .one
  | .track _ (.move old new) =>
    match Path.normalize old, Path.normalize new with
    | .ok p, .ok q => if p = q then none else some (.both p q)
    | _, _ => none
  | .sweep => some (.each k.tracked)
  | .content _ | .track _ (.suspend _) | .track _ (.resume _) => none

theorem Demand.mem_paths_one {path : String} : p ∈ (Demand.one path).paths ↔ p = path := by
  simp [paths, rounds]

theorem Demand.mem_paths_both {a b : String} : p ∈ (Demand.both a b).paths ↔ p = a ∨ p = b := by
  rw [paths, rounds, List.flatten_singleton, LockTable.inOrder]
  split
  · next hab => simp [hab]
  · split
    · simp
    · rw [List.mem_pair, or_comm]

theorem Demand.mem_paths_each {paths : List String} : p ∈ (Demand.each paths).paths ↔ p ∈ paths := by
  simp [Demand.paths, rounds]

def Operation.guarded (o : Operation) (k : Keeper) : List String := (o.demand? k).elim [] Demand.paths

theorem Operation.guarded_one {path : String} :
    p ∈ ((Path.normalize path).toOption.map Demand.one).elim [] Demand.paths ↔ Path.normalize path = .ok p := by
  cases Path.normalize path with
  | error cause => simp [Except.toOption]
  | ok q => exact Demand.mem_paths_one.trans ⟨fun h => by rw [h], fun h => (Except.ok.inj h).symm⟩

theorem Keeper.get?_save {path : String} {draft : Draft} (h : p ≠ path) :
    (after (save path draft) k).drafts.get? p = k.drafts.get? p := by
  cases hs : save path draft k with
  | ok location k' =>
      obtain ⟨k₁, hw, rfl⟩ := save_eq_ok hs
      obtain ⟨w, l, -, rfl, -⟩ := write_eq_ok hw
      rw [after_of_ok hs]
      exact Drafts.get?_put_of_ne h
  | error f k' =>
      obtain ⟨w, cause, rfl, -⟩ := write_eq_error (save_eq_error hs)
      rw [after_of_error hs]
      rfl

theorem Keeper.get?_sweep (h : p ∉ k.tracked) : k.sweep.2.drafts.get? p = k.drafts.get? p := by
  refine sweep_keeps (P := fun k' => k'.drafts.get? p = k.drafts.get? p) rfl fun s path hpath hs => ?_
  have hne : p ≠ path := fun heq => h (heq ▸ hpath)
  rcases after_sweepOne s path with hsame | ⟨draft, -, hsaved⟩
  · rw [hsame, hs]
  · rw [hsaved, get?_save hne, hs]

theorem Operation.get?_perform {o : Operation} (h : p ∉ o.guarded k) :
    (o.perform k).drafts.get? p = k.drafts.get? p := by
  cases o with
  | track endpoint signal =>
      refine Event.get?_handle (e := .tracking endpoint signal) (fun hp => h ?_) k
      cases signal with
      | start path | stop path => exact guarded_one.2 (Event.mem_normalized.1 hp)
      | suspend path | resume path => cases hp
      | move old new =>
          cases hs : Path.normalize old with
          | error cause => simp [Event.locks, hs] at hp
          | ok source =>
              cases ht : Path.normalize new with
              | error cause => simp [Event.locks, hs, ht] at hp
              | ok target =>
                  by_cases hne : source = target
                  · simp [Event.locks, hs, ht, hne] at hp
                  · have hdemand : (Operation.track endpoint (.move old new)).guarded k =
                        (Demand.both source target).paths := by
                      simp only [guarded, demand?, hs, ht, if_neg hne, Option.elim_some]
                    rw [hdemand, Demand.mem_paths_both]
                    simpa [Event.locks, hs, ht, hne] using hp
  | edit endpoint e =>
      exact Keeper.get?_after_edit fun hp => h (guarded_one.2 hp)
  | persistentLocation path =>
      rw [perform]
      rcases Keeper.after_persistentLocation path k with hsame | ⟨q, draft, hq, -, hsaved⟩
      · rw [hsame]
      · have hne : p ≠ q := by
          rintro rfl
          exact h (guarded_one.2 hq)
        rw [hsaved, Keeper.get?_save hne]
  | sweep => exact Keeper.get?_sweep fun hp => h (Demand.mem_paths_each.2 hp)
  | content path => rw [perform, (Keeper.ReadOnly.content path).after]
  | recoverable path => rw [perform, (Keeper.ReadOnly.recoverable? path).after]

end DraftKeeper
