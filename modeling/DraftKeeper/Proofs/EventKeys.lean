import DraftKeeper.Proofs.DraftPlaces
import DraftKeeper.Proofs.Sessions
import DraftKeeper.Schedule

namespace DraftKeeper

namespace Event

variable {e : Event} {k p : String}

theorem mem_insertKey {j : String} {l : List String} : j ∈ insertKey k l ↔ j = k ∨ j ∈ l := by
  induction l with
  | nil => exact List.mem_singleton.trans (by simp)
  | cons a r ih =>
      rw [insertKey]
      split
      · exact List.mem_cons
      split
      · next heq => subst heq; simp
      · rw [List.mem_cons, ih, List.mem_cons, or_left_comm]

theorem mem_keys : k ∈ e.keys ↔ ∃ path ∈ e.paths, key path = k := by
  suffices h : ∀ ks : List String, k ∈ ks.foldr insertKey [] ↔ k ∈ ks from
    (h _).trans List.mem_map
  intro ks
  induction ks with
  | nil => rfl
  | cons j ks ih => rw [List.foldr_cons, mem_insertKey, ih, List.mem_cons]

/-- The paths, in their normal form, that the keeper locks while it handles an event. -/
def locks : Event → List String
  | .tracking _ (.start path) | .tracking _ (.stop path) => (Path.normalize path).toOption.toList
  | .tracking _ (.move old new) =>
    match Path.normalize old, Path.normalize new with
    | .ok p, .ok q => if p = q then [] else [p, q]
    | _, _ => []
  | .tracking _ (.suspend _) | .tracking _ (.resume _) => []
  | .edited _ e => (Path.normalize e.location).toOption.toList

theorem mem_normalized {path : String} :
    p ∈ (Path.normalize path).toOption.toList ↔ Path.normalize path = .ok p := by
  cases Path.normalize path <;> simp [Except.toOption, eq_comm]

theorem key_eq_of_normalize {path : String} (h : Path.normalize path = .ok p) : key path = p := by
  rw [key, h]

theorem named_of_mem_locks (h : p ∈ e.locks) : Path.Named e.paths p := by
  have hone {path : String} (hp : p ∈ (Path.normalize path).toOption.toList)
      (hpath : path ∈ e.paths) : Path.Named e.paths p := ⟨path, hpath, mem_normalized.1 hp⟩
  cases e with
  | edited endpoint e => exact hone h (List.mem_singleton_self _)
  | tracking endpoint signal =>
      cases signal with
      | start path | stop path => exact hone h (List.mem_singleton_self _)
      | suspend path | resume path => cases h
      | move old new =>
          rw [locks] at h
          split at h
          · next source target hs ht =>
              split at h
              · cases h
              · rcases List.mem_cons.1 h with rfl | h
                · exact ⟨old, List.mem_cons_self, hs⟩
                · obtain rfl := List.mem_singleton.1 h
                  exact ⟨new, by simp [paths, Tracking.paths], ht⟩
          · cases h

/-- An event is ordered by every path that is locked for it. -/
theorem mem_keys_of_mem_locks (h : p ∈ e.locks) : p ∈ e.keys := by
  obtain ⟨path, hpath, hp⟩ := named_of_mem_locks h
  exact mem_keys.2 ⟨path, hpath, key_eq_of_normalize hp⟩

end Event

namespace Keeper

variable {k k' : Keeper} {p q path endpoint : String} {draft : Draft} {f : Failure}

theorem get?_of_opened (hp : Path.normalize path = .ok p) (hq : Path.normalize path ≠ .ok q)
    (h : opened p k = .ok draft k') : k'.drafts.get? q = k.drafts.get? q := by
  rcases opened_eq_ok.1 h with ⟨-, rfl⟩ | ⟨-, hc⟩
  · rfl
  · obtain ⟨w, l, content, -, -, rfl, -⟩ := create_eq_ok (Path.normalize_of_normalize hp) hc
    refine Drafts.get?_put_of_ne ?_
    rintro rfl
    exact hq hp

theorem get?_of_opened_error (h : opened p k = .error f k') :
    k'.drafts.get? q = k.drafts.get? q := by
  obtain ⟨w, rfl, -⟩ := create_eq_error (opened_eq_error.1 h).2
  rfl

theorem get?_after_start (hq : Path.normalize path ≠ .ok q) :
    (after (start path) k).drafts.get? q = k.drafts.get? q := by
  cases h : start path k with
  | ok u k' =>
      obtain ⟨p, draft, hp, ho⟩ := start_eq_ok h
      rw [after_of_ok h, get?_of_opened hp hq ho]
  | error f k' =>
      rw [after_of_error h]
      rcases start_eq_error h with rfl | ⟨p, -, ho⟩
      · rfl
      · exact get?_of_opened_error ho

theorem get?_after_stop (hq : Path.normalize path ≠ .ok q) :
    (after (stop path) k).drafts.get? q = k.drafts.get? q := by
  cases h : stop path k with
  | ok u k' =>
      rw [after_of_ok h]
      obtain ⟨p, hp, ⟨-, rfl⟩ | ⟨draft, k₁, -, hs, rfl⟩⟩ := stop_eq_ok h
      · rfl
      · obtain ⟨w, rfl, -⟩ := settled_changes hs
        refine Drafts.get?_erase_of_ne ?_
        rintro rfl
        exact hq hp
  | error f k' =>
      rw [after_of_error h]
      rcases stop_eq_error h with rfl | ⟨p, draft, -, -, hs⟩
      · rfl
      · obtain ⟨w, cause, rfl, -⟩ := settled_eq_error hs
        rfl

theorem get?_after_edit {e : Edit} (hq : Path.normalize e.location ≠ .ok q) :
    (after (edit endpoint e) k).drafts.get? q = k.drafts.get? q := by
  cases h : edit endpoint e k with
  | ok changed k' =>
      obtain ⟨p, draft, k₁, hp, ho, ha⟩ := edit_eq_ok h
      rw [after_of_ok h, ← get?_of_opened hp hq ho]
      rcases applied_eq_ok ha with ⟨-, -, rfl⟩ | ⟨draft', -, -, rfl⟩
      · rfl
      · refine Drafts.get?_put_of_ne ?_
        rintro rfl
        exact hq hp
  | error f k' =>
      rw [after_of_error h]
      rcases edit_eq_error h with rfl | ⟨p, hp, ho | ⟨draft, ho⟩⟩
      · rfl
      · exact get?_of_opened_error ho
      · exact get?_of_opened hp hq ho

theorem get?_of_relocated {target : String} (hq : q ≠ target) :
    (after (relocated target draft) k).drafts.get? q = k.drafts.get? q := by
  cases h : relocated target draft k with
  | ok u k' =>
      rw [after_of_ok h]
      obtain ⟨k₁, location, hd, hs⟩ := relocated_eq_ok h
      obtain ⟨w, rfl, -⟩ := discard_changes hd
      obtain ⟨k₂, hw, rfl⟩ := save_eq_ok hs
      obtain ⟨w', l, -, rfl, -⟩ := write_eq_ok hw
      exact Drafts.get?_put_of_ne hq
  | error f k' =>
      rw [after_of_error h]
      obtain ⟨w, cause, rfl, -⟩ := relocated_error_changes h
      rfl

theorem get?_after_move {old new : String}
    (hq : q ∉ (Event.tracking endpoint (.move old new)).locks) :
    (after (move old new) k).drafts.get? q = k.drafts.get? q := by
  rcases move_cases old new k with ⟨f, h, -⟩ | ⟨_, _, -, -, -, h⟩ |
    ⟨source, target, draft, hs, ht, hne, -, -, h⟩
  · rw [after_of_error h]
  · rw [after_of_ok h]
  · simp only [Event.locks, hs, ht, if_neg hne, List.mem_cons, List.not_mem_nil, or_false,
      not_or] at hq
    have hafter : after (move old new) k =
        after (relocated target draft) (k.rekeyed source target draft) := by rw [after, h, after]
    rw [hafter, get?_of_relocated hq.2]
    exact (Drafts.get?_put_of_ne hq.2).trans (Drafts.get?_erase_of_ne hq.1)

theorem drafts_attempt {α : Type} (endpoint : String) (work : Keeping α) (k : Keeper) :
    (attempt endpoint work k).drafts = (after work k).drafts := by
  rw [attempt, after]
  cases work k <;> rfl

end Keeper

theorem Event.get?_handle {e : Event} {q : String} (hq : q ∉ e.locks) (k : Keeper) :
    (e.handle k).drafts.get? q = k.drafts.get? q := by
  have hone {path : String} (h : q ∉ (Path.normalize path).toOption.toList) :
      Path.normalize path ≠ .ok q := fun hn => h (mem_normalized.2 hn)
  cases e with
  | edited endpoint e =>
      rw [handle, Keeper.drafts_attempt]
      exact Keeper.get?_after_edit (hone hq)
  | tracking endpoint signal =>
      rw [handle, Keeper.drafts_attempt]
      cases signal with
      | start path => exact Keeper.get?_after_start (hone hq)
      | stop path => exact Keeper.get?_after_stop (hone hq)
      | suspend path | resume path => rfl
      | move old new => exact Keeper.get?_after_move hq

end DraftKeeper
