import DraftKeeper.Proofs.DiskFrames
import DraftKeeper.Proofs.EventKeys
import DraftKeeper.Proofs.FiledDrafts

namespace DraftKeeper

namespace Keeper

structure Quiet (k k' : Keeper) : Prop where
  updates : k'.updates = k.updates
  outbox : k'.outbox = k.outbox
  clock : k'.clock = k.clock

variable {k k' : Keeper} {p path endpoint : String} {draft : Draft} {f : Failure} {e : Edit}

theorem Quiet.refl (k : Keeper) : Quiet k k := ⟨rfl, rfl, rfl⟩

theorem quiet_opened (hp : Path.normalize path = .ok p) : Quiet k (left (opened p) k) := by
  cases h : opened p k with
  | ok draft k' =>
      rw [left_of_ok h]
      rcases opened_eq_ok.1 h with ⟨-, rfl⟩ | ⟨-, hc⟩
      · exact .refl k'
      · obtain ⟨w, l, content, -, -, rfl, -⟩ := create_eq_ok (Path.normalize_of_normalize hp) hc
        exact ⟨rfl, rfl, rfl⟩
  | error f k' =>
      rw [left_of_error h]
      obtain ⟨w, rfl, -⟩ := create_eq_error (opened_eq_error.1 h).2
      exact ⟨rfl, rfl, rfl⟩

theorem quiet_start (path : String) (k : Keeper) : Quiet k (left (start path) k) := by
  cases h : start path k with
  | ok u k' =>
      obtain ⟨p, draft, hp, ho⟩ := start_eq_ok h
      have hquiet := quiet_opened (k := k) hp
      rw [left_of_ok ho] at hquiet
      rwa [left_of_ok h]
  | error f k' =>
      rw [left_of_error h]
      rcases start_eq_error h with rfl | ⟨p, hp, ho⟩
      · exact .refl k'
      · have hquiet := quiet_opened (k := k) hp
        rwa [left_of_error ho] at hquiet

theorem quiet_stop (path : String) (k : Keeper) : Quiet k (left (stop path) k) := by
  cases h : stop path k with
  | ok u k' =>
      rw [left_of_ok h]
      obtain ⟨p, hp, ⟨-, rfl⟩ | ⟨draft, k₁, -, hs, rfl⟩⟩ := stop_eq_ok h
      · exact .refl k'
      · obtain ⟨w, rfl, -⟩ := settled_changes hs
        exact ⟨rfl, rfl, rfl⟩
  | error f k' =>
      rw [left_of_error h]
      rcases stop_eq_error h with rfl | ⟨p, draft, -, -, hs⟩
      · exact .refl k'
      · obtain ⟨w, cause, rfl, -⟩ := settled_eq_error hs
        exact ⟨rfl, rfl, rfl⟩

theorem quiet_move (old new : String) (k : Keeper) : Quiet k (left (move old new) k) := by
  rcases move_cases old new k with ⟨f, h, -⟩ | ⟨_, _, -, -, -, h⟩ | ⟨source, target, draft, -, -, -, -, -, h⟩
  · rw [left_of_error h]
    exact .refl k
  · rw [left_of_ok h]
    exact .refl k
  · rw [left, h]
    cases hr : relocated target draft (k.rekeyed source target draft) with
    | ok u k' =>
        obtain ⟨k₁, location, hd, hs⟩ := relocated_eq_ok hr
        obtain ⟨w₁, rfl, -⟩ := discard_changes hd
        obtain ⟨k₂, hw, rfl⟩ := save_eq_ok hs
        obtain ⟨w₂, l, path, rfl, -⟩ := write_eq_ok hw
        exact ⟨rfl, rfl, rfl⟩
    | error f k' =>
        obtain ⟨w, cause, rfl, -⟩ := relocated_error_changes hr
        exact ⟨rfl, rfl, rfl⟩

theorem quiet_track (signal : Tracking) (k : Keeper) : Quiet k (left (track signal) k) := by
  cases signal with
  | start path => exact quiet_start path k
  | stop path => exact quiet_stop path k
  | move old new => exact quiet_move old new k
  | suspend path | resume path => exact .refl k

end Keeper

namespace Event

open Keeper

/-- What comes of an event: a failure, or for an edit whether it has changed the draft. -/
def result : Event → Keeper → Except Failure (Option Bool)
  | .tracking _ signal, k =>
    match Keeper.track signal k with
    | .ok _ _ => .ok none
    | .error f _ => .error f
  | .edited endpoint edit, k =>
    match Keeper.edit endpoint edit k with
    | .ok changed _ => .ok (some changed)
    | .error f _ => .error f

def notice? (e : Event) (k : Keeper) : Option Notice :=
  match e.result k with
  | .ok _ => none
  | .error f => some ⟨e.endpoint, f.report⟩

def published (e : Event) (k : Keeper) : List Update :=
  match e, e.result k with
  | .edited endpoint edit, .ok (some true) => [⟨endpoint, edit, k.clock⟩]
  | _, _ => []

theorem sent_handle (e : Event) (k : Keeper) : (e.handle k).updates = k.updates ++ e.published k ∧
    (e.handle k).outbox = (e.notice? k).elim k.outbox k.outbox.send ∧ (e.handle k).clock = k.clock := by
  cases e with
  | tracking endpoint signal =>
      have hquiet := quiet_track signal k
      simp only [handle, attempt, published, notice?, result, List.append_nil]
      cases h : Keeper.track signal k with
      | ok u k' =>
          rw [left_of_ok h] at hquiet
          exact ⟨hquiet.updates, hquiet.outbox, hquiet.clock⟩
      | error f k' =>
          rw [left_of_error h] at hquiet
          refine ⟨hquiet.updates, ?_, hquiet.clock⟩
          exact congrArg (Outbox.send · ⟨endpoint, f.report⟩) hquiet.outbox
  | edited endpoint edit =>
      simp only [handle, attempt, published, notice?, result]
      cases h : Keeper.edit endpoint edit k with
      | ok changed k' =>
          obtain ⟨p, draft, k₁, hp, ho, ha⟩ := edit_eq_ok h
          have hquiet := quiet_opened (k := k) hp
          rw [left_of_ok ho] at hquiet
          rcases applied_eq_ok ha with ⟨rfl, -, rfl⟩ | ⟨draft', rfl, -, rfl⟩
          · exact ⟨hquiet.updates.trans (List.append_nil _).symm, hquiet.outbox, hquiet.clock⟩
          · refine ⟨?_, hquiet.outbox, hquiet.clock⟩
            change k₁.updates ++ [⟨endpoint, edit, k₁.clock⟩] = _
            rw [hquiet.updates, hquiet.clock]
      | error f k' =>
          have hquiet : Quiet k k' := by
            rcases edit_eq_error h with rfl | ⟨p, hp, ho | ⟨draft, ho⟩⟩
            · exact .refl k'
            · have hquiet := quiet_opened (k := k) hp
              rwa [left_of_error ho] at hquiet
            · have hquiet := quiet_opened (k := k) hp
              rwa [left_of_ok ho] at hquiet
          refine ⟨hquiet.updates.trans (List.append_nil _).symm, ?_, hquiet.clock⟩
          exact congrArg (Outbox.send · ⟨endpoint, f.report⟩) hquiet.outbox

theorem filed_handle (e : Event) {k : Keeper} (hk : k.Filed) : (e.handle k).Filed := by
  cases e with
  | tracking endpoint signal =>
      have h := Session.filed_after (s := ⟨k, []⟩) hk (.operation (.track endpoint signal))
      exact h
  | edited endpoint edit =>
      have h := Session.filed_after (s := ⟨k, []⟩) hk (.operation (.edit endpoint edit))
      exact h.of_eq (drafts_attempt endpoint (Keeper.edit endpoint edit) k)

end Event

end DraftKeeper
