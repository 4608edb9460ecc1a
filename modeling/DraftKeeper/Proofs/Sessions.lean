import DraftKeeper.Proofs.Operations

namespace DraftKeeper

/-- What a client or the daemon itself asks of a keeper. -/
inductive Operation
  | track (endpoint : String) (signal : Tracking)
  | edit (endpoint : String) (e : Edit)
  | persistentLocation (path : String)
  | sweep
  | content (path : String)
  | recoverable (path : String)

/-- What happens in a session: an operation, or something that is not the keeper's work. The disk may
be changed from outside, time passes, and what is to go out is taken. -/
inductive Action
  | operation (o : Operation)
  | outside (disk : Disk)
  | tick (clock : Time.Instant)
  | delivery

namespace Keeper

def after {α : Type} (work : Keeping α) (k : Keeper) : Keeper :=
  match work k with
  | .ok _ k' | .error _ k' => k'

theorem after_of_ok {α : Type} {work : Keeping α} {a : α} {k k' : Keeper} (h : work k = .ok a k') :
    after work k = k' := by
  rw [after, h]

theorem after_of_error {α : Type} {work : Keeping α} {f : Failure} {k k' : Keeper}
    (h : work k = .error f k') : after work k = k' := by
  rw [after, h]

def failure? {α : Type} (work : Keeping α) (k : Keeper) : Option Failure :=
  match work k with
  | .ok .. => none
  | .error f _ => some f

theorem eq_ok_of_failure? {α : Type} (work : Keeping α) (k : Keeper)
    (h : failure? work k = none) : ∃ a, work k = .ok a (after work k) := by
  rw [failure?] at h
  cases hw : work k with
  | ok a k' => exact ⟨a, by rw [after_of_ok hw]⟩
  | error f k' => simp [hw] at h

theorem eq_error_of_failure? {α : Type} (work : Keeping α) (k : Keeper) {f : Failure}
    (h : failure? work k = some f) : work k = .error f (after work k) := by
  rw [failure?] at h
  cases hw : work k with
  | ok a k' => simp [hw] at h
  | error f' k' =>
      rw [hw] at h
      cases h
      rw [after_of_error hw]

theorem ReadOnly.after {α : Type} {work : Keeping α} (h : ReadOnly work) (k : Keeper) :
    after work k = k := by
  rcases h k with ⟨a, ha⟩ | ⟨f, hf⟩
  · exact after_of_ok ha
  · exact after_of_error hf

theorem after_sweepOne (s : SweepReport × Keeper) (path : String) : (sweepOne s path).2 = s.2 ∨
    ∃ draft, s.2.drafts.get? path = some draft ∧ (sweepOne s path).2 = after (save path draft) s.2 := by
  rcases sweepOne_cases s path with ⟨h, -⟩ | ⟨draft, hd, -, ⟨location, k, hs, h⟩ | ⟨f, k, hs, h⟩⟩
  · exact .inl (by rw [h])
  · exact .inr ⟨draft, hd, by rw [h, after_of_ok hs]⟩
  · exact .inr ⟨draft, hd, by rw [h, after_of_error hs]⟩

theorem after_persistentLocation (path : String) (k : Keeper) : after (persistentLocation? path) k = k ∨
    ∃ p draft, Path.normalize path = .ok p ∧ k.drafts.get? p = some draft ∧
      after (persistentLocation? path) k = after (save p draft) k := by
  rcases persistentLocation?_cases path k with ⟨location, h⟩ | ⟨f, h⟩ | ⟨p, draft, hp, hd, h⟩
  · exact .inl (after_of_ok h)
  · exact .inl (after_of_error h)
  · refine .inr ⟨p, draft, hp, hd, ?_⟩
    cases hs : save p draft k with
    | ok location k' => exact (after_of_ok (h.trans (bind_of_ok _ hs))).trans (after_of_ok hs).symm
    | error f k' =>
        exact (after_of_error (h.trans (bind_eq_error.2 (.inl hs)))).trans (after_of_error hs).symm

end Keeper

namespace Operation

def paths : Operation → List String
  | .track _ signal => signal.paths
  | .edit _ e => [e.location]
  | .persistentLocation path | .content path | .recoverable path => [path]
  | .sweep => []

def perform : Operation → Keeper → Keeper
  | .track endpoint signal => Keeper.attempt endpoint (Keeper.track signal)
  | .edit endpoint e => Keeper.after (Keeper.edit endpoint e)
  | .persistentLocation path => Keeper.after (Keeper.persistentLocation? path)
  | .sweep => fun k => k.sweep.2
  | .content path => Keeper.after (Keeper.content path)
  | .recoverable path => Keeper.after (Keeper.recoverable? path)

/-- The paths whose drafts have been edited since tracking began, after an operation. An edit that
changes a draft adds its path, a path that is no longer tracked goes, and a path that has moved is
replaced by the new one. -/
def editedAfter (o : Operation) (k : Keeper) (edited : List String) : List String :=
  match o with
  | .edit endpoint e =>
    match Keeper.edit endpoint e k with
    | .ok true _ => (Path.normalize e.location).toOption.toList ++ edited
    | _ => edited
  | .track _ (.stop _) => edited.filter (o.perform k).drafts.contains
  | .track _ (.move old new) =>
    match Path.normalize old, Path.normalize new with
    | .ok p, .ok q =>
      if k.drafts.contains p && !(o.perform k).drafts.contains p then
        edited.map fun r => if r = p then q else r
      else edited
    | _, _ => edited
  | _ => edited

def FailsToMove (o : Operation) (k : Keeper) : Prop :=
  match o with
  | .track _ (.move old new) => ∃ f k', Keeper.move old new k = .error f k'
  | _ => False

instance (o : Operation) (k : Keeper) : Decidable (o.FailsToMove k) :=
  match o with
  | .track _ (.move old new) =>
    match h : Keeper.move old new k with
    | .ok _ _ => isFalse (by rintro ⟨f, k', h'⟩; cases h.symm.trans h')
    | .error f k' => isTrue ⟨f, k', h⟩
  | .track _ (.start _) | .track _ (.stop _) | .track _ (.suspend _) | .track _ (.resume _)
  | .edit .. | .persistentLocation _ | .sweep | .content _ | .recoverable _ => isFalse id

end Operation

/-- A keeper, and the tracked paths whose drafts have been edited since tracking began. -/
structure Session where
  keeper : Keeper
  edited : List String

namespace Session

def new (options : Options) (workspace : Workspace) (outboxCapacity : Nat) (clock : Time.Instant) :
    Session :=
  ⟨.new options workspace outboxCapacity clock, []⟩

def after (s : Session) : Action → Session
  | .operation o => ⟨o.perform s.keeper, o.editedAfter s.keeper s.edited⟩
  | .outside disk => ⟨s.keeper.withWorkspace { s.keeper.workspace with disk }, s.edited⟩
  | .tick clock => ⟨{ s.keeper with clock }, s.edited⟩
  | .delivery =>
    ⟨{ s.keeper with updates := [], outbox := { s.keeper.outbox with notices := [] } }, s.edited⟩

@[simp] theorem drafts_after_outside (s : Session) (disk : Disk) :
    (s.after (.outside disk)).keeper.drafts = s.keeper.drafts := rfl

@[simp] theorem disk_after_outside (s : Session) (disk : Disk) :
    (s.after (.outside disk)).keeper.workspace.disk = disk := rfl

/-- The sessions that come of a start by actions each of which is allowed where it is taken. -/
inductive Reached (allowed : Session → Action → Prop) (start : Session) : Session → Prop
  | start : Reached allowed start start
  | step {s : Session} {a : Action} :
      Reached allowed start s → allowed s a → Reached allowed start (s.after a)

/-- What holds at the start and is kept by every action that is allowed holds of every session. -/
theorem Reached.invariant {allowed : Session → Action → Prop} {start s : Session}
    {I : Session → Prop} (h : Reached allowed start s) (hs : I start)
    (hstep : ∀ s a, I s → allowed s a → I (s.after a)) : I s := by
  induction h with
  | start => exact hs
  | step _ ha ih => exact hstep _ _ ih ha

end Session

def Options.sample : Options := ⟨".d", .char, 4⟩

def Workspace.sample : Workspace :=
  ⟨"/w", ⟨[([], .folder 0o755), (["p"], .folder 0o755), (["p", "a"], .file 0o644 [104, 105])]⟩⟩

def Session.sample : Session := .new .sample .sample 4 ⟨0, 0, 0⟩

def Session.sampleEdited : Session :=
  (sample.after (.operation (.track "e" (.start "/p/a")))).after
    (.operation (.edit "e" ⟨"/p/a", .insert 2 "!"⟩))

end DraftKeeper
