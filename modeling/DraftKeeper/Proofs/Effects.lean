import DraftKeeper.Proofs.DraftPlaces
import DraftKeeper.Proofs.Sessions
import Mathlib.Logic.Relation

namespace DraftKeeper

namespace Session

/-- One effect on a session, of an operation that names some paths. -/
inductive Effect (paths : List String) (s s' : Session) : Prop
  | idle (drafts : s'.keeper.drafts = s.keeper.drafts)
      (workspace : s.keeper.workspace.Changes [] s'.keeper.workspace)
      (edited : s'.edited ⊆ s.edited)
  | opened (p : String) (l : Place) (content : Bytes) (named : Path.Named paths p)
      (free : s.keeper.drafts.get? p = none) (read : s.keeper.workspace.read p = .ok content)
      (drafts : s'.keeper.drafts = s.keeper.drafts.put p
        (.new (Path.flatten p) ((Path.project? p).getD "/") content))
      (place : s.keeper.options.draftPlace? p = some l)
      (workspace : s.keeper.workspace.Changes [l] s'.keeper.workspace)
      (kept : s'.keeper.workspace.disk.content? l =
        some ((s.keeper.workspace.disk.content? l).getD content))
      (edited : s'.edited ⊆ s.edited)
  | edited (p : String) (draft draft' : Draft) (e : Delta)
      (tracked : s.keeper.drafts.get? p = some draft)
      (change : draft.apply e s.keeper.options.unit = .ok (some draft'))
      (drafts : s'.keeper.drafts = s.keeper.drafts.put p draft')
      (workspace : s'.keeper.workspace = s.keeper.workspace)
      (edited : s'.edited = p :: s.edited)
  | saved (p : String) (draft : Draft) (l : Place) (tracked : s.keeper.drafts.get? p = some draft)
      (place : DraftFolder.place? s.keeper.options.folder draft.project draft.flat = some l)
      (drafts : s'.keeper.drafts = s.keeper.drafts.put p draft.clean)
      (workspace : s.keeper.workspace.Changes [l] s'.keeper.workspace)
      (kept : s'.keeper.workspace.disk.content? l = some draft.content)
      (edited : s'.edited ⊆ s.edited)
  | stopped (p : String) (draft : Draft) (tracked : s.keeper.drafts.get? p = some draft)
      (drafts : s'.keeper.drafts = s.keeper.drafts.erase p)
      (workspace : s.keeper.workspace.Changes
        (DraftFolder.place? s.keeper.options.folder draft.project draft.flat).toList
        s'.keeper.workspace)
      (edited : ∀ q ∈ s'.edited, q ∈ s.edited ∧ q ≠ p)
  | moved (source target : String) (draft : Draft) (l : Place) (named : Path.Named paths target)
      (other : source ≠ target) (tracked : s.keeper.drafts.get? source = some draft)
      (free : s.keeper.drafts.get? target = none)
      (place : DraftFolder.place? s.keeper.options.folder (draft.movedTo target).project
        (draft.movedTo target).flat = some l)
      (drafts : s'.keeper.drafts =
        (s.keeper.drafts.erase source).put target (draft.movedTo target).clean)
      (workspace : s.keeper.workspace.Changes
        (l :: (DraftFolder.place? s.keeper.options.folder draft.project draft.flat).toList)
        s'.keeper.workspace)
      (kept : s'.keeper.workspace.disk.content? l = some draft.content)
      (edited : s'.edited = s.edited.map fun r => if r = source then target else r)

def Step (paths : List String) (s s' : Session) : Prop :=
  s'.keeper.options = s.keeper.options ∧ Effect paths s s'

abbrev Steps (paths : List String) : Session → Session → Prop := Relation.ReflTransGen (Step paths)

variable {paths edited edited' : List String} {k k' : Keeper} {p path endpoint : String}
  {draft : Draft} {f : Failure}

theorem Steps.idle {w : Workspace} (hw : k.workspace.Changes [] w) (he : edited' ⊆ edited) :
    Steps paths ⟨k, edited⟩ ⟨k.withWorkspace w, edited'⟩ :=
  .single ⟨rfl, .idle rfl hw he⟩

theorem Steps.report (k : Keeper) (edited : List String) (endpoint : String) (f : Failure) :
    Steps paths ⟨k, edited⟩ ⟨k.report endpoint f, edited⟩ :=
  .single ⟨rfl, .idle rfl (.refl [] _) (List.Subset.refl _)⟩

theorem Steps.of_opened (edited : List String) (hn : path ∈ paths) (hp : Path.normalize path = .ok p)
    (h : Keeper.opened p k = .ok draft k') :
    Steps paths ⟨k, edited⟩ ⟨k', edited⟩ ∧ k'.drafts.get? p = some draft := by
  rcases Keeper.opened_eq_ok.1 h with ⟨hd, rfl⟩ | ⟨hfree, hc⟩
  · exact ⟨.refl, hd⟩
  · obtain ⟨w, l, content, hr, rfl, rfl, hl, hw, hkept⟩ :=
      Keeper.create_eq_ok (Path.normalize_of_normalize hp) hc
    refine ⟨.single ⟨rfl, ?_⟩, ?_⟩
    · exact .opened p l content ⟨path, hn, hp⟩ hfree hr rfl hl hw hkept (List.Subset.refl _)
    · exact (Drafts.get?_put ..).trans (if_pos rfl)

theorem Steps.of_opened_error (h : Keeper.opened p k = .error f k') :
    Steps paths ⟨k, edited⟩ ⟨k', edited⟩ := by
  obtain ⟨-, hc⟩ := Keeper.opened_eq_error.1 h
  obtain ⟨w, rfl, hw⟩ := Keeper.create_eq_error hc
  exact Steps.idle hw (List.Subset.refl _)

theorem Steps.of_save (hd : k.drafts.get? p = some draft) :
    Steps paths ⟨k, edited⟩ ⟨Keeper.after (Keeper.save p draft) k, edited⟩ := by
  cases h : Keeper.save p draft k with
  | ok location k' =>
      rw [Keeper.after_of_ok h]
      obtain ⟨k₁, hw, rfl⟩ := Keeper.save_eq_ok h
      obtain ⟨w, l, -, rfl, hl, hc, hkept, -⟩ := Keeper.write_eq_ok hw
      exact .single ⟨rfl, .saved p draft l hd hl rfl hc hkept (List.Subset.refl _)⟩
  | error f k' =>
      rw [Keeper.after_of_error h]
      obtain ⟨w, -, rfl, -, hw⟩ := Keeper.write_eq_error (Keeper.save_eq_error h)
      exact Steps.idle hw (List.Subset.refl _)

end Session

namespace Operation

open Session

variable {paths edited : List String} {k k' : Keeper} {endpoint path old new : String}

theorem perform_of_ok (signal : Tracking) {u : Unit} (h : Keeper.track signal k = .ok u k') :
    (Operation.track endpoint signal).perform k = k' := by
  simp only [perform, Keeper.attempt, h]

theorem perform_of_error (signal : Tracking) {f : Failure}
    (h : Keeper.track signal k = .error f k') :
    (Operation.track endpoint signal).perform k = k'.report endpoint f := by
  simp only [perform, Keeper.attempt, h]

theorem steps_start (hn : path ∈ paths) :
    Steps paths ⟨k, edited⟩ ⟨(Operation.track endpoint (.start path)).perform k, edited⟩ := by
  cases h : Keeper.start path k with
  | ok u k' =>
      rw [perform_of_ok (.start path) h]
      obtain ⟨p, draft, hp, ho⟩ := Keeper.start_eq_ok h
      exact (Steps.of_opened edited hn hp ho).1
  | error f k' =>
      rw [perform_of_error (.start path) h]
      rcases Keeper.start_eq_error h with rfl | ⟨p, hp, ho⟩
      · exact Steps.report k' edited endpoint f
      · exact (Steps.of_opened_error ho).trans (Steps.report k' edited endpoint f)

theorem steps_edit {e : Edit} (hn : e.location ∈ paths) : Steps paths ⟨k, edited⟩
    ⟨(Operation.edit endpoint e).perform k, (Operation.edit endpoint e).editedAfter k edited⟩ := by
  cases h : Keeper.edit endpoint e k with
  | error f k' =>
      simp only [perform, editedAfter, Keeper.after_of_error h, h]
      rcases Keeper.edit_eq_error h with rfl | ⟨p, hp, ho | ⟨draft, ho⟩⟩
      · exact .refl
      · exact Steps.of_opened_error ho
      · exact (Steps.of_opened edited hn hp ho).1
  | ok changed k' =>
      obtain ⟨p, draft, k₁, hp, ho, ha⟩ := Keeper.edit_eq_ok h
      obtain ⟨hopen, hd⟩ := Steps.of_opened edited hn hp ho
      simp only [perform, editedAfter, Keeper.after_of_ok h, h, hp]
      rcases Keeper.applied_eq_ok ha with ⟨rfl, -, rfl⟩ | ⟨draft', rfl, hchange, rfl⟩
      · exact hopen
      · exact hopen.tail ⟨rfl, .edited p draft draft' e.delta hd hchange rfl rfl rfl⟩

theorem steps_stop : Steps paths ⟨k, edited⟩ ⟨(Operation.track endpoint (.stop path)).perform k,
    (Operation.track endpoint (.stop path)).editedAfter k edited⟩ := by
  simp only [editedAfter]
  cases h : Keeper.stop path k with
  | error f k' =>
      rw [perform_of_error (.stop path) h]
      rcases Keeper.stop_eq_error h with rfl | ⟨p, draft, hp, hd, hs⟩
      · exact .single ⟨rfl, .idle rfl (.refl [] _) List.filter_sublist.subset⟩
      · obtain ⟨w, cause, rfl, -, hw⟩ := Keeper.settled_eq_error hs
        exact .single ⟨rfl, .idle rfl hw List.filter_sublist.subset⟩
  | ok u k' =>
      rw [perform_of_ok (.stop path) h]
      obtain ⟨p, hp, ⟨hd, rfl⟩ | ⟨draft, k₁, hd, hs, rfl⟩⟩ := Keeper.stop_eq_ok h
      · exact .single ⟨rfl, .idle rfl (.refl [] _) List.filter_sublist.subset⟩
      · obtain ⟨w, rfl, hw⟩ := Keeper.settled_changes hs
        refine .single ⟨rfl, .stopped p draft hd rfl hw fun q hq => ?_⟩
        obtain ⟨hq, hkept⟩ := List.mem_filter.1 hq
        refine ⟨hq, ?_⟩
        rintro rfl
        simp [Drafts.contains, Keeper.withDrafts] at hkept

theorem steps_move (hn : new ∈ paths)
    (hm : ¬ (Operation.track endpoint (.move old new)).FailsToMove k) :
    Steps paths ⟨k, edited⟩ ⟨(Operation.track endpoint (.move old new)).perform k,
      (Operation.track endpoint (.move old new)).editedAfter k edited⟩ := by
  simp only [editedAfter]
  rcases Keeper.move_cases old new k with ⟨f, h, -⟩ | ⟨source, target, hs, ht, hidle, h⟩ |
    ⟨source, target, draft, hs, ht, hne, hd, hfree, h⟩
  · exact absurd ⟨f, k, h⟩ hm
  · rw [perform_of_ok (.move old new) h, hs, ht]
    simp only [Bool.and_not_self, Bool.false_eq_true, if_false]
    exact .refl
  · cases hr : Keeper.relocated target draft (k.rekeyed source target draft) with
    | error f k' => exact absurd ⟨f, k', h.trans hr⟩ hm
    | ok u k' =>
        rw [perform_of_ok (.move old new) (h.trans hr), hs, ht]
        obtain ⟨k₁, location, hdiscard, hsave⟩ := Keeper.relocated_eq_ok hr
        obtain ⟨w₁, rfl, hw₁⟩ := Keeper.discard_changes hdiscard
        obtain ⟨k₂, hwrite, rfl⟩ := Keeper.save_eq_ok hsave
        obtain ⟨w₂, l, -, rfl, hl, hw₂, hkept, -⟩ := Keeper.write_eq_ok hwrite
        have hdrafts : ((k.drafts.erase source).put target (draft.movedTo target)).put target
            (draft.movedTo target).clean =
              (k.drafts.erase source).put target (draft.movedTo target).clean := Drafts.put_put ..
        have hgone : ((k.drafts.erase source).put target (draft.movedTo target).clean).contains
            source = false := by simp [Drafts.contains, hne.symm]
        have hthere : k.drafts.contains source = true := by simp [Drafts.contains, hd]
        simp only [Keeper.withDrafts, Keeper.withWorkspace, Keeper.rekeyed, hdrafts, hgone, hthere]
        refine .single ⟨rfl, .moved source target draft l ⟨new, hn, ht⟩ hne hd hfree hl rfl ?_ hkept ?_⟩
        · exact (hw₁.mono (List.subset_cons_self ..)).trans
            (hw₂.mono (List.cons_subset_cons l (List.nil_subset _)))
        · rfl

theorem steps_persistentLocation : Steps paths ⟨k, edited⟩
    ⟨(Operation.persistentLocation path).perform k, edited⟩ := by
  rw [perform]
  rcases Keeper.after_persistentLocation path k with h | ⟨p, draft, -, hd, h⟩
  · rw [h]
  · rw [h]
    exact Steps.of_save hd

theorem steps_sweep : Steps paths ⟨k, edited⟩ ⟨k.sweep.2, edited⟩ := by
  refine Keeper.sweep_keeps (P := fun k' => Steps paths ⟨k, edited⟩ ⟨k', edited⟩) .refl fun s path _ hs => ?_
  rcases Keeper.after_sweepOne s path with h | ⟨draft, hd, h⟩
  · rwa [h]
  · rw [h]
    exact hs.trans (Steps.of_save hd)

/-- An operation that is no failing move is a sequence of effects. -/
theorem steps (o : Operation) (edited : List String) (hn : o.paths ⊆ paths) (hm : ¬ o.FailsToMove k) :
    Steps paths ⟨k, edited⟩ ⟨o.perform k, o.editedAfter k edited⟩ := by
  cases o with
  | track endpoint signal =>
      cases signal with
      | start path => exact steps_start (hn (List.mem_singleton_self _))
      | stop path => exact steps_stop
      | suspend path | resume path => exact .refl
      | move old new => exact steps_move (hn (by simp [Operation.paths, Tracking.paths])) hm
  | edit endpoint e => exact steps_edit (hn (List.mem_singleton_self _))
  | persistentLocation path => exact steps_persistentLocation
  | sweep => exact steps_sweep
  | content path =>
      rw [perform, (Keeper.ReadOnly.content path).after]
      exact .refl
  | recoverable path =>
      rw [perform, (Keeper.ReadOnly.recoverable? path).after]
      exact .refl

/-- A move that fails changes no file but the draft file under the old name. Either it leaves the
drafts as they were, or the draft is under its new path already. -/
theorem perform_of_failsToMove {o : Operation} (hm : o.FailsToMove k) :
    (o.perform k).options = k.options ∧ ((o.perform k).drafts = k.drafts ∧
        (o.perform k).workspace = k.workspace ∨
      ∃ source target draft, Path.normalize target = .ok target ∧
        k.drafts.get? source = some draft ∧
        (o.perform k).drafts = (k.drafts.erase source).put target (draft.movedTo target) ∧
        k.workspace.Changes
          (DraftFolder.place? k.options.folder draft.project draft.flat).toList
          (o.perform k).workspace) := by
  unfold FailsToMove at hm
  split at hm
  · next endpoint old new =>
      obtain ⟨f, k', h⟩ := hm
      rw [perform_of_error (.move old new) h]
      rcases Keeper.move_eq_error h with ⟨rfl, -⟩ |
        ⟨source, target, draft, w, cause, -, ht, -, hd, rfl, -, hw⟩
      · exact ⟨rfl, .inl ⟨rfl, rfl⟩⟩
      · exact ⟨rfl, .inr ⟨source, target, draft, Path.normalize_of_normalize ht, hd, rfl, hw⟩⟩
  · exact hm.elim

end Operation

end DraftKeeper
