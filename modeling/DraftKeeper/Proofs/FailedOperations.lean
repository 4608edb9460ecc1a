import DraftKeeper.Proofs.EventKeys
import DraftKeeper.Proofs.ShownTexts

namespace DraftKeeper

theorem Workspace.text_eq_ok_iff {w : Workspace} {p text : String} : w.text p = .ok text ↔
    ∃ file, w.disk.content? (Path.slashComponents p) = some file ∧ Text.Utf8.decode file = text := by
  simp only [Workspace.text, Disk.content?_eq_some_iff]
  cases hl : w.disk.locate (Path.slashComponents p) with
  | ok entry =>
      rw [Disk.locate_eq_ok_iff] at hl
      cases entry <;> simp [hl]
  | error fault =>
      have hnone (m : Nat) (file : Bytes) :
          w.disk.get? (Path.slashComponents p) ≠ some (.file m file) := by
        intro he
        rw [← Disk.locate_eq_ok_iff, hl] at he
        cases he
      cases fault <;> simp [hnone]

namespace Keeper

/-- Every draft, every text that a client can get, every update and every file is as it was. What was not
there may be there now. -/
structure Intact (k k' : Keeper) : Prop where
  drafts : ∀ p draft, k.drafts.get? p = some draft → k'.drafts.get? p = some draft
  texts : ∀ path text, content path k = .ok text k → content path k' = .ok text k'
  updates : k'.updates = k.updates
  files : ∀ l file, k.workspace.disk.content? l = some file →
    k'.workspace.disk.content? l = some file

variable {k k' : Keeper} {path p text endpoint : String} {draft : Draft} {f : Failure} {w : Workspace}

theorem texts_apply (k : Keeper) (p : String) : k.texts p = (k.drafts.get? p).map Draft.text := rfl

theorem content_eq_ok_iff : content path k = .ok text k ↔ ∃ p, Path.normalize path = .ok p ∧
    (k.texts p = some text ∨ k.texts p = none ∧ k.workspace.text p = .ok text) := by
  cases hp : Path.normalize path with
  | error cause =>
      have hc : content path k = .error (.invalidPath cause) k :=
        bind_eq_error.2 (.inl (normalized_eq_error.2 ⟨⟨cause, hp, rfl⟩, rfl⟩))
      simp [hc]
  | ok p =>
      rw [content_eq k hp]
      cases hm : k.texts p with
      | some shown => simp [hm]
      | none => cases ht : k.workspace.text p <;> simp [hm, ht]

theorem Intact.of_new (hdrafts : ∀ p draft, k.drafts.get? p = some draft → k'.drafts.get? p = some draft)
    (hnew : ∀ p draft, k.drafts.get? p = none → k'.drafts.get? p = some draft →
      k.workspace.disk.content? (Path.slashComponents p) = some draft.content)
    (hupdates : k'.updates = k.updates)
    (hfiles : ∀ l file, k.workspace.disk.content? l = some file →
      k'.workspace.disk.content? l = some file) : k.Intact k' := by
  refine ⟨hdrafts, fun path text h => ?_, hupdates, hfiles⟩
  obtain ⟨p, hp, hshown⟩ := content_eq_ok_iff.1 h
  refine content_eq_ok_iff.2 ⟨p, hp, ?_⟩
  simp only [texts_apply, Option.map_eq_some_iff, Option.map_eq_none_iff,
    Workspace.text_eq_ok_iff] at hshown ⊢
  rcases hshown with ⟨draft, hd, ht⟩ | ⟨hnone, file, hfile, ht⟩
  · exact .inl ⟨draft, hdrafts p draft hd, ht⟩
  · cases hd : k'.drafts.get? p with
    | none => exact .inr ⟨rfl, file, hfiles _ file hfile, ht⟩
    | some draft =>
        obtain rfl := Option.some.inj (hfile.symm.trans (hnew p draft hnone hd))
        exact .inl ⟨draft, rfl, ht⟩

theorem Intact.withWorkspace (hw : k.workspace.Changes [] w) : k.Intact (k.withWorkspace w) := by
  refine .of_new (fun _ _ hd => hd) ?_ rfl fun l file hl => (hw.2.content l (by simp)).trans hl
  intro p draft hnone hd
  cases hnone.symm.trans hd

theorem Intact.refl (k : Keeper) : k.Intact k := Intact.withWorkspace (.refl [] _)

theorem Intact.report (h : k.Intact k') (endpoint : String) (f : Failure) :
    k.Intact (k'.report endpoint f) := by
  refine ⟨h.drafts, fun path text hc => ?_, h.updates, h.files⟩
  obtain ⟨p, hp, hshown⟩ := content_eq_ok_iff.1 (h.texts path text hc)
  exact content_eq_ok_iff.2 ⟨p, hp, hshown⟩

theorem persistentLocation_eq_error (h : persistentLocation? path k = .error f k') :
    ∃ w, k' = k.withWorkspace w ∧ k.workspace.Changes [] w := by
  rcases persistentLocation?_cases path k with ⟨location, hl⟩ | ⟨f', hf⟩ | ⟨p, draft, -, -, hs⟩
  · cases h.symm.trans hl
  · cases h.symm.trans hf
    exact ⟨_, rfl, .refl [] _⟩
  · rcases bind_eq_error.1 (hs.symm.trans h) with he | ⟨location, k₁, -, he⟩
    · obtain ⟨w, -, hk, -, hw⟩ := write_eq_error (save_eq_error he)
      exact ⟨w, hk, hw⟩
    · exact absurd he pure_ne_error

theorem Intact.of_opened (hp : Path.normalize path = .ok p) (h : opened p k = .ok draft k') :
    k.Intact k' := by
  rcases opened_eq_ok.1 h with ⟨-, rfl⟩ | ⟨hfree, hc⟩
  · exact .refl _
  have hnorm := Path.normalize_of_normalize hp
  obtain ⟨w, l, content, hread, rfl, rfl, -, hw, hkept⟩ := create_eq_ok hnorm hc
  refine .of_new (fun q d hd => ?_) (fun q d hnone hd => ?_) rfl fun l' file hfile => ?_
  · refine (Drafts.get?_put_of_ne ?_).trans hd
    rintro rfl
    cases hfree.symm.trans hd
  · change (k.drafts.put p _).get? q = some d at hd
    rw [Drafts.get?_put] at hd
    split at hd
    · next heq =>
        subst heq
        cases hd
        exact (Workspace.read_eq_ok_iff_content? hnorm).1 hread
    · cases hnone.symm.trans hd
  · change w.disk.content? l' = some file
    by_cases hl : l' = l
    · rw [hl] at hfile ⊢
      rw [hkept, hfile, Option.getD_some]
    · rw [hw.2.content l' (by simpa using hl), hfile]

end Keeper

namespace Operation

variable {o : Operation} {k : Keeper} {f : Failure}

/-- The operation is an edit of the path, and it fails because it is out of range. -/
def OutOfRangeAt (o : Operation) (f : Failure) (p : String) : Prop :=
  match o, f with
  | .edit _ e, .outOfRange _ => Path.normalize e.location = .ok p
  | _, _ => False

/-- What is new after a failure: the draft of a file that an edit out of range has opened, and no other
draft. -/
def OpensOnly (o : Operation) (f : Failure) (k k' : Keeper) : Prop :=
  ∀ p, k.drafts.get? p = none →
    (o.OutOfRangeAt f p → ∃ file, k.workspace.read p = .ok file ∧
      k'.drafts.get? p = some (.new (Path.flatten p) ((Path.project? p).getD "/") file)) ∧
    (¬ o.OutOfRangeAt f p → k'.drafts.get? p = none)

theorem opensOnly_of_drafts {k' : Keeper} (ho : ∀ p, ¬ o.OutOfRangeAt f p)
    (hk : k'.drafts = k.drafts) : o.OpensOnly f k k' := by
  intro p hnone
  refine ⟨fun h => absurd h (ho p), fun _ => ?_⟩
  rw [hk, hnone]

theorem edit_leaves_intact {endpoint : String} {e : Edit} {k' : Keeper}
    (h : Keeper.edit endpoint e k = .error f k') :
    k.Intact k' ∧ (Operation.edit endpoint e).OpensOnly f k k' := by
  constructor
  · rcases Keeper.edit_eq_error h with rfl | ⟨p, hp, ho | ⟨draft, ho⟩⟩
    · exact .refl _
    · obtain ⟨w, rfl, hw⟩ := Keeper.create_eq_error (Keeper.opened_eq_error.1 ho).2
      exact .withWorkspace hw
    · exact .of_opened hp ho
  · rcases Keeper.edit_error_cases h with ⟨p, draft, cause, hp, ho, rfl⟩ | ⟨hf, hk⟩
    · intro q hnone
      constructor
      · intro hq
        obtain rfl : p = q := Except.ok.inj (hp.symm.trans hq)
        rcases Keeper.opened_eq_ok.1 ho with ⟨hd, -⟩ | ⟨-, hc⟩
        · cases hnone.symm.trans hd
        · obtain ⟨w, l, file, hread, rfl, rfl, -⟩ :=
            Keeper.create_eq_ok (Path.normalize_of_normalize hp) hc
          exact ⟨file, hread, Drafts.get?_put_self ..⟩
      · exact fun hq => (Keeper.get?_of_opened hp hq ho).trans hnone
    · refine opensOnly_of_drafts (fun p hp => ?_) hk
      cases f with
      | outOfRange cause => exact hf cause rfl
      | _ => exact hp

theorem track_eq_error {endpoint : String} {signal : Tracking} {k' : Keeper}
    (hm : ¬ (Operation.track endpoint signal).FailsToMove k)
    (h : Keeper.track signal k = .error f k') :
    ∃ w, k' = k.withWorkspace w ∧ k.workspace.Changes [] w := by
  cases signal with
  | start path =>
      rcases Keeper.start_eq_error h with rfl | ⟨p, -, ho⟩
      · exact ⟨_, rfl, .refl [] _⟩
      · exact Keeper.create_eq_error (Keeper.opened_eq_error.1 ho).2
  | stop path =>
      rcases Keeper.stop_eq_error h with rfl | ⟨p, draft, -, -, hs⟩
      · exact ⟨_, rfl, .refl [] _⟩
      · obtain ⟨w, -, hk, -, hw⟩ := Keeper.settled_eq_error hs
        exact ⟨w, hk, hw⟩
  | suspend path | resume path => exact absurd h pure_ne_error
  | move old new => exact absurd ⟨f, k', h⟩ hm

/-- A start, a stop, an edit or a question that fails leaves everything as it was: the drafts with their
contents and dirty flags, the text that a client gets for any path, the updates and the files. Nothing
becomes tracked, unless the failure is that of an edit out of range: that leaves a clean draft of the
file's own content. -/
theorem failure_leaves_intact (hm : ¬ o.FailsToMove k) (h : o.failure? k = some f) :
    k.Intact (o.perform k) ∧ o.OpensOnly f k (o.perform k) := by
  cases o with
  | track endpoint signal =>
      cases hs : Keeper.track signal k with
      | ok u k' => rw [failure?_of_ok signal hs] at h; cases h
      | error f' k' =>
          obtain rfl : f' = f := Option.some.inj ((failure?_of_error signal hs).symm.trans h)
          rw [perform_of_error signal hs]
          obtain ⟨w, rfl, hw⟩ := track_eq_error hm hs
          exact ⟨(Keeper.Intact.withWorkspace hw).report endpoint f', opensOnly_of_drafts (fun p => id) rfl⟩
  | edit endpoint e =>
      have hs := Keeper.eq_error_of_failure? (Keeper.edit endpoint e) k h
      exact edit_leaves_intact hs
  | persistentLocation path =>
      have hs := Keeper.eq_error_of_failure? (Keeper.persistentLocation? path) k h
      obtain ⟨w, hk, hw⟩ := Keeper.persistentLocation_eq_error hs
      rw [perform, hk]
      exact ⟨.withWorkspace hw, opensOnly_of_drafts (fun p => id) rfl⟩
  | sweep => cases h
  | content path =>
      rw [perform, (Keeper.ReadOnly.content path).after]
      exact ⟨.refl k, opensOnly_of_drafts (fun p => id) rfl⟩
  | recoverable path =>
      rw [perform, (Keeper.ReadOnly.recoverable? path).after]
      exact ⟨.refl k, opensOnly_of_drafts (fun p => id) rfl⟩

theorem edit_out_of_range_opens_file :
    let k := Session.sample.keeper
    let k' := Session.sampleEdited.keeper
    let edit : Operation := .edit "e" ⟨"p\\a", .insert 3 "!"⟩
    let start : Operation := .track "e" (.start "/p/z")
    (edit.failure? k = some (.outOfRange ⟨3, 2, .char⟩) ∧ k.Intact (edit.perform k) ∧
        (edit.perform k).drafts.get? "/p/a" = some ⟨"p.a", "/p", [104, 105], false⟩) ∧
      start.failure? k' = some (.missing "/p/z") ∧ k'.Intact (start.perform k') ∧
        (start.perform k').drafts.get? "/p/a" = some ⟨"p.a", "/p", [104, 105, 33], true⟩ ∧
        (start.perform k').drafts.get? "/p/z" = none := by
  intro k k' edit start
  have hedit : edit.failure? k = some (.outOfRange ⟨3, 2, .char⟩) := by decide +kernel
  have hstart : start.failure? k' = some (.missing "/p/z") := by decide +kernel
  obtain ⟨hk, hopens⟩ := failure_leaves_intact (by decide +kernel) hedit
  obtain ⟨hk', hnone⟩ := failure_leaves_intact (by decide +kernel) hstart
  have hrange : edit.OutOfRangeAt (.outOfRange ⟨3, 2, .char⟩) "/p/a" :=
    Path.normalize_eq_ok_iff.2 (by decide +kernel)
  refine ⟨⟨hedit, hk, ?_⟩, hstart, hk', ?_, ?_⟩
  · obtain ⟨file, hfile, hdraft⟩ := (hopens "/p/a" (by decide +kernel)).1 hrange
    obtain rfl : [104, 105] = file := Except.ok.inj ((by decide +kernel : _ = _).trans hfile)
    rw [hdraft]
    decide +kernel
  · exact hk'.drafts "/p/a" _ (by decide +kernel)
  · exact (hnone "/p/z" (by decide +kernel)).2 id

end Operation

end DraftKeeper
