import DraftKeeper.Proofs.Recovery

namespace DraftKeeper

namespace Keeper

/-- The drafts are the same, and every draft file that was there is there with its content. -/
def LosesNothing (k k' : Keeper) : Prop :=
  (∀ p, k'.drafts.get? p = k.drafts.get? p) ∧
    ∀ p l content, k.options.draftPlace? p = some l → k.workspace.disk.content? l = some content →
      k'.workspace.disk.content? l = some content

/-- The stop of a draft fails and leaves it tracked with its content, or it leaves that in the draft
file. -/
def KeptByStop (k : Keeper) (path p : String) (d : Draft) : Prop :=
  (∃ f k', stop path k = .error f k' ∧
      ∃ d', k'.drafts.get? p = some d' ∧ d'.content = d.content) ∨
    (after (stop path) k).Keeps p d

variable {k k' : Keeper} {old new : String} {f : Failure}

/-- A move that fails loses nothing exactly if it is not the storage that fails it. -/
theorem failed_move_loses_nothing_iff (h : move old new k = .error f k') :
    k.LosesNothing k' ↔ ∀ cause, f ≠ .storage cause := by
  rcases move_eq_error h with ⟨rfl, hf⟩ |
    ⟨source, target, draft, w, cause, -, -, hne, hd, rfl, rfl, -⟩
  · exact iff_of_true ⟨fun p => rfl, fun p l content _ hc => hc⟩ hf
  · refine iff_of_false ?_ fun hf => hf cause rfl
    rintro ⟨hdrafts, -⟩
    -- the old path is not tracked any more
    have hgone : ((k.rekeyed source target draft).withWorkspace w).drafts.get? source = none := by
      simp [rekeyed, withDrafts, withWorkspace, hne.symm]
    rw [hdrafts source, hd] at hgone
    cases hgone

end Keeper

namespace Session

theorem failed_moves_lose_something_and_nothing :
    let s := sampleEdited.after (.operation .sweep)
    (∃ f k, Keeper.move "/p/a" "/q/a" s.keeper = .error f k ∧ ¬ s.keeper.LosesNothing k) ∧
      ∃ f k, Keeper.move "/p/a" "/p/.." s.keeper = .error f k ∧ s.keeper.LosesNothing k := by
  intro s
  have hstorage := Keeper.eq_error_of_failure? (Keeper.move "/p/a" "/q/a") s.keeper
    (f := .storage (.projectUnavailable "/q")) (by decide +kernel)
  have hrefused := Keeper.eq_error_of_failure? (Keeper.move "/p/a" "/p/..") s.keeper
    (f := .invalidPath (.traversal "..")) (by decide +kernel)
  refine ⟨⟨_, _, hstorage, fun hl => ?_⟩, _, _, hrefused, ?_⟩
  · exact (Keeper.failed_move_loses_nothing_iff hstorage).1 hl _ rfl
  · exact (Keeper.failed_move_loses_nothing_iff hrefused).2 nofun

/-- A draft that was edited and swept is nowhere on the disk after a move into a project that does not
exist, and no sweep writes it again. -/
theorem move_to_missing_project_loses_draft_file :
    ∃ s f k, Reached (fun _ a => a.LeavesTree) sample s ∧
      Keeper.move "/p/a" "/q/a" s.keeper = .error f k ∧ ¬ s.keeper.LosesNothing k ∧
      s.keeper.workspace.disk.content? ["p", ".d", "p.a"] = some [104, 105, 33] ∧
      k.workspace.disk.content? ["p", ".d", "p.a"] = none ∧
      k.drafts.get? "/q/a" = some ⟨"q.a", "/q", [104, 105, 33], false⟩ ∧ k.sweep.1 = ⟨0, 0⟩ := by
  let s := sampleEdited.after (.operation .sweep)
  have hmove := Keeper.eq_error_of_failure? (Keeper.move "/p/a" "/q/a") s.keeper
    (f := .storage (.projectUnavailable "/q")) (by decide +kernel)
  have hthere : s.keeper.workspace.disk.content? ["p", ".d", "p.a"] = some [104, 105, 33] := by
    decide +kernel
  have hgone : (Keeper.after (Keeper.move "/p/a" "/q/a") s.keeper).workspace.disk.content?
      ["p", ".d", "p.a"] = none := by decide +kernel
  have hplace : s.keeper.options.draftPlace? "/p/a" = some ["p", ".d", "p.a"] := by decide +kernel
  have hr : Reached (fun _ a => a.LeavesTree) sample s :=
    .step (.step (.step .start trivial) trivial) trivial
  refine ⟨s, _, _, hr, hmove, ?_, hthere, hgone, by decide +kernel, by decide +kernel⟩
  rintro ⟨-, hfiles⟩
  cases hgone.symm.trans (hfiles "/p/a" _ _ hplace hthere)

variable {s : Session} {o : Options} {w : Workspace} {capacity : Nat} {clock : Time.Instant}
  {path p : String} {d : Draft}

/-- Where the file of a draft cannot be read a stop keeps the draft exactly if it fails: one that
succeeds leaves no draft file. -/
theorem stop_of_unreadable_keeps_iff (ht : w.disk.IsTree)
    (h : Reached (fun _ a => a.LeavesTree) (.new o w capacity clock) s)
    (hp : Path.normalize path = .ok p) (hd : s.keeper.drafts.get? p = some d)
    (hfile : ∀ file, s.keeper.workspace.read p ≠ .ok file) :
    s.keeper.KeptByStop path p d ↔ ∃ f k, Keeper.stop path s.keeper = .error f k := by
  rw [Keeper.KeptByStop]
  have htree := h.tree ht fun _ _ ha => ha
  have hfor := h.filed p d hd
  cases hstop : Keeper.stop path s.keeper with
  | error f k =>
      refine iff_of_true (.inl ⟨f, k, rfl, d, ?_, rfl⟩) ⟨f, k, rfl⟩
      rcases Keeper.stop_eq_error hstop with rfl | ⟨q, d', -, -, hs⟩
      · exact hd
      · obtain ⟨w', cause, rfl, -⟩ := Keeper.settled_eq_error hs
        exact hd
  | ok u k =>
      refine iff_of_false ?_ nofun
      rintro (⟨_, _, h, -⟩ | ⟨l, hl, hc⟩)
      · cases h
      rw [Keeper.after_of_ok hstop] at hl hc
      obtain ⟨k₁, hs, rfl⟩ := Keeper.stop_eq_ok_of_some hp hd hstop
      rcases Keeper.settled_eq_ok hs with ⟨ha, -⟩ | ⟨-, hdiscard⟩
      · obtain ⟨file, hread⟩ := Comparison.read_of_isAhead ha
        exact hfile file hread
      · rw [hfor.flat, hfor.project] at hdiscard
        obtain ⟨w', rfl, -⟩ := Keeper.discard_changes hdiscard
        have hgone := Options.gone_of_discard htree hfor.normal hl hdiscard
        cases hgone.symm.trans hc

/-- The disk of the sample, edited and swept, with these entries in the place of its file. -/
def diskWith (entries : List (Place × Entry)) : Disk :=
  ⟨[([], .folder 0o755), (["p"], .folder 0o755), (["p", ".d"], .folder 0o700),
    (["p", ".d", "p.a"], .file 0o600 [104, 105, 33])] ++ entries⟩

def sampleReplaced (entries : List (Place × Entry)) : Session :=
  (sampleEdited.after (.operation .sweep)).after (.outside (diskWith entries))

theorem reached_sampleReplaced {entries : List (Place × Entry)} (h : (diskWith entries).IsTree) :
    Reached (fun _ a => a.LeavesTree) sample (sampleReplaced entries) :=
  .step (.step (.step (.step .start trivial) trivial) trivial) h

theorem get?_sampleReplaced (entries : List (Place × Entry)) :
    (sampleReplaced entries).keeper.drafts.get? "/p/a" =
      some ⟨"p.a", "/p", [104, 105, 33], false⟩ := by
  rw [sampleReplaced, drafts_after_outside]
  decide +kernel

theorem read_sampleReplaced (entries : List (Place × Entry))
    (h : (diskWith entries).content? ["p", "a"] = none) (file : Bytes) :
    (sampleReplaced entries).keeper.workspace.read "/p/a" ≠ .ok file := by
  have hp : Path.normalize "/p/a" = .ok "/p/a" := Path.normalize_eq_ok_iff.2 (by decide)
  have hplace : Path.slashComponents "/p/a" = ["p", "a"] := by decide
  rw [ne_eq, Workspace.read_eq_ok_iff_content? hp, hplace, sampleReplaced, disk_after_outside, h]
  nofun

theorem stop_beside_folder_keeps_nothing :
    let s := sampleReplaced [(["p", "a"], .folder 0o755)]
    ∃ d, s.keeper.drafts.get? "/p/a" = some d ∧ ¬ s.keeper.KeptByStop "/p/a" "/p/a" d := by
  intro s
  have hr : Reached (fun _ a => a.LeavesTree) sample s := reached_sampleReplaced (by decide +kernel)
  have hp : Path.normalize "/p/a" = .ok "/p/a" := Path.normalize_eq_ok_iff.2 (by decide +kernel)
  have hd := get?_sampleReplaced [(["p", "a"], .folder 0o755)]
  have hfile := read_sampleReplaced [(["p", "a"], .folder 0o755)] (by decide +kernel)
  refine ⟨_, hd, fun hkept => ?_⟩
  obtain ⟨f, k, hstop⟩ := (stop_of_unreadable_keeps_iff (by decide +kernel) hr hp hd hfile).1 hkept
  obtain ⟨u, hok⟩ := Keeper.eq_ok_of_failure? (Keeper.stop "/p/a") s.keeper (by decide +kernel)
  cases hok.symm.trans hstop

/-- A draft that was edited and swept is nowhere, on the disk or in the keeper, once its file was removed
and it was stopped. -/
theorem stop_of_removed_file_loses_draft :
    ∃ s d, Reached (fun _ a => a.LeavesTree) sample s ∧
      s.keeper.drafts.get? "/p/a" = some d ∧ d.text = "hi!" ∧
      (∀ file, s.keeper.workspace.read "/p/a" ≠ .ok file) ∧ s.keeper.Keeps "/p/a" d ∧
      ¬ s.keeper.KeptByStop "/p/a" "/p/a" d := by
  let s := sampleReplaced []
  have hplace : s.keeper.options.draftPlace? "/p/a" = some ["p", ".d", "p.a"] := by decide +kernel
  have hgone : (Keeper.after (Keeper.stop "/p/a") s.keeper).workspace.disk.content?
      ["p", ".d", "p.a"] = none := by decide +kernel
  have hafter : (Keeper.after (Keeper.stop "/p/a") s.keeper).options = s.keeper.options := by
    decide +kernel
  obtain ⟨u, hok⟩ := Keeper.eq_ok_of_failure? (Keeper.stop "/p/a") s.keeper (by decide +kernel)
  refine ⟨s, _, reached_sampleReplaced (by decide +kernel), get?_sampleReplaced [],
    by decide +kernel, read_sampleReplaced [] (by decide +kernel), ⟨_, hplace, by decide +kernel⟩, ?_⟩
  rintro (⟨f, k, hstop, -⟩ | ⟨l, hl, hc⟩)
  · cases hok.symm.trans hstop
  · rw [hafter, hplace] at hl
    obtain rfl := Option.some.inj hl
    cases hgone.symm.trans hc

end Session

end DraftKeeper
