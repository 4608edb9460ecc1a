import DraftKeeper.Proofs.EventResults
import DraftKeeper.Proofs.PreparedFolders

namespace DraftKeeper

namespace Keeper

section Equations

variable {α β : Type}

/-- Work in the draft folder of a project, which is made if it is missing. -/
def inFolder (project : String) (work : DraftFolder → Storing α) : Keeping α := fun k =>
  storing (DraftFolder.ensure k.options.folder project >>= work) k

theorem storing_bind (work : Storing α) (next : α → Storing β) :
    storing (work >>= next) = storing work >>= fun a => storing (next a) := by
  funext k
  cases h : work k.workspace with
  | ok a w =>
      rw [bind_of_ok _ (storing_eq_ok.2 ⟨w, h, rfl⟩), storing, storing, bind_of_ok _ h]
      rfl
  | error e w =>
      rw [bind_eq_error.2 (.inl (storing_eq_error.2 ⟨e, w, h, rfl, rfl⟩)),
        storing_eq_error.2 ⟨e, w, bind_eq_error.2 (.inl h), rfl, rfl⟩]

theorem bind_congr_run {work work' : Keeping α} {next : α → Keeping β} {k : Keeper} (h : work k = work' k) :
    (work >>= next) k = (work' >>= next) k := by
  simp only [bind, EStateM.bind, h]

theorem inFolder_eq (project : String) (work : DraftFolder → Storing α) :
    inFolder project work = (do
      let folder ← ensureFolder project
      storing (work folder)) := by
  funext k
  rw [inFolder, storing_bind, bind_congr_run (ensureFolder_eq project k)]

theorem create_eq (p : String) : create p = (do
    match ← ask fun w => w.file? p with
    | none => throw (.missing p)
    | some file =>
      let content ← ask fun w => w.read p
      inFolder file.project fun folder => folder.writeNew (Path.flatten p) content
      let draft := Draft.new (Path.flatten p) file.project content
      keep p draft
      return draft) := by
  rw [create]
  refine bind_congr fun item => ?_
  cases item with
  | none => rfl
  | some file =>
      refine bind_congr fun content => ?_
      simp only [inFolder_eq, bind_assoc, DraftFolder.writeNew, storing_bind, Draft.new]
      refine bind_congr fun folder => bind_congr fun found => ?_
      cases found with
      | true => rfl
      | false => rfl

theorem write_eq (draft : Draft) : write draft = (do
    let folder ← inFolder draft.project fun folder => do
      folder.write draft.flat draft.content
      return folder
    return folder.location (← get).workspace draft.flat) := by
  rw [write]
  simp only [inFolder_eq, bind_assoc, storing_bind]
  exact bind_congr fun folder => bind_congr fun _ => rfl

theorem discard_eq (project flat : String) (k : Keeper) :
    discard project flat k = storing (DraftFolder.drop k.options.folder project flat) k := by
  rw [discard, DraftFolder.drop, storing_bind, bind_congr_run (findFolder?_eq project k)]
  refine congrFun (bind_congr fun found => ?_) k
  cases found with
  | some folder => rfl
  | none => rfl

end Equations

/-- Two keepers that work on the same drafts of some paths, in workspaces that are related. -/
structure Alongside (R : Workspace → Workspace → Prop) (ps : String → Prop) (k k' : Keeper) : Prop where
  options : k'.options = k.options
  workspace : R k.workspace k'.workspace
  drafts : ∀ p, ps p → k'.drafts.get? p = k.drafts.get? p

/-- What related workspaces have in common for the draft of a path: work on its draft file that asks for the
folder first is the same in both. -/
structure WorkAlike (R : Workspace → Workspace → Prop) (o : Options) (p : String) : Prop where
  normal : Path.normalize p = .ok p
  root : ∀ w w', R w w' → w'.root = w.root
  inFolder : ∀ {α : Type} (work : DraftFolder → Storing α), (∀ folder : DraftFolder,
    DraftFolder.path? o.folder ((Path.project? p).getD "/") = some folder.path →
      o.LocalWork p (· = o.filePlace p) (work folder)) →
    Respects R (DraftFolder.ensure o.folder ((Path.project? p).getD "/") >>= work)

variable {R : Workspace → Workspace → Prop} {ps : String → Prop} {k k' : Keeper} {p path endpoint : String}
  {draft : Draft} {e : Edit}

namespace Alongside

theorem put (h : Alongside R ps k k') (p : String) (draft : Draft) : Alongside R ps
    (k.withDrafts (k.drafts.put p draft)) (k'.withDrafts (k'.drafts.put p draft)) := by
  refine ⟨h.options, h.workspace, fun q hq => ?_⟩
  simp only [withDrafts, Drafts.get?_put, h.drafts q hq]

theorem erase (h : Alongside R ps k k') (p : String) : Alongside R ps
    (k.withDrafts (k.drafts.erase p)) (k'.withDrafts (k'.drafts.erase p)) := by
  refine ⟨h.options, h.workspace, fun q hq => ?_⟩
  simp only [withDrafts, Drafts.get?_erase, h.drafts q hq]

theorem storing {α : Type} {work : Storing α} (h : Alongside R ps k k')
    (hw : EndAlike R (work k.workspace) (work k'.workspace)) :
    EndAlike (Alongside R ps) (storing work k) (storing work k') := by
  cases hs : work k.workspace with
  | ok a w =>
      obtain ⟨w', hs', hR⟩ := hw.of_ok hs
      rw [storing_eq_ok.2 ⟨w, hs, rfl⟩, storing_eq_ok.2 ⟨w', hs', rfl⟩]
      exact .ok a ⟨h.options, hR, h.drafts⟩
  | error e w =>
      obtain ⟨w', hs', hR⟩ := hw.of_error hs
      rw [storing_eq_error.2 ⟨e, w, hs, rfl, rfl⟩, storing_eq_error.2 ⟨e, w', hs', rfl, rfl⟩]
      exact .error _ ⟨h.options, hR, h.drafts⟩

theorem ask {α : Type} {f : Workspace → Except ItemError α} (h : Alongside R ps k k')
    (hf : f k'.workspace = f k.workspace) : EndAlike (Alongside R ps) (ask f k) (ask f k') :=
  h.storing (Storing.ask_alike h.workspace hf)

theorem inFolder {α : Type} {work : DraftFolder → Storing α} (h : Alongside R ps k k')
    (hw : WorkAlike R k.options p) (hwork : ∀ folder : DraftFolder,
      DraftFolder.path? k.options.folder ((Path.project? p).getD "/") = some folder.path →
        k.options.LocalWork p (· = k.options.filePlace p) (work folder)) :
    EndAlike (Alongside R ps) (inFolder ((Path.project? p).getD "/") work k)
      (inFolder ((Path.project? p).getD "/") work k') := by
  rw [Keeper.inFolder, Keeper.inFolder, h.options]
  exact h.storing (hw.inFolder work hwork _ _ h.workspace)

end Alongside

theorem write_alike (h : Alongside R ps k k') (hw : WorkAlike R k.options p) (hd : draft.IsFor p) :
    EndAlike (Alongside R ps) (write draft k) (write draft k') := by
  rw [write_eq, hd.project, hd.flat]
  refine (h.inFolder hw fun folder hfolder => ?_).bind fun folder k₁ k₁' _ _ h₁ => ?_
  · exact .bind (DraftFolder.localWork_write hw.normal hfolder _) fun _ _ _ _ => .pure folder
  · have hlocation : folder.location k₁'.workspace (Path.flatten p) =
        folder.location k₁.workspace (Path.flatten p) := by
      rw [DraftFolder.location, DraftFolder.location, Workspace.location, Workspace.location,
        hw.root _ _ h₁.workspace]
    have hend : EndAlike (Alongside R ps)
        (EStateM.Result.ok (ε := Failure) (folder.location k₁.workspace (Path.flatten p)) k₁)
        (.ok (folder.location k₁'.workspace (Path.flatten p)) k₁') := by
      rw [hlocation]
      exact .ok _ h₁
    exact hend

theorem save_alike (h : Alongside R ps k k') (hw : WorkAlike R k.options p) (hd : draft.IsFor p) :
    EndAlike (Alongside R ps) (save p draft k) (save p draft k') :=
  (write_alike h hw hd).bind fun location _ _ _ _ h₁ => .ok location (h₁.put p draft.clean)

/-- Looking at a file and at its content comes to the same. -/
structure SeenAlike (p : String) (w w' : Workspace) : Prop where
  file? : w'.file? p = w.file? p
  read : w'.read p = w.read p

theorem create_alike (h : Alongside R ps k k') (hw : WorkAlike R k.options p)
    (hsee : SeenAlike p k.workspace k'.workspace) :
    EndAlike (Alongside R ps) (create p k) (create p k') := by
  rw [create_eq]
  refine (h.ask hsee.file?).bind fun item k₁ k₁' hi hi' h => ?_
  obtain ⟨hitem, rfl⟩ := ask_eq_ok.1 hi
  obtain ⟨-, rfl⟩ := ask_eq_ok.1 hi'
  cases item with
  | none => exact .error _ h
  | some item =>
      obtain ⟨_, _, hr, hproject, -⟩ := Workspace.file?_eq_some hitem
      rw [Except.ok.inj (hw.normal.symm.trans (Workspace.resolve_eq_ok_iff.1 hr).1).symm] at hproject
      refine (h.ask hsee.read).bind fun content k₁ k₁' hc hc' h => ?_
      obtain ⟨-, rfl⟩ := ask_eq_ok.1 hc
      obtain ⟨-, rfl⟩ := ask_eq_ok.1 hc'
      rw [hproject]
      refine (h.inFolder hw fun folder hfolder => ?_).bind fun _ k₁ k₁' _ _ h₁ => ?_
      · exact DraftFolder.localWork_writeNew hw.normal hfolder content
      · exact .ok _ (h₁.put p _)

theorem opened_alike (h : Alongside R ps k k') (hp : ps p) (hw : WorkAlike R k.options p)
    (hsee : SeenAlike p k.workspace k'.workspace) :
    EndAlike (Alongside R ps) (opened p k) (opened p k') := by
  have hd := h.drafts p hp
  cases hk : k.drafts.get? p with
  | some draft =>
      rw [opened_of_some hk, opened_of_some (hd.trans hk)]
      exact .ok draft h
  | none =>
      rw [opened_of_none hk, opened_of_none (hd.trans hk)]
      exact create_alike h hw hsee

theorem normalized_alike (h : Alongside R ps k k') (path : String) :
    EndAlike (Alongside R ps) (normalized path k) (normalized path k') := by
  rw [normalized, normalized]
  cases Path.normalize path with
  | ok p => exact .ok p h
  | error cause => exact .error _ h

theorem applied_alike (h : Alongside R ps k k') (endpoint : String) (e : Edit) (p : String) (draft : Draft) :
    EndAlike (Alongside R ps) (applied endpoint e p draft k) (applied endpoint e p draft k') := by
  rw [applied, bind_of_ok _ (get_eq k), bind_of_ok _ (get_eq k'), h.options]
  rcases draft.apply e.delta k.options.unit with cause | _ | changed
  · exact .error _ h
  · exact .ok _ h
  · have hput := h.put p changed
    exact .ok true ⟨hput.options, hput.workspace, hput.drafts⟩

theorem isAhead_alike (h : Alongside R ps k k') (hp : ps p)
    (hsee : SeenAlike p k.workspace k'.workspace) : Comparison.isAhead k'.workspace k'.drafts p =
      Comparison.isAhead k.workspace k.drafts p := by
  rw [Comparison.isAhead, Comparison.isAhead, h.drafts p hp, Comparison.fileContent?,
    Comparison.fileContent?, hsee.file?, hsee.read]

def DropAlike (R : Workspace → Workspace → Prop) (o : Options) (p : String) (w w' : Workspace) : Prop :=
  EndAlike R (DraftFolder.drop o.folder ((Path.project? p).getD "/") (Path.flatten p) w)
    (DraftFolder.drop o.folder ((Path.project? p).getD "/") (Path.flatten p) w')

theorem discard_alike (h : Alongside R ps k k') (hd : draft.IsFor p)
    (hdrop : DropAlike R k.options p k.workspace k'.workspace) :
    EndAlike (Alongside R ps) (discard draft.project draft.flat k) (discard draft.project draft.flat k') := by
  rw [discard_eq, discard_eq, h.options, hd.project, hd.flat]
  exact h.storing hdrop

theorem settled_alike (h : Alongside R ps k k') (hp : ps p) (hw : WorkAlike R k.options p)
    (hd : draft.IsFor p) (hsee : SeenAlike p k.workspace k'.workspace)
    (hdrop : DropAlike R k.options p k.workspace k'.workspace) :
    EndAlike (Alongside R ps) (settled p draft k) (settled p draft k') := by
  rw [settled, bind_of_ok _ (get_eq k), bind_of_ok _ (get_eq k'), isAhead_alike h hp hsee]
  split
  · exact (write_alike h hw hd).bind fun _ _ _ _ _ h₁ => .ok () h₁
  · exact discard_alike h hd hdrop

/-- What an event needs to come to the same in two workspaces, for one of its paths. -/
structure PathAlike (R : Workspace → Workspace → Prop) (k : Keeper) (p : String) (w' : Workspace) : Prop where
  work : WorkAlike R k.options p
  see : SeenAlike p k.workspace w'
  drop : ∀ draft, k.drafts.get? p = some draft → DropAlike R k.options p k.workspace w'

section Events

variable (h : Alongside R ps k k')

include h

theorem start_alike (hps : ∀ p, Path.normalize path = .ok p → ps p ∧ PathAlike R k p k'.workspace) :
    EndAlike (Alongside R ps) (start path k) (start path k') := by
  rw [start_eq]
  refine (normalized_alike h path).bind fun p k₁ k₁' hn hn' h => ?_
  obtain ⟨hp, rfl⟩ := normalized_eq_ok.1 hn
  obtain ⟨-, rfl⟩ := normalized_eq_ok.1 hn'
  obtain ⟨hp, halike⟩ := hps p hp
  exact (opened_alike h hp halike.work halike.see).bind fun _ _ _ _ _ h₁ => .ok () h₁

theorem edit_alike (hps : ∀ p, Path.normalize e.location = .ok p → ps p ∧ PathAlike R k p k'.workspace) :
    EndAlike (Alongside R ps) (edit endpoint e k) (edit endpoint e k') := by
  rw [edit_eq]
  refine (normalized_alike h e.location).bind fun p k₁ k₁' hn hn' h => ?_
  obtain ⟨hp, rfl⟩ := normalized_eq_ok.1 hn
  obtain ⟨-, rfl⟩ := normalized_eq_ok.1 hn'
  obtain ⟨hp, halike⟩ := hps p hp
  exact (opened_alike h hp halike.work halike.see).bind fun draft _ _ _ _ h₁ =>
    applied_alike h₁ endpoint e p draft

theorem stop_alike (hk : k.Filed)
    (hps : ∀ p, Path.normalize path = .ok p → ps p ∧ PathAlike R k p k'.workspace) :
    EndAlike (Alongside R ps) (stop path k) (stop path k') := by
  cases hn : Path.normalize path with
  | error cause =>
      have herror (k : Keeper) : stop path k = .error (.invalidPath cause) k := by
        rw [stop]
        exact bind_eq_error.2 (.inl (normalized_eq_error.2 ⟨⟨cause, hn, rfl⟩, rfl⟩))
      rw [herror, herror]
      exact .error _ h
  | ok p =>
      obtain ⟨hp, halike⟩ := hps p hn
      have hd := h.drafts p hp
      cases hkd : k.drafts.get? p with
      | none =>
          rw [stop_of_none hn hkd, stop_of_none hn (hd.trans hkd)]
          exact .ok () h
      | some draft =>
          rw [stop_of_some hn hkd, stop_of_some hn (hd.trans hkd)]
          refine (settled_alike h hp halike.work (hk p draft hkd) halike.see (halike.drop draft hkd)).bind ?_
          exact fun _ _ _ _ _ h₁ => .ok () (h₁.erase p)

theorem move_alike {old new : String} (hk : k.Filed)
    (hps : ∀ p, Path.Named [old, new] p → ps p ∧ PathAlike R k p k'.workspace) :
    EndAlike (Alongside R ps) (move old new k) (move old new k') := by
  cases hs : Path.normalize old with
  | error cause =>
      rw [move_of_invalid_source hs, move_of_invalid_source hs]
      exact .error _ h
  | ok source =>
      obtain ⟨hsource, hsourceAlike⟩ := hps source ⟨old, by simp, hs⟩
      have hds := h.drafts source hsource
      cases ht : Path.normalize new with
      | error cause =>
          rw [move_of_invalid_target hs ht, move_of_invalid_target hs ht]
          exact .error _ h
      | ok target =>
          obtain ⟨htarget, htargetAlike⟩ := hps target ⟨new, by simp, ht⟩
          have hdt := h.drafts target htarget
          by_cases hne : source = target
          · subst hne
            rw [move_onto_itself hs ht, move_onto_itself hs ht]
            exact .ok () h
          cases hd : k.drafts.get? source with
          | none =>
              rw [move_of_none hs ht hd, move_of_none hs ht (hds.trans hd)]
              exact .ok () h
          | some draft =>
              cases hthere : k.drafts.get? target with
              | some there =>
                  rw [move_of_conflict hs ht hne hd hthere,
                    move_of_conflict hs ht hne (hds.trans hd) (hdt.trans hthere)]
                  exact .error _ h
              | none =>
                  rw [move_of_some hs ht hne hd hthere,
                    move_of_some hs ht hne (hds.trans hd) (hdt.trans hthere), relocated]
                  have hrekeyed : Alongside R ps (k.rekeyed source target draft)
                      (k'.rekeyed source target draft) := (h.erase source).put target _
                  have hdiscard := discard_alike hrekeyed (hk source draft hd)
                    (hsourceAlike.drop draft hd)
                  refine hdiscard.bind fun _ k₁ k₁' hk₁ _ h₁ => ?_
                  obtain ⟨w, rfl, -⟩ := discard_changes hk₁
                  have hfor : (draft.movedTo target).IsFor target :=
                    .movedTo draft (Path.normalize_of_normalize ht)
                  exact (save_alike h₁ htargetAlike.work hfor).bind fun _ _ _ _ _ h₂ => .ok () h₂

omit h in
theorem attempt_alike {α : Type} {work : Keeping α} (endpoint : String)
    (hw : EndAlike (Alongside R ps) (work k) (work k')) :
    Alongside R ps (attempt endpoint work k) (attempt endpoint work k') := by
  rw [attempt, attempt]
  cases hs : work k with
  | ok a k₁ =>
      obtain ⟨k₁', hs', h⟩ := hw.of_ok hs
      rw [hs']
      exact h
  | error f k₁ =>
      obtain ⟨k₁', hs', h⟩ := hw.of_error hs
      rw [hs']
      exact ⟨h.options, h.workspace, h.drafts⟩

theorem track_alike {signal : Tracking} (hk : k.Filed)
    (hps : ∀ p, Path.Named signal.paths p → ps p ∧ PathAlike R k p k'.workspace) :
    EndAlike (Alongside R ps) (track signal k) (track signal k') := by
  cases signal with
  | start path => exact start_alike h fun p hp => hps p ⟨path, List.mem_singleton_self path, hp⟩
  | stop path => exact stop_alike h hk fun p hp => hps p ⟨path, List.mem_singleton_self path, hp⟩
  | move old new => exact move_alike h hk hps
  | suspend path | resume path => exact .ok () h

end Events

end Keeper

namespace Event

open Keeper

theorem handle_alike {R : Workspace → Workspace → Prop} {ps : String → Prop} {k k' : Keeper} {e : Event}
    (h : Alongside R ps k k') (hk : k.Filed)
    (hps : ∀ p, Path.Named e.paths p → ps p ∧ PathAlike R k p k'.workspace) :
    e.result k' = e.result k ∧ Alongside R ps (e.handle k) (e.handle k') := by
  cases e with
  | tracking endpoint signal =>
      have hend := track_alike h hk hps
      refine ⟨?_, attempt_alike endpoint hend⟩
      rw [result, result]
      cases hs : Keeper.track signal k with
      | ok u k₁ =>
          obtain ⟨k₁', hs', -⟩ := hend.of_ok hs
          rw [hs']
      | error f k₁ =>
          obtain ⟨k₁', hs', -⟩ := hend.of_error hs
          rw [hs']
  | edited endpoint edit =>
      have hend : EndAlike (Alongside R ps) (Keeper.edit endpoint edit k) (Keeper.edit endpoint edit k') :=
        edit_alike h fun p hp => hps p ⟨edit.location, List.mem_singleton_self _, hp⟩
      refine ⟨?_, attempt_alike endpoint hend⟩
      rw [result, result]
      cases hs : Keeper.edit endpoint edit k with
      | ok changed k₁ =>
          obtain ⟨k₁', hs', -⟩ := hend.of_ok hs
          rw [hs']
      | error f k₁ =>
          obtain ⟨k₁', hs', -⟩ := hend.of_error hs
          rw [hs']

end Event

end DraftKeeper
