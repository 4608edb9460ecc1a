import DraftKeeper.Proofs.Confinement

namespace DraftKeeper

/-- The failures in which work can end that begins in a state are all of one sort. -/
def FailsAt {ε σ α : Type} (sort : ε → Prop) (work : EStateM ε σ α) (s : σ) : Prop :=
  ∀ e t, work s = .error e t → sort e

namespace FailsAt

variable {ε σ α β : Type} {sort sort' : ε → Prop} {work : EStateM ε σ α} {s : σ}

theorem bind {next : α → EStateM ε σ β} (h : FailsAt sort work s)
    (hn : ∀ a t, work s = .ok a t → FailsAt sort (next a) t) : FailsAt sort (work >>= next) s := by
  intro e t he
  rcases bind_eq_error.1 he with he | ⟨a, t', ha, he⟩
  · exact h e t he
  · exact hn a t' ha e t he

theorem of_ok {a : α} {t : σ} (h : work s = .ok a t) : FailsAt sort work s := by
  intro e t' he
  cases h.symm.trans he

theorem of_error {e : ε} {t : σ} (h : work s = .error e t) (he : sort e) : FailsAt sort work s := by
  intro e' t' he'
  cases h.symm.trans he'
  exact he

theorem of_eq {work' : EStateM ε σ α} {s' : σ} (h : work s = work' s') (hw : FailsAt sort work' s') :
    FailsAt sort work s :=
  fun e t he => hw e t (h.symm.trans he)

theorem pure (a : α) : FailsAt sort (pure a) s := .of_ok rfl

theorem throw {e : ε} (h : sort e) : FailsAt sort (throw e : EStateM ε σ α) s := .of_error rfl h

theorem mono (h : FailsAt sort work s) (hs : ∀ e, sort e → sort' e) : FailsAt sort' work s :=
  fun e t he => hs e (h e t he)

end FailsAt

def ItemError.NotMissing (e : ItemError) : Prop := ∀ path, e ≠ .notFound path

def DraftFolderError.NotMissing (e : DraftFolderError) : Prop := ∀ path, e ≠ .item (.notFound path)

theorem ItemError.NotMissing.item {e : ItemError} (h : e.NotMissing) :
    (DraftFolderError.item e).NotMissing := fun path heq => h path (DraftFolderError.item.inj heq)

theorem Disk.isFolder_of_write_missing {d : Disk} {p : Place} {content : Bytes}
    (h : d.write p content = .error .missing) : d.isFolder p.dropLast = false := by
  rw [write] at h
  cases hl : d.locate p with
  | ok e => cases e <;> simp [hl] at h
  | error f =>
      cases f with
      | missing =>
          simp only [hl] at h
          by_cases hf : d.isFolder p.dropLast = true
          · rw [if_pos hf] at h
            cases h
          · simpa using hf
      | _ => simp [hl] at h

namespace Workspace

variable {w : Workspace} {path p : String} {place : Place} {e : ItemError} {content : Bytes}

theorem notMissing_system (p : String) (f : Fault) : (system p f).NotMissing := by
  intro q h
  cases h

theorem notMissing_resolve (h : resolve path = .error e) : e.NotMissing := by
  intro q hq
  rw [resolve] at h
  cases hp : Path.normalize path with
  | ok p => simp [hp] at h
  | error cause =>
      rw [hp] at h
      cases hq.symm.trans (Except.error.inj h).symm

theorem notMissing_bind_resolve {α : Type} {next : String × Place → Except ItemError α}
    (hn : ∀ r e, next r = .error e → e.NotMissing) (h : resolve path >>= next = .error e) :
    e.NotMissing := by
  cases hr : resolve path with
  | error cause =>
      rw [hr] at h
      obtain rfl := Except.error.inj h
      exact notMissing_resolve hr
  | ok r =>
      rw [hr] at h
      exact hn r e h

theorem notMissing_projectBase? (h : w.projectBase? path = .error e) : e.NotMissing := by
  refine notMissing_bind_resolve (fun r e hr => ?_) h
  obtain ⟨p, place⟩ := r
  rcases hl : w.disk.locate place with f | entry
  · cases f <;> simp only [hl] at hr <;> cases hr <;> exact notMissing_system _ _
  · cases entry <;> simp only [hl] at hr <;> cases hr

theorem notMissing_folder? (h : w.folder? path = .error e) : e.NotMissing := by
  refine notMissing_bind_resolve (fun r e hr => ?_) h
  obtain ⟨p, place⟩ := r
  rcases hl : w.disk.locate place with f | entry
  · cases f <;> simp only [hl] at hr <;> cases hr <;> exact notMissing_system _ _
  · cases entry <;> simp only [hl] at hr <;> cases hr
    exact fun q hq => nomatch hq

theorem notMissing_file? (h : w.file? path = .error e) : e.NotMissing := by
  refine notMissing_bind_resolve (fun r e hr => ?_) h
  obtain ⟨p, place⟩ := r
  rcases hl : w.disk.locate place with f | entry
  · cases f <;> simp only [hl] at hr <;> cases hr <;> exact notMissing_system _ _
  · cases entry <;> simp only [hl] at hr <;> cases hr
    exact fun q hq => nomatch hq

theorem notMissing_remove (h : w.remove path = .error e) : e.NotMissing := by
  refine notMissing_bind_resolve (fun r e hr => ?_) h
  obtain ⟨p, place⟩ := r
  rcases hd : w.disk.remove place with f | disk
  · cases f <;> simp only [hd] at hr <;> cases hr <;> exact notMissing_system _ _
  · simp only [hd] at hr
    cases hr

theorem notMissing_restrict (h : w.restrict path = .error e) : e.NotMissing := by
  refine notMissing_bind_resolve (fun r e hr => ?_) h
  obtain ⟨p, place⟩ := r
  simp only at hr
  generalize w.disk.restrict _ place (w.location p) = result at hr
  cases result with
  | ok disk => cases hr
  | error cause =>
      cases hr
      exact fun q hq => nomatch hq

theorem notMissing_makeFolder (h : (w.makeFolder path).1 = .error e) : e.NotMissing := by
  rw [makeFolder] at h
  cases hr : resolve path with
  | error cause =>
      simp only [hr] at h
      obtain rfl := Except.error.inj h
      exact notMissing_resolve hr
  | ok r =>
      simp only [hr] at h
      split at h
      · cases h
      · cases h
        exact notMissing_system _ _

theorem notMissing_write (hr : resolve path = .ok (p, place)) (hf : w.disk.isFolder place.dropLast = true)
    (h : w.write path content = .error e) : e.NotMissing := by
  cases hw : w.disk.write place content with
  | ok disk => simp [write, hr, hw, bind, Except.bind, Except.mapError, pure, Except.pure] at h
  | error f =>
      obtain rfl : missingOr p f = e := by
        simpa [write, hr, hw, bind, Except.bind, Except.mapError] using h
      intro q hq
      cases f with
      | missing =>
          rw [Disk.isFolder_of_write_missing hw] at hf
          cases hf
      | _ => cases hq

end Workspace

namespace Storing

variable {w : Workspace}

theorem failsAt_ask {α : Type} {f : Workspace → Except ItemError α}
    (h : ∀ e, f w = .error e → e.NotMissing) : FailsAt DraftFolderError.NotMissing (ask f) w := by
  intro e w' he
  obtain ⟨⟨cause, hf, rfl⟩, -⟩ := ask_eq_error.1 he
  exact (h cause hf).item

theorem failsAt_change {f : Workspace → Except ItemError Workspace}
    (h : ∀ e, f w = .error e → e.NotMissing) : FailsAt DraftFolderError.NotMissing (change f) w := by
  intro e w' he
  obtain ⟨⟨cause, hf, rfl⟩, -⟩ := change_eq_error.1 he
  exact (h cause hf).item

theorem failsAt_makeFolder (path : String) : FailsAt DraftFolderError.NotMissing (makeFolder path) w := by
  intro e w' he
  rw [makeFolder] at he
  split at he
  · cases he
  · next cause w'' hm =>
      cases he
      have hcause : (w.makeFolder path).1 = .error cause := by rw [hm]
      exact (Workspace.notMissing_makeFolder hcause).item

theorem failsAt_restrictAlong (base : String) (names : List String) :
    FailsAt DraftFolderError.NotMissing (restrictAlong base names) w := by
  induction names generalizing base w with
  | nil => exact .pure ()
  | cons name names ih =>
      rw [restrictAlong]
      refine .bind (failsAt_change fun e he => Workspace.notMissing_restrict he) ?_
      exact fun u w' _ => ih (Path.join base name)

end Storing

namespace DraftFolder

variable {w : Workspace} {folder : DraftFolder} {p : String}

theorem failsAt_find? (name project : String) :
    FailsAt DraftFolderError.NotMissing (find? name project) w := by
  rw [find?]
  refine .bind (Storing.failsAt_ask fun e he => Workspace.notMissing_projectBase? he) fun base w' _ => ?_
  cases base with
  | none => exact .pure none
  | some base =>
      refine .bind (Storing.failsAt_ask fun e he => Workspace.notMissing_folder? he) ?_
      exact fun found w' _ => .pure _

theorem failsAt_ensure (name project : String) :
    FailsAt DraftFolderError.NotMissing (ensure name project) w := by
  rw [ensure]
  refine .bind (failsAt_find? name project) fun found w' _ => ?_
  cases found with
  | some folder => exact .pure folder
  | none =>
      simp only [create]
      refine .bind (Storing.failsAt_ask fun e he => Workspace.notMissing_projectBase? he) fun base w' _ => ?_
      cases base with
      | none =>
          refine .throw ?_
          rintro path ⟨⟩
      | some base =>
          refine .bind (Storing.failsAt_makeFolder _) fun path w' _ => ?_
          exact .bind (Storing.failsAt_restrictAlong base _) fun u w' _ => .pure _

theorem failsAt_contains (flat : String) :
    FailsAt DraftFolderError.NotMissing (folder.contains flat) w := by
  rw [contains]
  refine .bind (Storing.failsAt_ask fun e he => Workspace.notMissing_file? he) ?_
  exact fun found w' _ => .pure _

theorem failsAt_delete (flat : String) : FailsAt DraftFolderError.NotMissing (folder.delete flat) w :=
  Storing.failsAt_change fun _ he => Workspace.notMissing_remove he

theorem failsAt_write {o : Options} (hp : Path.normalize p = .ok p)
    (hfolder : path? o.folder ((Path.project? p).getD "/") = some folder.path)
    (hf : w.disk.isFolder (Path.slashComponents folder.path) = true) (content : Bytes) :
    FailsAt DraftFolderError.NotMissing (folder.write (Path.flatten p) content) w := by
  rw [write]
  refine .bind (Storing.failsAt_change fun e he => ?_) fun u w' _ => ?_
  · cases hr : Workspace.resolve (folder.filePath (Path.flatten p)) with
    | error cause =>
        simp only [Workspace.write, hr, bind, Except.bind] at he
        obtain rfl := Except.error.inj he
        exact Workspace.notMissing_resolve hr
    | ok r =>
        obtain ⟨q, place⟩ := r
        -- a write misses nothing but the folder, and that is the draft folder
        refine Workspace.notMissing_write hr ?_ he
        have hplace := Workspace.ofName?_eq_some_iff.2 ⟨q, hr⟩
        rw [Options.filePlace_of_path? hp hfolder hplace, Options.filePlace, List.dropLast_concat,
          ← slashComponents_of_path? hfolder]
        exact hf
  · exact Storing.failsAt_change fun e he => Workspace.notMissing_restrict he

end DraftFolder

end DraftKeeper
