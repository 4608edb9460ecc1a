import DraftKeeper.Keeper
import DraftKeeper.Proofs.DraftFolders

namespace DraftKeeper

def Options.draftPlace? (o : Options) (path : String) : Option Place :=
  DraftFolder.place? o.folder ((Path.project? path).getD "/") (Path.flatten path)

def Draft.movedTo (d : Draft) (path : String) : Draft :=
  d.rename (Path.flatten path) ((Path.project? path).getD d.project)

namespace Keeper

variable {k k' : Keeper} {path p : String} {f : Failure} {draft : Draft}

def withWorkspace (k : Keeper) (w : Workspace) : Keeper := { k with workspace := w }

def withDrafts (k : Keeper) (o : Drafts) : Keeper := { k with drafts := o }

section Parts

theorem normalized_eq_ok :
    normalized path k = .ok p k' ↔ Path.normalize path = .ok p ∧ k = k' := by
  unfold normalized
  cases Path.normalize path <;> simp

theorem normalized_eq_error :
    normalized path k = .error f k' ↔
      (∃ cause, Path.normalize path = .error cause ∧ f = .invalidPath cause) ∧ k = k' := by
  rw [normalized]
  cases Path.normalize path <;> simp [eq_comm]

theorem storing_eq_ok {α : Type} {work : Storing α} {a : α} : storing work k = .ok a k' ↔
    ∃ w, work k.workspace = .ok a w ∧ k' = k.withWorkspace w := by
  rw [storing]
  cases work k.workspace <;> simp [withWorkspace, eq_comm]

theorem storing_eq_error {α : Type} {work : Storing α} : storing work k = .error f k' ↔
    ∃ cause w, work k.workspace = .error cause w ∧ f = .storage cause ∧ k' = k.withWorkspace w := by
  rw [storing]
  cases work k.workspace <;> simp [withWorkspace, eq_comm]

theorem ask_eq_ok {α : Type} {g : Workspace → Except ItemError α} {a : α} :
    ask g k = .ok a k' ↔ g k.workspace = .ok a ∧ k = k' := by
  simp only [ask, storing_eq_ok, Storing.ask_eq_ok]
  constructor
  · rintro ⟨w, ⟨h, rfl⟩, rfl⟩
    exact ⟨h, rfl⟩
  · rintro ⟨h, rfl⟩
    exact ⟨_, ⟨h, rfl⟩, rfl⟩

theorem ask_eq_error {α : Type} {g : Workspace → Except ItemError α} (h : ask g k = .error f k') :
    k' = k := by
  obtain ⟨cause, w, hg, -, rfl⟩ := storing_eq_error.1 h
  obtain ⟨-, rfl⟩ := Storing.ask_eq_error.1 hg
  rfl

theorem get_eq (k : Keeper) : (get : Keeping Keeper) k = .ok k k := rfl

theorem draft?_eq (p : String) (k : Keeper) : draft? p k = .ok (k.drafts.get? p) k := rfl

theorem ensureFolder_eq (project : String) (k : Keeper) :
    ensureFolder project k = storing (DraftFolder.ensure k.options.folder project) k := rfl

theorem findFolder?_eq (project : String) (k : Keeper) :
    findFolder? project k = storing (DraftFolder.find? k.options.folder project) k := rfl

theorem findFolder?_eq_ok {project : String} {found : Option DraftFolder}
    (h : findFolder? project k = .ok found k') : k' = k ∧
      DraftFolder.find? k.options.folder project k.workspace = .ok found k.workspace := by
  rw [findFolder?_eq] at h
  obtain ⟨w, hf, rfl⟩ := storing_eq_ok.1 h
  obtain ⟨rfl, -⟩ := DraftFolder.find?_eq_ok hf
  exact ⟨rfl, hf⟩

theorem findFolder?_eq_error {project : String} (h : findFolder? project k = .error f k') :
    k' = k ∧ ∃ cause, f = .storage cause := by
  rw [findFolder?_eq] at h
  obtain ⟨cause, w, hf, rfl, rfl⟩ := storing_eq_error.1 h
  rw [DraftFolder.find?_eq_error hf]
  exact ⟨rfl, cause, rfl⟩

end Parts

section Writing

/-- A draft that was written is in its draft file, and no other file has changed. -/
theorem write_eq_ok {location : String} (h : write draft k = .ok location k') :
    ∃ w l path, k' = k.withWorkspace w ∧
      DraftFolder.place? k.options.folder draft.project draft.flat = some l ∧
      k.workspace.Changes [l] w ∧ w.disk.content? l = some draft.content ∧
      DraftFolder.path? k.options.folder draft.project = some path ∧
      w.disk.isFolder (Path.slashComponents path) = true := by
  rw [write] at h
  obtain ⟨folder, k₁, he, h⟩ := bind_eq_ok.1 h
  obtain ⟨u, k₂, hw, h⟩ := bind_eq_ok.1 h
  rw [ensureFolder_eq] at he
  obtain ⟨w₁, hens, rfl⟩ := storing_eq_ok.1 he
  obtain ⟨w₂, hwr, rfl⟩ := storing_eq_ok.1 hw
  obtain ⟨hc₁, -, hpath, hfolder⟩ := DraftFolder.ensure_eq_ok hens
  obtain ⟨l, hl, hc₂, hcontent⟩ := DraftFolder.write_eq_ok hwr
  refine ⟨w₂, l, folder.path, ?_, ?_, ?_, hcontent, hpath, hc₂.2.folder _ hfolder⟩
  · cases h
    rfl
  · rw [DraftFolder.place?_of_path? hpath, hl]
  · exact (hc₁.mono (List.nil_subset _)).trans hc₂

theorem write_eq_error (h : write draft k = .error f k') :
    ∃ w cause, k' = k.withWorkspace w ∧ f = .storage cause ∧ k.workspace.Changes [] w := by
  rw [write] at h
  rcases bind_eq_error.1 h with he | ⟨folder, k₁, he, h⟩
  · rw [ensureFolder_eq] at he
    obtain ⟨cause, w, hens, rfl, rfl⟩ := storing_eq_error.1 he
    exact ⟨w, cause, rfl, rfl, DraftFolder.ensure_eq_error hens⟩
  · rw [ensureFolder_eq] at he
    obtain ⟨w₁, hens, rfl⟩ := storing_eq_ok.1 he
    obtain ⟨hc₁, -⟩ := DraftFolder.ensure_eq_ok hens
    rcases bind_eq_error.1 h with hw | ⟨u, k₂, hw, h⟩
    · obtain ⟨cause, w₂, hwr, rfl, rfl⟩ := storing_eq_error.1 hw
      obtain rfl := DraftFolder.write_eq_error hwr
      exact ⟨w₂, cause, rfl, rfl, hc₁⟩
    · exact absurd h nofun

theorem save_eq_ok {location : String} (h : save p draft k = .ok location k') :
    ∃ k₁, write draft k = .ok location k₁ ∧
      k' = k₁.withDrafts (k₁.drafts.put p draft.clean) := by
  rw [save] at h
  obtain ⟨location', k₁, hw, h⟩ := bind_eq_ok.1 h
  cases h
  exact ⟨k₁, hw, rfl⟩

theorem save_eq_error (h : save p draft k = .error f k') : write draft k = .error f k' := by
  rw [save] at h
  rcases bind_eq_error.1 h with hw | ⟨location, k₁, hw, h⟩
  · exact hw
  · exact absurd h nofun

theorem discard_eq_ok {project flat : String} {u : Unit} (h : discard project flat k = .ok u k') :
    ∃ w, k' = k.withWorkspace w ∧
      ((w = k.workspace ∧
          DraftFolder.find? k.options.folder project k.workspace = .ok none k.workspace) ∨
        ∃ folder l, DraftFolder.find? k.options.folder project k.workspace =
            .ok (some folder) k.workspace ∧
          Place.ofName? (folder.filePath flat) = some l ∧
          DraftFolder.place? k.options.folder project flat = some l ∧
          k.workspace.Changes [l] w ∧ w.disk.content? l = none ∧
          (k.workspace.disk.IsTree → w.disk.locate l = .error .missing)) := by
  rw [discard] at h
  obtain ⟨found, k₁, hf, h⟩ := bind_eq_ok.1 h
  obtain ⟨rfl, hfind⟩ := findFolder?_eq_ok hf
  cases found with
  | none =>
      obtain ⟨-, rfl⟩ := pure_eq_ok.1 h
      exact ⟨_, rfl, .inl ⟨rfl, hfind⟩⟩
  | some folder =>
      obtain ⟨w, hd, rfl⟩ := storing_eq_ok.1 h
      obtain ⟨l, hl, hc, hnone, hmissing⟩ := DraftFolder.delete_eq_ok hd
      obtain ⟨-, hpath, -⟩ := (DraftFolder.find?_eq_ok hfind).2 folder rfl
      refine ⟨w, rfl, .inr ⟨folder, l, hfind, hl, ?_, hc, hnone, hmissing⟩⟩
      rw [DraftFolder.place?_of_path? hpath, hl]

theorem discard_changes {project flat : String} {u : Unit} (h : discard project flat k = .ok u k') :
    ∃ w, k' = k.withWorkspace w ∧
      k.workspace.Changes (DraftFolder.place? k.options.folder project flat).toList w := by
  obtain ⟨w, rfl, ⟨rfl, -⟩ | ⟨folder, l, -, -, hl, hc, -⟩⟩ := discard_eq_ok h
  · exact ⟨_, rfl, .refl _ _⟩
  · exact ⟨w, rfl, by rwa [hl]⟩

theorem discard_eq_error {project flat : String} (h : discard project flat k = .error f k') :
    k' = k ∧ ∃ cause, f = .storage cause := by
  rw [discard] at h
  rcases bind_eq_error.1 h with hf | ⟨found, k₁, hf, h⟩
  · exact findFolder?_eq_error hf
  · obtain ⟨rfl, -⟩ := findFolder?_eq_ok hf
    cases found with
    | none => exact absurd h pure_ne_error
    | some folder =>
        obtain ⟨cause, w, hd, rfl, rfl⟩ := storing_eq_error.1 h
        obtain rfl := DraftFolder.delete_eq_error hd
        exact ⟨rfl, cause, rfl⟩

end Writing

section Creating

/-- A file that begins to be tracked has a clean draft of its content. A draft file that was there
is kept, and one that was not holds the same content. -/
theorem create_eq_ok (hp : Path.normalize p = .ok p) (h : create p k = .ok draft k') :
    ∃ w l content, k.workspace.read p = .ok content ∧
      draft = .new (Path.flatten p) ((Path.project? p).getD "/") content ∧
      k' = (k.withWorkspace w).withDrafts (k.drafts.put p draft) ∧
      k.options.draftPlace? p = some l ∧ k.workspace.Changes [l] w ∧
      w.disk.content? l = some ((k.workspace.disk.content? l).getD content) := by
  rw [create] at h
  obtain ⟨item, k₁, hi, h⟩ := bind_eq_ok.1 h
  obtain ⟨hitem, rfl⟩ := ask_eq_ok.1 hi
  cases item with
  | none => exact absurd h throw_ne_ok
  | some item =>
      obtain ⟨_, _, hr, hproject, -⟩ := Workspace.file?_eq_some hitem
      rw [Except.ok.inj (hp.symm.trans (Workspace.resolve_eq_ok_iff.1 hr).1).symm] at hproject
      obtain ⟨content, k₁, hc, h⟩ := bind_eq_ok.1 h
      obtain ⟨hread, rfl⟩ := ask_eq_ok.1 hc
      obtain ⟨folder, k₁, he, h⟩ := bind_eq_ok.1 h
      rw [ensureFolder_eq] at he
      obtain ⟨w₁, hens, rfl⟩ := storing_eq_ok.1 he
      obtain ⟨found, k₂, hf, h⟩ := bind_eq_ok.1 h
      obtain ⟨w₂, hcont, rfl⟩ := storing_eq_ok.1 hf
      obtain ⟨hc₁, -, hpath, -⟩ := DraftFolder.ensure_eq_ok hens
      obtain ⟨rfl, l, hl, hfound⟩ := DraftFolder.contains_eq_ok hcont
      have hplace : k.options.draftPlace? p = some l := by
        rw [Options.draftPlace?, ← hproject, ← hl]
        exact DraftFolder.place?_of_path? hpath
      have hsame : w₂.disk.content? l = k.workspace.disk.content? l := hc₁.2.content l (by simp)
      cases found with
      | true =>
          cases h
          obtain ⟨kept, hkept⟩ := hfound.1 rfl
          have hkept' : k.workspace.disk.content? l = some kept := hsame.symm.trans hkept
          refine ⟨w₂, l, content, hread, by rw [hproject], rfl, hplace, hc₁.mono (by simp), ?_⟩
          rw [hkept', Option.getD_some]
          exact hkept
      | false =>
          obtain ⟨u, k₃, hw, h⟩ := bind_eq_ok.1 h
          obtain ⟨w₃, hwr, rfl⟩ := storing_eq_ok.1 hw
          cases h
          obtain ⟨l', hl', hc₂, hcontent⟩ := DraftFolder.write_eq_ok hwr
          obtain rfl : l = l' := Option.some.inj (hl.symm.trans hl')
          have hnone : k.workspace.disk.content? l = none := by
            rw [← hsame]
            cases hk : w₂.disk.content? l with
            | none => rfl
            | some kept => exact absurd (hfound.2 ⟨kept, hk⟩) (by simp)
          refine ⟨w₃, l, content, hread, by rw [hproject], rfl, hplace,
            (hc₁.mono (by simp)).trans hc₂, ?_⟩
          rw [hnone, Option.getD_none]
          exact hcontent

theorem create_eq_error (h : create p k = .error f k') :
    ∃ w, k' = k.withWorkspace w ∧ k.workspace.Changes [] w := by
  rw [create] at h
  rcases bind_eq_error.1 h with h | ⟨item, k₁, hi, h⟩
  · exact ⟨_, ask_eq_error h, .refl [] _⟩
  obtain ⟨-, rfl⟩ := ask_eq_ok.1 hi
  cases item with
  | none =>
      obtain ⟨-, rfl⟩ := throw_eq_error.1 h
      exact ⟨_, rfl, .refl [] _⟩
  | some item =>
      rcases bind_eq_error.1 h with h | ⟨content, k₁, hc, h⟩
      · exact ⟨_, ask_eq_error h, .refl [] _⟩
      obtain ⟨-, rfl⟩ := ask_eq_ok.1 hc
      rcases bind_eq_error.1 h with he | ⟨folder, k₁, he, h⟩
      · rw [ensureFolder_eq] at he
        obtain ⟨cause, w, hens, -, rfl⟩ := storing_eq_error.1 he
        exact ⟨w, rfl, DraftFolder.ensure_eq_error hens⟩
      rw [ensureFolder_eq] at he
      obtain ⟨w₁, hens, rfl⟩ := storing_eq_ok.1 he
      obtain ⟨hc₁, -⟩ := DraftFolder.ensure_eq_ok hens
      rcases bind_eq_error.1 h with hf | ⟨found, k₂, hf, h⟩
      · obtain ⟨cause, w₂, hcont, -, rfl⟩ := storing_eq_error.1 hf
        obtain rfl := DraftFolder.contains_eq_error hcont
        exact ⟨_, rfl, hc₁⟩
      obtain ⟨w₂, hcont, rfl⟩ := storing_eq_ok.1 hf
      obtain ⟨rfl, -⟩ := DraftFolder.contains_eq_ok hcont
      cases found with
      | true => exact absurd h nofun
      | false =>
          rcases bind_eq_error.1 h with hw | ⟨u, k₃, hw, h⟩
          · obtain ⟨cause, w₃, hwr, -, rfl⟩ := storing_eq_error.1 hw
            obtain rfl := DraftFolder.write_eq_error hwr
            exact ⟨_, rfl, hc₁⟩
          · exact absurd h nofun

def opened (p : String) : Keeping Draft := do
  match ← draft? p with
  | some draft => return draft
  | none => create p

theorem opened_of_some (h : k.drafts.get? p = some draft) : opened p k = .ok draft k := by
  rw [opened, bind_of_ok _ (draft?_eq p k), h]
  rfl

theorem opened_of_none (h : k.drafts.get? p = none) : opened p k = create p k := by
  rw [opened, bind_of_ok _ (draft?_eq p k), h]

theorem opened_eq_ok : opened p k = .ok draft k' ↔
    (k.drafts.get? p = some draft ∧ k' = k) ∨
      (k.drafts.get? p = none ∧ create p k = .ok draft k') := by
  cases hd : k.drafts.get? p with
  | some draft => simp [opened_of_some hd, eq_comm]
  | none => simp [opened_of_none hd]

theorem opened_eq_error : opened p k = .error f k' ↔
    k.drafts.get? p = none ∧ create p k = .error f k' := by
  cases hd : k.drafts.get? p with
  | some draft => simp [opened_of_some hd]
  | none => simp [opened_of_none hd]

end Creating

end Keeper

end DraftKeeper
