import DraftKeeper.Proofs.Confinement
import DraftKeeper.Proofs.FolderModes

namespace DraftKeeper

namespace Workspace

/-- The root and every file but those at some places are as they were, files with their content and mode. -/
def FilesKept (places : Place → Prop) (w w' : Workspace) : Prop :=
  w'.root = w.root ∧ ∀ x, ¬ places x → ∀ m content,
    w'.disk.get? x = some (.file m content) ↔ w.disk.get? x = some (.file m content)

variable {w w' : Workspace} {places folders : Place → Prop} {x : Place} {path : String}

theorem Within.filesKept (h : w.Within places folders w') : w.FilesKept places w' := ⟨h.1, h.2.file⟩

theorem FilesKept.content? (h : w.FilesKept places w') (hx : ¬ places x) :
    w'.disk.content? x = w.disk.content? x := by
  refine Option.ext fun content => ?_
  simp only [Disk.content?_eq_some_iff, h.2 x hx]

theorem isFolder_of_projectBase?_eq_none (h : w.projectBase? path = .ok none) :
    w.disk.isFolder (Path.components path) = false := by
  cases hr : resolve path with
  | error e => simp [projectBase?, hr, bind, Except.bind] at h
  | ok r =>
      obtain ⟨q, place⟩ := r
      rw [← ofName?_eq (ofName?_eq_some_iff.2 ⟨q, hr⟩), ← Bool.not_eq_true]
      intro hf
      cases h.symm.trans (projectBase?_of_isFolder hr hf)

theorem isFolder_of_folder?_eq_none (h : w.folder? path = .ok none) :
    w.disk.isFolder (Path.components path) = false := by
  cases hr : resolve path with
  | error e => simp [folder?, hr, bind, Except.bind] at h
  | ok r =>
      obtain ⟨q, place⟩ := r
      rw [← ofName?_eq (ofName?_eq_some_iff.2 ⟨q, hr⟩), ← Bool.not_eq_true]
      intro hf
      cases h.symm.trans (folder?_of_isFolder hr hf)

end Workspace

theorem DraftFolder.isFolder_of_find?_eq_none {o : Options} {p : String} {w w' : Workspace}
    (ht : w.disk.IsTree) (h : find? o.folder ((Path.project? p).getD "/") w = .ok none w') :
    w.disk.isFolder (o.folderPlace p) = false := by
  rw [find?] at h
  obtain ⟨base, t, hb, h⟩ := bind_eq_ok.1 h
  obtain ⟨hbase, rfl⟩ := Storing.ask_eq_ok.1 hb
  cases base with
  | none =>
      rw [← Bool.not_eq_true]
      intro hfolder
      have habove := ht.isFolder_prefix _ hfolder
      cases habove.symm.trans (Workspace.isFolder_of_projectBase?_eq_none hbase)
  | some base =>
      obtain ⟨found, t, hf, h⟩ := bind_eq_ok.1 h
      obtain ⟨hlook, rfl⟩ := Storing.ask_eq_ok.1 hf
      obtain ⟨hnone, -⟩ := pure_eq_ok.1 h
      obtain rfl := Option.map_eq_none_iff.1 hnone
      have hplace := Workspace.isFolder_of_folder?_eq_none hlook
      rwa [Path.components_join, Path.components_of_normalize (Workspace.projectBase?_eq_some hbase)]
        at hplace

namespace Disk

theorem IsTree.content?_of_not_folder {d : Disk} {x : Place} {name : String} (ht : d.IsTree)
    (hx : d.isFolder x = false) : d.content? (x ++ [name]) = none := by
  cases hc : d.content? (x ++ [name]) with
  | none => rfl
  | some content =>
      obtain ⟨m, hm⟩ := content?_eq_some_iff.1 hc
      cases (ht.above hm).1.symm.trans hx

end Disk

namespace Keeper

variable {k k' : Keeper} {p location : String} {d : Draft} {u : Unit}

theorem get?_of_write (hd : d.IsFor p) (h : write d k = .ok location k') :
    k'.workspace.disk.get? (k.options.filePlace p) = some (.file ItemKind.file.ownerMode d.content) := by
  rw [write, hd.project, hd.flat] at h
  obtain ⟨folder, k₁, he, h⟩ := bind_eq_ok.1 h
  obtain ⟨u, k₂, hw, h⟩ := bind_eq_ok.1 h
  obtain ⟨hoptions, hpath⟩ := path?_of_ensureFolder he
  obtain ⟨w, hwr, rfl⟩ := storing_eq_ok.1 hw
  obtain ⟨l, hl, -⟩ := DraftFolder.write_eq_ok hwr
  rw [hoptions] at hpath
  obtain rfl := Options.filePlace_of_path? hd.normal hpath hl
  cases h
  exact DraftFolder.get?_of_write hl hwr

theorem filesKept_of_write (hd : d.IsFor p) (h : write d k = .ok location k') :
    k.workspace.FilesKept (· = k.options.filePlace p) k'.workspace := by
  have hframed := framed_write (k := k) (frame k.options (· = p)) rfl hd
  rw [left_of_ok h] at hframed
  refine (Workspace.Within.mono (hframed rfl).2 ?_ fun _ hx => hx).filesKept
  rintro x ⟨q, rfl, hx⟩
  exact hx

theorem content?_of_discard (ht : k.workspace.disk.IsTree) (hd : d.IsFor p)
    (h : discard d.project d.flat k = .ok u k') :
    k'.workspace.disk.content? (k.options.filePlace p) = none := by
  rw [hd.project, hd.flat] at h
  obtain ⟨w, rfl, ⟨rfl, hfind⟩ | ⟨folder, l, hfind, hl, -, -, hnone, -⟩⟩ := discard_eq_ok h
  · exact ht.content?_of_not_folder (DraftFolder.isFolder_of_find?_eq_none ht hfind)
  · obtain ⟨-, hpath, -⟩ := (DraftFolder.find?_eq_ok hfind).2 folder rfl
    rwa [← Options.filePlace_of_path? hd.normal hpath hl]

end Keeper

end DraftKeeper
