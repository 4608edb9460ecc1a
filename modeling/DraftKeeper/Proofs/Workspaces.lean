import DraftKeeper.Reach
import DraftKeeper.Proofs.DiskTrees
import DraftKeeper.Proofs.NormalPaths

namespace DraftKeeper

namespace Workspace

/-- Work that changes the files at some places of the disk and no others. -/
def Changes (files : List Place) (w w' : Workspace) : Prop :=
  w'.root = w.root ∧ w.disk.Changes files w'.disk

namespace Changes

variable {files more : List Place} {w w' w'' : Workspace}

theorem refl (files : List Place) (w : Workspace) : Changes files w w := ⟨rfl, .refl files w.disk⟩

theorem trans (h : Changes files w w') (h' : Changes files w' w'') : Changes files w w'' :=
  ⟨h'.1.trans h.1, h.2.trans h'.2⟩

theorem mono (h : Changes files w w') (hs : files ⊆ more) : Changes more w w' :=
  ⟨h.1, h.2.mono hs⟩

end Changes

variable {w w' : Workspace} {path p : String} {place : Place} {content : Bytes}

theorem resolve_eq_ok_iff :
    resolve path = .ok (p, place) ↔ Path.normalize path = .ok p ∧ place = Path.slashComponents p := by
  unfold resolve
  cases Path.normalize path with
  | error e => simp
  | ok q => simp [eq_comm]; grind

theorem resolve_of_normalize (hp : Path.normalize p = .ok p) : resolve p = .ok (p, Path.components p) :=
  resolve_eq_ok_iff.2 ⟨hp, (Path.slashComponents_of_normalize hp).symm⟩

theorem ofName?_eq_some_iff :
    Place.ofName? path = some place ↔ ∃ p, resolve path = .ok (p, place) := by
  simp only [resolve_eq_ok_iff, Place.ofName?]
  cases Path.normalize path with
  | error e => simp [Except.toOption]
  | ok q => simp [Except.toOption, eq_comm]

theorem ne_nil_of_resolve (h : resolve path = .ok (p, place)) : place ≠ [] := by
  obtain ⟨hp, rfl⟩ := resolve_eq_ok_iff.1 h
  rw [Path.slashComponents_of_normalize hp]
  exact (Path.normalize_eq_ok_iff.1 hp).2.1

theorem file?_eq (h : resolve path = .ok (p, place)) : w.file? path =
    match w.disk.locate place with
    | .ok (.file ..) => .ok (some ⟨p, (Path.project? p).getD "/"⟩)
    | .ok (.folder _) => .error (.wrongKind p .file)
    | .error .missing => .ok none
    | .error f => .error (system p f) := by
  rw [file?, h]
  rfl

theorem folder?_eq (h : resolve path = .ok (p, place)) : w.folder? path =
    match w.disk.locate place with
    | .ok (.folder _) => .ok (some p)
    | .ok (.file ..) => .error (.wrongKind p .folder)
    | .error .missing => .ok none
    | .error f => .error (system p f) := by
  rw [folder?, h]
  rfl

theorem projectBase?_eq (h : resolve path = .ok (p, place)) : w.projectBase? path =
    match w.disk.locate place with
    | .ok (.folder _) => .ok (some p)
    | .ok (.file ..) => .ok none
    | .error .missing => .ok none
    | .error f => .error (system p f) := by
  rw [projectBase?, h]
  rfl

theorem file?_eq_some {item : FileItem} (h : w.file? path = .ok (some item)) :
    ∃ place content, resolve path = .ok (item.path, place) ∧
      item.project = (Path.project? item.path).getD "/" ∧ w.disk.content? place = some content := by
  cases hr : resolve path with
  | error e => simp [file?, hr, bind, Except.bind] at h
  | ok r =>
      obtain ⟨q, place⟩ := r
      rw [file?_eq hr] at h
      split at h
      · next m content hl =>
          cases h
          exact ⟨place, content, rfl, rfl, Disk.content?_eq_some_iff.2 ⟨m, Disk.locate_eq_ok_iff.1 hl⟩⟩
      all_goals cases h

theorem file?_eq_none (h : w.file? path = .ok none) :
    ∃ p place, resolve path = .ok (p, place) ∧ w.disk.locate place = .error .missing := by
  cases hr : resolve path with
  | error e => simp [file?, hr, bind, Except.bind] at h
  | ok r =>
      obtain ⟨q, place⟩ := r
      rw [file?_eq hr] at h
      split at h
      · cases h
      · cases h
      · next hl => exact ⟨q, place, rfl, hl⟩
      · cases h

theorem file?_of_content? (h : resolve path = .ok (p, place))
    (hc : w.disk.content? place = some content) :
    w.file? path = .ok (some ⟨p, (Path.project? p).getD "/"⟩) := by
  obtain ⟨m, hm⟩ := Disk.content?_eq_some_iff.1 hc
  rw [file?_eq h, Disk.locate_eq_ok_iff.2 hm]

theorem folder?_eq_some {q : String} (h : w.folder? path = .ok (some q)) :
    Path.normalize path = .ok q ∧ w.disk.isFolder (Path.slashComponents q) = true := by
  cases hr : resolve path with
  | error e => simp [folder?, hr, bind, Except.bind] at h
  | ok r =>
      obtain ⟨q', place⟩ := r
      rw [folder?_eq hr] at h
      obtain ⟨hq, rfl⟩ := resolve_eq_ok_iff.1 hr
      split at h
      · next m hl =>
          cases h
          exact ⟨hq, Disk.isFolder_iff.2 ⟨m, Disk.locate_eq_ok_iff.1 hl⟩⟩
      all_goals cases h

theorem folder?_of_isFolder (h : resolve path = .ok (p, place))
    (hf : w.disk.isFolder place = true) : w.folder? path = .ok (some p) := by
  obtain ⟨m, hm⟩ := Disk.isFolder_iff.1 hf
  rw [folder?_eq h, Disk.locate_eq_ok_iff.2 hm]

theorem projectBase?_eq_some {q : String} (h : w.projectBase? path = .ok (some q)) :
    Path.normalize path = .ok q := by
  cases hr : resolve path with
  | error e => simp [projectBase?, hr, bind, Except.bind] at h
  | ok r =>
      obtain ⟨q', place⟩ := r
      rw [projectBase?_eq hr] at h
      obtain ⟨hq, rfl⟩ := resolve_eq_ok_iff.1 hr
      split at h
      · cases h
        exact hq
      all_goals cases h

theorem projectBase?_of_isFolder (h : resolve path = .ok (p, place))
    (hf : w.disk.isFolder place = true) : w.projectBase? path = .ok (some p) := by
  obtain ⟨m, hm⟩ := Disk.isFolder_iff.1 hf
  rw [projectBase?_eq h, Disk.locate_eq_ok_iff.2 hm]

theorem read_eq (h : resolve path = .ok (p, place)) :
    w.read path = (w.disk.read place).mapError (missingOr p) := by
  rw [read, h]
  rfl

theorem read_eq_ok_iff : w.read path = .ok content ↔
    ∃ place, Place.ofName? path = some place ∧ w.disk.content? place = some content := by
  cases hr : resolve path with
  | error e => simp [ofName?_eq_some_iff, hr, read, bind, Except.bind]
  | ok r =>
      obtain ⟨q, place⟩ := r
      rw [read_eq hr]
      simp only [ofName?_eq_some_iff, hr, ← Disk.read_eq_ok_iff]
      cases hd : w.disk.read place <;> simp [Except.mapError, hd]

theorem file?_of_read (hp : Path.normalize path = .ok p) (h : w.read path = .ok content) :
    w.file? path = .ok (some ⟨p, (Path.project? p).getD "/"⟩) := by
  obtain ⟨place, hplace, hc⟩ := read_eq_ok_iff.1 h
  obtain ⟨q, hr⟩ := ofName?_eq_some_iff.1 hplace
  obtain rfl := Except.ok.inj (hp.symm.trans (resolve_eq_ok_iff.1 hr).1)
  exact file?_of_content? hr hc

theorem read_eq_ok_iff_content? (hp : Path.normalize p = .ok p) :
    w.read p = .ok content ↔ w.disk.content? (Path.slashComponents p) = some content := by
  have hplace : Place.ofName? p = some (Path.slashComponents p) :=
    ofName?_eq_some_iff.2 ⟨p, resolve_eq_ok_iff.2 ⟨hp, rfl⟩⟩
  simp only [read_eq_ok_iff, hplace, Option.some.injEq, exists_eq_left']

theorem write_eq_ok (h : w.write path content = .ok w') : ∃ place, Place.ofName? path = some place ∧
    w.Changes [place] w' ∧ w'.disk.content? place = some content := by
  cases hr : resolve path with
  | error e => simp [write, hr, bind, Except.bind] at h
  | ok r =>
      obtain ⟨q, place⟩ := r
      cases hw : w.disk.write place content with
      | error f => simp [write, hr, hw, bind, Except.bind, Except.mapError] at h
      | ok disk =>
          obtain rfl : { w with disk } = w' := by
            simpa [write, hr, hw, bind, Except.bind, Except.mapError, pure, Except.pure] using h
          obtain ⟨hc, hcontent⟩ := Disk.write_eq_ok hw
          exact ⟨place, ofName?_eq_some_iff.2 ⟨q, hr⟩, ⟨rfl, hc⟩, hcontent⟩

theorem remove_eq_ok (h : w.remove path = .ok w') : ∃ place, Place.ofName? path = some place ∧
    w.Changes [place] w' ∧ w'.disk.content? place = none ∧
      (w.disk.IsTree → w'.disk.locate place = .error .missing) := by
  cases hr : resolve path with
  | error e => simp [remove, hr, bind, Except.bind] at h
  | ok r =>
      obtain ⟨q, place⟩ := r
      have hplace := ofName?_eq_some_iff.2 ⟨q, hr⟩
      simp only [remove, hr, bind, Except.bind] at h
      cases hd : w.disk.remove place with
      | ok disk =>
          simp only [hd] at h
          cases h
          obtain ⟨hc, hnone⟩ := Disk.remove_eq_ok hd
          exact ⟨place, hplace, ⟨rfl, hc⟩, hnone, fun ht =>
            Disk.locate_remove ht (ne_nil_of_resolve hr) hd⟩
      | error f =>
          simp only [hd] at h
          cases f with
          | missing =>
              cases h
              exact ⟨place, hplace, .refl _ w, Disk.content?_of_remove_missing hd, fun _ =>
                Disk.locate_of_remove_missing hd⟩
          | _ => cases h

theorem restrict_eq_ok (h : w.restrict path = .ok w') : w.Changes [] w' := by
  cases hr : resolve path with
  | error e => simp [restrict, hr, bind, Except.bind] at h
  | ok r =>
      obtain ⟨q, place⟩ := r
      simp only [restrict, hr, bind, Except.bind] at h
      split at h
      · next disk hd =>
          cases h
          exact ⟨rfl, Disk.restrict_changes hd⟩
      · cases h

theorem restrict_of_content? (h : Place.ofName? path = some place)
    (hc : w.disk.content? place = some content) : ∃ w', w.restrict path = .ok w' := by
  obtain ⟨q, hr⟩ := ofName?_eq_some_iff.1 h
  simp only [restrict, hr, bind, Except.bind]
  obtain ⟨disk, hd⟩ := Disk.restrict_of_content?
    (if w.disk.isFolder place then ItemKind.folder else ItemKind.file) (w.location q) hc
  simp only [hd]
  exact ⟨_, rfl⟩

theorem makeFolder_changes (w : Workspace) (path : String) : w.Changes [] (w.makeFolder path).2 := by
  rw [makeFolder]
  split
  · exact .refl [] w
  · next q place hr =>
      have h := Disk.makeFolders_changes w.disk place
      split
      · next disk hd => exact ⟨rfl, by rwa [hd] at h⟩
      · next f disk hd => exact ⟨rfl, by rwa [hd] at h⟩

theorem makeFolder_eq_ok (h : (w.makeFolder path).1 = .ok p) : Path.normalize path = .ok p ∧
    (w.makeFolder path).2.disk.isFolder (Path.slashComponents p) = true := by
  unfold makeFolder at h ⊢
  cases hr : resolve path with
  | error e => simp [hr] at h
  | ok r =>
      obtain ⟨q, place⟩ := r
      have hne := ne_nil_of_resolve hr
      obtain ⟨hq, rfl⟩ := resolve_eq_ok_iff.1 hr
      simp only [hr] at h ⊢
      cases hd : w.disk.makeFolders (Path.slashComponents q) with
      | mk r disk =>
          cases r with
          | error f => simp [hd] at h
          | ok u =>
              simp only [hd, Except.ok.injEq] at h ⊢
              subst h
              have hf := Disk.isFolder_makeFolders (d := w.disk) hne (by rw [hd])
              rw [hd] at hf
              exact ⟨hq, hf⟩

end Workspace

end DraftKeeper
