import DraftKeeper.Proofs.Workspaces

namespace DraftKeeper

section Work

variable {ε σ α β : Type} {s s' : σ}

theorem bind_of_ok {x : EStateM ε σ α} {a : α} (f : α → EStateM ε σ β) (h : x s = .ok a s') :
    (x >>= f) s = f a s' := by
  change EStateM.bind x f s = _
  rw [EStateM.bind, h]

theorem bind_eq_ok {x : EStateM ε σ α} {f : α → EStateM ε σ β} {b : β} :
    (x >>= f) s = .ok b s' ↔ ∃ a t, x s = .ok a t ∧ f a t = .ok b s' := by
  change EStateM.bind x f s = .ok b s' ↔ _
  rw [EStateM.bind]
  cases x s <;> simp

theorem bind_eq_error {x : EStateM ε σ α} {f : α → EStateM ε σ β} {e : ε} :
    (x >>= f) s = .error e s' ↔
      x s = .error e s' ∨ ∃ a t, x s = .ok a t ∧ f a t = .error e s' := by
  change EStateM.bind x f s = .error e s' ↔ _
  rw [EStateM.bind]
  cases x s <;> simp

theorem pure_eq_ok {a b : α} : (pure a : EStateM ε σ α) s = .ok b s' ↔ a = b ∧ s = s' := by
  change EStateM.Result.ok a s = .ok b s' ↔ _
  rw [EStateM.Result.ok.injEq]

theorem pure_ne_error {a : α} {e : ε} : (pure a : EStateM ε σ α) s ≠ .error e s' := nofun

theorem throw_eq_error {e f : ε} :
    (throw e : EStateM ε σ α) s = .error f s' ↔ e = f ∧ s = s' := by
  change EStateM.Result.error e s = .error f s' ↔ _
  rw [EStateM.Result.error.injEq]

theorem throw_ne_ok {e : ε} {a : α} : (throw e : EStateM ε σ α) s ≠ .ok a s' := nofun

end Work

namespace Storing

variable {α : Type} {w w' : Workspace} {e : DraftFolderError}

theorem ask_eq_ok {f : Workspace → Except ItemError α} {a : α} :
    ask f w = .ok a w' ↔ f w = .ok a ∧ w = w' := by
  rw [ask]
  cases f w <;> simp

theorem ask_eq_error {f : Workspace → Except ItemError α} :
    ask f w = .error e w' ↔ (∃ cause, f w = .error cause ∧ e = .item cause) ∧ w = w' := by
  rw [ask]
  cases f w <;> simp [eq_comm]

theorem change_eq_ok {f : Workspace → Except ItemError Workspace} {u : Unit} :
    change f w = .ok u w' ↔ f w = .ok w' := by
  rw [change]
  cases f w <;> simp

theorem change_eq_error {f : Workspace → Except ItemError Workspace} :
    change f w = .error e w' ↔ (∃ cause, f w = .error cause ∧ e = .item cause) ∧ w = w' := by
  rw [change]
  cases f w <;> simp [eq_comm]

theorem makeFolder_eq_ok {path p : String} (h : makeFolder path w = .ok p w') :
    w.Changes [] w' ∧ Path.normalize path = .ok p ∧
      w'.disk.isFolder (Path.slashComponents p) = true := by
  rw [makeFolder] at h
  have hc := w.makeFolder_changes path
  split at h
  · next q w'' hm =>
      cases h
      rw [hm] at hc
      have hok : (w.makeFolder path).1 = .ok p := by rw [hm]
      have hf := Workspace.makeFolder_eq_ok hok
      rw [hm] at hf
      exact ⟨hc, hf⟩
  · cases h

theorem makeFolder_eq_error {path : String} (h : makeFolder path w = .error e w') :
    w.Changes [] w' := by
  rw [makeFolder] at h
  have hc := w.makeFolder_changes path
  split at h
  · cases h
  · next hm =>
      cases h
      rwa [hm] at hc

theorem restrictAlong_changes {base : String} {names : List String} :
    (∀ w', restrictAlong base names w = .ok () w' → w.Changes [] w') ∧
      ∀ e w', restrictAlong base names w = .error e w' → w.Changes [] w' := by
  induction names generalizing base w with
  | nil =>
      refine ⟨fun w' h => ?_, fun e w' h => absurd h pure_ne_error⟩
      obtain ⟨-, rfl⟩ := pure_eq_ok.1 h
      exact .refl [] w
  | cons name names ih =>
      simp only [restrictAlong]
      refine ⟨fun w' h => ?_, fun e w' h => ?_⟩
      · obtain ⟨u, t, hr, h⟩ := bind_eq_ok.1 h
        exact (Workspace.restrict_eq_ok (change_eq_ok.1 hr)).trans (ih.1 w' h)
      · rcases bind_eq_error.1 h with hr | ⟨u, t, hr, h⟩
        · obtain ⟨-, rfl⟩ := change_eq_error.1 hr
          exact .refl [] w
        · exact (Workspace.restrict_eq_ok (change_eq_ok.1 hr)).trans (ih.2 e w' h)

end Storing

namespace DraftFolder

/-- The path of a project's draft folder, if it has a normal form. -/
def path? (name project : String) : Option String := do
  let base ← (Path.normalize project).toOption
  (Path.normalize (Path.join base name)).toOption

/-- The place of the draft file with a flat name, if its path has a normal form. -/
def place? (name project flat : String) : Option Place := do
  let path ← path? name project
  Place.ofName? (Path.join path flat)

variable {name project flat : String} {w w' : Workspace}

theorem path?_eq_some_iff {path : String} : path? name project = some path ↔
    ∃ base, Path.normalize project = .ok base ∧ Path.normalize (Path.join base name) = .ok path := by
  rw [path?]
  cases Path.normalize project with
  | error e => simp [Except.toOption]
  | ok base =>
      cases hp : Path.normalize (Path.join base name) <;> simp [Except.toOption, hp]

theorem place?_of_path? {folder : DraftFolder} (h : path? name project = some folder.path) :
    place? name project flat = Place.ofName? (folder.filePath flat) := by
  rw [place?, h]
  rfl

theorem place?_eq_some {l : Place} (hflat : Path.components flat = [flat])
    (h : place? name project flat = some l) : ∃ base path, Path.normalize project = .ok base ∧
      path? name project = some path ∧
      Path.slashComponents path = Path.slashComponents base ++ Path.components name ∧
      l = Path.slashComponents path ++ [flat] := by
  obtain ⟨path, hpath, hl⟩ := Option.bind_eq_some_iff.1 h
  obtain ⟨base, hbase, hjoin⟩ := path?_eq_some_iff.1 hpath
  obtain ⟨file, hr⟩ := Workspace.ofName?_eq_some_iff.1 hl
  obtain ⟨hfile, rfl⟩ := Workspace.resolve_eq_ok_iff.1 hr
  refine ⟨base, path, hbase, hpath, ?_, ?_⟩
  · rw [Path.slashComponents_of_normalize hjoin, Path.components_join,
      Path.components_of_normalize hbase, Path.slashComponents_of_normalize hbase]
  · rw [Path.slashComponents_of_normalize hfile, Path.components_join,
      Path.components_of_normalize hjoin, Path.slashComponents_of_normalize hjoin, hflat]

section Finding

variable {e : DraftFolderError}

theorem find?_eq_ok {found : Option DraftFolder} (h : find? name project w = .ok found w') :
    w' = w ∧ ∀ folder ∈ found, folder.project = project ∧ path? name project = some folder.path ∧
      w.disk.isFolder (Path.slashComponents folder.path) = true := by
  rw [find?] at h
  obtain ⟨base, t, hb, h⟩ := bind_eq_ok.1 h
  obtain ⟨hbase, rfl⟩ := Storing.ask_eq_ok.1 hb
  cases base with
  | none =>
      obtain ⟨rfl, rfl⟩ := pure_eq_ok.1 h
      exact ⟨rfl, nofun⟩
  | some base =>
      obtain ⟨r, t, hr, h⟩ := bind_eq_ok.1 h
      obtain ⟨hlook, rfl⟩ := Storing.ask_eq_ok.1 hr
      obtain ⟨rfl, rfl⟩ := pure_eq_ok.1 h
      refine ⟨rfl, fun folder hf => ?_⟩
      obtain ⟨path, rfl, rfl⟩ := Option.map_eq_some_iff.1 hf
      obtain ⟨hjoin, hfolder⟩ := Workspace.folder?_eq_some hlook
      exact ⟨rfl, path?_eq_some_iff.2 ⟨base, Workspace.projectBase?_eq_some hbase, hjoin⟩, hfolder⟩

theorem find?_eq_error (h : find? name project w = .error e w') : w' = w := by
  rw [find?] at h
  rcases bind_eq_error.1 h with h | ⟨base, t, hb, h⟩
  · exact (Storing.ask_eq_error.1 h).2.symm
  · obtain ⟨hb, rfl⟩ := Storing.ask_eq_ok.1 hb
    cases base with
    | none => exact absurd h pure_ne_error
    | some base =>
        rcases bind_eq_error.1 h with h | ⟨r, t, hr, h⟩
        · exact (Storing.ask_eq_error.1 h).2.symm
        · exact absurd h pure_ne_error

theorem find?_of_isFolder {path : String} (ht : w.disk.IsTree) (hp : path? name project = some path)
    (hf : w.disk.isFolder (Path.slashComponents path) = true) :
    find? name project w = .ok (some ⟨project, path⟩) w := by
  obtain ⟨base, hbase, hjoin⟩ := path?_eq_some_iff.1 hp
  have hbelow : Path.slashComponents path = Path.slashComponents base ++ Path.components name := by
    rw [Path.slashComponents_of_normalize hjoin, Path.components_join,
      Path.components_of_normalize hbase, Path.slashComponents_of_normalize hbase]
  have hb : w.projectBase? project = .ok (some base) := by
    refine Workspace.projectBase?_of_isFolder (Workspace.resolve_eq_ok_iff.2 ⟨hbase, rfl⟩) ?_
    rw [hbelow] at hf
    exact ht.isFolder_prefix _ hf
  have hr : w.folder? (Path.join base name) = .ok (some path) :=
    Workspace.folder?_of_isFolder (Workspace.resolve_eq_ok_iff.2 ⟨hjoin, rfl⟩) hf
  rw [find?]
  refine bind_eq_ok.2 ⟨some base, w, Storing.ask_eq_ok.2 ⟨hb, rfl⟩, ?_⟩
  exact bind_eq_ok.2 ⟨some path, w, Storing.ask_eq_ok.2 ⟨hr, rfl⟩, rfl⟩

theorem create_eq_ok {folder : DraftFolder} (h : create name project w = .ok folder w') :
    w.Changes [] w' ∧ folder.project = project ∧ path? name project = some folder.path ∧
      w'.disk.isFolder (Path.slashComponents folder.path) = true := by
  rw [create] at h
  obtain ⟨base, t, hb, h⟩ := bind_eq_ok.1 h
  obtain ⟨hbase, rfl⟩ := Storing.ask_eq_ok.1 hb
  cases base with
  | none => exact absurd h throw_ne_ok
  | some base =>
      obtain ⟨path, w₁, hm, h⟩ := bind_eq_ok.1 h
      obtain ⟨u, w₂, hr, h⟩ := bind_eq_ok.1 h
      obtain ⟨rfl, rfl⟩ := pure_eq_ok.1 h
      obtain ⟨hm, hjoin, hf⟩ := Storing.makeFolder_eq_ok hm
      have hr := Storing.restrictAlong_changes.1 _ hr
      exact ⟨hm.trans hr, rfl,
        path?_eq_some_iff.2 ⟨base, Workspace.projectBase?_eq_some hbase, hjoin⟩, hr.2.folder _ hf⟩

theorem create_eq_error (h : create name project w = .error e w') : w.Changes [] w' := by
  rw [create] at h
  rcases bind_eq_error.1 h with h | ⟨base, t, hb, h⟩
  · rw [(Storing.ask_eq_error.1 h).2]
    exact .refl [] w'
  · obtain ⟨hb, rfl⟩ := Storing.ask_eq_ok.1 hb
    cases base with
    | none =>
        rw [(throw_eq_error.1 h).2]
        exact .refl [] w'
    | some base =>
        rcases bind_eq_error.1 h with h | ⟨path, w₁, hm, h⟩
        · exact Storing.makeFolder_eq_error h
        · obtain ⟨hm, -⟩ := Storing.makeFolder_eq_ok hm
          rcases bind_eq_error.1 h with h | ⟨u, w₂, hr, h⟩
          · exact hm.trans (Storing.restrictAlong_changes.2 _ _ h)
          · exact absurd h pure_ne_error

theorem ensure_eq_ok {folder : DraftFolder} (h : ensure name project w = .ok folder w') :
    w.Changes [] w' ∧ folder.project = project ∧ path? name project = some folder.path ∧
      w'.disk.isFolder (Path.slashComponents folder.path) = true := by
  rw [ensure] at h
  obtain ⟨found, w₁, hf, h⟩ := bind_eq_ok.1 h
  obtain ⟨rfl, hfound⟩ := find?_eq_ok hf
  cases found with
  | some folder' =>
      obtain ⟨rfl, rfl⟩ := pure_eq_ok.1 h
      exact ⟨.refl [] w₁, hfound folder' rfl⟩
  | none => exact create_eq_ok h

theorem ensure_eq_error (h : ensure name project w = .error e w') : w.Changes [] w' := by
  rw [ensure] at h
  rcases bind_eq_error.1 h with h | ⟨found, w₁, hf, h⟩
  · rw [find?_eq_error h]
    exact .refl [] w
  · obtain ⟨rfl, -⟩ := find?_eq_ok hf
    cases found with
    | some folder => exact absurd h pure_ne_error
    | none => exact create_eq_error h

end Finding

section Files

variable {folder : DraftFolder} {content : Bytes} {e : DraftFolderError}

theorem contains_eq_ok {found : Bool} (h : folder.contains flat w = .ok found w') :
    w' = w ∧ ∃ l, Place.ofName? (folder.filePath flat) = some l ∧
      (found = true ↔ ∃ content, w.disk.content? l = some content) := by
  rw [contains] at h
  obtain ⟨item, t, hf, h⟩ := bind_eq_ok.1 h
  obtain ⟨hitem, rfl⟩ := Storing.ask_eq_ok.1 hf
  obtain ⟨rfl, rfl⟩ := pure_eq_ok.1 h
  refine ⟨rfl, ?_⟩
  cases item with
  | some item =>
      obtain ⟨l, content, hr, -, hc⟩ := Workspace.file?_eq_some hitem
      exact ⟨l, Workspace.ofName?_eq_some_iff.2 ⟨_, hr⟩, fun _ => ⟨content, hc⟩, fun _ => rfl⟩
  | none =>
      obtain ⟨p, l, hr, hl⟩ := Workspace.file?_eq_none hitem
      refine ⟨l, Workspace.ofName?_eq_some_iff.2 ⟨p, hr⟩, nofun, ?_⟩
      rintro ⟨content, hc⟩
      obtain ⟨m, hm⟩ := Disk.content?_eq_some_iff.1 hc
      rw [Disk.locate_eq_ok_iff.2 hm] at hl
      cases hl

theorem contains_of_content? {l : Place} (hl : Place.ofName? (folder.filePath flat) = some l)
    (hc : w.disk.content? l = some content) : folder.contains flat w = .ok true w := by
  obtain ⟨p, hr⟩ := Workspace.ofName?_eq_some_iff.1 hl
  rw [contains, bind_of_ok _ (Storing.ask_eq_ok.2 ⟨Workspace.file?_of_content? hr hc, rfl⟩)]
  rfl

theorem contains_eq_error (h : folder.contains flat w = .error e w') : w' = w := by
  rw [contains] at h
  rcases bind_eq_error.1 h with h | ⟨item, t, hf, h⟩
  · exact (Storing.ask_eq_error.1 h).2.symm
  · exact absurd h pure_ne_error

theorem write_eq_ok {u : Unit} (h : folder.write flat content w = .ok u w') :
    ∃ l, Place.ofName? (folder.filePath flat) = some l ∧ w.Changes [l] w' ∧
      w'.disk.content? l = some content := by
  rw [write] at h
  obtain ⟨u, w₁, hw, h⟩ := bind_eq_ok.1 h
  obtain ⟨l, hl, hc, hcontent⟩ := Workspace.write_eq_ok (Storing.change_eq_ok.1 hw)
  have hr := Workspace.restrict_eq_ok (Storing.change_eq_ok.1 h)
  exact ⟨l, hl, hc.trans (hr.mono (List.nil_subset _)), by rwa [hr.2.content l (by simp)]⟩

theorem write_eq_error (h : folder.write flat content w = .error e w') : w' = w := by
  rw [write] at h
  rcases bind_eq_error.1 h with h | ⟨u, w₁, hw, h⟩
  · exact (Storing.change_eq_error.1 h).2.symm
  · obtain ⟨l, hl, hc, hcontent⟩ := Workspace.write_eq_ok (Storing.change_eq_ok.1 hw)
    obtain ⟨w₂, hr⟩ := Workspace.restrict_of_content? hl hcontent
    obtain ⟨⟨cause, herr, -⟩, -⟩ := Storing.change_eq_error.1 h
    rw [hr] at herr
    cases herr

theorem delete_eq_ok {u : Unit} (h : folder.delete flat w = .ok u w') :
    ∃ l, Place.ofName? (folder.filePath flat) = some l ∧ w.Changes [l] w' ∧
      w'.disk.content? l = none ∧ (w.disk.IsTree → w'.disk.locate l = .error .missing) :=
  Workspace.remove_eq_ok (Storing.change_eq_ok.1 h)

theorem delete_eq_error (h : folder.delete flat w = .error e w') : w' = w :=
  (Storing.change_eq_error.1 h).2.symm

theorem read?_keeps (folder : DraftFolder) (flat : String) (w : Workspace) :
    (∃ kept, folder.read? flat w = .ok kept w) ∨ ∃ e, folder.read? flat w = .error e w := by
  rw [read?]
  split
  · exact .inl ⟨_, rfl⟩
  · exact .inl ⟨_, rfl⟩
  · exact .inr ⟨_, rfl⟩

theorem read_of_read? (h : folder.read? flat w = .ok (some content) w') :
    w.read (folder.filePath flat) = .ok content := by
  rw [read?] at h
  split at h
  · next hr =>
      cases h
      exact hr
  · cases h
  · cases h

theorem read?_of_content? {l : Place} (hl : Place.ofName? (folder.filePath flat) = some l)
    (hc : w.disk.content? l = some content) : folder.read? flat w = .ok (some content) w := by
  simp only [read?, Workspace.read_eq_ok_iff.2 ⟨l, hl, hc⟩]

theorem read?_of_missing {l : Place} (hl : Place.ofName? (folder.filePath flat) = some l)
    (hm : w.disk.locate l = .error .missing) : folder.read? flat w = .ok none w := by
  obtain ⟨p, hr⟩ := Workspace.ofName?_eq_some_iff.1 hl
  have hread : w.read (folder.filePath flat) = .error (.notFound p) := by
    rw [Workspace.read_eq hr, Disk.read, hm]
    rfl
  simp only [read?, hread]

end Files

end DraftFolder

end DraftKeeper
