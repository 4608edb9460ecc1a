import DraftKeeper.Proofs.StorageWork

namespace DraftKeeper

def Path.basePlace (q : String) : Place := components ((project? q).getD "/")

namespace Options

def folderPlace (o : Options) (q : String) : Place := Path.basePlace q ++ Path.components o.folder

def filePlace (o : Options) (q : String) : Place := o.folderPlace q ++ [Path.flatten q]

def OnWay (o : Options) (q : String) (x : Place) : Prop :=
  DraftFolder.OnWay o.folder (Path.basePlace q) x

theorem components_filePath {o : Options} {p : String} {folder : DraftFolder}
    (hp : Path.normalize p = .ok p)
    (hfolder : DraftFolder.path? o.folder ((Path.project? p).getD "/") = some folder.path) :
    Path.components (folder.filePath (Path.flatten p)) = o.filePlace p := by
  obtain ⟨base, hbase, hjoin⟩ := DraftFolder.path?_eq_some_iff.1 hfolder
  rw [DraftFolder.filePath, Path.components_join, Path.components_flatten hp,
    Path.components_of_normalize hjoin, Path.components_join, Path.components_of_normalize hbase]
  rfl

theorem filePlace_of_path? {o : Options} {p : String} {x : Place} {folder : DraftFolder}
    (hp : Path.normalize p = .ok p)
    (hfolder : DraftFolder.path? o.folder ((Path.project? p).getD "/") = some folder.path)
    (hx : Place.ofName? (folder.filePath (Path.flatten p)) = some x) : x = o.filePlace p := by
  rw [Workspace.ofName?_eq hx, components_filePath hp hfolder]

end Options

theorem DraftFolder.slashComponents_of_path? {o : Options} {p path : String}
    (h : path? o.folder ((Path.project? p).getD "/") = some path) :
    Path.slashComponents path = o.folderPlace p := by
  obtain ⟨base, hbase, hjoin⟩ := path?_eq_some_iff.1 h
  rw [Path.slashComponents_of_normalize hjoin, Path.components_join, Path.components_of_normalize hbase]
  rfl

theorem Path.project_components {p : String} (hp : normalize p = .ok p) :
    ∃ c, components ((project? p).getD "/") = [c] := by
  obtain ⟨c, cs, -, hproject, hnorm, hone⟩ := project?_eq hp
  exact ⟨c, by rw [hproject, Option.getD_some, hone]⟩

namespace Keeper

/-- The options are the same, and on the disk nothing has changed but draft files of some paths and
folders on the way to them. -/
def ConfinedTo (ps : String → Prop) (k k' : Keeper) : Prop :=
  k'.options = k.options ∧ k.workspace.Within (fun x => ∃ q, ps q ∧ x = k.options.filePlace q)
    (fun x => ∃ q, ps q ∧ k.options.OnWay q x) k'.workspace

theorem frame (o : Options) (ps : String → Prop) : Workspace.Frame o.folder ps
    (Workspace.Within (fun x => ∃ q, ps q ∧ x = o.filePlace q) fun x => ∃ q, ps q ∧ o.OnWay q x) := by
  refine ⟨.refl, .trans, fun {p} w hp hn => ?_, fun {p folder} content w hp hn hfolder => ?_,
    fun {p folder} w hp hn hfolder => ?_⟩
  · obtain ⟨c, hc⟩ := Path.project_components hn
    have hway : o.OnWay p = DraftFolder.OnWay o.folder [c] := by
      funext x
      rw [Options.OnWay, Path.basePlace, hc]
    refine (DraftFolder.left_ensure hc).mono (fun x hx => hx) fun x hx => ⟨p, hp, ?_⟩
    rwa [hway]
  · refine DraftFolder.left_write.mono (fun x hx => ⟨p, hp, ?_⟩) fun x hx => hx
    exact Options.filePlace_of_path? hn hfolder hx
  · refine DraftFolder.left_delete.mono (fun x hx => ⟨p, hp, ?_⟩) fun x hx => hx
    exact Options.filePlace_of_path? hn hfolder hx

end Keeper

theorem Operation.confined (o : Operation) {k : Keeper} (hk : k.Filed) :
    k.ConfinedTo (o.Concerns k) (o.perform k) :=
  o.framed hk (Keeper.frame k.options (o.Concerns k)) rfl

namespace Session

variable {s : Session} {o : Options} {w : Workspace} {capacity : Nat} {clock : Time.Instant}

/-- In every session an operation keeps to the draft files of the paths it concerns and to the folders on
the way to them; every other file keeps its bytes and its mode, and every other folder its mode. The base
of a project is among those folders only if the first part of the draft folder's name leads nowhere. -/
theorem operation_is_confined {allowed : Session → Action → Prop}
    (h : Reached allowed (.new o w capacity clock) s) (op : Operation) :
    (op.perform s.keeper).workspace.root = s.keeper.workspace.root ∧
      s.keeper.workspace.disk.Within
        (fun x => ∃ q, op.Concerns s.keeper q ∧
          x = Path.basePlace q ++ Path.components o.folder ++ [Path.flatten q])
        (fun x => ∃ q, op.Concerns s.keeper q ∧ DraftFolder.OnWay o.folder (Path.basePlace q) x)
        (op.perform s.keeper).workspace.disk := by
  obtain ⟨-, hroot, hdisk⟩ := op.confined h.filed
  rw [h.options] at hdisk
  exact ⟨hroot, hdisk⟩

theorem eq_of_named_sample {a q : String} (ha : Path.normalize a = .ok "/p/a")
    (hq : Path.Named [a] q) : q = "/p/a" := by
  obtain ⟨b, hb, hq⟩ := hq
  rw [List.mem_singleton.1 hb] at hq
  exact Except.ok.inj (hq.symm.trans ha)

theorem edit_makes_only_draft_file :
    let d := sample.keeper.workspace.disk
    let d' := ((Operation.edit "e" ⟨"\\p//a", .insert 2 "!"⟩).perform sample.keeper).workspace.disk
    Reached (fun _ _ => True) sample sample ∧
      d'.get? ["p"] = d.get? ["p"] ∧ d'.get? ["p", "a"] = d.get? ["p", "a"] ∧
      d'.get? ["p", ".d"] = some (.folder 0o700) ∧
      d'.get? ["p", ".d", "p.a"] = some (.file 0o600 [104, 105]) := by
  intro d d'
  have hr : Reached (fun _ _ => True) sample sample := .start
  have hq {q : String} := eq_of_named_sample (a := "\\p//a") (q := q)
    (Path.normalize_eq_ok_iff.2 (by decide +kernel))
  obtain ⟨-, hd⟩ := operation_is_confined hr (.edit "e" ⟨"\\p//a", .insert 2 "!"⟩)
  have hsame {x : Place}
      (hx : x ≠ Path.basePlace "/p/a" ++ Path.components ".d" ++ [Path.flatten "/p/a"])
      (hbelow : ¬ x <+: ["p", ".d"] ∨ x = ["p"]) : d'.get? x = d.get? x := by
    have hbase : Path.basePlace "/p/a" = ["p"] := by decide +kernel
    have hname : Path.components ".d" = [".d"] := by decide +kernel
    refine hd.get? ?_ ?_
    · rintro ⟨q, hn, rfl⟩
      obtain rfl := hq hn
      exact hx rfl
    · rintro ⟨q, hn, -, hle, hstays⟩
      obtain rfl := hq hn
      rcases hbelow with hbelow | rfl
      · refine hbelow ?_
        rwa [hbase, show Options.sample.folder = ".d" from rfl, hname] at hle
      · obtain ⟨part, parts, hparts, hnone⟩ := hstays hbase.symm
        have hfirst : Path.slashComponents ".d" = [".d"] := by decide +kernel
        obtain ⟨rfl, -⟩ := List.cons.inj (hparts.symm.trans hfirst)
        rw [hname] at hnone
        cases hnone
  refine ⟨hr, hsame (by decide +kernel) (.inr rfl), hsame (by decide +kernel) (.inl ?_), ?_, ?_⟩
  · decide
  · decide +kernel
  · decide +kernel

/-- With a backslash for the first part of the folder's name a start restricts the base of the project,
which does not lie below itself. -/
theorem start_restricts_base :
    let start := Session.new ⟨"\\/.d", .char, 4⟩ .sample 4 ⟨0, 0, 0⟩
    let op : Operation := .track "e" (.start "/p/a")
    let d := start.keeper.workspace.disk
    let d' := (op.perform start.keeper).workspace.disk
    d.get? ["p"] = some (.folder 0o755) ∧ d'.get? ["p"] = some (.folder 0o700) ∧
      ¬ d.Within
        (fun x => ∃ q, op.Concerns start.keeper q ∧
          x = Path.basePlace q ++ Path.components "\\/.d" ++ [Path.flatten q])
        (fun x => ∃ q, op.Concerns start.keeper q ∧ Path.basePlace q <+: x ∧
          x <+: Path.basePlace q ++ Path.components "\\/.d" ∧ x ≠ Path.basePlace q) d' := by
  intro start op d d'
  have hd : d.get? ["p"] = some (.folder 0o755) := by decide +kernel
  have hd' : d'.get? ["p"] = some (.folder 0o700) := by decide +kernel
  refine ⟨hd, hd', fun h => ?_⟩
  have hkept := (h.folder ["p"] ?_ 0o755).2 hd
  · rw [hd'] at hkept
    cases hkept
  · rintro ⟨q, hn, -, -, hne⟩
    obtain rfl := eq_of_named_sample (Path.normalize_eq_ok_iff.2 (by decide +kernel)) hn
    exact hne (by decide +kernel)

end Session

end DraftKeeper
