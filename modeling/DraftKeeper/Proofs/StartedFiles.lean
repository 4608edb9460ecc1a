import DraftKeeper.Proofs.DraftLocations
import DraftKeeper.Proofs.PreparedFolders

namespace DraftKeeper

namespace Path

variable {p name : String}

theorem isName_of_mem (hp : normalize p = .ok p) {c : String} (hc : c ∈ components p) : IsName c := by
  obtain ⟨hnull, -, hfault, -, -⟩ := normalize_eq_ok_iff.1 hp
  obtain ⟨hne, hfree⟩ := mem_components hc
  exact ⟨hne, fun x hx => ⟨(hfree x hx).2.1, (hfree x hx).2.2, fun h0 => hnull (h0 ▸ (hfree x hx).1)⟩,
    hfault c hc⟩

theorem length_pos_of_isName {c : String} (h : IsName c) : 0 < c.length := by
  have hne := h.1
  rw [Nat.pos_iff_ne_zero]
  simpa using hne

theorem mem_flatten (hp : normalize p = .ok p) {x : Char} (hx : x ∈ (flatten p).toList) :
    x ∈ p.toList ∨ x = '.' := by
  obtain ⟨l, hl, hflat⟩ := toList_flatten hp
  rw [hflat] at hx
  obtain ⟨y, hy, rfl⟩ := List.mem_map.1 hx
  split
  · exact .inr rfl
  · exact .inl (hl ▸ List.mem_cons_of_mem _ hy)

theorem mem_flatten_of_mem (hp : normalize p = .ok p) {x : Char} (hx : x ∈ p.toList) (hs : x ≠ '/') :
    x ∈ (flatten p).toList := by
  obtain ⟨l, hl, hflat⟩ := toList_flatten hp
  rw [hl] at hx
  rw [hflat]
  exact List.mem_map.2 ⟨x, (List.mem_cons.1 hx).resolve_left hs, if_neg hs⟩

theorem flatten_of_single {c : String} (hp : normalize p = .ok p) (hcs : components p = [c]) : flatten p = c := by
  obtain ⟨l, hl, hflat⟩ := toList_flatten hp
  have hlist := congrArg String.toList (eq_ofComponents hp)
  rw [hcs, toList_ofComponents_cons, hl, List.cons_inj_right] at hlist
  obtain rfl : l = c.toList := by simpa [ofComponents] using hlist
  have hfree := (mem_components (show c ∈ components p by simp [hcs])).2
  rw [← String.toList_inj, hflat, List.map_congr_left fun x hx => if_neg (hfree x hx).2.1, List.map_id']

theorem two_lt_length_flatten (hp : normalize p = .ok p) (htwo : 2 ≤ (components p).length) :
    2 < (flatten p).length := by
  match hcs : components p with
  | [] | [c] => simp [hcs] at htwo
  | first :: second :: rest =>
      have hfirst := length_pos_of_isName (isName_of_mem hp (c := first) (by simp [hcs]))
      have hsecond := length_pos_of_isName (isName_of_mem hp (c := second) (by simp [hcs]))
      have hpath := congrArg String.length (eq_ofComponents hp)
      rw [hcs, length_ofComponents_cons, length_ofComponents_cons] at hpath
      have hflat := length_flatten hp
      omega

/-- The flat name of a single component is the component, and that of more is longer than dots. -/
theorem flatten_ne_dots (hp : normalize p = .ok p) : flatten p ≠ "." ∧ flatten p ≠ ".." := by
  match hcs : components p with
  | [] => exact absurd hcs (normalize_eq_ok_iff.1 hp).2.1
  | [c] =>
      obtain ⟨hdot, hdots, -⟩ := fault?_eq_none_iff.1 (isName_of_mem hp (c := c) (by simp [hcs])).2.2
      rw [flatten_of_single hp hcs]
      exact ⟨hdot, hdots⟩
  | first :: second :: rest =>
      have hlong := two_lt_length_flatten hp (by simp [hcs])
      constructor <;> intro heq <;> rw [heq] at hlong <;> exact absurd hlong (by decide)

theorem isName_flatten (hp : normalize p = .ok p) : IsName (flatten p) := by
  obtain ⟨hne, hfree⟩ := mem_components (show flatten p ∈ components (flatten p) by simp [components_flatten hp])
  obtain ⟨hdot, hdots⟩ := flatten_ne_dots hp
  refine ⟨hne, fun x hx => ⟨(hfree x hx).2.1, (hfree x hx).2.2, ?_⟩, fault?_eq_none_iff.2 ⟨hdot, hdots, ?_⟩⟩
  · rintro rfl
    rcases mem_flatten hp hx with hnull | hdot
    · exact null_not_mem hp hnull
    · exact absurd hdot (by decide)
  · obtain ⟨c, cs, hcs, -⟩ := project?_eq hp
    have hc : c ∈ components p := by simp [hcs]
    obtain ⟨-, -, hblank⟩ := fault?_eq_none_iff.1 (isName_of_mem hp hc).2.2
    obtain ⟨x, hx, hxb⟩ := List.all_eq_false.1 hblank
    obtain ⟨hmem, hslash, -⟩ := (mem_components hc).2 x hx
    exact List.all_eq_false.2 ⟨x, mem_flatten_of_mem hp hmem hslash, hxb⟩

end Path

namespace DraftFolder

open Workspace

variable {o : Options} {p path : String} {w w' : Workspace} {folder : DraftFolder} {content : Bytes} {l : Place}

theorem isName_defaultName : ∀ c ∈ Path.components defaultName, Path.IsName c := by decide

theorem null_not_mem_defaultName : Char.ofNat 0 ∉ defaultName.toList := by decide

theorem fits_defaultName : Fits defaultName := by decide

theorem base_of_path? (hpath : path? o.folder ((Path.project? p).getD "/") = some path)
    (hbase : w.disk.isFolder (Path.basePlace p) = true) :
    ∃ base, w.projectBase? ((Path.project? p).getD "/") = .ok (some base) ∧
      Path.normalize base = .ok base ∧ Path.components base = Path.basePlace p ∧
      resolve (Path.join base o.folder) = .ok (path, o.folderPlace p) := by
  obtain ⟨base, hnorm, hjoin⟩ := path?_eq_some_iff.1 hpath
  refine ⟨base, ?_, Path.normalize_of_normalize hnorm, Path.components_of_normalize hnorm, ?_⟩
  · refine projectBase?_of_isFolder (resolve_eq_ok_iff.2 ⟨hnorm, rfl⟩) ?_
    rwa [Path.slashComponents_of_normalize hnorm]
  · exact resolve_eq_ok_iff.2 ⟨hjoin, (slashComponents_of_path? hpath).symm⟩

theorem short_of_mem_folderPlace (ht : w.disk.IsTree) (hp : Path.normalize p = .ok p) (hfits : Fits o.folder)
    (hbase : w.disk.isFolder (Path.basePlace p) = true) :
    ∀ name ∈ o.folderPlace p, Disk.isTooLong name = false := by
  obtain ⟨c, hone⟩ := Path.project_components hp
  obtain ⟨m, hm⟩ := Disk.isFolder_iff.1 hbase
  rw [Path.basePlace, hone] at hm
  intro name hname
  rw [Options.folderPlace, Path.basePlace, hone, List.singleton_append, List.mem_cons] at hname
  rcases hname with rfl | hname
  · exact (ht.above (p := []) hm).2
  · exact hfits name hname

theorem create_of_clear (ht : w.disk.IsTree) (hp : Path.normalize p = .ok p)
    (hpath : path? o.folder ((Path.project? p).getD "/") = some path) (hfits : Fits o.folder)
    (hbase : w.disk.isFolder (Path.basePlace p) = true)
    (hclear : ∀ x, x <+: o.folderPlace p → w.disk.content? x = none) :
    ∃ folder w', create o.folder ((Path.project? p).getD "/") w = .ok folder w' := by
  obtain ⟨base, hfound, hnorm, hcomponents, hjoin⟩ := base_of_path? hpath hbase
  obtain ⟨c, hone⟩ := Path.project_components hp
  have hmade : (w.disk.makeFolders (o.folderPlace p)).1 = .ok () :=
    Disk.makeFoldersFrom_of_clear (short_of_mem_folderPlace ht hp hfits hbase) hclear
  rcases hd : w.disk.makeFolders (o.folderPlace p) with ⟨r, disk⟩
  have hr : r = .ok () := by
    rw [hd] at hmade
    exact hmade
  subst hr
  have hne : Path.basePlace p ≠ [] := by simp [Path.basePlace, hone]
  have hfolders (parts : List String) (hpre : parts <+: Path.slashComponents o.folder) :
      disk.isFolder (Path.basePlace p ++ parts.flatMap Path.components) = true := by
    have hway : Path.basePlace p ++ parts.flatMap Path.components <+: o.folderPlace p :=
      (List.prefix_append_right_inj _).2 (Path.flatMap_components_prefix hpre)
    have hfolder := Disk.isFolder_of_makeFolders hmade (List.append_ne_nil_of_left_ne_nil hne _) hway
    rwa [hd] at hfolder
  obtain ⟨hnormal, -⟩ := resolve_eq_ok_iff.1 hjoin
  obtain ⟨v, hrun, -⟩ := Storing.restrictAlong_restricts (w := { w with disk })
    (Path.null_not_mem hnorm) (by rwa [hcomponents]) (null_not_mem_parts hnormal) hnormal
    (by rw [Path.components_join, ← Path.components_eq_flatMap])
    fun parts _ hpre => by rw [hcomponents]; exact hfolders parts hpre
  refine ⟨⟨(Path.project? p).getD "/", path⟩, v, ?_⟩
  rw [create, bind_of_ok _ (Storing.ask_eq_ok.2 ⟨hfound, rfl⟩)]
  dsimp only
  rw [bind_of_ok _ (Storing.makeFolder_of_ok hjoin hd), bind_of_ok _ hrun]
  rfl

theorem ensure_of_clear (ht : w.disk.IsTree) (hp : Path.normalize p = .ok p)
    (hpath : path? o.folder ((Path.project? p).getD "/") = some path) (hfits : Fits o.folder)
    (hbase : w.disk.isFolder (Path.basePlace p) = true)
    (hclear : ∀ x, x <+: o.folderPlace p → w.disk.content? x = none) :
    ∃ folder w', ensure o.folder ((Path.project? p).getD "/") w = .ok folder w' := by
  cases hthere : w.disk.isFolder (o.folderPlace p) with
  | true =>
      rw [← slashComponents_of_path? hpath] at hthere
      exact ⟨_, w, ensure_of_isFolder ht hpath hthere⟩
  | false =>
      obtain ⟨folder, w', hcreate⟩ := create_of_clear ht hp hpath hfits hbase hclear
      obtain ⟨base, hfound, -, -, hjoin⟩ := base_of_path? hpath hbase
      have hnone := Disk.get?_eq_none_of_not_folder (hclear _ (List.prefix_refl _)) hthere
      have hway : w.disk.obstacle [] (o.folderPlace p) = .missing :=
        Disk.obstacle_of_clear (short_of_mem_folderPlace ht hp hfits hbase) hclear
      have hmissing : w.folder? (Path.join base o.folder) = .ok none := by
        rw [folder?_eq hjoin, Disk.locate, hnone, hway]
      refine ⟨folder, w', ?_⟩
      rw [ensure, bind_of_ok _ (find?_of_missing hfound hmissing)]
      exact hcreate

theorem write_of_disk {disk : Disk} (hl : Place.ofName? (folder.filePath (Path.flatten p)) = some l)
    (hdisk : w.disk.write l content = .ok disk) : ∃ w', folder.write (Path.flatten p) content w = .ok () w' := by
  obtain ⟨q, hr⟩ := ofName?_eq_some_iff.1 hl
  have hwrite : w.write (folder.filePath (Path.flatten p)) content = .ok { w with disk } := by
    simp only [Workspace.write, hr, bind, Except.bind, hdisk]
    rfl
  obtain ⟨l', hl', -, hcontent⟩ := Workspace.write_eq_ok hwrite
  obtain ⟨w', hrestrict⟩ := restrict_of_content? hl' hcontent
  exact ⟨w', bind_eq_ok.2 ⟨(), _, Storing.change_eq_ok.2 hwrite, Storing.change_eq_ok.2 hrestrict⟩⟩

theorem write_of_missing (content : Bytes) (hl : Place.ofName? (folder.filePath (Path.flatten p)) = some l)
    (hm : w.disk.locate l = .error .missing) (hf : w.disk.isFolder l.dropLast = true) :
    ∃ w', folder.write (Path.flatten p) content w = .ok () w' := by
  have hdisk : w.disk.write l content = .ok (w.disk.put l (.file Disk.newFileMode content)) := by
    simp only [Disk.write, hm, hf, if_true]
  exact write_of_disk hl hdisk

theorem contains_of_missing (hl : Place.ofName? (folder.filePath (Path.flatten p)) = some l)
    (hm : w.disk.locate l = .error .missing) : folder.contains (Path.flatten p) w = .ok false w := by
  obtain ⟨q, hr⟩ := ofName?_eq_some_iff.1 hl
  have hfile := file?_eq (w := w) hr
  rw [hm] at hfile
  have hask : Storing.ask (fun w => w.file? (folder.filePath (Path.flatten p))) w = .ok none w :=
    Storing.ask_eq_ok.2 ⟨hfile, rfl⟩
  rw [contains, bind_of_ok _ hask]
  rfl

end DraftFolder

namespace Options

variable {o : Options} {p : String} {l : Place}

theorem isName_of_mem_folderPlace (hp : Path.normalize p = .ok p)
    (hname : ∀ c ∈ Path.components o.folder, Path.IsName c) : ∀ c ∈ o.folderPlace p, Path.IsName c := by
  obtain ⟨first, rest, hcs, hproject, -, hone⟩ := Path.project?_eq hp
  intro c hc
  rw [folderPlace, Path.basePlace, hproject, Option.getD_some, hone, List.singleton_append,
    List.mem_cons] at hc
  rcases hc with rfl | hc
  · exact Path.isName_of_mem hp (by simp [hcs])
  · exact hname c hc

theorem path?_of_short (hp : Path.normalize p = .ok p)
    (hname : ∀ c ∈ Path.components o.folder, Path.IsName c) (hnull : Char.ofNat 0 ∉ o.folder.toList)
    (hshort : (Path.ofComponents (o.filePlace p)).length ≤ Path.maxLength) :
    DraftFolder.path? o.folder ((Path.project? p).getD "/") =
      some (Path.ofComponents (o.folderPlace p)) := by
  obtain ⟨c, -, -, hproject, hnorm, -⟩ := Path.project?_eq hp
  have hbase : Path.normalize ((Path.project? p).getD "/") = .ok ((Path.project? p).getD "/") := by
    rwa [hproject, Option.getD_some]
  have hplace : Path.components (Path.join ((Path.project? p).getD "/") o.folder) = o.folderPlace p :=
    Path.components_join ..
  refine DraftFolder.path?_eq_some_iff.2 ⟨_, hbase, Path.normalize_eq_ok_iff.2 ?_⟩
  rw [hplace]
  refine ⟨?_, ?_, fun c hc => (isName_of_mem_folderPlace hp hname c hc).2.2, rfl, ?_⟩
  · rw [Path.mem_join_iff (by decide)]
    exact not_or.2 ⟨Path.null_not_mem hbase, hnull⟩
  · obtain ⟨c, hone⟩ := Path.project_components hp
    simp [folderPlace, Path.basePlace, hone]
  · rw [filePlace, Path.ofComponents_append, String.length_append] at hshort
    omega

theorem ofName?_filePath {folder : DraftFolder} (hp : Path.normalize p = .ok p)
    (hname : ∀ c ∈ Path.components o.folder, Path.IsName c)
    (hshort : (Path.ofComponents (o.filePlace p)).length ≤ Path.maxLength)
    (hpath : DraftFolder.path? o.folder ((Path.project? p).getD "/") = some folder.path) :
    Place.ofName? (folder.filePath (Path.flatten p)) = some (o.filePlace p) := by
  obtain ⟨base, -, hjoin⟩ := DraftFolder.path?_eq_some_iff.1 hpath
  have hplace : Path.components folder.path = o.folderPlace p := by
    rw [← DraftFolder.slashComponents_of_path? hpath, Path.slashComponents_of_normalize hjoin,
      Path.components_of_normalize hjoin]
  have hfile : folder.filePath (Path.flatten p) = Path.ofComponents (o.filePlace p) := by
    rw [DraftFolder.filePath, Path.join_eq_ofComponents (Path.normalize_of_normalize hjoin)
      (Path.components_flatten hp), hplace]
    rfl
  have hnames : ∀ c ∈ o.filePlace p, Path.IsName c := by
    intro c hc
    rcases List.mem_append.1 hc with hc | hc
    · exact isName_of_mem_folderPlace hp hname c hc
    · rw [List.mem_singleton.1 hc]
      exact Path.isName_flatten hp
  have hne : o.filePlace p ≠ [] := by simp [filePlace]
  have hnorm := Path.normalize_of_names hne hnames hshort
  rw [hfile]
  refine Workspace.ofName?_eq_some_iff.2 ⟨_, Workspace.resolve_eq_ok_iff.2 ⟨hnorm, ?_⟩⟩
  rw [Path.slashComponents_of_normalize hnorm, Path.components_of_names hnames]

theorem length_of_draftPlace? (hp : Path.normalize p = .ok p) (hl : o.draftPlace? p = some l) :
    (Path.ofComponents (o.filePlace p)).length ≤ Path.maxLength := by
  obtain ⟨c, cs, path, -, -, hpath, -⟩ := draftPlace?_eq_some hp hl
  obtain ⟨folder, rfl⟩ : ∃ folder : DraftFolder, folder.path = path := ⟨⟨c, path⟩, rfl⟩
  rw [draftPlace?, DraftFolder.place?_of_path? hpath] at hl
  have hnorm := normalize_filePath hp hpath hl
  rw [← components_filePath hp hpath, ← Path.eq_ofComponents hnorm]
  exact (Path.normalize_eq_ok_iff.1 hnorm).2.2.2.2

end Options

namespace Keeper

variable {k k' : Keeper} {path p : String} {content : Bytes} {d : Draft} {u : Unit}

/-- The way to the draft file of a path is clear: no file stands in it, nothing is at its end, and neither the
name nor the path of the draft file is too long. -/
structure Clear (k : Keeper) (p : String) : Prop where
  way : ∀ x, x <+: k.options.folderPlace p → k.workspace.disk.content? x = none
  free : k.workspace.disk.get? (k.options.filePlace p) = none
  name : (Path.flatten p).utf8ByteSize ≤ Disk.maxName
  path : (Path.ofComponents (k.options.filePlace p)).length ≤ Path.maxLength

theorem isFolder_basePlace (ht : k.workspace.disk.IsTree) (hp : Path.normalize p = .ok p)
    (htwo : 2 ≤ (Path.components p).length)
    (hfile : k.workspace.disk.content? (Path.components p) = some content) :
    k.workspace.disk.isFolder (Path.basePlace p) = true := by
  obtain ⟨first, rest, hcs, hproject, -, hone⟩ := Path.project?_eq hp
  obtain ⟨m, hm⟩ := Disk.content?_eq_some_iff.1 hfile
  rw [hcs] at hm htwo
  have hne : rest ≠ [] := by
    rintro rfl
    simp at htwo
  rw [Path.basePlace, hproject, Option.getD_some, hone]
  exact ht.isFolder_above hne hm

theorem create_of_stages {folder : DraftFolder} {w v : Workspace} (hp : Path.normalize p = .ok p)
    (hread : k.workspace.read p = .ok content)
    (hens : DraftFolder.ensure k.options.folder ((Path.project? p).getD "/") k.workspace = .ok folder w)
    (hcontains : folder.contains (Path.flatten p) w = .ok false w)
    (hwrite : folder.write (Path.flatten p) content w = .ok () v) : ∃ d k', create p k = .ok d k' := by
  have hitem := Workspace.file?_of_read hp hread
  have hmade : ensureFolder ((Path.project? p).getD "/") k = .ok folder (k.withWorkspace w) :=
    (ensureFolder_eq _ k).trans (storing_eq_ok.2 ⟨w, hens, rfl⟩)
  refine ⟨.new (Path.flatten p) ((Path.project? p).getD "/") content,
    (k.withWorkspace v).withDrafts (k.drafts.put p (.new (Path.flatten p) ((Path.project? p).getD "/") content)), ?_⟩
  rw [create]
  refine bind_eq_ok.2 ⟨_, _, ask_eq_ok.2 ⟨hitem, rfl⟩, bind_eq_ok.2 ⟨_, _, ask_eq_ok.2 ⟨hread, rfl⟩, ?_⟩⟩
  refine bind_eq_ok.2 ⟨_, _, hmade, bind_eq_ok.2 ⟨_, _, storing_eq_ok.2 ⟨w, hcontains, rfl⟩, ?_⟩⟩
  exact bind_eq_ok.2 ⟨_, _, storing_eq_ok.2 ⟨v, hwrite, rfl⟩, rfl⟩

/-- A file that can be read begins to be tracked if the way to its draft file is clear. -/
theorem create_of_clear (ht : k.workspace.disk.IsTree) (hp : Path.normalize p = .ok p)
    (htwo : 2 ≤ (Path.components p).length) (hfolder : k.options.folder = DraftFolder.defaultName)
    (hfile : k.workspace.disk.content? (Path.components p) = some content) (hclear : k.Clear p) :
    ∃ d k', create p k = .ok d k' := by
  have hname : ∀ c ∈ Path.components k.options.folder, Path.IsName c := hfolder ▸ DraftFolder.isName_defaultName
  have hnull : Char.ofNat 0 ∉ k.options.folder.toList := hfolder ▸ DraftFolder.null_not_mem_defaultName
  have hfits : DraftFolder.Fits k.options.folder := hfolder ▸ DraftFolder.fits_defaultName
  have hbase := isFolder_basePlace ht hp htwo hfile
  have hread : k.workspace.read p = .ok content := by
    rwa [Workspace.read_eq_ok_iff_content? hp, Path.slashComponents_of_normalize hp]
  have hshort : Disk.isTooLong (Path.flatten p) = false := decide_eq_false (Nat.not_lt.2 hclear.name)
  obtain ⟨folder, w, hens⟩ := DraftFolder.ensure_of_clear ht hp
    (Options.path?_of_short hp hname hnull hclear.path) hfits hbase hclear.way
  obtain ⟨-, -, hpath, hthere⟩ := DraftFolder.ensure_eq_ok hens
  rw [DraftFolder.slashComponents_of_path? hpath] at hthere
  have hl := Options.ofName?_filePath hp hname hclear.path hpath
  -- making the folder changes nothing at the end of the way, and the file can be made in it
  have hmissing := DraftFolder.locate_of_ensure_of_none ht hp hens hclear.free hshort
  have habove : w.disk.isFolder (k.options.filePlace p).dropLast = true := by
    rw [Options.filePlace, List.dropLast_concat]
    exact hthere
  obtain ⟨v, hwrite⟩ := DraftFolder.write_of_missing content hl hmissing habove
  exact create_of_stages hp hread hens (DraftFolder.contains_of_missing hl hmissing) hwrite

theorem fits_of_create (ht : k.workspace.disk.IsTree) (hp : Path.normalize p = .ok p)
    (h : create p k = .ok d k') : (Path.flatten p).utf8ByteSize ≤ Disk.maxName ∧
      (Path.ofComponents (k.options.filePlace p)).length ≤ Path.maxLength := by
  obtain ⟨w, l, content, -, -, -, hl, hchanges, hkept⟩ := create_eq_ok hp h
  obtain ⟨m, hm⟩ := Disk.content?_eq_some_iff.1 hkept
  obtain rfl := Options.eq_filePlace hp hl
  have hname := ((hchanges.2.tree ht).above hm).2
  exact ⟨Nat.not_lt.1 (of_decide_eq_false hname), Options.length_of_draftPlace? hp hl⟩

theorem left_by_create (hp : Path.normalize p = .ok p)
    (hfile : k.workspace.disk.content? (Path.components p) = some content)
    (hnone : k.workspace.disk.get? (k.options.filePlace p) = none) (h : create p k = .ok d k') :
    k'.drafts.get? p = some (.new (Path.flatten p) ((Path.project? p).getD "/") content) ∧
      k'.workspace.disk.content? (k.options.filePlace p) = some content := by
  obtain ⟨w, l, bytes, hread, rfl, rfl, hl, -, hkept⟩ := create_eq_ok hp h
  rw [Workspace.read_eq_ok_iff_content? hp, Path.slashComponents_of_normalize hp, hfile] at hread
  obtain rfl := Option.some.inj hread
  obtain rfl := Options.eq_filePlace hp hl
  have hfree : k.workspace.disk.content? (k.options.filePlace p) = none := by
    rw [Disk.content?, hnone]
    rfl
  rw [hfree] at hkept
  exact ⟨Drafts.get?_put_self .., hkept⟩

theorem start_eq_ok_iff (hp : Path.normalize path = .ok p) :
    start path k = .ok u k' ↔ ∃ d, opened p k = .ok d k' := by
  constructor
  · intro h
    obtain ⟨q, d, hq, hd⟩ := start_eq_ok h
    obtain rfl := Except.ok.inj (hp.symm.trans hq)
    exact ⟨d, hd⟩
  · rintro ⟨d, hd⟩
    rw [start_eq]
    exact bind_eq_ok.2 ⟨p, k, normalized_eq_ok.2 ⟨hp, rfl⟩, bind_eq_ok.2 ⟨d, k', hd, rfl⟩⟩

end Keeper

namespace Session

open Keeper (start)

variable {s : Session} {o : Options} {w : Workspace} {capacity : Nat} {clock : Time.Instant} {k : Keeper}
  {path p : String} {content : Bytes}

/-- In every session with the default folder a file in a project can be tracked, where no file is in the way of
the draft folder and nothing is at the place of the draft file, exactly if the name and the path of the draft
file are not too long. It is then tracked with the bytes of the file, and the draft file has the same bytes. If
the file is tracked already nothing happens. -/
theorem start_succeeds_iff_draft_file_fits (ht : w.disk.IsTree)
    (h : Reached (fun _ a => a.LeavesTree) (.new o w capacity clock) s)
    (hfolder : o.folder = DraftFolder.defaultName) (hp : Path.normalize path = .ok p)
    (htwo : 2 ≤ (Path.components p).length)
    (hfile : s.keeper.workspace.disk.content? (Path.components p) = some content)
    (hway : ∀ x, x <+: o.folderPlace p → s.keeper.workspace.disk.content? x = none)
    (hnone : s.keeper.workspace.disk.get? (o.filePlace p) = none) :
    (s.keeper.drafts.get? p = none →
      ((∃ k, start path s.keeper = .ok () k) ↔ (Path.flatten p).utf8ByteSize ≤ Disk.maxName ∧
        (Path.ofComponents (o.filePlace p)).length ≤ Path.maxLength) ∧
      ∀ k, start path s.keeper = .ok () k →
        k.drafts.get? p = some (.new (Path.flatten p) ((Path.project? p).getD "/") content) ∧
        k.workspace.disk.content? (o.filePlace p) = some content) ∧
    (∀ d, s.keeper.drafts.get? p = some d → start path s.keeper = .ok () s.keeper) := by
  have htree := h.tree ht fun _ _ ha => ha
  have hnorm := Path.normalize_of_normalize hp
  obtain rfl := h.options
  refine ⟨fun hfree => ⟨⟨?_, ?_⟩, fun k hk => ?_⟩, fun d hd => ?_⟩
  · rintro ⟨k, hk⟩
    obtain ⟨d, hd⟩ := (Keeper.start_eq_ok_iff hp).1 hk
    rw [Keeper.opened_of_none hfree] at hd
    exact Keeper.fits_of_create htree hnorm hd
  · rintro ⟨hname, hlength⟩
    obtain ⟨d, k, hk⟩ := Keeper.create_of_clear htree hnorm htwo hfolder hfile ⟨hway, hnone, hname, hlength⟩
    rw [← Keeper.opened_of_none hfree] at hk
    exact ⟨k, (Keeper.start_eq_ok_iff hp).2 ⟨d, hk⟩⟩
  · obtain ⟨d, hd⟩ := (Keeper.start_eq_ok_iff hp).1 hk
    rw [Keeper.opened_of_none hfree] at hd
    exact Keeper.left_by_create hnorm hfile hnone hd
  · exact (Keeper.start_eq_ok_iff hp).2 ⟨d, Keeper.opened_of_some hd⟩

theorem start_in_fresh_project :
    let s := Session.new ⟨DraftFolder.defaultName, .char, 4⟩ .sample 4 ⟨0, 0, 0⟩
    ∃ k, start "p//a" s.keeper = .ok () k ∧
      k.drafts.get? "/p/a" = some ⟨"p.a", "/p", [104, 105], false⟩ ∧
      k.workspace.disk.content? ["p", ".draftsync", "working_copies", "p.a"] = some [104, 105] := by
  intro s
  have hp : Path.normalize "p//a" = .ok "/p/a" := Path.normalize_eq_ok_iff.2 (by decide)
  have hfolder : s.keeper.options.folderPlace "/p/a" = ["p", ".draftsync", "working_copies"] := by decide
  have hplace : s.keeper.options.filePlace "/p/a" = ["p", ".draftsync", "working_copies", "p.a"] := by decide
  have hway : ∀ x, x <+: ["p", ".draftsync", "working_copies"] → s.keeper.workspace.disk.content? x = none := by
    intro x hx
    have hclear : ∀ way ∈ ["p", ".draftsync", "working_copies"].inits,
        s.keeper.workspace.disk.content? way = none := by decide
    exact hclear x ((List.mem_inits x _).2 hx)
  have hfile : s.keeper.workspace.disk.content? (Path.components "/p/a") = some [104, 105] := by decide
  have hnone : s.keeper.workspace.disk.get? (s.keeper.options.filePlace "/p/a") = none := by
    rw [hplace]
    decide
  obtain ⟨hstarts, hleaves⟩ := (start_succeeds_iff_draft_file_fits (w := .sample) (by decide) .start rfl hp
    (by decide) hfile (hfolder ▸ hway) hnone).1 rfl
  obtain ⟨k, hk⟩ := hstarts.2 (by decide)
  obtain ⟨hdraft, hkept⟩ := hleaves k hk
  exact ⟨k, hk, hdraft, hplace ▸ hkept⟩

/-- A name that leaves no room for the name of the project in front of it. -/
def filledName : String := String.ofList (List.replicate 254 'x')

theorem length_filledName : filledName.length = 254 := String.length_ofList.trans List.length_replicate

def filledPath : String := Path.ofComponents ["p", filledName]

theorem isName_of_filled : ∀ c ∈ ["p", filledName], Path.IsName c :=
  List.forall_mem_cons.2 ⟨by decide, List.forall_mem_singleton.2 (Path.isName_replicate (by decide))⟩

theorem length_filledPath : filledPath.length = 257 := by
  rw [filledPath, Path.length_ofComponents_cons, Path.length_ofComponents_cons, length_filledName]
  rfl

theorem normalize_filledPath : Path.normalize filledPath = .ok filledPath :=
  Path.normalize_of_names (by simp) isName_of_filled (length_filledPath.trans_le (by decide))

theorem components_filledPath : Path.components filledPath = ["p", filledName] :=
  Path.components_of_names isName_of_filled

def sampleFilled : Session :=
  .new ⟨DraftFolder.defaultName, .char, 4⟩ ⟨"/w", Disk.put ⟨[([], .folder 0o755), (["p"], .folder 0o755),
    (["p", ".draftsync"], .folder 0o700), (["p", ".draftsync", "working_copies"], .folder 0o700)]⟩
      ["p", filledName] (.file 0o644 [120])⟩ 4 ⟨0, 0, 0⟩

theorem folderPlace_filledPath :
    sampleFilled.keeper.options.folderPlace filledPath = ["p", ".draftsync", "working_copies"] := by
  have hbase : Path.basePlace filledPath = ["p"] := by
    rw [Path.basePlace, Path.project?_of_components normalize_filledPath components_filledPath]
    decide
  rw [Options.folderPlace, hbase]
  decide

theorem start_fails_for_filled_name :
    Path.normalize filledPath = .ok filledPath ∧ Path.components filledPath = ["p", filledName] ∧
      sampleFilled.keeper.workspace.disk.content? ["p", filledName] = some [120] ∧
      sampleFilled.keeper.workspace.disk.isFolder (sampleFilled.keeper.options.folderPlace filledPath) = true ∧
      sampleFilled.keeper.workspace.disk.get? (sampleFilled.keeper.options.filePlace filledPath) = none ∧
      ∀ k, start filledPath sampleFilled.keeper ≠ .ok () k := by
  have htree : sampleFilled.keeper.workspace.disk.IsTree := by decide +kernel
  refine ⟨normalize_filledPath, components_filledPath, ?_, ?_, ?_, ?_⟩
  · exact (Disk.content?_put _).trans (if_pos rfl)
  · rw [folderPlace_filledPath]
    exact (Disk.isFolder_put _).trans (if_neg (by simp))
  · rw [Options.filePlace, folderPlace_filledPath]
    exact (Disk.get?_put ..).trans (if_neg (by simp))
  · intro k hk
    obtain ⟨d, hd⟩ := (Keeper.start_eq_ok_iff normalize_filledPath).1 hk
    rw [Keeper.opened_of_none rfl] at hd
    have hshort := (Keeper.fits_of_create htree normalize_filledPath hd).1
    have hlong := Path.isTooLong_flatten normalize_filledPath (length_filledPath.symm ▸ by decide)
    exact Nat.not_lt.2 hshort (of_decide_eq_true hlong)

end Session

end DraftKeeper
