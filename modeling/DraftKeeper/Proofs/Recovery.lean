import DraftKeeper.Proofs.Comparisons
import DraftKeeper.Proofs.Durability
import DraftKeeper.Proofs.Sweeps

namespace DraftKeeper

open Text.Utf8 (decode encode)

namespace Keeper

section Asking

variable {k : Keeper} {path p : String} {file kept : Bytes} {folder : DraftFolder}

theorem recoverable?_of_untracked (hp : Path.normalize path = .ok p)
    (hd : k.drafts.get? p = none) (hfile : k.workspace.read p = .ok file) :
    recoverable? path k = (do
      match ← findFolder? ((Path.project? p).getD "/") with
      | none => return none
      | some folder =>
        match ← storing (folder.read? (Path.flatten p)) with
        | none => return none
        | some kept =>
          let current ← ask fun w => w.read p
          return if Comparison.differ kept current then some (decode kept) else none
        : Keeping (Option String)) k := by
  have hitem : ask (fun w => w.file? p) k = .ok (some ⟨p, (Path.project? p).getD "/"⟩) k :=
    ask_eq_ok.2 ⟨Workspace.file?_of_read (Path.normalize_of_normalize hp) hfile, rfl⟩
  rw [recoverable?, bind_of_ok _ (normalized_eq_ok.2 ⟨hp, rfl⟩), bind_of_ok _ (draft?_eq p k), hd]
  simp only [Option.isSome_none, Bool.false_eq_true, if_false]
  exact bind_of_ok _ hitem

theorem findFolder?_of_find? {project : String} {found : Option DraftFolder}
    (h : DraftFolder.find? k.options.folder project k.workspace = .ok found k.workspace) :
    findFolder? project k = .ok found k := by
  rw [findFolder?_eq]
  exact storing_eq_ok.2 ⟨_, h, rfl⟩

theorem recoverable?_of_no_folder (hp : Path.normalize path = .ok p)
    (hd : k.drafts.get? p = none) (hfile : k.workspace.read p = .ok file)
    (hfind : DraftFolder.find? k.options.folder ((Path.project? p).getD "/") k.workspace =
      .ok none k.workspace) :
    recoverable? path k = .ok none k := by
  rw [recoverable?_of_untracked hp hd hfile, bind_of_ok _ (findFolder?_of_find? hfind)]
  rfl

theorem recoverable?_of_no_file (hp : Path.normalize path = .ok p)
    (hd : k.drafts.get? p = none) (hfile : k.workspace.read p = .ok file)
    (hfind : DraftFolder.find? k.options.folder ((Path.project? p).getD "/") k.workspace =
      .ok (some folder) k.workspace)
    (hread : folder.read? (Path.flatten p) k.workspace = .ok none k.workspace) :
    recoverable? path k = .ok none k := by
  rw [recoverable?_of_untracked hp hd hfile, bind_of_ok _ (findFolder?_of_find? hfind)]
  simp only [bind_of_ok _ (storing_eq_ok.2 ⟨_, hread, rfl⟩)]
  rfl

theorem recoverable?_of_file (hp : Path.normalize path = .ok p)
    (hd : k.drafts.get? p = none) (hfile : k.workspace.read p = .ok file)
    (hfind : DraftFolder.find? k.options.folder ((Path.project? p).getD "/") k.workspace =
      .ok (some folder) k.workspace)
    (hread : folder.read? (Path.flatten p) k.workspace = .ok (some kept) k.workspace) :
    recoverable? path k =
      .ok (if Comparison.differ kept file then some (decode kept) else none) k := by
  rw [recoverable?_of_untracked hp hd hfile, bind_of_ok _ (findFolder?_of_find? hfind)]
  simp only [bind_of_ok _ (storing_eq_ok.2 ⟨_, hread, rfl⟩)]
  exact bind_of_ok _ (ask_eq_ok.2 ⟨hfile, rfl⟩)

end Asking

end Keeper

namespace Options

/-- A new keeper over the workspace offers this text for a path, unless the file has the same text. -/
def Recovers (o : Options) (w : Workspace) (path text : String) (file : Bytes) : Prop :=
  ∀ capacity clock, Keeper.recoverable? path (.new o w capacity clock) =
    .ok (if text = decode file then none else some text) (.new o w capacity clock)

variable {o : Options} {w : Workspace} {path p : String} {l : Place} {file kept : Bytes}

theorem find?_of_content? (ht : w.disk.IsTree) (hp : Path.normalize p = .ok p)
    (hl : o.draftPlace? p = some l) (hc : w.disk.content? l = some kept) :
    ∃ folder, DraftFolder.find? o.folder ((Path.project? p).getD "/") w = .ok (some folder) w ∧
      Place.ofName? (folder.filePath (Path.flatten p)) = some l := by
  obtain ⟨c, cs, base, -, -, hbase, -, rfl⟩ := draftPlace?_eq_some hp hl
  obtain ⟨m, hm⟩ := Disk.content?_eq_some_iff.1 hc
  refine ⟨⟨(Path.project? p).getD "/", base⟩, DraftFolder.find?_of_isFolder ht hbase (ht.above hm).1, ?_⟩
  rw [← hl, Options.draftPlace?]
  exact (DraftFolder.place?_of_path? hbase).symm

theorem recovers_of_content? (ht : w.disk.IsTree) (hp : Path.normalize path = .ok p)
    (hfile : w.read p = .ok file) (hl : o.draftPlace? p = some l)
    (hc : w.disk.content? l = some kept)
    (hsha : Digest.Sha256.NoCollision (encode (decode kept)) (encode (decode file))) :
    o.Recovers w path (decode kept) file := by
  obtain ⟨folder, hfind, hplace⟩ := find?_of_content? ht (Path.normalize_of_normalize hp) hl hc
  have hanswer : (if decode kept = decode file then none else some (decode kept)) =
      if Comparison.differ kept file then some (decode kept) else none := by
    by_cases heq : decode kept = decode file
    · rw [if_pos heq, if_neg fun hd => (Comparison.differ_iff hsha).1 hd heq]
    · rw [if_neg heq, if_pos ((Comparison.differ_iff hsha).2 heq)]
  intro capacity clock
  rw [hanswer]
  exact Keeper.recoverable?_of_file hp rfl hfile hfind (DraftFolder.read?_of_content? hplace hc)

theorem gone_of_discard {k k' : Keeper} {u : Unit} (ht : k.workspace.disk.IsTree)
    (hp : Path.normalize p = .ok p) (hl : k.options.draftPlace? p = some l)
    (h : Keeper.discard ((Path.project? p).getD "/") (Path.flatten p) k = .ok u k') :
    k'.workspace.disk.content? l = none := by
  obtain ⟨w, rfl, ⟨rfl, hfind⟩ | ⟨folder, l', -, -, hl', -, hnone, -⟩⟩ := Keeper.discard_eq_ok h
  · cases hc : k.workspace.disk.content? l with
    | none => exact hc
    | some kept =>
        obtain ⟨folder, hfind', -⟩ := find?_of_content? ht hp hl hc
        cases hfind.symm.trans hfind'
  · obtain rfl := Option.some.inj (hl.symm.trans hl')
    exact hnone

theorem recovers_of_discard {k k' : Keeper} {u : Unit} (ht : k.workspace.disk.IsTree)
    (hp : Path.normalize path = .ok p) (hfile : k'.workspace.read p = .ok file)
    (h : Keeper.discard ((Path.project? p).getD "/") (Path.flatten p) k = .ok u k') :
    k.options.Recovers k'.workspace path (decode file) file := by
  intro capacity clock
  rw [if_pos rfl]
  obtain ⟨w, rfl, ⟨rfl, hfind⟩ | ⟨folder, l, hfind, hplace, -, hw, -, hmissing⟩⟩ :=
    Keeper.discard_eq_ok h
  · exact Keeper.recoverable?_of_no_folder hp rfl hfile hfind
  · obtain ⟨hproject, hpath, hfolder⟩ := (DraftFolder.find?_eq_ok hfind).2 folder rfl
    have hfind' := DraftFolder.find?_of_isFolder (hw.2.tree ht) hpath (hw.2.folder _ hfolder)
    obtain ⟨project, base⟩ := folder
    obtain rfl : project = (Path.project? p).getD "/" := hproject
    exact Keeper.recoverable?_of_no_file hp rfl hfile hfind'
      (DraftFolder.read?_of_missing hplace (hmissing ht))

end Options

namespace Keeper

variable {k k' : Keeper} {path p : String} {d : Draft} {file : Bytes}

theorem recovers_of_stop (ht : k.workspace.disk.IsTree) (hp : Path.normalize path = .ok p)
    (hd : k.drafts.get? p = some d) (hfor : d.IsFor p) (h : stop path k = .ok () k')
    (hfile : k'.workspace.read p = .ok file)
    (hsha : Digest.Sha256.NoCollision (encode d.text) (encode (decode file))) :
    k.options.Recovers k'.workspace path d.text file ∧ (d.text = decode file →
      ∀ l, k.options.draftPlace? p = some l → k'.workspace.disk.content? l = none) := by
  obtain ⟨k₁, hs, rfl⟩ := stop_eq_ok_of_some hp hd h
  have hfile' : k₁.workspace.read p = .ok file := hfile
  have hbefore : k.workspace.read p = .ok file := by
    obtain ⟨w, rfl, hw⟩ := settled_changes hs
    rw [hfor.place] at hw
    rw [Workspace.read_eq_ok_iff_content? hfor.normal] at hfile' ⊢
    rw [← hfile']
    refine (hw.2.content _ fun hmem => ?_).symm
    exact Options.draftPlace?_ne hfor.normal (Option.mem_toList.1 hmem) rfl
  have hdiffer := Comparison.isAhead_of_read hd hbefore
  rcases settled_eq_ok hs with ⟨ha, location, hwrite⟩ | ⟨ha, hdiscard⟩
  · have hne : d.text ≠ decode file := (Comparison.differ_iff hsha).1 (hdiffer.symm.trans ha)
    obtain ⟨w, l, -, rfl, hl, hw, hkept, -⟩ := write_eq_ok hwrite
    rw [hfor.place] at hl
    exact ⟨Options.recovers_of_content? (hw.2.tree ht) hp hfile hl hkept hsha,
      fun heq => absurd heq hne⟩
  · have heq : d.text = decode file := by
      by_contra hne
      exact absurd (hdiffer.symm.trans ha) (by simp [(Comparison.differ_iff hsha).2 hne])
    rw [hfor.flat, hfor.project] at hdiscard
    have hgone : ∀ l, k.options.draftPlace? p = some l → k₁.workspace.disk.content? l = none :=
      fun l hl => Options.gone_of_discard ht hfor.normal hl hdiscard
    have hrecovers := Options.recovers_of_discard ht hp hfile' hdiscard
    rw [heq]
    exact ⟨hrecovers, fun _ => hgone⟩

end Keeper

namespace Session

variable {paths : List String} {s : Session} {o : Options} {w : Workspace} {capacity : Nat}
  {clock : Time.Instant} {path p : String} {d : Draft} {file : Bytes}

theorem recovers_of_sweep (ht : s.keeper.workspace.disk.IsTree)
    (ha : s.keeper.options.Apart paths) (hs : Durable paths s) (hp : Path.normalize path = .ok p)
    (hd : s.keeper.drafts.get? p = some d) (he : p ∈ s.edited) (hfailed : s.keeper.sweep.1.failed = 0)
    (hfile : s.keeper.sweep.2.workspace.read p = .ok file)
    (hsha : Digest.Sha256.NoCollision (encode d.text) (encode (decode file))) :
    s.keeper.options.Recovers s.keeper.sweep.2.workspace path d.text file := by
  have hsteps : Steps paths s ⟨s.keeper.sweep.2, s.edited⟩ :=
    Operation.sweep.steps s.edited (List.nil_subset _) id
  obtain ⟨d', hd', hcontent, hclean⟩ := Keeper.sweep_clean hd hfailed
  obtain ⟨d'', hd'', hkept⟩ := (hsteps.durable ha hs).kept p he
  obtain rfl := Option.some.inj (hd'.symm.trans hd'')
  obtain ⟨l, hl, hc⟩ := hkept hclean
  rw [hcontent] at hc
  rw [hsteps.options] at hl
  exact Options.recovers_of_content? (hsteps.tree ht) hp hfile hl hc hsha

/-- After a draft was stopped, or was edited and swept, a new keeper offers its text unless the file
has the same; and a stopped draft that says no more than the file leaves no draft file. -/
theorem edits_are_recoverable (hpaths : Path.Distinct paths) (ht : w.disk.IsTree)
    (h : Reached (fun s a => Orderly paths s a ∧ a.LeavesTree) (.new o w capacity clock) s)
    (hp : Path.normalize path = .ok p) (hd : s.keeper.drafts.get? p = some d)
    (hsha : Digest.Sha256.NoCollision (encode d.text) (encode (decode file))) :
    (∀ k, Keeper.stop path s.keeper = .ok () k → k.workspace.read p = .ok file →
      o.Recovers k.workspace path d.text file ∧ (d.text = decode file →
        ∀ l, o.draftPlace? p = some l → k.workspace.disk.content? l = none)) ∧
    (s.keeper.sweep.1.failed = 0 → p ∈ s.edited → s.keeper.sweep.2.workspace.read p = .ok file →
      o.Recovers s.keeper.sweep.2.workspace path d.text file) := by
  have hdurable := h.durable (Options.apart_of_distinct hpaths) fun _ _ ha => ha.1
  have htree := h.tree ht fun _ _ ha => ha.2
  obtain rfl := h.options
  refine ⟨fun k hstop hfile => ?_, fun hfailed he hfile => ?_⟩
  · exact Keeper.recovers_of_stop htree hp hd (hdurable.filed p d hd) hstop hfile hsha
  · exact recovers_of_sweep htree (Options.apart_of_distinct hpaths) hdurable hp hd he hfailed hfile hsha

theorem insertion_is_recoverable :
    (∃ k, Keeper.stop "/p/a" sampleEdited.keeper = .ok () k ∧
        Options.sample.Recovers k.workspace "/p/a" "hi!" [104, 105]) ∧
      sampleEdited.keeper.sweep.1 = ⟨1, 0⟩ ∧
      Options.sample.Recovers sampleEdited.keeper.sweep.2.workspace "/p/a" "hi!" [104, 105] := by
  have hr : Reached (fun s a => Orderly ["/p/a"] s a ∧ a.LeavesTree) sample sampleEdited := by
    refine .step (.step .start ⟨⟨?_, ?_⟩, trivial⟩) ⟨⟨?_, ?_⟩, trivial⟩ <;> decide +kernel
  have ht : Workspace.sample.disk.IsTree := by decide +kernel
  have hp : Path.normalize "/p/a" = .ok "/p/a" := Path.normalize_eq_ok_iff.2 (by decide +kernel)
  obtain ⟨d, hd, htext⟩ : ∃ d, sampleEdited.keeper.drafts.get? "/p/a" = some d ∧ d.text = "hi!" :=
    ⟨⟨"p.a", "/p", [104, 105, 33], true⟩, by decide +kernel, by decide +kernel⟩
  have hsha : Digest.Sha256.NoCollision (encode d.text) (encode (decode [104, 105])) := by
    rw [htext]
    decide +kernel
  obtain ⟨hstop, hsweep⟩ := edits_are_recoverable (by decide +kernel) ht hr hp hd hsha
  rw [htext] at hstop hsweep
  have hread {w : Workspace} (hw : w.disk.content? ["p", "a"] = some [104, 105]) :
      w.read "/p/a" = .ok [104, 105] := (Workspace.read_eq_ok_iff_content? hp).2 hw
  refine ⟨?_, by decide +kernel, ?_⟩
  · obtain ⟨⟨⟩, hk⟩ := Keeper.eq_ok_of_failure? (Keeper.stop "/p/a") sampleEdited.keeper
      (by decide +kernel)
    exact ⟨_, hk, (hstop _ hk (hread (by decide +kernel))).1⟩
  · exact hsweep (by decide +kernel) (by decide +kernel) (hread (by decide +kernel))

end Session

end DraftKeeper
