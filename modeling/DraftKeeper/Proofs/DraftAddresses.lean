import DraftKeeper.Proofs.Recovery

namespace DraftKeeper

open Text.Utf8 (decode)

theorem Workspace.location_congr {w w' : Workspace} (h : w'.root = w.root) (path : String) :
    w'.location path = w.location path := by
  rw [location, location, h]

/-- Where the draft file of a path lies for readers outside, if its folder has a path. -/
def Options.draftLocation? (o : Options) (w : Workspace) (p : String) : Option String :=
  (DraftFolder.path? o.folder ((Path.project? p).getD "/")).map fun path =>
    w.location (Path.join path (Path.flatten p))

namespace Keeper

variable {k k' : Keeper} {p path text location : String} {draft d : Draft}

theorem location_of_write (h : write draft k = .ok location k') :
    (DraftFolder.path? k.options.folder draft.project).map
      (fun path => k.workspace.location (Path.join path draft.flat)) = some location := by
  rw [write] at h
  obtain ⟨folder, k₁, he, h⟩ := bind_eq_ok.1 h
  obtain ⟨u, k₂, hw, h⟩ := bind_eq_ok.1 h
  rw [ensureFolder_eq] at he
  obtain ⟨w₁, hens, rfl⟩ := storing_eq_ok.1 he
  obtain ⟨w₂, hwr, rfl⟩ := storing_eq_ok.1 hw
  obtain ⟨hc₁, -, hpath, -⟩ := DraftFolder.ensure_eq_ok hens
  obtain ⟨l, -, hc₂, -⟩ := DraftFolder.write_eq_ok hwr
  have hroot : w₂.root = k.workspace.root := hc₂.1.trans hc₁.1
  cases h
  rw [hpath, Option.map_some, ← Workspace.location_congr hroot]
  rfl

theorem project_of_file? {item : FileItem} (hp : Path.normalize p = .ok p)
    (h : k.workspace.file? p = .ok (some item)) : item.project = (Path.project? p).getD "/" := by
  obtain ⟨_, _, hr, hproject, -⟩ := Workspace.file?_eq_some h
  rwa [Except.ok.inj (hp.symm.trans (Workspace.resolve_eq_ok_iff.1 hr).1).symm] at hproject

theorem place_of_found {folder : DraftFolder}
    (h : findFolder? ((Path.project? p).getD "/") k = .ok (some folder) k') :
    k = k' ∧ DraftFolder.path? k.options.folder ((Path.project? p).getD "/") = some folder.path ∧
      k.options.draftPlace? p = Place.ofName? (folder.filePath (Path.flatten p)) := by
  obtain ⟨rfl, hfind⟩ := findFolder?_eq_ok h
  obtain ⟨-, hpath, -⟩ := (DraftFolder.find?_eq_ok hfind).2 folder rfl
  exact ⟨rfl, hpath, DraftFolder.place?_of_path? hpath⟩

theorem recoverable?_eq_some (hp : Path.normalize p = .ok p) (hd : k.drafts.get? p = none)
    (h : recoverable? p k = .ok (some text) k') : ∃ l kept, k.options.draftPlace? p = some l ∧
      k.workspace.disk.content? l = some kept ∧ text = decode kept := by
  rw [recoverable?, bind_of_ok _ (normalized_eq_ok.2 ⟨hp, rfl⟩), bind_of_ok _ (draft?_eq p k), hd] at h
  simp only [Option.isSome_none, Bool.false_eq_true, if_false] at h
  obtain ⟨item, k₁, hi, h⟩ := bind_eq_ok.1 h
  obtain ⟨hitem, rfl⟩ := ask_eq_ok.1 hi
  cases item with
  | none => cases h
  | some item =>
      simp only [project_of_file? hp hitem] at h
      obtain ⟨found, k₂, hf, h⟩ := bind_eq_ok.1 h
      cases found with
      | none => cases h
      | some folder =>
          obtain ⟨rfl, -, hplace⟩ := place_of_found hf
          obtain ⟨kept, k₃, hr, h⟩ := bind_eq_ok.1 h
          cases kept with
          | none => cases h
          | some kept =>
              obtain ⟨w, hread, -⟩ := storing_eq_ok.1 hr
              obtain ⟨l, hl, hc⟩ := Workspace.read_eq_ok_iff.1 (DraftFolder.read_of_read? hread)
              refine ⟨l, kept, hplace.trans hl, hc, ?_⟩
              obtain ⟨current, k₄, -, h⟩ := bind_eq_ok.1 h
              obtain ⟨htext, -⟩ := pure_eq_ok.1 h
              by_cases hd : Comparison.differ kept current = true
              · rw [if_pos hd] at htext
                exact (Option.some.inj htext).symm
              · rw [if_neg hd] at htext
                cases htext

theorem persistentLocation?_eq_some (hp : Path.normalize p = .ok p) (hd : k.drafts.get? p = none)
    (h : persistentLocation? p k = .ok (some location) k') :
    ∃ l kept, k.options.draftPlace? p = some l ∧ k.workspace.disk.content? l = some kept ∧
      k.options.draftLocation? k.workspace p = some location := by
  rw [persistentLocation?, bind_of_ok _ (normalized_eq_ok.2 ⟨hp, rfl⟩), bind_of_ok _ (draft?_eq p k),
    hd] at h
  obtain ⟨item, k₁, hi, h⟩ := bind_eq_ok.1 h
  obtain ⟨hitem, rfl⟩ := ask_eq_ok.1 hi
  cases item with
  | none => cases h
  | some item =>
      simp only [project_of_file? hp hitem] at h
      obtain ⟨found, k₂, hf, h⟩ := bind_eq_ok.1 h
      cases found with
      | none => cases h
      | some folder =>
          obtain ⟨rfl, hpath, hplace⟩ := place_of_found hf
          obtain ⟨there, k₃, hc, h⟩ := bind_eq_ok.1 h
          obtain ⟨w, hcont, rfl⟩ := storing_eq_ok.1 hc
          obtain ⟨rfl, l, hl, hthere⟩ := DraftFolder.contains_eq_ok hcont
          cases there with
          | false => cases h
          | true =>
              obtain ⟨kept, hkept⟩ := hthere.1 rfl
              refine ⟨l, kept, hplace.trans hl, hkept, ?_⟩
              obtain ⟨k₀, k₄, hg, h⟩ := bind_eq_ok.1 h
              cases hg
              cases h
              rw [Options.draftLocation?, hpath]
              rfl

theorem found_of_content? {l : Place} {kept file : Bytes} (ht : k.workspace.disk.IsTree)
    (hp : Path.normalize p = .ok p) (hd : k.drafts.get? p = none)
    (hl : k.options.draftPlace? p = some l) (hc : k.workspace.disk.content? l = some kept)
    (hfile : k.workspace.read p = .ok file) :
    recoverable? p k = .ok (if Comparison.differ kept file then some (decode kept) else none) k ∧
      persistentLocation? p k = .ok (k.options.draftLocation? k.workspace p) k := by
  obtain ⟨folder, hfind, hplace⟩ := Options.find?_of_content? ht hp hl hc
  refine ⟨recoverable?_of_file hp hd hfile hfind (DraftFolder.read?_of_content? hplace hc), ?_⟩
  have hitem : ask (fun w => w.file? p) k = .ok (some ⟨p, (Path.project? p).getD "/"⟩) k :=
    ask_eq_ok.2 ⟨Workspace.file?_of_read hp hfile, rfl⟩
  have hfound := findFolder?_of_find? hfind
  have hthere := storing_eq_ok.2 ⟨_, DraftFolder.contains_of_content? hplace hc, rfl⟩
  obtain ⟨-, hpath, -⟩ := place_of_found hfound
  rw [persistentLocation?, bind_of_ok _ (normalized_eq_ok.2 ⟨hp, rfl⟩), bind_of_ok _ (draft?_eq p k), hd]
  simp only
  rw [bind_of_ok _ hitem]
  simp only
  rw [bind_of_ok _ hfound]
  simp only
  rw [bind_of_ok _ hthere, Options.draftLocation?, hpath]
  rfl

/-- What is done with the draft file of a path is done at one place, and readers outside are told of no
other. The draft of the path is written and deleted there, and the one it becomes by a move to another path
is written at the place of that path. Of a path without a draft the file is made there and looked
for there: what is offered is there, and in a tree what is there is found. -/
structure OnePlace (k : Keeper) (p : String) : Prop where
  written : ∀ {d location k'}, k.drafts.get? p = some d → write d k = .ok location k' →
    ∃ l, k.options.draftPlace? p = some l ∧ k.options.draftLocation? k.workspace p = some location ∧
      k.workspace.Changes [l] k'.workspace ∧ k'.workspace.disk.content? l = some d.content
  notWritten : ∀ {d f k'}, k.drafts.get? p = some d → write d k = .error f k' →
    k.workspace.Changes [] k'.workspace
  deleted : ∀ {d k'}, k.drafts.get? p = some d → discard d.project d.flat k = .ok () k' →
    k.workspace.Changes (k.options.draftPlace? p).toList k'.workspace ∧
      (k.workspace.disk.IsTree → ∀ l, k.options.draftPlace? p = some l →
        k'.workspace.disk.content? l = none)
  notDeleted : ∀ {d f k'}, k.drafts.get? p = some d → discard d.project d.flat k = .error f k' →
    k'.workspace = k.workspace
  moved : ∀ {q d target location k'}, k.drafts.get? q = some d → Path.normalize target = .ok p →
    write (d.movedTo p) k = .ok location k' →
    ∃ l, k.options.draftPlace? p = some l ∧ k.options.draftLocation? k.workspace p = some location ∧
      k.workspace.Changes [l] k'.workspace ∧ k'.workspace.disk.content? l = some d.content
  made : ∀ {d k'}, create p k = .ok d k' → ∃ l, k.options.draftPlace? p = some l ∧
    k.workspace.Changes [l] k'.workspace ∧
      k'.workspace.disk.content? l = some ((k.workspace.disk.content? l).getD d.content)
  recovered : ∀ {text k'}, k.drafts.get? p = none → recoverable? p k = .ok (some text) k' →
    ∃ l kept, k.options.draftPlace? p = some l ∧ k.workspace.disk.content? l = some kept ∧
      text = decode kept
  located : ∀ {location k'}, k.drafts.get? p = none → persistentLocation? p k = .ok (some location) k' →
    ∃ l kept, k.options.draftPlace? p = some l ∧ k.workspace.disk.content? l = some kept ∧
      k.options.draftLocation? k.workspace p = some location
  found : ∀ {l kept file}, k.workspace.disk.IsTree → k.drafts.get? p = none →
    k.options.draftPlace? p = some l → k.workspace.disk.content? l = some kept →
    k.workspace.read p = .ok file →
    recoverable? p k = .ok (if Comparison.differ kept file then some (decode kept) else none) k ∧
      persistentLocation? p k = .ok (k.options.draftLocation? k.workspace p) k

theorem written_of_isFor (hd : d.IsFor p) (h : write d k = .ok location k') :
    ∃ l, k.options.draftPlace? p = some l ∧ k.options.draftLocation? k.workspace p = some location ∧
      k.workspace.Changes [l] k'.workspace ∧ k'.workspace.disk.content? l = some d.content := by
  have hlocation := location_of_write h
  obtain ⟨w, l, -, rfl, hl, hw, hcontent, -⟩ := write_eq_ok h
  rw [hd.place] at hl
  rw [hd.project, hd.flat] at hlocation
  exact ⟨l, hl, hlocation, hw, hcontent⟩

theorem Filed.onePlace (hk : k.Filed) (hp : Path.normalize p = .ok p) : k.OnePlace p where
  written hd h := written_of_isFor (hk p _ hd) h
  notWritten _ h := by
    obtain ⟨w, -, rfl, -, hw⟩ := write_eq_error h
    exact hw
  deleted {d k'} hd h := by
    have hfor := hk p d hd
    refine ⟨?_, fun ht l hl => ?_⟩
    · obtain ⟨w, rfl, hw⟩ := discard_changes h
      rwa [hfor.place] at hw
    · rw [hfor.project, hfor.flat] at h
      exact Options.gone_of_discard ht hp hl h
  notDeleted _ h := by rw [(discard_eq_error h).1]
  moved {q d target location k'} _ ht h := by
    have hd : (d.movedTo p).IsFor p := .movedTo d (Path.normalize_of_normalize ht)
    exact written_of_isFor (d := d.movedTo p) hd h
  made {d k'} h := by
    obtain ⟨w, l, content, -, rfl, rfl, hl, hw, hcontent⟩ := create_eq_ok hp h
    exact ⟨l, hl, hw, hcontent⟩
  recovered hd h := recoverable?_eq_some hp hd h
  located hd h := persistentLocation?_eq_some hp hd h
  found ht hd hl hc hfile := found_of_content? ht hp hd hl hc hfile

end Keeper

namespace Session

variable {allowed : Session → Action → Prop} {o : Options} {w : Workspace} {capacity : Nat}
  {clock : Time.Instant} {s : Session}

/-- In every session, failed moves included, a draft is kept under a normalized path, with the flat name and
the project of that path. So whatever an operation finds on the disk on its way, work on a draft file is done
at the place of its path, whether it goes by the draft or by the path. -/
theorem drafts_have_one_place (h : Reached allowed (.new o w capacity clock) s) (p : String) :
    (∀ d, s.keeper.drafts.get? p = some d → Path.normalize p = .ok p ∧ d.flat = Path.flatten p ∧
        Path.project? p = some d.project) ∧
      (Path.normalize p = .ok p → ∀ v, (s.keeper.withWorkspace v).OnePlace p) := by
  refine ⟨fun d hd => ?_, fun hp v => ?_⟩
  · obtain ⟨hp, hflat, hproject⟩ := h.filed p d hd
    obtain ⟨c, cs, -, hfirst, -⟩ := Path.project?_eq hp
    refine ⟨hp, hflat, ?_⟩
    rw [hproject, hfirst, Option.getD_some]
  · have hfiled : (s.keeper.withWorkspace v).Filed := h.filed
    exact hfiled.onePlace hp

theorem moved_draft_has_place_of_new_path :
    let s := sampleEdited.after (.operation (.track "e" (.move "/p/a" "/p/b")))
    ∃ d location k l, s.keeper.drafts.get? "/p/b" = some d ∧ d.flat = Path.flatten "/p/b" ∧
      Path.project? "/p/b" = some d.project ∧ Keeper.write d s.keeper = .ok location k ∧
      Options.sample.draftPlace? "/p/b" = some l ∧ k.workspace.disk.content? l = some d.content := by
  intro s
  have hr : Reached (fun _ _ => True) sample s := .step (.step (.step .start trivial) trivial) trivial
  obtain ⟨hd, hwritten⟩ : s.keeper.drafts.get? "/p/b" = some ⟨"p.b", "/p", [104, 105, 33], false⟩ ∧
      Keeper.failure? (Keeper.write ⟨"p.b", "/p", [104, 105, 33], false⟩) s.keeper = none := by
    decide +kernel
  clear_value s
  obtain ⟨location, hw⟩ := Keeper.eq_ok_of_failure? _ s.keeper hwritten
  obtain ⟨hnames, hplace⟩ := drafts_have_one_place hr "/p/b"
  obtain ⟨hp, hflat, hproject⟩ := hnames _ hd
  obtain ⟨l, hl, -, -, hc⟩ := (hplace hp s.keeper.workspace).written hd hw
  rw [show (s.keeper.withWorkspace s.keeper.workspace).options = Options.sample from hr.options] at hl
  exact ⟨_, location, _, l, hd, hflat, hproject, hw, hl, hc⟩

end Session

end DraftKeeper
