import DraftKeeper.Proofs.SettledFolders
import DraftKeeper.Proofs.StartedFiles

namespace DraftKeeper

/-- The draft file of a path can be written, its folder being made first where it is missing. -/
structure Options.Writable (o : Options) (d : Disk) (p : String) : Prop where
  place : (o.draftPlace? p).isSome
  fits : DraftFolder.Fits o.folder
  name : Disk.isTooLong (Path.flatten p) = false
  base : d.isFolder (Path.basePlace p) = true
  way : ∀ x, x <+: o.folderPlace p → d.content? x = none
  free : d.isFolder (o.filePlace p) = false

namespace DraftFolder

variable {o : Options} {p : String} {w v : Workspace} {folder : DraftFolder} {l : Place}

theorem write_of_ensure (content : Bytes) (ht : w.disk.IsTree) (hp : Path.normalize p = .ok p)
    (hens : ensure o.folder ((Path.project? p).getD "/") w = .ok folder v)
    (hl : Place.ofName? (folder.filePath (Path.flatten p)) = some l) (hname : Disk.isTooLong (Path.flatten p) = false)
    (hfree : w.disk.isFolder (o.filePlace p) = false) : ∃ u, folder.write (Path.flatten p) content v = .ok () u := by
  obtain ⟨hchanges, -, hpath, hfolder⟩ := ensure_eq_ok hens
  rw [slashComponents_of_path? hpath] at hfolder
  obtain rfl := Options.filePlace_of_path? hp hpath hl
  cases hold : w.disk.content? (o.filePlace p) with
  | some kept =>
      rw [← hchanges.2.content _ (by simp)] at hold
      obtain ⟨disk, hdisk⟩ := Disk.write_of_content? content hold
      exact write_of_disk hl hdisk
  | none =>
      have hthere : v.disk.isFolder (o.filePlace p).dropLast = true := by
        rw [Options.filePlace, List.dropLast_concat]
        exact hfolder
      refine write_of_missing content hl ?_ hthere
      exact locate_of_ensure_of_none ht hp hens (Disk.get?_eq_none_of_not_folder hold hfree) hname

end DraftFolder

namespace Keeper

variable {k k' : Keeper} {p location : String} {d : Draft}

theorem write_of_writable (ht : k.workspace.disk.IsTree) (hd : d.IsFor p)
    (h : k.options.Writable k.workspace.disk p) : ∃ location k', write d k = .ok location k' := by
  obtain ⟨l, hplace⟩ := Option.isSome_iff_exists.1 h.place
  obtain ⟨c, cs, path, -, -, hpath, -⟩ := Options.draftPlace?_eq_some hd.normal hplace
  obtain ⟨folder, v, hens⟩ := DraftFolder.ensure_of_clear ht hd.normal hpath h.fits h.base h.way
  obtain ⟨-, -, hpath, -⟩ := DraftFolder.ensure_eq_ok hens
  rw [Options.draftPlace?, DraftFolder.place?_of_path? hpath] at hplace
  obtain ⟨u, hwrite⟩ := DraftFolder.write_of_ensure d.content ht hd.normal hens hplace h.name h.free
  have hmade : ensureFolder ((Path.project? p).getD "/") k = .ok folder (k.withWorkspace v) :=
    (ensureFolder_eq _ k).trans (storing_eq_ok.2 ⟨v, hens, rfl⟩)
  rw [write, hd.project, hd.flat]
  exact ⟨_, _, bind_eq_ok.2 ⟨folder, _, hmade, bind_eq_ok.2 ⟨(), _, storing_eq_ok.2 ⟨u, hwrite, rfl⟩, rfl⟩⟩⟩

theorem writable_of_write (ht : k.workspace.disk.IsTree) (hd : d.IsFor p) (h : write d k = .ok location k') :
    k.options.Writable k.workspace.disk p := by
  rw [write, hd.project, hd.flat] at h
  obtain ⟨folder, k₁, he, h⟩ := bind_eq_ok.1 h
  obtain ⟨u, k₂, hw, -⟩ := bind_eq_ok.1 h
  rw [ensureFolder_eq] at he
  obtain ⟨v, hens, rfl⟩ := storing_eq_ok.1 he
  obtain ⟨w, hwrite, rfl⟩ := storing_eq_ok.1 hw
  obtain ⟨hchanges, -, hpath, hfolder⟩ := DraftFolder.ensure_eq_ok hens
  obtain ⟨l, hl, hfile, hcontent⟩ := DraftFolder.write_eq_ok hwrite
  rw [DraftFolder.slashComponents_of_path? hpath] at hfolder
  have hplace : k.options.draftPlace? p = some l := (DraftFolder.place?_of_path? hpath).trans hl
  obtain rfl := Options.eq_filePlace hd.normal hplace
  have hv : v.disk.IsTree := hchanges.2.tree ht
  obtain ⟨m, hm⟩ := Disk.content?_eq_some_iff.1 hcontent
  refine ⟨by rw [hplace]; rfl, fun name hname => ?_, ((hfile.2.tree hv).above hm).2, ?_, fun x hx => ?_, ?_⟩
  · exact hv.short_of_isFolder hfolder name (List.mem_append_right _ hname)
  · rw [← Bool.not_eq_false]
    intro hbase
    obtain ⟨e, herror⟩ := DraftFolder.ensure_of_no_base k.options.folder hbase
    cases herror.symm.trans hens
  · rw [← hchanges.2.content x (by simp)]
    exact hv.content?_on_way hfolder hx
  · -- a folder in the place of the draft file would still be there
    rw [← Bool.not_eq_true]
    intro hthere
    have hstill := hfile.2.folder _ (hchanges.2.folder _ hthere)
    cases hstill.symm.trans (Disk.isFolder_of_content? hcontent)

end Keeper

namespace Options

variable {o : Options} {p : String} {w w' : Workspace} {files folders : Place → Prop} {ps : String → Prop}

/-- In a tree, which stays one, the draft files of the same paths can be written. -/
def AsWritable (o : Options) (w w' : Workspace) : Prop :=
  w.disk.IsTree → w'.disk.IsTree ∧ ∀ p, Path.normalize p = .ok p → (o.Writable w'.disk p ↔ o.Writable w.disk p)

theorem writable_congr {d d' : Disk} (hbase : d'.isFolder (Path.basePlace p) = d.isFolder (Path.basePlace p))
    (hway : ∀ x, x <+: o.folderPlace p → d'.content? x = d.content? x)
    (hfree : d'.isFolder (o.filePlace p) = d.isFolder (o.filePlace p)) : o.Writable d' p ↔ o.Writable d p := by
  refine ⟨fun h => ⟨h.place, h.fits, h.name, hbase ▸ h.base, fun x hx => ?_, hfree ▸ h.free⟩,
    fun h => ⟨h.place, h.fits, h.name, hbase ▸ h.base, fun x hx => ?_, hfree ▸ h.free⟩⟩
  · rw [← hway x hx]
    exact h.way x hx
  · rw [hway x hx]
    exact h.way x hx

/-- Draft files stand on no way to a draft folder, and where a folder is made the base of the project was there. -/
theorem asWritable_of_within (h : w.Within files folders w') (htree : w.disk.IsTree → w'.disk.IsTree)
    (hfiles : ∀ x, files x → ∃ q, Path.normalize q = .ok q ∧ x = o.filePlace q)
    (hfolders : ∀ x, folders x → ∃ q, Path.normalize q = .ok q ∧ o.OnWay q x ∧
      w.disk.isFolder (Path.basePlace q) = true) : o.AsWritable w w' := by
  refine fun ht => ⟨htree ht, fun p hp => writable_congr ?_ (fun x hx => h.filesKept.content? ?_) ?_⟩
  · by_cases hon : folders (Path.basePlace p)
    · obtain ⟨q, hq, ⟨hbase, -⟩, hthere⟩ := hfolders _ hon
      obtain ⟨c, hc⟩ := Path.project_components hp
      obtain ⟨b, hb⟩ := Path.project_components hq
      have heq : Path.basePlace q = Path.basePlace p := by
        refine hbase.eq_of_length ?_
        rw [Path.basePlace, Path.basePlace, hc, hb, List.length_singleton, List.length_singleton]
      rw [heq] at hthere
      rw [hthere, h.2.stays _ hthere]
    · exact h.2.isFolder hon
  · intro hx'
    obtain ⟨q, hq, rfl⟩ := hfiles x hx'
    have havoids : Place.Avoids (o.FilePlaces (· = q)) (o.folderPlace p) := by
      refine avoids_folderPlace (fun r hr => ?_) hp
      rwa [hr]
    exact havoids _ hx ⟨q, rfl, rfl⟩
  · refine h.2.isFolder fun hon => ?_
    obtain ⟨q, hq, hway, -⟩ := hfolders _ hon
    exact not_onWay_filePlace hq hp hway

theorem frame_asWritable (o : Options) (ps : String → Prop) : Workspace.Frame o.folder ps o.AsWritable := by
  refine ⟨fun w ht => ⟨ht, fun _ _ => Iff.rfl⟩, fun {u v w} huv hvw ht => ?_, fun {p} w _ hn => ?_,
    fun {p folder} content w _ hn hfolder => ?_, fun {p folder} w _ hn hfolder => ?_⟩
  · obtain ⟨ht', hsame⟩ := huv ht
    obtain ⟨ht'', hsame'⟩ := hvw ht'
    exact ⟨ht'', fun p hp => (hsame' p hp).trans (hsame p hp)⟩
  · cases hbase : w.disk.isFolder (Path.basePlace p) with
    | false =>
        obtain ⟨e, he⟩ := DraftFolder.ensure_of_no_base o.folder hbase
        rw [left_of_error he]
        exact fun ht => ⟨ht, fun _ _ => Iff.rfl⟩
    | true =>
        obtain ⟨c, hc⟩ := Path.project_components hn
        have hway : o.OnWay p = DraftFolder.OnWay o.folder [c] := by
          funext x
          rw [OnWay, Path.basePlace, hc]
        refine asWritable_of_within (hway ▸ DraftFolder.left_ensure hc) ?_ (fun x hx => absurd hx id)
          fun x hx => ⟨p, hn, hx, hbase⟩
        cases he : DraftFolder.ensure o.folder ((Path.project? p).getD "/") w with
        | ok folder w' => exact left_of_ok he ▸ (DraftFolder.ensure_eq_ok he).1.2.tree
        | error e w' => exact left_of_error he ▸ (DraftFolder.ensure_eq_error he).2.tree
  · refine asWritable_of_within DraftFolder.left_write ?_
      (fun x hx => ⟨p, hn, filePlace_of_path? hn hfolder hx⟩) fun x hx => absurd hx id
    cases hw : folder.write (Path.flatten p) content w with
    | ok u w' =>
        obtain ⟨l, -, hchanges, -⟩ := DraftFolder.write_eq_ok hw
        exact left_of_ok hw ▸ hchanges.2.tree
    | error e w' => exact left_of_error hw ▸ DraftFolder.write_eq_error hw ▸ id
  · refine asWritable_of_within DraftFolder.left_delete ?_
      (fun x hx => ⟨p, hn, filePlace_of_path? hn hfolder hx⟩) fun x hx => absurd hx id
    cases hw : folder.delete (Path.flatten p) w with
    | ok u w' =>
        obtain ⟨l, -, hchanges, -⟩ := DraftFolder.delete_eq_ok hw
        exact left_of_ok hw ▸ hchanges.2.tree
    | error e w' => exact left_of_error hw ▸ DraftFolder.delete_eq_error hw ▸ id

end Options

end DraftKeeper
