import DraftKeeper.Proofs.DraftAddresses
import DraftKeeper.Proofs.DraftFiles
import DraftKeeper.Proofs.KeptDrafts
import DraftKeeper.Proofs.LongNames

namespace DraftKeeper

theorem utf8ByteSize_le_mul_length (s : String) : s.utf8ByteSize ≤ 4 * s.length := by
  obtain ⟨l, rfl⟩ : ∃ l, s = String.ofList l := ⟨s.toList, String.ofList_toList.symm⟩
  rw [String.length_ofList, String.utf8ByteSize_ofList]
  induction l with
  | nil => exact Nat.le_refl 0
  | cons c cs ih =>
      have hsize := c.utf8Size_le_four
      rw [List.length_cons, String.utf8Len_cons]
      omega

namespace Path

variable {p flat : String}

theorem ofComponents_concat (cs : List String) (c : String) :
    (ofComponents (cs ++ [c])).toList = (ofComponents cs).toList ++ '/' :: c.toList := by
  rw [ofComponents_append, String.toList_append, toList_ofComponents_cons]
  simp [ofComponents]

theorem getLast?_ne_slash (hp : normalize p = .ok p) : p.toList.getLast? ≠ some '/' := by
  obtain ⟨c, cs, hcs, -⟩ := project?_eq hp
  obtain ⟨init, last, hinit⟩ : ∃ init last, components p = init ++ [last] := by
    rw [hcs]
    exact ⟨_, _, (List.dropLast_concat_getLast (List.cons_ne_nil c cs)).symm⟩
  obtain ⟨hne, hfree⟩ := mem_components (show last ∈ components p by simp [hinit])
  have hlist : last.toList ≠ [] := by simpa using hne
  rw [eq_ofComponents hp, hinit, ofComponents_concat, List.getLast?_append_of_ne_nil _ (by simp),
    List.getLast?_cons, List.getLast?_eq_some_getLast hlist]
  simpa using (hfree _ (List.getLast_mem hlist)).2.1

theorem trimEnd_of_normalize (hp : normalize p = .ok p) : trimEnd p = p.toList := by
  have hlast := getLast?_ne_slash hp
  rw [← List.head?_reverse] at hlast
  have hkeep : p.toList.reverse.dropWhile (· = '/') = p.toList.reverse := by
    cases hl : p.toList.reverse with
    | nil => rfl
    | cons x l =>
        rw [hl] at hlast
        exact List.dropWhile_cons_of_neg (by simpa using hlast)
  rw [trimEnd, hkeep, List.reverse_reverse]

theorem trimStart_of_free (h : ∀ x ∈ flat.toList, x ≠ '/') : trimStart flat = flat.toList := by
  rw [trimStart]
  cases hl : flat.toList with
  | nil => rfl
  | cons x l => exact List.dropWhile_cons_of_neg (by simpa using h x (by simp [hl]))

theorem join_eq_ofComponents (hp : normalize p = .ok p) (hflat : components flat = [flat]) :
    join p flat = ofComponents (components p ++ [flat]) := by
  obtain ⟨hne, hfree⟩ := mem_components (show flat ∈ components flat by simp [hflat])
  have hstart : trimStart flat = flat.toList := trimStart_of_free fun x hx => (hfree x hx).2.1
  have hsome : flat.toList.isEmpty = false := by simpa using hne
  rw [← String.toList_inj, ofComponents_concat, ← eq_ofComponents hp]
  simp only [join, hstart, hsome, trimEnd_of_normalize hp, Bool.false_eq_true, if_false, String.toList_ofList]

theorem not_isDots_of_fault? {c : String} (h : fault? c = none) : Trail.isDots c = false := by
  obtain ⟨hdot, hdots, -⟩ := fault?_eq_none_iff.1 h
  simp [Trail.isDots, hdot, hdots]

end Path

theorem Trail.ofPath_of_normalize {p : String} (hp : Path.normalize p = .ok p) :
    ofPath p = .ok ⟨Path.components p, false⟩ := by
  obtain ⟨hnull, -, -, -, hlength⟩ := Path.normalize_eq_ok_iff.1 hp
  have hsize := utf8ByteSize_le_mul_length p
  have hshort : ¬ maxLength < p.utf8ByteSize := by
    have hmax : 4 * Path.maxLength ≤ maxLength := by decide
    omega
  have hlast := Path.getLast?_ne_slash hp
  rw [ofPath, if_neg (by simpa using hnull), if_neg hshort, ofText,
    Path.slashComponents_of_normalize hp]
  simp [hlast]

namespace Disk

variable {d : Disk} {e : Entry} {p : String}

theorem IsTree.follow_eq (h : d.IsTree) (here names : Place)
    (hdots : ∀ name ∈ names, Trail.isDots name = false) (he : d.get? (here ++ names) = some e) :
    d.follow here names = .ok (here ++ names) := by
  induction names generalizing here with
  | nil =>
      rw [List.append_nil] at he ⊢
      rw [follow, he]
  | cons name rest ih =>
      obtain ⟨m, hm⟩ := isFolder_iff.1 (h.isFolder_above (List.cons_ne_nil name rest) he)
      rw [List.append_cons] at he ⊢
      have hshort : isTooLong name = false := by
        cases rest with
        | nil =>
            rw [List.append_nil] at he
            exact (h.above he).2
        | cons x xs =>
            obtain ⟨m', hm'⟩ := isFolder_iff.1 (h.isFolder_above (List.cons_ne_nil x xs) he)
            exact (h.above hm').2
      have hname := hdots name List.mem_cons_self
      simp only [Trail.isDots, Bool.or_eq_false_iff, decide_eq_false_iff_not] at hname
      rw [follow, hm]
      simp only [hshort, hname.1, hname.2, Bool.false_eq_true, if_false]
      exact ih _ (fun n hn => hdots n (List.mem_cons_of_mem name hn)) he

/-- In a tree a normalized path leads to the entry at its place. -/
theorem IsTree.lookUp_of_normalize (h : d.IsTree) (hp : Path.normalize p = .ok p)
    (he : d.get? (Path.components p) = some e) : d.lookUp p = .ok (Path.components p) := by
  rw [lookUp, Trail.ofPath_of_normalize hp]
  refine h.follow_eq [] _ (fun name hname => ?_) he
  exact Path.not_isDots_of_fault? ((Path.normalize_eq_ok_iff.1 hp).2.2.1 name hname)

end Disk

/-- A reader outside who follows the location, below the root name by name, comes to this place, and the
keeper comes to the same place by the normal form. -/
def Workspace.LeadsTo (w : Workspace) (location : String) (x : Place) : Prop :=
  ∃ path, location = w.location path ∧ Place.ofName? path = some x ∧ w.disk.lookUp path = .ok x

namespace Options

variable {o : Options} {w : Workspace} {p location : String} {l : Place} {e : Entry}

theorem eq_filePlace (hp : Path.normalize p = .ok p) (hl : o.draftPlace? p = some l) :
    l = o.filePlace p := by
  obtain ⟨c, cs, path, -, -, hpath, -⟩ := draftPlace?_eq_some hp hl
  obtain ⟨folder, rfl⟩ : ∃ folder : DraftFolder, folder.path = path := ⟨⟨c, path⟩, rfl⟩
  rw [draftPlace?, DraftFolder.place?_of_path? hpath] at hl
  exact filePlace_of_path? hp hpath hl

/-- The path of a draft file is its own normal form. -/
theorem normalize_filePath {folder : DraftFolder} (hp : Path.normalize p = .ok p)
    (hpath : DraftFolder.path? o.folder ((Path.project? p).getD "/") = some folder.path)
    (hl : Place.ofName? (folder.filePath (Path.flatten p)) = some l) :
    Path.normalize (folder.filePath (Path.flatten p)) = .ok (folder.filePath (Path.flatten p)) := by
  obtain ⟨base, -, hjoin⟩ := DraftFolder.path?_eq_some_iff.1 hpath
  obtain ⟨q, hr⟩ := Workspace.ofName?_eq_some_iff.1 hl
  obtain ⟨hq, -⟩ := Workspace.resolve_eq_ok_iff.1 hr
  have hflat := Path.components_flatten hp
  have hsame : q = folder.filePath (Path.flatten p) := by
    rw [(Path.normalize_eq_ok_iff.1 hq).2.2.2.1, DraftFolder.filePath, Path.components_join, hflat,
      Path.join_eq_ofComponents (Path.normalize_of_normalize hjoin) hflat]
  subst hsame
  exact hq

theorem leadsTo_filePlace (ht : w.disk.IsTree) (hp : Path.normalize p = .ok p)
    (hlocation : o.draftLocation? w p = some location) (hl : o.draftPlace? p = some l)
    (he : w.disk.get? l = some e) : w.LeadsTo location (o.filePlace p) := by
  obtain ⟨path, hpath, rfl⟩ := Option.map_eq_some_iff.1 hlocation
  obtain ⟨folder, rfl⟩ : ∃ folder : DraftFolder, folder.path = path := ⟨⟨p, path⟩, rfl⟩
  rw [draftPlace?, DraftFolder.place?_of_path? hpath] at hl
  have hplace := components_filePath hp hpath
  obtain rfl := filePlace_of_path? hp hpath hl
  rw [← hplace] at he
  have hleads := ht.lookUp_of_normalize (normalize_filePath hp hpath hl) he
  rw [hplace] at hleads
  exact ⟨_, rfl, hl, hleads⟩

end Options

namespace Keeper

variable {k k' : Keeper} {path p location : String} {d : Draft} {found : Option String}

theorem persistentLocation?_of_some (hp : Path.normalize path = .ok p)
    (hd : k.drafts.get? p = some d) :
    persistentLocation? path k = (do return some (← save p d) : Keeping _) k := by
  rw [persistentLocation?, bind_of_ok _ (normalized_eq_ok.2 ⟨hp, rfl⟩), bind_of_ok _ (draft?_eq p k), hd]

theorem persistentLocation?_of_normalize (hp : Path.normalize path = .ok p) (k : Keeper) :
    persistentLocation? path k = persistentLocation? p k := by
  have hnorm := Path.normalize_of_normalize hp
  rw [persistentLocation?, persistentLocation?, bind_of_ok _ (normalized_eq_ok.2 ⟨hp, rfl⟩),
    bind_of_ok _ (normalized_eq_ok.2 ⟨hnorm, rfl⟩)]

theorem eq_of_persistentLocation? (hp : Path.normalize path = .ok p) (hd : k.drafts.get? p = none)
    (h : persistentLocation? path k = .ok found k') : k' = k := by
  rcases persistentLocation?_cases path k with ⟨location, h'⟩ | ⟨f, h'⟩ | ⟨q, d, hq, hd', -⟩
  · cases h.symm.trans h'
    rfl
  · cases h.symm.trans h'
  · obtain rfl := Except.ok.inj (hp.symm.trans hq)
    cases hd.symm.trans hd'

theorem persistentLocation?_eq_none (ht : k.workspace.disk.IsTree) (hp : Path.normalize p = .ok p)
    (h : persistentLocation? p k = .ok none k') : k.drafts.get? p = none ∧
      (k.workspace.disk.get? (Path.components p) = none ∨
        k.workspace.disk.content? (k.options.filePlace p) = none) := by
  cases hd : k.drafts.get? p with
  | some d =>
      rw [persistentLocation?_of_some hp hd] at h
      obtain ⟨location, k₁, -, h⟩ := bind_eq_ok.1 h
      cases h
  | none =>
      refine ⟨rfl, ?_⟩
      rw [persistentLocation?, bind_of_ok _ (normalized_eq_ok.2 ⟨hp, rfl⟩), bind_of_ok _ (draft?_eq p k),
        hd] at h
      obtain ⟨item, k₁, hi, h⟩ := bind_eq_ok.1 h
      obtain ⟨hitem, rfl⟩ := ask_eq_ok.1 hi
      cases item with
      | none =>
          obtain ⟨q, place, hr, hmissing⟩ := Workspace.file?_eq_none hitem
          rw [Workspace.resolve_of_normalize hp] at hr
          cases hr
          cases he : k.workspace.disk.get? (Path.components p) with
          | none => exact .inl rfl
          | some e => cases hmissing.symm.trans (Disk.locate_eq_ok_iff.2 he)
      | some item =>
          simp only [project_of_file? hp hitem] at h
          obtain ⟨found, k₂, hf, h⟩ := bind_eq_ok.1 h
          obtain ⟨rfl, hfind⟩ := findFolder?_eq_ok hf
          cases found with
          | none =>
              exact .inr (ht.content?_of_not_folder (DraftFolder.isFolder_of_find?_eq_none ht hfind))
          | some folder =>
              obtain ⟨-, hpath, -⟩ := place_of_found hf
              obtain ⟨there, k₃, hc, h⟩ := bind_eq_ok.1 h
              obtain ⟨w, hcont, rfl⟩ := storing_eq_ok.1 hc
              obtain ⟨-, l, hl, hthere⟩ := DraftFolder.contains_eq_ok hcont
              obtain rfl := Options.filePlace_of_path? hp hpath hl
              cases there with
              | true => cases h
              | false =>
                  cases hk : k₂.workspace.disk.content? (k₂.options.filePlace p) with
                  | none => exact .inr rfl
                  | some kept => cases hthere.2 ⟨kept, hk⟩

theorem leadsTo_of_untracked (ht : k.workspace.disk.IsTree) (hp : Path.normalize p = .ok p)
    (hd : k.drafts.get? p = none) (h : persistentLocation? p k = .ok (some location) k) :
    k.workspace.LeadsTo location (k.options.filePlace p) ∧
      ∃ m content, k.workspace.disk.get? (k.options.filePlace p) = some (.file m content) := by
  obtain ⟨l, kept, hl, hkept, hlocation⟩ := persistentLocation?_eq_some hp hd h
  obtain ⟨m, hm⟩ := Disk.content?_eq_some_iff.1 hkept
  have hleads := Options.leadsTo_filePlace ht hp hlocation hl hm
  obtain rfl := Options.eq_filePlace hp hl
  exact ⟨hleads, m, kept, hm⟩

theorem leadsTo_of_write (ht : k.workspace.disk.IsTree) (hd : d.IsFor p)
    (h : write d k = .ok location k') : k'.workspace.LeadsTo location (k.options.filePlace p) := by
  obtain ⟨l, hl, hlocation, hchanges, -⟩ := written_of_isFor hd h
  have hthere := get?_of_write hd h
  rw [← Options.eq_filePlace hd.normal hl] at hthere
  refine Options.leadsTo_filePlace (hchanges.2.tree ht) hd.normal ?_ hl hthere
  rw [← hlocation, Options.draftLocation?, Options.draftLocation?]
  simp only [Workspace.location_congr hchanges.1]

end Keeper

namespace Session

open Keeper (persistentLocation?)

variable {s : Session} {o : Options} {w : Workspace} {capacity : Nat} {clock : Time.Instant} {k : Keeper}
  {path : String} {found : Option String}

/-- In every session the location that is answered for a path leads to its draft file. That of a tracked path
holds the draft by then, which is clean, and no other draft or file has changed; for any other path nothing
has changed at all. Without a location the path is not tracked, and it or its draft file is missing. -/
theorem location_leads_to_draft (ht : w.disk.IsTree)
    (h : Reached (fun _ a => a.LeavesTree) (.new o w capacity clock) s)
    (hask : persistentLocation? path s.keeper = .ok found k) :
    ∃ p, Path.normalize path = .ok p ∧ (s.keeper.drafts.get? p = none → k = s.keeper) ∧
      (∀ location, found = some location → k.workspace.LeadsTo location (o.filePlace p) ∧
        ∃ m content, k.workspace.disk.get? (o.filePlace p) = some (.file m content) ∧
          ∀ d, s.keeper.drafts.get? p = some d → content = d.content ∧ k.drafts.get? p = some d.clean ∧
            (∀ q, q ≠ p → k.drafts.get? q = s.keeper.drafts.get? q) ∧
            s.keeper.workspace.FilesKept (· = o.filePlace p) k.workspace) ∧
      (found = none → s.keeper.drafts.get? p = none ∧
        (k.workspace.disk.get? (Path.components p) = none ∨
          k.workspace.disk.content? (o.filePlace p) = none)) := by
  have htree := h.tree ht fun _ _ ha => ha
  cases hp : Path.normalize path with
  | error cause =>
      obtain ⟨p, k₁, hn, -⟩ := bind_eq_ok.1 hask
      cases hp.symm.trans (Keeper.normalized_eq_ok.1 hn).1
  | ok p =>
      have hnorm := Path.normalize_of_normalize hp
      refine ⟨p, rfl, fun hd => Keeper.eq_of_persistentLocation? hp hd hask, ?_, ?_⟩
      · rintro location rfl
        cases hd : s.keeper.drafts.get? p with
        | none =>
            obtain rfl := Keeper.eq_of_persistentLocation? hp hd hask
            rw [Keeper.persistentLocation?_of_normalize hp] at hask
            obtain ⟨hleads, m, kept, hm⟩ := Keeper.leadsTo_of_untracked htree hnorm hd hask
            rw [h.options] at hleads hm
            exact ⟨hleads, m, kept, hm, nofun⟩
        | some d =>
            have hfor := h.filed p d hd
            rw [Keeper.persistentLocation?_of_some hp hd] at hask
            obtain ⟨location', k₁, hsave, hask⟩ := bind_eq_ok.1 hask
            obtain ⟨hlocation, rfl⟩ := pure_eq_ok.1 hask
            obtain rfl := Option.some.inj hlocation
            obtain ⟨k₂, hwrite, rfl⟩ := Keeper.save_eq_ok hsave
            have hleads := Keeper.leadsTo_of_write htree hfor hwrite
            have hthere := Keeper.get?_of_write hfor hwrite
            have hothers := Keeper.filesKept_of_write hfor hwrite
            rw [h.options] at hleads hthere hothers
            refine ⟨hleads, _, d.content, hthere, ?_⟩
            rintro d' ⟨⟩
            refine ⟨rfl, Drafts.get?_put_self .., fun q hq => ?_, hothers⟩
            obtain ⟨w₂, -, -, rfl, -⟩ := Keeper.write_eq_ok hwrite
            exact Drafts.get?_put_of_ne hq
      · rintro rfl
        rw [Keeper.persistentLocation?_of_normalize hp] at hask
        have hnone := Keeper.persistentLocation?_eq_none htree hnorm hask
        rw [h.options] at hnone
        obtain rfl := Keeper.eq_of_persistentLocation? hnorm hnone.1 hask
        exact hnone

theorem location_of_edited_draft :
    let s := sampleKept.after (.operation (.edit "e" ⟨"/p/a", .insert 0 "o"⟩))
    ∃ k, persistentLocation? "p//a" s.keeper = .ok (some "/w/p/.d/p.a") k ∧
      k.workspace.LeadsTo "/w/p/.d/p.a" ["p", ".d", "p.a"] ∧
      k.workspace.disk.content? ["p", ".d", "p.a"] = some [111, 104, 105] ∧
      k.drafts.get? "/p/a" = some ⟨"p.a", "/p", [111, 104, 105], false⟩ := by
  intro s
  have hr : Reached (fun _ a => a.LeavesTree) sampleKept s := .step .start trivial
  have hp : Path.normalize "p//a" = .ok "/p/a" := Path.normalize_eq_ok_iff.2 (by decide)
  have hplace : Options.sample.filePlace "/p/a" = ["p", ".d", "p.a"] := by decide
  obtain ⟨hd, hok, hanswer⟩ : s.keeper.drafts.get? "/p/a" = some ⟨"p.a", "/p", [111, 104, 105], true⟩ ∧
      Keeper.failure? (persistentLocation? "p//a") s.keeper = none ∧
      Keeper.answer? (persistentLocation? "p//a") s.keeper = some (some "/w/p/.d/p.a") := by decide
  obtain ⟨found, hask⟩ := Keeper.eq_ok_of_failure? _ s.keeper hok
  rw [Keeper.answer?, hask] at hanswer
  obtain rfl : found = some "/w/p/.d/p.a" := Option.some.inj hanswer
  obtain ⟨p, hnorm, -, hfound, -⟩ := location_leads_to_draft (by decide) hr hask
  obtain rfl : "/p/a" = p := Except.ok.inj (hp.symm.trans hnorm)
  obtain ⟨hleads, m, content, hfile, htracked⟩ := hfound _ rfl
  obtain ⟨rfl, hclean, -⟩ := htracked _ hd
  rw [hplace] at hleads hfile
  exact ⟨_, hask, hleads, Disk.content?_eq_some_iff.2 ⟨m, hfile⟩, hclean⟩

end Session

end DraftKeeper
