import DraftKeeper.Proofs.ClearWays
import Mathlib.Data.List.Infix

namespace DraftKeeper

namespace Path

theorem mem_dropWhile_iff {l : List Char} {x : Char} (hx : x ≠ '/') :
    x ∈ l.dropWhile (· = '/') ↔ x ∈ l := by
  induction l with
  | nil => rfl
  | cons y l ih =>
      by_cases hy : y = '/'
      · rw [List.dropWhile_cons_of_pos (by simpa using hy), ih, List.mem_cons]
        exact ⟨.inr, fun h => h.resolve_left fun heq => hx (heq.trans hy)⟩
      · rw [List.dropWhile_cons_of_neg (by simpa using hy)]

theorem mem_join_iff {base relative : String} {x : Char} (hx : x ≠ '/') :
    x ∈ (join base relative).toList ↔ x ∈ base.toList ∨ x ∈ relative.toList := by
  have hstart : x ∈ trimStart relative ↔ x ∈ relative.toList := mem_dropWhile_iff hx
  have hend : x ∈ trimEnd base ↔ x ∈ base.toList := by
    rw [trimEnd, List.mem_reverse, mem_dropWhile_iff hx, List.mem_reverse]
  rw [join]
  by_cases h : (trimStart relative).isEmpty = true
  · have hnone : x ∉ relative.toList := by
      rw [← hstart, List.isEmpty_iff.1 h]
      exact List.not_mem_nil
    simp only [h, if_true, String.toList_ofList, hend, hnone, or_false]
  · simp [h, hstart, hend, hx]

theorem null_not_mem {s p : String} (h : normalize s = .ok p) : Char.ofNat 0 ∉ s.toList :=
  (normalize_eq_ok_iff.1 h).1

theorem normalize_of_prefix {s t p : String} (hnull : Char.ofNat 0 ∉ s.toList) (hne : components s ≠ [])
    (hpre : components s <+: components t) (ht : normalize t = .ok p) :
    ∃ q, normalize s = .ok q := by
  obtain ⟨-, -, hfault, rfl, hlength⟩ := normalize_eq_ok_iff.1 ht
  obtain ⟨rest, hrest⟩ := hpre
  refine ⟨_, normalize_eq_ok_iff.2 ⟨hnull, hne, fun c hc => hfault c ?_, rfl, ?_⟩⟩
  · rw [← hrest]
    exact List.mem_append_left rest hc
  · rw [← hrest, ofComponents_append, String.length_append] at hlength
    omega

end Path

namespace Disk

variable {d : Disk} {here rest : Place} {p q : Place} {e : Entry} {f : Fault}

theorem get?_makeFoldersFrom (h : (d.makeFoldersFrom here rest).2.get? q = some e) :
    d.get? q = some e ∨ e = .folder newFolderMode := by
  induction rest generalizing d here with
  | nil => exact .inl h
  | cons name rest ih =>
      cases hlong : isTooLong name with
      | true =>
          rw [makeFoldersFrom_long hlong] at h
          exact .inl h
      | false =>
          rcases he : d.get? (here ++ [name]) with _ | ⟨m, c⟩ | m
          · rw [makeFoldersFrom_none hlong he] at h
            rcases ih h with hput | hnew
            · rw [get?_put] at hput
              by_cases hq : here ++ [name] = q
              · rw [if_pos hq] at hput
                exact .inr (Option.some.inj hput).symm
              · rw [if_neg hq] at hput
                exact .inl hput
            · exact .inr hnew
          · rw [makeFoldersFrom_file hlong he] at h
            exact .inl h
          · rw [makeFoldersFrom_folder hlong he] at h
            exact ih h

/-- Where nothing lies below a place, only a name can keep folders from being made there. -/
theorem long_of_makeFoldersFrom_error (hnone : ∀ q, q ≠ [] → d.get? (here ++ q) = none)
    (h : (d.makeFoldersFrom here rest).1 = .error f) : ∃ name ∈ rest, isTooLong name = true := by
  induction rest generalizing d here with
  | nil => cases h
  | cons first rest ih =>
      cases hlong : isTooLong first with
      | true => exact ⟨first, List.mem_cons_self, hlong⟩
      | false =>
          rw [makeFoldersFrom_none hlong (hnone [first] (by simp))] at h
          have hbelow (q : Place) (hq : q ≠ []) : (d.put (here ++ [first]) (.folder newFolderMode)).get?
              (here ++ [first] ++ q) = none := by
            rw [get?_put, if_neg (by simpa using hq), List.append_assoc]
            exact hnone ([first] ++ q) (by simp)
          obtain ⟨name, hname, hlong'⟩ := ih hbelow h
          exact ⟨name, List.mem_cons_of_mem first hname, hlong'⟩

/-- In a tree folders are made up to a name that is too long, or none is made. -/
theorem IsTree.makeFoldersFrom_error (ht : d.IsTree) (h : (d.makeFoldersFrom here rest).1 = .error f) :
    (d.makeFoldersFrom here rest).2 = d ∨ ∃ name ∈ rest, isTooLong name = true := by
  induction rest generalizing here with
  | nil => exact .inl rfl
  | cons first rest ih =>
      cases hlong : isTooLong first with
      | true => exact .inr ⟨first, List.mem_cons_self, hlong⟩
      | false =>
          rcases he : d.get? (here ++ [first]) with _ | ⟨m, c⟩ | m
          · -- nothing lies below what is not there
            rw [makeFoldersFrom_none hlong he] at h
            have hbelow (q : Place) (hq : q ≠ []) : d.get? (here ++ [first] ++ q) = none := by
              cases hbelow : d.get? (here ++ [first] ++ q) with
              | none => rfl
              | some e =>
                  obtain ⟨m, hm⟩ := isFolder_iff.1 (ht.isFolder_above hq hbelow)
                  cases he.symm.trans hm
            have hnone (q : Place) (hq : q ≠ []) : (d.put (here ++ [first]) (.folder newFolderMode)).get?
                (here ++ [first] ++ q) = none := by
              rw [get?_put, if_neg (by simpa using hq), hbelow q hq]
            obtain ⟨name, hname, hlong'⟩ := long_of_makeFoldersFrom_error hnone h
            exact .inr ⟨name, List.mem_cons_of_mem first hname, hlong'⟩
          · rw [makeFoldersFrom_file hlong he]
            exact .inl rfl
          · rw [makeFoldersFrom_folder hlong he] at h ⊢
            refine (ih h).imp_right ?_
            rintro ⟨name, hname, hlong'⟩
            exact ⟨name, List.mem_cons_of_mem first hname, hlong'⟩

theorem get?_setMode (d : Disk) (p q : Place) (mode : Nat) :
    (d.setMode p mode).get? q = if p = q then (d.get? p).map (Entry.withMode mode) else d.get? q := by
  rw [setMode]
  cases he : d.get? p with
  | none =>
      by_cases hq : p = q
      · rw [if_pos hq, ← hq, he]
        rfl
      · rw [if_neg hq]
  | some e => exact get?_put d p q (e.withMode mode)

end Disk

namespace Workspace

variable {w : Workspace} {path p : String} {place : Place} {e : Entry}

theorem restrict_of_get? (h : resolve path = .ok (p, place)) (he : w.disk.get? place = some e) :
    w.restrict path = .ok ⟨w.root, w.disk.setMode place
      (if e.isFolder then ItemKind.folder else ItemKind.file).ownerMode⟩ := by
  have hkind : w.disk.isFolder place = e.isFolder := by
    rw [Disk.isFolder_eq_any, he]
    rfl
  simp only [restrict, h, bind, Except.bind, hkind, Disk.restrict, Disk.locate_eq_ok_iff.2 he]
  rfl

end Workspace

namespace Storing

open Workspace

variable {w : Workspace} {base path p t : String} {names : List String} {place : Place}

theorem makeFolder_of_ok {disk : Disk} (h : resolve path = .ok (p, place))
    (hd : w.disk.makeFolders place = (.ok (), disk)) : makeFolder path w = .ok p { w with disk } := by
  simp only [makeFolder, Workspace.makeFolder, h, hd]

theorem makeFolder_of_error {disk : Disk} {f : Fault} (h : resolve path = .ok (p, place))
    (hd : w.disk.makeFolders place = (.error f, disk)) :
    makeFolder path w = .error (.item (system p f)) { w with disk } := by
  simp only [makeFolder, Workspace.makeFolder, h, hd]

/-- Along a way that has been made every folder that a part of the name leads to is restricted. -/
theorem restrictAlong_restricts (hbase : Char.ofNat 0 ∉ base.toList) (hne : Path.components base ≠ [])
    (hnames : ∀ name ∈ names, Char.ofNat 0 ∉ name.toList) (ht : Path.normalize t = .ok p)
    (hway : Path.components base ++ names.flatMap Path.components <+: Path.components t)
    (hfolders : ∀ parts, parts ≠ [] → parts <+: names →
      w.disk.isFolder (Path.components base ++ parts.flatMap Path.components) = true) :
    ∃ w', restrictAlong base names w = .ok () w' ∧
      (∀ x, w.disk.get? x = some (.folder ItemKind.folder.ownerMode) →
        w'.disk.get? x = some (.folder ItemKind.folder.ownerMode)) ∧
      ∀ parts, parts ≠ [] → parts <+: names →
        w'.disk.get? (Path.components base ++ parts.flatMap Path.components) =
          some (.folder ItemKind.folder.ownerMode) := by
  induction names generalizing base w with
  | nil =>
      refine ⟨w, rfl, fun x hx => hx, fun parts hparts hpre => ?_⟩
      exact absurd (List.prefix_nil.1 hpre) hparts
  | cons name names ih =>
      have hnext := Path.components_join base name
      have hlonger (parts : List String) : Path.components (Path.join base name) ++
          parts.flatMap Path.components =
            Path.components base ++ (name :: parts).flatMap Path.components := by
        rw [hnext, List.append_assoc, List.flatMap_cons]
      have hnull : Char.ofNat 0 ∉ (Path.join base name).toList := by
        rw [Path.mem_join_iff (by decide)]
        exact not_or.2 ⟨hbase, hnames name List.mem_cons_self⟩
      have hnonempty : Path.components (Path.join base name) ≠ [] := by
        rw [hnext]
        exact List.append_ne_nil_of_left_ne_nil hne _
      rw [← hlonger] at hway
      obtain ⟨q, hq⟩ := Path.normalize_of_prefix hnull hnonempty ((List.prefix_append ..).trans hway) ht
      have hone : [name] <+: name :: names := (List.prefix_cons_inj name).2 List.nil_prefix
      obtain ⟨m, hm⟩ := Disk.isFolder_iff.1 (hfolders [name] (by simp) hone)
      rw [← hlonger, List.flatMap_nil, List.append_nil, ← Path.slashComponents_of_normalize hq] at hm
      have hr := restrict_of_get? (resolve_eq_ok_iff.2 ⟨hq, rfl⟩) hm
      have hkept (x : Place) (hx : w.disk.get? x = some (.folder ItemKind.folder.ownerMode)) :
          (w.disk.setMode (Path.slashComponents q) ItemKind.folder.ownerMode).get? x =
            some (.folder ItemKind.folder.ownerMode) := by
        rw [Disk.get?_setMode]
        by_cases heq : Path.slashComponents q = x
        · rw [if_pos heq, hm]
          rfl
        · rw [if_neg heq, hx]
      obtain ⟨w', hdone, hkeep, hparts⟩ := ih hnull hnonempty
        (fun part hpart => hnames part (List.mem_cons_of_mem name hpart)) hway fun parts hne hpre => by
          rw [hlonger]
          exact (restrict_eq_ok hr).2.folder _ (hfolders _ (by simp) ((List.prefix_cons_inj name).2 hpre))
      refine ⟨w', bind_eq_ok.2 ⟨(), _, change_eq_ok.2 hr, hdone⟩, fun x hx => hkeep x (hkept x hx), ?_⟩
      intro parts hne hpre
      obtain ⟨first, parts, rfl⟩ := List.exists_cons_of_ne_nil hne
      obtain ⟨rfl, hrest⟩ := List.cons_prefix_cons.1 hpre
      rw [← hlonger]
      by_cases hlast : parts = []
      · rw [hlast, List.flatMap_nil, List.append_nil, ← Path.slashComponents_of_normalize hq]
        refine hkeep _ ?_
        rw [Disk.get?_setMode, if_pos rfl, hm]
        rfl
      · exact hparts parts hlast hrest

end Storing

namespace DraftFolder

open Workspace

/-- No name on the way from the base of a project to its draft folder is too long. -/
def Fits (name : String) : Prop := ∀ n ∈ Path.components name, Disk.isTooLong n = false

/-- The way ends where a part of the folder's name, between slashes, leads to. -/
def EndsPart (name : String) (way : Place) : Prop :=
  ∃ parts, parts <+: Path.slashComponents name ∧ way = parts.flatMap Path.components

instance (name : String) : Decidable (Fits name) :=
  inferInstanceAs (Decidable (∀ n ∈ Path.components name, Disk.isTooLong n = false))

instance (name : String) (way : Place) : Decidable (EndsPart name way) :=
  decidable_of_iff (∃ parts ∈ (Path.slashComponents name).inits, way = parts.flatMap Path.components)
    (by simp only [List.mem_inits, EndsPart])

/-- The mode of a folder that is made on the way to a draft folder. -/
def wayMode (name : String) (way : Place) : Nat :=
  if Fits name ∧ EndsPart name way then ItemKind.folder.ownerMode else Disk.newFolderMode

variable {name project flat c : String} {w w' : Workspace} {way : Place} {m : Nat}

/-- Making a draft folder leaves the workspace, makes the way as far as it leads, or makes all of it and
restricts it. -/
theorem left_create_cases (name : String) (w : Workspace) (hone : Path.components project = [c]) :
    left (create name project) w = w ∨
    ∃ base path disk, w.disk.isFolder [c] = true ∧ Path.normalize base = .ok base ∧
      Path.components base = [c] ∧ Path.normalize (Path.join base name) = .ok path ∧
      ((∃ f, w.disk.makeFolders (c :: Path.components name) = (.error f, disk) ∧
          left (create name project) w = { w with disk }) ∨
        (w.disk.makeFolders (c :: Path.components name) = (.ok (), disk) ∧
          left (create name project) w =
            left (Storing.restrictAlong base (Path.slashComponents name)) { w with disk })) := by
  rw [create]
  cases hb : w.projectBase? project with
  | error cause =>
      exact .inl (left_bind_of_error _ (Storing.ask_eq_error.2 ⟨⟨cause, hb, rfl⟩, rfl⟩))
  | ok base =>
      rw [left_bind_of_ok _ (Storing.ask_eq_ok.2 ⟨hb, rfl⟩)]
      cases base with
      | none => exact .inl rfl
      | some base =>
          have hfolder := isFolder_of_projectBase? hb
          have hnorm := projectBase?_eq_some hb
          have hcomponents : Path.components base = [c] := by
            rw [← hone]
            exact Path.components_of_normalize hnorm
          rw [hone] at hfolder
          simp only
          cases hr : resolve (Path.join base name) with
          | error cause =>
              refine .inl (left_bind_of_error (e := .item cause) _ ?_)
              simp only [Storing.makeFolder, Workspace.makeFolder, hr]
          | ok r =>
              obtain ⟨path, place⟩ := r
              obtain ⟨hpath, rfl⟩ := resolve_eq_ok_iff.1 hr
              have hplace : Path.slashComponents path = c :: Path.components name := by
                rw [Path.slashComponents_of_normalize hpath, Path.components_join, hcomponents,
                  List.singleton_append]
              rw [hplace] at hr
              cases hd : w.disk.makeFolders (c :: Path.components name) with
              | mk r disk =>
                  refine .inr ⟨base, path, disk, hfolder, Path.normalize_of_normalize hnorm, hcomponents,
                    hpath, ?_⟩
                  cases r with
                  | error f =>
                      exact .inl ⟨f, rfl, left_bind_of_error _ (Storing.makeFolder_of_error hr hd)⟩
                  | ok u =>
                      refine .inr ⟨rfl, ?_⟩
                      rw [left_bind_of_ok _ (Storing.makeFolder_of_ok hr hd)]
                      simp only [left, bind, EStateM.bind]
                      cases Storing.restrictAlong base (Path.slashComponents name) { w with disk } <;> rfl

theorem wayMode_of_restricted (hfits : Fits name) (hway : EndsPart name way) :
    wayMode name way = ItemKind.folder.ownerMode :=
  if_pos ⟨hfits, hway⟩

theorem wayMode_of_not_restricted (h : ¬ (Fits name ∧ EndsPart name way)) :
    wayMode name way = Disk.newFolderMode :=
  if_neg h

theorem null_not_mem_parts {base path : String} (h : Path.normalize (Path.join base name) = .ok path) :
    ∀ part ∈ Path.slashComponents name, Char.ofNat 0 ∉ part.toList := by
  intro part hpart hmem
  have hname := ((Path.mem_componentsBy hpart).2 _ hmem).1
  exact Path.null_not_mem h ((Path.mem_join_iff (by decide)).2 (.inr hname))

theorem mode_of_create (ht : w.disk.IsTree) (hone : Path.components project = [c]) (hne : way ≠ [])
    (h : (left (create name project) w).disk.get? (c :: way) = some (.folder m)) :
    w.disk.get? (c :: way) = some (.folder m) ∨ m = wayMode name way := by
  rcases left_create_cases name w hone with hcreate |
    ⟨base, path, disk, hbase, hnorm, hcomponents, hpath, ⟨f, hd, hcreate⟩ | ⟨hd, hcreate⟩⟩
  · rw [hcreate] at h
    exact .inl h
  · -- the way is made up to a name that is too long
    rw [hcreate] at h
    have hmade : (w.disk.makeFolders (c :: Path.components name)).1 = .error f := by rw [hd]
    have hdisk : (w.disk.makeFolders (c :: Path.components name)).2 = disk := by rw [hd]
    rcases ht.makeFoldersFrom_error hmade with hsame | ⟨long, hmem, hlong⟩
    · rw [← hdisk] at h
      exact .inl (hsame ▸ h)
    · have hfits : ¬ Fits name := by
        intro hfits
        obtain ⟨mode, hc⟩ := Disk.isFolder_iff.1 hbase
        rcases List.mem_cons.1 hmem with rfl | hmem
        · have hshort := (ht.above (p := []) hc).2
          rw [hlong] at hshort
          cases hshort
        · rw [hfits long hmem] at hlong
          cases hlong
      rw [← hdisk] at h
      rw [wayMode_of_not_restricted fun hw => hfits hw.1]
      exact (Disk.get?_makeFoldersFrom h).imp_right fun hnew => by simpa using hnew
  · -- all of it is made, and then restricted part by part
    have hmade : (w.disk.makeFolders (c :: Path.components name)).1 = .ok () := by rw [hd]
    have hdisk : (w.disk.makeFolders (c :: Path.components name)).2 = disk := by rw [hd]
    have hfits : Fits name := fun n hn =>
      Disk.short_of_makeFoldersFrom hmade n (List.mem_cons_of_mem c hn)
    have hfolders (parts : List String) (hpre : parts <+: Path.slashComponents name) :
        disk.isFolder (Path.components base ++ parts.flatMap Path.components) = true := by
      rw [← hdisk, hcomponents]
      refine Disk.isFolder_of_makeFolders hmade (by simp) ?_
      exact List.cons_prefix_cons.2 ⟨rfl, Path.flatMap_components_prefix hpre⟩
    obtain ⟨w', hrun, -, hparts⟩ := Storing.restrictAlong_restricts (w := { w with disk })
      (Path.null_not_mem hnorm) (by simp [hcomponents]) (null_not_mem_parts hpath) hpath
      (by rw [Path.components_join, ← Path.components_eq_flatMap]) fun parts _ hpre => hfolders parts hpre
    rw [hcreate] at h
    by_cases hend : EndsPart name way
    · obtain ⟨parts, hpre, rfl⟩ := hend
      have hparts_ne : parts ≠ [] := by
        rintro rfl
        exact hne rfl
      rw [left_of_ok hrun] at h
      have hmode := hparts parts hparts_ne hpre
      rw [hcomponents, List.singleton_append, h] at hmode
      refine .inr ?_
      rw [wayMode_of_restricted hfits ⟨parts, hpre, rfl⟩]
      simpa using hmode
    · rw [wayMode_of_not_restricted fun hw => hend hw.2]
      have hwithin : Within (fun _ => False) _ { w with disk }
          (left (Storing.restrictAlong base (Path.slashComponents name)) { w with disk }) :=
        Storing.left_restrictAlong fun parts _ hpre => hfolders parts hpre
      have hold : disk.get? (c :: way) = some (.folder m) := by
        refine (hwithin.2.folder _ ?_ m).1 h
        rintro ⟨parts, -, hpre, heq⟩
        rw [hcomponents, List.singleton_append] at heq
        exact hend ⟨parts, hpre, (List.cons.inj heq).2⟩
      rw [← hdisk] at hold
      exact (Disk.get?_makeFoldersFrom hold).imp_right fun hnew => by simpa using hnew

theorem left_ensure_cases (name project : String) (w : Workspace) :
    left (ensure name project) w = w ∨ left (ensure name project) w = left (create name project) w := by
  rw [ensure]
  cases hf : find? name project w with
  | error e w' =>
      rw [left_bind_of_error _ hf, find?_eq_error hf]
      exact .inl rfl
  | ok found w' =>
      rw [left_bind_of_ok _ hf, (find?_eq_ok hf).1]
      cases found with
      | some folder => exact .inl rfl
      | none => exact .inr rfl

theorem get?_of_write {folder : DraftFolder} {content : Bytes} {u : Unit} {l : Place}
    (hl : Place.ofName? (folder.filePath flat) = some l) (h : folder.write flat content w = .ok u w') :
    w'.disk.get? l = some (.file ItemKind.file.ownerMode content) := by
  rw [write] at h
  obtain ⟨u, w₁, hw, h⟩ := bind_eq_ok.1 h
  obtain ⟨l', hl', -, hcontent⟩ := Workspace.write_eq_ok (Storing.change_eq_ok.1 hw)
  obtain rfl := Option.some.inj (hl.symm.trans hl')
  obtain ⟨m, hm⟩ := Disk.content?_eq_some_iff.1 hcontent
  obtain ⟨path, hr⟩ := ofName?_eq_some_iff.1 hl
  have hrestrict := Storing.change_eq_ok.1 h
  rw [restrict_of_get? hr hm] at hrestrict
  obtain rfl := Except.ok.inj hrestrict
  rw [Disk.get?_setMode, if_pos rfl, hm]
  rfl

end DraftFolder

end DraftKeeper
