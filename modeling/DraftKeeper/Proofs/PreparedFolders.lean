import DraftKeeper.Proofs.LocalWork

namespace DraftKeeper

namespace Disk

variable {d d' : Disk} {here rest : Place}

theorem obstacle_eq_missing (hfile : ∀ x, here <+: x → d.content? x = none)
    (hshort : ∀ x name, here <+: x → x ++ [name] <+: here ++ rest → d.isFolder x = true →
      isTooLong name = false) : d.obstacle here rest = .missing := by
  induction rest generalizing here with
  | nil => rfl
  | cons name rest ih =>
      rw [obstacle]
      rcases he : d.get? here with _ | ⟨m, c⟩ | m
      · rfl
      · have hnone := hfile here (List.prefix_refl here)
        rw [content?, he] at hnone
        cases hnone
      · have hname : isTooLong name = false := by
          refine hshort here name (List.prefix_refl here) ?_ (isFolder_iff.2 ⟨m, he⟩)
          rw [List.append_cons here name rest]
          exact List.prefix_append ..
        simp only [hname, Bool.false_eq_true, if_false]
        refine ih (fun x hx => ?_) fun x n hx hn => ?_
        · exact hfile x ((List.prefix_append ..).trans hx)
        · refine hshort x n ((List.prefix_append ..).trans hx) ?_
          rwa [List.append_cons here name rest]

/-- A tree with more folders, but with the same files, lets the way to a place end for the same reason. Below
the new folders the way must not lead over names that are too long. -/
theorem IsTree.obstacle_of_more (ht : d.IsTree) (hfolder : ∀ x, d.isFolder x = true → d'.isFolder x = true)
    (hcontent : ∀ x, d'.content? x = d.content? x)
    (hshort : ∀ x name, x ++ [name] <+: here ++ rest → d.isFolder x = false → d'.isFolder x = true →
      isTooLong name = false) : d'.obstacle here rest = d.obstacle here rest := by
  induction rest generalizing here with
  | nil => rfl
  | cons name rest ih =>
      rcases he : d.get? here with _ | ⟨m, c⟩ | m
      · have hnone (x : Place) (hx : here <+: x) : d.get? x = none := by
          obtain ⟨below, rfl⟩ := hx
          cases hx : d.get? (here ++ below) with
          | none => rfl
          | some e =>
              cases below with
              | nil =>
                  rw [List.append_nil, he] at hx
                  cases hx
              | cons y below =>
                  obtain ⟨m, hm⟩ := isFolder_iff.1 (ht.isFolder_above (List.cons_ne_nil y below) hx)
                  rw [he] at hm
                  cases hm
        have hmissing : d'.obstacle here (name :: rest) = .missing := by
          refine obstacle_eq_missing (fun x hx => ?_) fun x n hx hn hf => ?_
          · rw [hcontent, content?, hnone x hx]
            rfl
          · refine hshort x n hn ?_ hf
            rw [isFolder_eq_any, hnone x hx]
            rfl
        rw [hmissing, obstacle, he]
      · obtain ⟨m', he'⟩ : ∃ m', d'.get? here = some (.file m' c) := by
          rw [← content?_eq_some_iff, hcontent, content?_eq_some_iff]
          exact ⟨m, he⟩
        rw [obstacle, obstacle, he, he']
      · obtain ⟨m', he'⟩ := isFolder_iff.1 (hfolder here (isFolder_iff.2 ⟨m, he⟩))
        rw [obstacle, obstacle, he, he']
        dsimp only
        rw [ih]
        intro x n hn
        exact hshort x n (by rwa [List.append_cons here name rest])

end Disk

namespace Workspace

/-- The second workspace is what the first one is once the draft folder of a path has been asked for. -/
structure Prepared (o : Options) (q : String) (w w' : Workspace) : Prop where
  tree : w.disk.IsTree
  made : ∃ folder v, DraftFolder.ensure o.folder ((Path.project? q).getD "/") w = .ok folder v ∧ v.Agree w'

variable {o : Options} {p q : String} {w w' v : Workspace} {folder : DraftFolder}

theorem ensure_changes (h : DraftFolder.ensure o.folder ((Path.project? q).getD "/") w = .ok folder v)
    (hq : Path.normalize q = .ok q) : w.AgreeOff (o.OnWay q) v := by
  have hstays := (DraftFolder.localWork_ensure hq o).stays w
  rwa [left_of_ok h] at hstays

theorem Prepared.locate {x : Place} (h : Prepared o q w w') (hq : Path.normalize q = .ok q)
    (hoff : ¬ o.OnWay q x) (hshort : ∀ y name, y ++ [name] <+: x → y <+: o.folderPlace q →
      w.disk.isFolder y = false → Disk.isTooLong name = false) :
    w'.disk.locate x = w.disk.locate x := by
  obtain ⟨folder, v, hens, hv⟩ := h.made
  have hsame := ensure_changes hens hq
  obtain ⟨hchanges, -⟩ := DraftFolder.ensure_eq_ok hens
  have hway : v.disk.obstacle [] x = w.disk.obstacle [] x := by
    refine h.tree.obstacle_of_more hchanges.2.folder (fun y => hchanges.2.content y (by simp)) ?_
    intro y name hy hf hf'
    refine hshort y name hy ?_ hf
    by_cases hon : o.OnWay q y
    · exact hon.2.1
    · rw [Disk.isFolder_eq_any, hsame.2 y hon, ← Disk.isFolder_eq_any, hf] at hf'
      cases hf'
  rw [Disk.locate_congr fun y _ => hv.2 y id, Disk.locate, Disk.locate, hsame.2 x hoff, hway]

end Workspace

namespace DraftFolder

open Workspace

variable {o : Options} {p q : String} {w w' v : Workspace} {folder : DraftFolder} {α : Type}

theorem ensure_of_isFolder {name project path : String} (ht : w.disk.IsTree)
    (hp : path? name project = some path)
    (hf : w.disk.isFolder (Path.slashComponents path) = true) :
    ensure name project w = .ok ⟨project, path⟩ w := by
  rw [ensure, bind_of_ok _ (find?_of_isFolder ht hp hf)]
  rfl

theorem ensure_again {name project : String} {u : Workspace} (h : ensure name project w = .ok folder v)
    (ht : u.disk.IsTree) (hu : ∀ x, v.disk.isFolder x = true → u.disk.isFolder x = true) :
    ensure name project u = .ok folder u := by
  obtain ⟨-, hproject, hpath, hfolder⟩ := ensure_eq_ok h
  rw [ensure_of_isFolder ht hpath (hu _ hfolder), ← hproject]

def Under (c : String) (x : Place) : Prop := [c] <+: x

theorem avoids_under {c c' : String} {rest : Place} (h : c ≠ c') : Place.Avoids (Under c) (c' :: rest) := by
  intro x hx hc
  exact h (List.cons_prefix_cons.1 (hc.trans hx)).1

theorem under_of_near {c : String} {x : Place} (hc : Path.basePlace p = [c]) (h : o.Near p x) :
    Under c x := by
  rcases h with rfl | h
  · rw [Options.filePlace, Options.folderPlace, hc]
    exact ⟨_, rfl⟩
  · have hbase := h.1
    rwa [hc] at hbase

/-- Work in one project and the making of another project's draft folder do not meet. -/
theorem respects_prepared_of_ne {work : Storing α} (hp : Path.normalize p = .ok p)
    (hq : Path.normalize q = .ok q) (hne : Path.basePlace p ≠ Path.basePlace q)
    (h : o.LocalWork p (o.Near p) work) : Respects (Prepared o q) work := by
  obtain ⟨c, hc⟩ : ∃ c, Path.basePlace p = [c] := Path.project_components hp
  obtain ⟨b, hb⟩ : ∃ b, Path.basePlace q = [b] := Path.project_components hq
  have hcb : c ≠ b := by
    rintro rfl
    exact hne (hc.trans hb.symm)
  have hnear (w : Workspace) : w.AgreeOff (Under c) (left work w) :=
    (h.stays w).mono fun x hx => under_of_near hc hx
  intro w w' hw
  obtain ⟨folder, v, hens, hv⟩ := hw.made
  -- the work sees no difference between the three workspaces
  have hwv : w.AgreeOff (Under b) v :=
    (ensure_changes hens hq).mono fun x hx => under_of_near hb (.inr hx)
  have hsame : EndAlike (AgreeOff (Under b)) (work w) (work w') := by
    refine h.respects _ ?_ _ _ (hwv.trans hv.agreeOff)
    rw [Options.filePlace, Options.folderPlace, hc]
    exact avoids_under hcb.symm
  have hvw' : (left work v).Agree (left work w') :=
    (h.respects (fun _ => False) (fun _ _ => id) _ _ hv).left
  have hwv' : (left work w).AgreeOff (Under b) (left work v) := by
    refine (h.respects _ ?_ _ _ hwv).left
    rw [Options.filePlace, Options.folderPlace, hc]
    exact avoids_under hcb.symm
  -- and the folder is made the same after the work
  obtain ⟨u, hu, hvu⟩ : ∃ u, ensure o.folder ((Path.project? q).getD "/") (left work w) = .ok folder u ∧
      v.AgreeOff (Under c) u := by
    refine ((localWork_ensure hq o).respects (Under c) ?_ _ _ (hnear w)).of_ok hens
    rw [Options.filePlace, Options.folderPlace, hb]
    exact avoids_under hcb
  have huw : (left work w).AgreeOff (Under b) u :=
    (ensure_changes hu hq).mono fun x hx => under_of_near hb (.inr hx)
  refine hsame.of_left ⟨(h.changes w).2.tree hw.tree, folder, u, hu, ?_⟩
  refine ⟨hvw'.1.trans ((hnear v).1.trans hvu.1.symm), fun x _ => ?_⟩
  rw [hvw'.2 x id]
  by_cases hx : Under c x
  · have hxb : ¬ Under b x := by
      intro hxb
      obtain ⟨rest, rfl⟩ := hx
      exact hcb.symm (List.cons_prefix_cons.1 hxb).1
    rw [hwv'.2 x hxb, huw.2 x hxb]
  · rw [(hnear v).2 x hx, hvu.2 x hx]

theorem project_eq_of_basePlace (hp : Path.normalize p = .ok p) (hq : Path.normalize q = .ok q)
    (h : Path.basePlace p = Path.basePlace q) : Path.project? p = Path.project? q := by
  obtain ⟨c, -, -, hc, -, hone⟩ := Path.project?_eq hp
  obtain ⟨b, -, -, hb, -, hone'⟩ := Path.project?_eq hq
  rw [Path.basePlace, Path.basePlace, hc, hb, Option.getD_some, Option.getD_some, hone, hone'] at h
  rw [hc, hb, (List.cons.inj h).1]

theorem prepared_congr (hp : Path.normalize p = .ok p) (hq : Path.normalize q = .ok q)
    (h : Path.basePlace p = Path.basePlace q) : Prepared o p = Prepared o q := by
  have hproject := project_eq_of_basePlace hp hq h
  funext w w'
  refine propext ⟨fun h => ⟨h.tree, ?_⟩, fun h => ⟨h.tree, ?_⟩⟩
  · rw [← hproject]
    exact h.made
  · rw [hproject]
    exact h.made

theorem respects_prepared_inFolder {work : DraftFolder → Storing α} (hp : Path.normalize p = .ok p)
    (hq : Path.normalize q = .ok q)
    (h : ∀ folder : DraftFolder, path? o.folder ((Path.project? p).getD "/") = some folder.path →
      o.LocalWork p (· = o.filePlace p) (work folder)) :
    Respects (Prepared o q) (ensure o.folder ((Path.project? p).getD "/") >>= work) := by
  by_cases hbase : Path.basePlace p = Path.basePlace q
  · rw [← prepared_congr hp hq hbase]
    intro w w' hw
    obtain ⟨folder, v, hens, hv⟩ := hw.made
    obtain ⟨hchanges, -, hpath, -⟩ := ensure_eq_ok hens
    have ht := hchanges.2.tree hw.tree
    -- the folder is there in the second workspace, and the first one comes to be the same
    have hagree := (localWork_ensure hp o).respects (fun _ => False) (fun _ _ => id) v w' hv
    obtain ⟨v', hv', hvv'⟩ := hagree.of_ok (ensure_again hens ht fun _ h => h)
    rw [bind_of_ok _ hens, bind_of_ok _ hv']
    have hend := (h folder hpath).respects (fun _ => False) (fun _ _ => id) v v' hvv'
    have hfiles := (h folder hpath).changes v
    have htree := hfiles.2.tree ht
    exact hend.of_left ⟨htree, folder, _, ensure_again hens htree hfiles.2.folder, hend.left⟩
  · exact respects_prepared_of_ne hp hq hbase (localWork_inFolder hp h)

theorem respects_prepared_ensure (hp : Path.normalize p = .ok p) (hq : Path.normalize q = .ok q) :
    Respects (Prepared o q) (ensure o.folder ((Path.project? p).getD "/")) := by
  rw [← bind_pure (ensure o.folder ((Path.project? p).getD "/"))]
  exact respects_prepared_inFolder hp hq fun folder _ => .pure folder

theorem ensure_of_no_base {project : String} (name : String)
    (h : w.disk.isFolder (Path.components project) = false) :
    ∃ e, ensure name project w = .error e w := by
  rw [ensure, find?]
  cases hb : w.projectBase? project with
  | error cause =>
      have hask := (Storing.ask_eq_error (f := fun w => w.projectBase? project)).2 ⟨⟨cause, hb, rfl⟩, rfl⟩
      exact ⟨_, bind_eq_error.2 (.inl (bind_eq_error.2 (.inl hask)))⟩
  | ok base =>
      cases base with
      | some base =>
          rw [isFolder_of_projectBase? hb] at h
          cases h
      | none =>
          have hask := (Storing.ask_eq_ok (f := fun w => w.projectBase? project)).2 ⟨hb, rfl⟩
          have hcreate : create name project w = .error (.projectUnavailable project) w := by
            rw [create, bind_of_ok _ hask]
            rfl
          refine ⟨_, bind_eq_error.2 (.inr ⟨none, w, ?_, hcreate⟩)⟩
          rw [bind_of_ok _ hask]
          rfl

theorem delete_of_missing {l : Place} (hl : Place.ofName? (folder.filePath (Path.flatten p)) = some l)
    (hm : w.disk.locate l = .error .missing) : folder.delete (Path.flatten p) w = .ok () w := by
  obtain ⟨file, hr⟩ := ofName?_eq_some_iff.1 hl
  have hremove : w.disk.remove l = .error .missing := by rw [Disk.remove, hm]
  refine Storing.change_eq_ok.2 ?_
  simp only [Workspace.remove, hr, bind, Except.bind, hremove]
  rfl

theorem locate_of_ensure_of_none (ht : w.disk.IsTree) (hp : Path.normalize p = .ok p)
    (hens : ensure o.folder ((Path.project? p).getD "/") w = .ok folder v)
    (hold : w.disk.get? (o.filePlace p) = none) (hshort : Disk.isTooLong (Path.flatten p) = false) :
    v.disk.locate (o.filePlace p) = .error .missing := by
  obtain ⟨hchanges, -, hpath, hfolder⟩ := ensure_eq_ok hens
  rw [slashComponents_of_path? hpath] at hfolder
  have hoff : ¬ o.OnWay p (o.filePlace p) := by
    rintro ⟨-, hle, -⟩
    have hlength := hle.length_le
    rw [Options.filePlace, List.length_append, List.length_singleton] at hlength
    exact absurd hlength (Nat.not_succ_le_self _)
  have hway : v.disk.obstacle [] (o.filePlace p) = .missing := by
    rw [Options.filePlace, (hchanges.2.tree ht).obstacle_eq [] (o.folderPlace p) _ hfolder, hshort]
    rfl
  rw [Disk.locate, (ensure_changes hens hp).2 _ hoff, hold, hway]

theorem locate_of_ensure (ht : w.disk.IsTree) (hp : Path.normalize p = .ok p)
    (hens : ensure o.folder ((Path.project? p).getD "/") w = .ok folder v)
    (hnone : w.disk.isFolder (o.folderPlace p) = false)
    (hshort : Disk.isTooLong (Path.flatten p) = false) :
    v.disk.locate (o.filePlace p) = .error .missing := by
  refine locate_of_ensure_of_none ht hp hens ?_ hshort
  cases he : w.disk.get? (o.filePlace p) with
  | none => rfl
  | some e =>
      rw [(ht.above he).1] at hnone
      cases hnone

theorem drop_of_folder (hp : Path.normalize p = .ok p) {u : Workspace}
    (hfolder : find? o.folder ((Path.project? p).getD "/") w = .ok (some folder) u) (ht : w.disk.IsTree)
    (h : w.Agree w') : EndAlike (Prepared o p) (drop o.folder ((Path.project? p).getD "/") (Path.flatten p) w)
      (drop o.folder ((Path.project? p).getD "/") (Path.flatten p) w') := by
  have hens : ensure o.folder ((Path.project? p).getD "/") w = .ok folder u := by
    rw [ensure, bind_of_ok _ hfolder]
    rfl
  obtain ⟨rfl, -⟩ := find?_eq_ok hfolder
  have hwork := localWork_drop (o := o) hp
  have hend := hwork.respects (fun _ => False) (fun _ _ => id) u w' h
  have htree := (hwork.changes u).2.tree ht
  exact hend.of_left ⟨htree, folder, _, ensure_again hens htree (hwork.changes u).2.folder, hend.left⟩

/-- Where the folder was missing nothing is deleted, and where it has been made since then there is nothing to
delete. -/
theorem drop_of_missing (h : Prepared o p w w') (hp : Path.normalize p = .ok p)
    (hf : find? o.folder ((Path.project? p).getD "/") w = .ok none w)
    (hfits : w.disk.isFolder (Path.basePlace p) = true → w.disk.isFolder (o.folderPlace p) = false →
      (∃ l, o.draftPlace? p = some l) ∧ Disk.isTooLong (Path.flatten p) = false) :
    EndAlike (Prepared o p) (drop o.folder ((Path.project? p).getD "/") (Path.flatten p) w)
      (drop o.folder ((Path.project? p).getD "/") (Path.flatten p) w') := by
  obtain ⟨folder, v, hens, hv⟩ := h.made
  obtain ⟨hchanges, hproject, hpath, hfolder⟩ := ensure_eq_ok hens
  have ht := hchanges.2.tree h.tree
  have hnone : w.disk.isFolder (o.folderPlace p) = false := by
    rw [← slashComponents_of_path? hpath, ← Bool.not_eq_true]
    intro hthere
    cases hf.symm.trans (find?_of_isFolder h.tree hpath hthere)
  have hbase : w.disk.isFolder (Path.basePlace p) = true := by
    rw [← Bool.not_eq_false]
    intro hbase
    obtain ⟨e, he⟩ := ensure_of_no_base o.folder hbase
    cases he.symm.trans hens
  obtain ⟨⟨l, hl⟩, hshort⟩ := hfits hbase hnone
  rw [Options.draftPlace?, place?_of_path? hpath] at hl
  have hmissing : w'.disk.locate l = .error .missing := by
    rw [Disk.locate_congr fun x _ => hv.2 x id, Options.filePlace_of_path? hp hpath hl]
    exact locate_of_ensure h.tree hp hens hnone hshort
  have hfind : find? o.folder ((Path.project? p).getD "/") v = .ok (some folder) v := by
    rw [find?_of_isFolder ht hpath hfolder, ← hproject]
  have hlocal : o.LocalWork p (fun _ => False) (find? o.folder _) := localWork_find? o p
  have hagree := hlocal.respects (fun _ => False) (fun _ _ => id) v w' hv
  obtain ⟨w₁, hfind', -⟩ := hagree.of_ok hfind
  obtain ⟨rfl, -⟩ := find?_eq_ok hfind'
  rw [drop, bind_of_ok _ hf, bind_of_ok _ hfind']
  dsimp only
  rw [delete_of_missing hl hmissing]
  exact .ok () h

theorem drop_prepared_self (h : Prepared o p w w') (hp : Path.normalize p = .ok p)
    (hfits : w.disk.isFolder (Path.basePlace p) = true → w.disk.isFolder (o.folderPlace p) = false →
      (∃ l, o.draftPlace? p = some l) ∧ Disk.isTooLong (Path.flatten p) = false) :
    EndAlike (Prepared o p) (drop o.folder ((Path.project? p).getD "/") (Path.flatten p) w)
      (drop o.folder ((Path.project? p).getD "/") (Path.flatten p) w') := by
  obtain ⟨folder, v, hens, hv⟩ := h.made
  cases hf : find? o.folder ((Path.project? p).getD "/") w with
  | error e u =>
      rw [ensure] at hens
      cases (bind_eq_error.2 (.inl hf)).symm.trans hens
  | ok found u =>
      obtain ⟨rfl, -⟩ := find?_eq_ok hf
      cases found with
      | none => exact drop_of_missing h hp hf hfits
      | some found =>
          have hthere : ensure o.folder ((Path.project? p).getD "/") u = .ok found u := by
            rw [ensure, bind_of_ok _ hf]
            rfl
          obtain ⟨-, rfl⟩ : folder = found ∧ v = u := by simpa using hens.symm.trans hthere
          exact drop_of_folder hp hf h.tree hv

theorem drop_prepared (h : Prepared o q w w') (hp : Path.normalize p = .ok p)
    (hq : Path.normalize q = .ok q) (hfits : w.disk.isFolder (Path.basePlace p) = true →
      w.disk.isFolder (o.folderPlace p) = false →
      (∃ l, o.draftPlace? p = some l) ∧ Disk.isTooLong (Path.flatten p) = false) :
    EndAlike (Prepared o q) (drop o.folder ((Path.project? p).getD "/") (Path.flatten p) w)
      (drop o.folder ((Path.project? p).getD "/") (Path.flatten p) w') := by
  by_cases hbase : Path.basePlace p = Path.basePlace q
  · rw [← prepared_congr hp hq hbase] at h ⊢
    exact drop_prepared_self h hp hfits
  · refine respects_prepared_of_ne hp hq hbase ?_ w w' h
    exact (localWork_drop hp).mono fun _ => .inl

end DraftFolder

end DraftKeeper
