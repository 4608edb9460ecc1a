import DraftKeeper.Proofs.FolderModes
import DraftKeeper.Proofs.LocalWork

namespace DraftKeeper

/-- A tree has come of another disk. A folder on the way to a draft folder had the mode it has before, and a
draft file is as it was, or it has the mode in which it is made. -/
structure Disk.ModesFrom (name : String) (d d' : Disk) : Prop where
  tree : d'.IsTree
  folder : ∀ {c way m}, way ≠ [] → way <+: Path.components name →
    d'.get? (c :: way) = some (.folder m) →
      d.get? (c :: way) = some (.folder m) ∨ m = DraftFolder.wayMode name way
  file : ∀ {c flat m content}, d'.get? (c :: Path.components name ++ [flat]) = some (.file m content) →
    d.get? (c :: Path.components name ++ [flat]) = some (.file m content) ∨ m = ItemKind.file.ownerMode

namespace Disk.ModesFrom

variable {name : String} {d d' d'' : Disk}

theorem refl (ht : d.IsTree) : ModesFrom name d d :=
  ⟨ht, fun _ _ h => .inl h, fun h => .inl h⟩

theorem trans (h : ModesFrom name d d') (h' : ModesFrom name d' d'') : ModesFrom name d d'' := by
  refine ⟨h'.tree, fun hne hway hm => ?_, fun hm => ?_⟩
  · rcases h'.folder hne hway hm with hold | hnew
    · exact h.folder hne hway hold
    · exact .inr hnew
  · rcases h'.file hm with hold | hnew
    · exact h.file hold
    · exact .inr hnew

end Disk.ModesFrom

namespace Options

open Workspace DraftFolder

variable {o : Options} {p : String} {folder : DraftFolder} {w : Workspace}

theorem modesFrom_ensure (hp : Path.normalize p = .ok p) (ht : w.disk.IsTree) :
    w.disk.ModesFrom o.folder (left (ensure o.folder ((Path.project? p).getD "/")) w).disk := by
  obtain ⟨c, hc⟩ := Path.project_components hp
  have hwithin : w.Within (fun _ => False) (DraftFolder.OnWay o.folder [c])
      (left (ensure o.folder ((Path.project? p).getD "/")) w) := left_ensure hc
  refine ⟨((localWork_ensure hp o).changes w).2.tree ht, fun {b way m} hne hway hm => ?_, fun hm => ?_⟩
  · by_cases hb : b = c
    · subst hb
      rcases left_ensure_cases o.folder ((Path.project? p).getD "/") w with h | h
      · rw [h] at hm
        exact .inl hm
      · rw [h] at hm
        exact mode_of_create ht hc hne hm
    · refine .inl ((hwithin.2.folder _ (fun hon => ?_) m).1 hm)
      exact hb (List.cons_prefix_cons.1 hon.1).1.symm
  · exact .inl ((hwithin.2.file _ id _ _).1 hm)

section Files

variable (hp : Path.normalize p = .ok p)
  (hfolder : path? o.folder ((Path.project? p).getD "/") = some folder.path) (ht : w.disk.IsTree)

include hp hfolder ht

theorem modesFrom_write (content : Bytes) :
    w.disk.ModesFrom o.folder (left (folder.write (Path.flatten p) content) w).disk := by
  have hwithin : w.Within (fun q => Place.ofName? (folder.filePath (Path.flatten p)) = some q)
      (fun _ => False) (left (folder.write (Path.flatten p) content) w) := left_write
  refine ⟨((localWork_write hp hfolder content).changes w).2.tree ht, fun hne hway hm => ?_,
    fun {c flat m kept} hm => ?_⟩
  · exact .inl ((hwithin.2.folder _ id _).1 hm)
  · by_cases hl : Place.ofName? (folder.filePath (Path.flatten p)) =
        some (c :: Path.components o.folder ++ [flat])
    · cases hw : folder.write (Path.flatten p) content w with
      | ok u w' =>
          rw [left_of_ok hw, get?_of_write hl hw] at hm
          cases hm
          exact .inr rfl
      | error e w' =>
          rw [left_of_error hw, write_eq_error hw] at hm
          exact .inl hm
    · exact .inl ((hwithin.2.file _ hl m kept).1 hm)

theorem modesFrom_delete : w.disk.ModesFrom o.folder (left (folder.delete (Path.flatten p)) w).disk := by
  have hwithin : w.Within (fun q => Place.ofName? (folder.filePath (Path.flatten p)) = some q)
      (fun _ => False) (left (folder.delete (Path.flatten p)) w) := left_delete
  refine ⟨((localWork_delete hp hfolder).changes w).2.tree ht, fun hne hway hm => ?_,
    fun {c flat m kept} hm => ?_⟩
  · exact .inl ((hwithin.2.folder _ id _).1 hm)
  · by_cases hl : Place.ofName? (folder.filePath (Path.flatten p)) =
        some (c :: Path.components o.folder ++ [flat])
    · cases hw : folder.delete (Path.flatten p) w with
      | ok u w' =>
          obtain ⟨l, hl', -, hnone, -⟩ := delete_eq_ok hw
          obtain rfl := Option.some.inj (hl.symm.trans hl')
          rw [left_of_ok hw] at hm
          rw [Disk.content?_eq_some_iff.2 ⟨m, hm⟩] at hnone
          cases hnone
      | error e w' =>
          rw [left_of_error hw, delete_eq_error hw] at hm
          exact .inl hm
    · exact .inl ((hwithin.2.file _ hl m kept).1 hm)

end Files

theorem modes_frame (o : Options) (ps : String → Prop) : Workspace.Frame o.folder ps
    fun w w' => w.disk.IsTree → w.disk.ModesFrom o.folder w'.disk where
  refl _ ht := .refl ht
  trans h h' ht := (h ht).trans (h' (h ht).tree)
  ensure _ _ hp ht := modesFrom_ensure hp ht
  write content _ _ hp hfolder ht := modesFrom_write hp hfolder ht content
  delete _ _ hp hfolder ht := modesFrom_delete hp hfolder ht

end Options

theorem Operation.modesFrom (op : Operation) {k : Keeper} (hk : k.Filed) (ht : k.workspace.disk.IsTree) :
    k.workspace.disk.ModesFrom k.options.folder (op.perform k).workspace.disk :=
  (op.framed hk (k.options.modes_frame (op.Concerns k)) rfl).2 ht

/-- What is done from outside leaves a tree, and nothing comes to be at a place: an entry there was there
before, with its mode. -/
def Action.LeavesAlone (x : Place) (s : Session) : Action → Prop
  | .outside disk => disk.IsTree ∧ ∀ e, disk.get? x = some e →
      ∃ e₀, s.keeper.workspace.disk.get? x = some e₀ ∧ e₀.isFolder = e.isFolder ∧ e₀.mode = e.mode
  | _ => True

/-- What is at a place, if it is on the way to a draft folder or in one, has the mode in which it is
made. -/
structure Disk.MadeAt (name : String) (x : Place) (d : Disk) : Prop where
  folder : ∀ {c way m}, x = c :: way → way ≠ [] → way <+: Path.components name →
    d.get? x = some (.folder m) → m = DraftFolder.wayMode name way
  file : ∀ {c flat m content}, x = c :: Path.components name ++ [flat] →
    d.get? x = some (.file m content) → m = ItemKind.file.ownerMode

namespace Disk.MadeAt

variable {name : String} {x : Place} {d d' : Disk}

theorem of_missing (h : d.get? x = none) : d.MadeAt name x := by
  refine ⟨fun _ _ _ hm => ?_, fun _ hm => ?_⟩
  · cases h.symm.trans hm
  · cases h.symm.trans hm

theorem after (h : d.MadeAt name x) (hd : ModesFrom name d d') : d'.MadeAt name x := by
  refine ⟨fun heq hne hway hm => ?_, fun heq hm => ?_⟩
  · subst heq
    rcases hd.folder hne hway hm with hold | hnew
    · exact h.folder rfl hne hway hold
    · exact hnew
  · subst heq
    rcases hd.file hm with hold | hnew
    · exact h.file rfl hold
    · exact hnew

theorem outside (h : d.MadeAt name x) (hd : ∀ e, d'.get? x = some e →
    ∃ e₀, d.get? x = some e₀ ∧ e₀.isFolder = e.isFolder ∧ e₀.mode = e.mode) : d'.MadeAt name x := by
  refine ⟨fun heq hne hway hm => ?_, fun heq hm => ?_⟩
  · obtain ⟨e₀, he, hkind, hmode⟩ := hd _ hm
    cases e₀ with
    | file m₀ content => cases hkind
    | folder m₀ =>
        exact hmode.symm.trans (h.folder heq hne hway he)
  · obtain ⟨e₀, he, hkind, hmode⟩ := hd _ hm
    cases e₀ with
    | file m₀ content =>
        exact hmode.symm.trans (h.file heq he)
    | folder m₀ => cases hkind

end Disk.MadeAt

namespace Session

variable {o : Options} {w : Workspace} {capacity : Nat} {clock : Time.Instant} {s₀ s : Session}
  {x : Place}

theorem Reached.madeAt (ht : w.disk.IsTree)
    (h₀ : Reached (fun _ a => a.LeavesTree) (.new o w capacity clock) s₀)
    (hx : s₀.keeper.workspace.disk.get? x = none)
    (h : Reached (fun s a => a.LeavesAlone x s) s₀ s) : s.keeper.options = o ∧ s.keeper.Filed ∧
      s.keeper.workspace.disk.IsTree ∧ s.keeper.workspace.disk.MadeAt o.folder x := by
  refine h.invariant (I := fun s => s.keeper.options = o ∧ s.keeper.Filed ∧
    s.keeper.workspace.disk.IsTree ∧ s.keeper.workspace.disk.MadeAt o.folder x)
    ⟨h₀.options, h₀.filed, h₀.tree ht fun _ _ ha => ha, .of_missing hx⟩ ?_
  rintro s a ⟨ho, hk, hs, hmade⟩ ha
  refine ⟨(s.options_after a).trans ho, filed_after hk a, ?_⟩
  cases a with
  | operation op =>
      have hmodes := op.modesFrom hk hs
      rw [ho] at hmodes
      exact ⟨hmodes.tree, hmade.after hmodes⟩
  | outside disk => exact ⟨ha.1, hmade.outside ha.2⟩
  | tick clock | delivery => exact ⟨hs, hmade⟩

/-- What a session has made at a place where nothing was has its mode ever after. A folder on the way from
the base of a project to its draft folder is its owner's alone exactly if no name on that way is too long and
a part of the folder's name, between slashes, leads to it. A draft file always is, and one that an operation
changes comes to be, whatever its mode was. -/
theorem made_items_have_modes (ht : w.disk.IsTree)
    (h₀ : Reached (fun _ a => a.LeavesTree) (.new o w capacity clock) s₀)
    (hx : s₀.keeper.workspace.disk.get? x = none)
    (h : Reached (fun s a => a.LeavesAlone x s) s₀ s) :
    (∀ c way m, x = c :: way → way ≠ [] → way <+: Path.components o.folder →
        s.keeper.workspace.disk.get? x = some (.folder m) →
          m = if DraftFolder.Fits o.folder ∧ DraftFolder.EndsPart o.folder way then 0o700 else 0o755) ∧
      (∀ c flat m content, x = c :: Path.components o.folder ++ [flat] →
        s.keeper.workspace.disk.get? x = some (.file m content) → m = 0o600) ∧
      ∀ (op : Operation) c flat m content,
        (op.perform s.keeper).workspace.disk.get? (c :: Path.components o.folder ++ [flat]) =
            some (.file m content) →
          s.keeper.workspace.disk.get? (c :: Path.components o.folder ++ [flat]) =
            some (.file m content) ∨ m = 0o600 := by
  obtain ⟨ho, hk, hs, hmade⟩ := Reached.madeAt ht h₀ hx h
  refine ⟨fun c way m heq hne hway hm => hmade.folder heq hne hway hm,
    fun c flat m content heq hm => hmade.file heq hm, fun op c flat m content hm => ?_⟩
  have hmodes := op.modesFrom hk hs
  rw [ho] at hmodes
  exact hmodes.file hm

theorem start_makes_owner_only :
    let s := sample.after (.operation (.track "e" (.start "/p/a")))
    s.keeper.workspace.disk.get? ["p", ".d"] = some (.folder 0o700) ∧
      ∃ content, s.keeper.workspace.disk.get? ["p", ".d", "p.a"] = some (.file 0o600 content) := by
  intro s
  have ht : Workspace.sample.disk.IsTree := by decide
  have hreached (x : Place) : Reached (fun s a => a.LeavesAlone x s) sample s := .step .start trivial
  obtain ⟨hname, hends⟩ : Path.components Options.sample.folder = [".d"] ∧
      (DraftFolder.Fits Options.sample.folder ∧ DraftFolder.EndsPart Options.sample.folder [".d"]) := by
    decide +kernel
  obtain ⟨⟨m, hm⟩, m', content, hm'⟩ : (∃ m, s.keeper.workspace.disk.get? ["p", ".d"] = some (.folder m)) ∧
      ∃ m content, s.keeper.workspace.disk.get? ["p", ".d", "p.a"] = some (.file m content) :=
    ⟨⟨0o700, by decide +kernel⟩, 0o600, [104, 105], by decide +kernel⟩
  obtain ⟨hfolder, -⟩ := made_items_have_modes ht .start (by decide) (hreached ["p", ".d"])
  obtain ⟨-, hfile, -⟩ := made_items_have_modes ht .start (by decide) (hreached ["p", ".d", "p.a"])
  have hmode := hfolder "p" [".d"] m rfl (by simp) (by rw [hname]) hm
  rw [if_pos hends] at hmode
  have hmode' := hfile "p" "p.a" m' content (by rw [hname]; rfl) hm'
  subst hmode hmode'
  exact ⟨hm, content, hm'⟩

/-- With a backslash between two components of the folder's name a start makes two folders and restricts
the second one only. -/
theorem start_leaves_folder_open :
    let start := Session.new ⟨".d\\wc", .char, 4⟩ .sample 4 ⟨0, 0, 0⟩
    let s := start.after (.operation (.track "e" (.start "/p/a")))
    start.keeper.workspace.disk.get? ["p", ".d"] = none ∧ Path.components ".d\\wc" = [".d", "wc"] ∧
      s.keeper.workspace.disk.get? ["p", ".d"] = some (.folder 0o755) ∧
      s.keeper.workspace.disk.get? ["p", ".d", "wc"] = some (.folder 0o700) ∧
      s.keeper.workspace.disk.get? ["p", ".d", "wc", "p.a"] = some (.file 0o600 [104, 105]) := by
  decide +kernel

end Session

end DraftKeeper
