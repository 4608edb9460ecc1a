import DraftKeeper.Proofs.Comparisons
import DraftKeeper.Proofs.ParallelRuns
import Mathlib.Data.String.Basic

namespace DraftKeeper

theorem length_le_utf8ByteSize (s : String) : s.length ≤ s.utf8ByteSize := by
  obtain ⟨l, rfl⟩ : ∃ l, s = String.ofList l := ⟨s.toList, String.ofList_toList.symm⟩
  rw [String.length_ofList, String.utf8ByteSize_ofList]
  induction l with
  | nil => exact Nat.le_refl 0
  | cons c cs ih =>
      have hpos := c.utf8Size_pos
      rw [List.length_cons, String.utf8Len_cons]
      omega

namespace Path

variable {c p q : String} {cs : List String}

def IsName (c : String) : Prop :=
  c ≠ "" ∧ (∀ x ∈ c.toList, x ≠ '/' ∧ x ≠ '\\' ∧ x ≠ Char.ofNat 0) ∧ fault? c = none

instance (c : String) : Decidable (IsName c) :=
  decidable_of_iff (c ≠ "" ∧ (c.toList.all fun x => x ≠ '/' ∧ x ≠ '\\' ∧ x ≠ Char.ofNat 0) = true ∧
    fault? c = none) (by simp only [IsName, List.all_eq_true, decide_eq_true_iff])

theorem isName_replicate {n : Nat} (hn : n ≠ 0) : IsName (String.ofList (List.replicate n 'x')) := by
  have hmem {x : Char} : x ∈ (String.ofList (List.replicate n 'x')).toList ↔ x = 'x' := by
    rw [String.toList_ofList, List.mem_replicate]
    exact and_iff_right hn
  have hne {c : String} (hc : 'x' ∉ c.toList) : String.ofList (List.replicate n 'x') ≠ c := by
    rintro rfl
    exact hc (hmem.2 rfl)
  have hblank : Text.Blank.allBlank (String.ofList (List.replicate n 'x')) = false :=
    List.all_eq_false.2 ⟨'x', hmem.2 rfl, by decide⟩
  refine ⟨hne (by decide), fun x hx => ?_, ?_⟩
  · rw [hmem.1 hx]
    decide
  · rw [fault?, if_neg (hne (by decide)), if_neg (hne (by decide)), if_neg (Bool.not_eq_true _ ▸ hblank)]

theorem components_of_names (h : ∀ c ∈ cs, IsName c) : components (ofComponents cs) = cs :=
  componentsBy_ofComponents rfl fun c hc => ⟨(h c hc).1, fun x hx => by
    obtain ⟨hslash, hback, -⟩ := (h c hc).2.1 x hx
    simpa using ⟨hslash, hback⟩⟩

theorem normalize_ofComponents (hne : cs ≠ []) (h : ∀ c ∈ cs, IsName c) : normalize (ofComponents cs) =
    if (ofComponents cs).length ≤ maxLength then .ok (ofComponents cs) else .error .tooLong := by
  have hnull : (ofComponents cs).toList.contains (Char.ofNat 0) = false := by
    refine Bool.eq_false_iff.2 fun hmem => ?_
    rcases mem_toList_ofComponents (List.contains_iff_mem.1 hmem) with hslash | ⟨c, hc, hx⟩
    · exact absurd hslash (by decide)
    · exact ((h c hc).2.1 _ hx).2.2 rfl
  have hfault : cs.findSome? fault? = none := List.findSome?_eq_none_iff.2 fun c hc => (h c hc).2.2
  have hempty : (ofComponents cs).isEmpty = false := by
    obtain ⟨c, cs, rfl⟩ := List.exists_cons_of_ne_nil hne
    rw [Bool.eq_false_iff, ne_eq, String.isEmpty_iff, ← String.toList_inj, toList_ofComponents_cons]
    exact List.cons_ne_nil _ _
  have hsome : cs.isEmpty = false := by simpa using hne
  simp only [normalize, hempty, hnull, components_of_names h, hfault, hsome, Bool.false_eq_true, if_false]
  by_cases hl : (ofComponents cs).length ≤ maxLength
  · rw [if_neg (Nat.not_lt.2 hl), if_pos hl]
  · rw [if_pos (Nat.lt_of_not_le hl), if_neg hl]

theorem normalize_of_names (hne : cs ≠ []) (h : ∀ c ∈ cs, IsName c)
    (hl : (ofComponents cs).length ≤ maxLength) :
    normalize (ofComponents cs) = .ok (ofComponents cs) := by
  rw [normalize_ofComponents hne h, if_pos hl]

theorem project?_of_components (hp : normalize p = .ok p) (h : components p = c :: cs) :
    project? p = some ("/" ++ c) := by
  obtain ⟨c', cs', hcs, hproject, -⟩ := project?_eq hp
  rw [h] at hcs
  rw [hproject, (List.cons.inj hcs).1]

theorem isTooLong_flatten (hp : normalize p = .ok p) (h : Disk.maxName + 1 < p.length) :
    Disk.isTooLong (flatten p) = true := by
  have hlength := length_flatten hp
  have hsize := length_le_utf8ByteSize (flatten p)
  rw [Disk.isTooLong, decide_eq_true_iff]
  omega

end Path

namespace Disk

/-- In a folder there is nothing under a name that is too long, but nothing is missing either. -/
theorem IsTree.locate_of_tooLong {d : Disk} {x : Place} {name : String} (ht : d.IsTree)
    (hx : d.isFolder x = true) (hname : isTooLong name = true) :
    d.locate (x ++ [name]) = .error .nameTooLong := by
  have hnone : d.get? (x ++ [name]) = none := by
    cases he : d.get? (x ++ [name]) with
    | none => rfl
    | some e =>
        have hshort := (ht.above he).2
        rw [hname] at hshort
        cases hshort
  rw [locate, hnone]
  dsimp only
  rw [ht.obstacle_eq [] x name hx, if_pos hname]

end Disk

namespace DraftFolder

theorem find?_of_missing {name project base : String} {w : Workspace}
    (hbase : w.projectBase? project = .ok (some base)) (hfolder : w.folder? (Path.join base name) = .ok none) :
    find? name project w = .ok none w := by
  have hask : Storing.ask (fun w => w.projectBase? project) w = .ok (some base) w :=
    Storing.ask_eq_ok.2 ⟨hbase, rfl⟩
  have hask' : Storing.ask (fun w => w.folder? (Path.join base name)) w = .ok none w :=
    Storing.ask_eq_ok.2 ⟨hfolder, rfl⟩
  rw [find?, bind_of_ok _ hask]
  exact bind_of_ok _ hask'

end DraftFolder

namespace Keeper

variable {k : Keeper} {path p : String} {draft : Draft}

theorem start_of_fault {f : Fault} (hn : Path.normalize path = .ok p) (hd : k.drafts.get? p = none)
    (hl : k.workspace.disk.locate (Path.components p) = .error f) :
    start path k = .error (if f = .missing then .missing p else .storage (.item (Workspace.system p f))) k := by
  have hfile := Workspace.file?_eq (w := k.workspace)
    (Workspace.resolve_of_normalize (Path.normalize_of_normalize hn))
  rw [hl] at hfile
  rw [start_eq, bind_of_ok _ (normalized_eq_ok.2 ⟨hn, rfl⟩)]
  refine bind_eq_error.2 (.inl ?_)
  rw [opened_of_none hd, create]
  by_cases hf : f = .missing
  · subst hf
    rw [bind_of_ok _ (ask_eq_ok.2 ⟨hfile, rfl⟩), if_pos rfl]
    rfl
  · have herror : k.workspace.file? p = .error (Workspace.system p f) := by
      rw [hfile]
      cases f <;> first | rfl | exact absurd rfl hf
    rw [if_neg hf]
    refine bind_eq_error.2 (.inl (storing_eq_error.2 ⟨_, _, ?_, rfl, rfl⟩))
    exact Storing.ask_eq_error.2 ⟨⟨_, herror, rfl⟩, rfl⟩

theorem settled_of_unread (h : ∀ content, k.workspace.read p ≠ .ok content) :
    settled p draft k = discard draft.project draft.flat k := by
  rw [settled, bind_of_ok _ (get_eq k), if_neg]
  intro ha
  obtain ⟨content, hc⟩ := Comparison.read_of_isAhead ha
  exact h content hc

theorem read_of_tooLong {w : Workspace} {x : Place} {name : String} (hp : Path.normalize p = .ok p)
    (ht : w.disk.IsTree) (hplace : Path.components p = x ++ [name]) (hx : w.disk.isFolder x = true)
    (hname : Disk.isTooLong name = true) : ∀ content, w.read p ≠ .ok content := by
  intro content
  rw [Workspace.read_eq (Workspace.resolve_of_normalize hp), Disk.read, hplace, ht.locate_of_tooLong hx hname]
  intro h
  cases h

theorem stop_of_unread (hn : Path.normalize path = .ok p) (hd : k.drafts.get? p = some draft)
    (h : ∀ content, k.workspace.read p ≠ .ok content) :
    stop path k = (do discard draft.project draft.flat; forget p : Keeping Unit) k := by
  rw [stop_of_some hn hd]
  change (settled p draft >>= fun _ => forget p) k = (discard draft.project draft.flat >>= fun _ => forget p) k
  simp only [bind, EStateM.bind, settled_of_unread h]

theorem discard_of_tooLong {folder : String} (hk : draft.IsFor p) (ht : k.workspace.disk.IsTree)
    (hpath : DraftFolder.path? k.options.folder ((Path.project? p).getD "/") = some folder)
    (hfolder : k.workspace.disk.isFolder (k.options.folderPlace p) = true)
    (hlong : Disk.isTooLong (Path.flatten p) = true) :
    ∃ f k', discard draft.project draft.flat k = .error f k' := by
  cases hd : discard draft.project draft.flat k with
  | error f k' => exact ⟨f, k', rfl⟩
  | ok u k' =>
      rw [hk.project, hk.flat] at hd
      obtain ⟨w, rfl, houtcome⟩ := discard_eq_ok hd
      have hfound := DraftFolder.find?_of_isFolder ht hpath (by
        rwa [DraftFolder.slashComponents_of_path? hpath])
      rcases houtcome with ⟨rfl, hnone⟩ | ⟨found, l, hfind, hl, -, hchanges, -, hmissing⟩
      · rw [hfound] at hnone
        cases hnone
      · obtain ⟨-, hfound, -⟩ := (DraftFolder.find?_eq_ok hfind).2 found rfl
        obtain rfl := Options.filePlace_of_path? hk.normal hfound hl
        have htoo := (hchanges.2.tree ht).locate_of_tooLong (hchanges.2.folder _ hfolder) hlong
        cases htoo.symm.trans (hmissing ht)

theorem relocated_of_no_base {target : String} (hbase : (left (DraftFolder.drop k.options.folder draft.project
      draft.flat) k.workspace).disk.isFolder (Path.components (draft.movedTo target).project) = false) :
    ∃ f, relocated target draft k = .error f (k.withWorkspace
      (left (DraftFolder.drop k.options.folder draft.project draft.flat) k.workspace)) := by
  cases hd : DraftFolder.drop k.options.folder draft.project draft.flat k.workspace with
  | error e w =>
      have hdiscard := (discard_eq draft.project draft.flat k).trans (storing_eq_error.2 ⟨e, w, hd, rfl, rfl⟩)
      rw [left_of_error hd]
      exact ⟨_, bind_eq_error.2 (.inl hdiscard)⟩
  | ok u w =>
      have hdiscard := (discard_eq draft.project draft.flat k).trans (storing_eq_ok.2 ⟨w, hd, rfl⟩)
      rw [left_of_ok hd] at hbase ⊢
      obtain ⟨e, he⟩ := DraftFolder.ensure_of_no_base k.options.folder hbase
      have hwrite : write (draft.movedTo target) (k.withWorkspace w) =
          .error (.storage e) (k.withWorkspace w) :=
        bind_eq_error.2 (.inl ((ensureFolder_eq _ _).trans (storing_eq_error.2 ⟨e, w, he, rfl, rfl⟩)))
      have hsave : save target (draft.movedTo target) (k.withWorkspace w) =
          .error (.storage e) (k.withWorkspace w) := bind_eq_error.2 (.inl hwrite)
      exact ⟨.storage e, (bind_of_ok _ hdiscard).trans (bind_eq_error.2 (.inl hsave))⟩

theorem move_of_no_base {old new source target : String} (hs : Path.normalize old = .ok source)
    (ht : Path.normalize new = .ok target) (hne : source ≠ target) (hd : k.drafts.get? source = some draft)
    (hfree : k.drafts.get? target = none) (hbase : (left (DraftFolder.drop k.options.folder draft.project
      draft.flat) k.workspace).disk.isFolder (Path.components (draft.movedTo target).project) = false) :
    ∃ f, move old new k = .error f ((k.rekeyed source target draft).withWorkspace
      (left (DraftFolder.drop k.options.folder draft.project draft.flat) k.workspace)) := by
  obtain ⟨f, hf⟩ := relocated_of_no_base (k := k.rekeyed source target draft) hbase
  exact ⟨f, (move_of_some hs ht hne hd hfree).trans hf⟩

end Keeper

end DraftKeeper
