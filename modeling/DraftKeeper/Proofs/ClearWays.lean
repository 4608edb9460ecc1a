import DraftKeeper.Proofs.DiskFrames
import Mathlib.Data.List.Infix

namespace DraftKeeper

namespace Disk

variable {d d' : Disk} {here rest : Place} {p x l : Place} {content kept : Bytes}
  {files folders : Place → Prop}

theorem get?_eq_none_of_not_folder (hfile : d.content? x = none)
    (hfolder : d.isFolder x = false) : d.get? x = none := by
  rcases he : d.get? x with _ | ⟨m, c⟩ | m
  · rfl
  · rw [content?, he] at hfile
    cases hfile
  · cases hfolder.symm.trans (isFolder_iff.2 ⟨m, he⟩)

theorem Within.isFolder (h : d.Within files folders d')
    (hx : ¬ folders x) : d'.isFolder x = d.isFolder x := by
  rw [Bool.eq_iff_iff, isFolder_iff, isFolder_iff]
  exact exists_congr fun m => h.folder x hx m

section Ways

theorem short_of_makeFoldersFrom (h : (d.makeFoldersFrom here rest).1 = .ok ()) :
    ∀ name ∈ rest, isTooLong name = false := by
  induction rest generalizing d here with
  | nil => exact fun name hname => absurd hname List.not_mem_nil
  | cons first rest ih =>
      cases hlong : isTooLong first with
      | true =>
          rw [makeFoldersFrom_long hlong] at h
          cases h
      | false =>
          refine List.forall_mem_cons.2 ⟨hlong, ?_⟩
          rcases he : d.get? (here ++ [first]) with _ | ⟨m, c⟩ | m
          · rw [makeFoldersFrom_none hlong he] at h
            exact ih h
          · rw [makeFoldersFrom_file hlong he] at h
            cases h
          · rw [makeFoldersFrom_folder hlong he] at h
            exact ih h

theorem makeFoldersFrom_of_clear (hshort : ∀ name ∈ rest, isTooLong name = false)
    (hclear : ∀ way, way <+: rest → d.content? (here ++ way) = none) :
    (d.makeFoldersFrom here rest).1 = .ok () := by
  induction rest generalizing d here with
  | nil => rfl
  | cons name rest ih =>
      have hlong := hshort name List.mem_cons_self
      have hshort' : ∀ n ∈ rest, isTooLong n = false := fun n hn => hshort n (List.mem_cons_of_mem name hn)
      have hclear' (way : Place) (hway : way <+: rest) : d.content? (here ++ [name] ++ way) = none := by
        rw [← List.append_cons]
        exact hclear _ ((List.prefix_cons_inj name).2 hway)
      rcases he : d.get? (here ++ [name]) with _ | ⟨m, c⟩ | m
      · rw [makeFoldersFrom_none hlong he]
        refine ih hshort' fun way hway => ?_
        rw [content?_put]
        split
        · rfl
        · exact hclear' way hway
      · have hnone := hclear' [] List.nil_prefix
        rw [List.append_nil, content?, he] at hnone
        cases hnone
      · rw [makeFoldersFrom_folder hlong he]
        exact ih hshort' hclear'

theorem obstacle_of_clear (hshort : ∀ name ∈ rest, isTooLong name = false)
    (hclear : ∀ way, way <+: rest → d.content? (here ++ way) = none) :
    d.obstacle here rest = .missing := by
  induction rest generalizing here with
  | nil => rfl
  | cons name rest ih =>
      rw [obstacle]
      rcases he : d.get? here with _ | ⟨m, c⟩ | m
      · rfl
      · have hnone := hclear [] List.nil_prefix
        rw [List.append_nil, content?, he] at hnone
        cases hnone
      · simp only [hshort name List.mem_cons_self, Bool.false_eq_true, if_false]
        refine ih (fun n hn => hshort n (List.mem_cons_of_mem name hn)) fun way hway => ?_
        rw [← List.append_cons]
        exact hclear _ ((List.prefix_cons_inj name).2 hway)

theorem IsTree.short_of_isFolder (ht : d.IsTree) (hx : d.isFolder x = true) :
    ∀ name ∈ x, isTooLong name = false := by
  intro name hname
  obtain ⟨before, after, rfl⟩ := List.append_of_mem hname
  rw [List.append_cons] at hx
  obtain ⟨m, hm⟩ := isFolder_iff.1 (ht.isFolder_prefix _ hx)
  exact (ht.above hm).2

theorem IsTree.content?_on_way (ht : d.IsTree) (hx : d.isFolder x = true) {way : Place} (hway : way <+: x) :
    d.content? way = none := by
  obtain ⟨below, rfl⟩ := hway
  obtain ⟨m, hm⟩ := isFolder_iff.1 (ht.isFolder_prefix below hx)
  rw [content?, hm]
  rfl

theorem IsTree.makeFolders_eq_ok_iff (ht : d.IsTree) : (d.makeFolders p).1 = .ok () ↔
    (∀ name ∈ p, isTooLong name = false) ∧ ∀ way, way <+: p → d.content? way = none := by
  constructor
  · intro h
    refine ⟨short_of_makeFoldersFrom h, fun way hway => ?_⟩
    by_cases hne : way = []
    · rw [hne]
      exact ht.content?_on_way ht.root (List.prefix_refl [])
    · have hchanges := makeFolders_changes d p
      rw [← hchanges.content way List.not_mem_nil]
      exact (hchanges.tree ht).content?_on_way (isFolder_of_makeFolders h hne hway) (List.prefix_refl way)
  · rintro ⟨hshort, hclear⟩
    exact makeFoldersFrom_of_clear hshort hclear

end Ways

section Files

theorem write_of_content? (content : Bytes) (h : d.content? l = some kept) : ∃ d', d.write l content = .ok d' := by
  obtain ⟨m, hm⟩ := content?_eq_some_iff.1 h
  refine ⟨d.put l (.file m content), ?_⟩
  simp only [write, locate_eq_ok_iff.2 hm]

theorem IsTree.exists_write_iff (ht : d.IsTree) : (∃ d', d.write p content = .ok d') ↔
    p ≠ [] ∧ (∀ name ∈ p, isTooLong name = false) ∧ d.isFolder p.dropLast = true ∧ d.isFolder p = false := by
  constructor
  · rintro ⟨d', hwrite⟩
    have hwithin : Within (· = p) (fun _ => False) d d' := within_write hwrite
    have hsame (x : Place) : d'.isFolder x = d.isFolder x := hwithin.isFolder not_false
    obtain ⟨hchanges, hcontent⟩ := write_eq_ok hwrite
    have hfree : d.isFolder p = false := hsame p ▸ isFolder_of_content? hcontent
    rcases List.eq_nil_or_concat' p with rfl | ⟨folder, name, rfl⟩
    · cases ht.root.symm.trans hfree
    · obtain ⟨m, hm⟩ := content?_eq_some_iff.1 hcontent
      obtain ⟨hfolder, hshort⟩ := (hchanges.tree ht).above hm
      rw [hsame folder] at hfolder
      rw [List.dropLast_concat]
      refine ⟨List.append_ne_nil_of_right_ne_nil _ (List.cons_ne_nil name []), fun n hn => ?_, hfolder, hfree⟩
      rcases List.mem_append.1 hn with hn | hn
      · exact ht.short_of_isFolder hfolder n hn
      · rwa [List.mem_singleton.1 hn]
  · rintro ⟨hne, hshort, hfolder, hfree⟩
    cases hc : d.content? p with
    | some kept => exact write_of_content? content hc
    | none =>
        have hlocate : d.locate p = .error .missing := by
          have hway := ht.obstacle_eq [] p.dropLast (p.getLast hne) hfolder
          rw [List.dropLast_concat_getLast hne, hshort _ (List.getLast_mem hne)] at hway
          rw [locate, get?_eq_none_of_not_folder hc hfree, hway]
          rfl
        refine ⟨d.put p (.file newFileMode content), ?_⟩
        simp only [write, hlocate, hfolder, if_true]

end Files

section Room

/-- A file can be written at a place once the folders above it are made. -/
structure Takes (d : Disk) (p : Place) : Prop where
  named : p ≠ []
  short : ∀ name ∈ p, isTooLong name = false
  clear : ∀ way, way <+: p.dropLast → d.content? way = none
  free : d.isFolder p = false

theorem Takes.makeFolders (ht : d.IsTree) (h : d.Takes p) : ∃ made, d.makeFolders p.dropLast = (.ok (), made) := by
  have hshort : ∀ name ∈ p.dropLast, isTooLong name = false :=
    fun name hname => h.short name (List.mem_of_mem_dropLast hname)
  exact ⟨(d.makeFolders p.dropLast).2, Prod.ext (ht.makeFolders_eq_ok_iff.2 ⟨hshort, h.clear⟩) rfl⟩

theorem IsTree.exists_restrict {made : Disk} (ht : d.IsTree) (h : d.makeFolders p.dropLast = (.ok (), made))
    (kind : ItemKind) (shown : String) : ∃ d', made.restrict kind p.dropLast shown = .ok d' ∧
      Changes [] d d' ∧ d'.isFolder p.dropLast = true ∧ d'.isFolder p = d.isFolder p := by
  obtain rfl : (d.makeFolders p.dropLast).2 = made := congrArg Prod.snd h
  have hmade := makeFolders_changes d p.dropLast
  have hfolder : (d.makeFolders p.dropLast).2.isFolder p.dropLast = true := by
    by_cases hroot : p.dropLast = []
    · rw [hroot]
      exact (makeFolders_changes d []).folder [] ht.root
    · exact isFolder_makeFolders hroot (congrArg Prod.fst h)
  obtain ⟨m, hm⟩ := isFolder_iff.1 hfolder
  obtain ⟨d', hd'⟩ : ∃ d', (d.makeFolders p.dropLast).2.restrict kind p.dropLast shown = .ok d' :=
    ⟨(d.makeFolders p.dropLast).2.setMode p.dropLast kind.ownerMode, by simp only [restrict, locate, hm]⟩
  have hrest := restrict_changes hd'
  have hchanges := hmade.trans hrest
  refine ⟨d', hd', hchanges, hrest.folder _ hfolder, ?_⟩
  by_cases hp : p = []
  · rw [hp, ht.root, hchanges.folder [] ht.root]
  · have hshorter : p.dropLast.length < p.length := by
      rw [List.length_dropLast]
      exact Nat.sub_lt (List.length_pos_iff.2 hp) Nat.one_pos
    have hother : p ≠ p.dropLast := fun heq => Nat.ne_of_gt hshorter (congrArg List.length heq)
    have hwithin : Within (fun _ => False) (fun q => q ≠ [] ∧ q <+: p.dropLast ∧ d.get? q = none) d
        (d.makeFolders p.dropLast).2 := within_makeFolders d p.dropLast
    rw [(within_restrict hd').isFolder fun hsame => hother hsame.1]
    exact hwithin.isFolder fun hway => Nat.not_le_of_lt hshorter hway.2.1.length_le

end Room

end Disk

end DraftKeeper
