import DraftKeeper.OwnerOnly
import Mathlib.Data.List.Induction

namespace DraftKeeper

def Entry.content? : Entry → Option Bytes
  | .file _ content => some content
  | .folder _ => none

namespace Disk

def content? (d : Disk) (p : Place) : Option Bytes := (d.get? p).bind Entry.content?

/-- The root is a folder, and every other entry lies in a folder under a name that is not too long. -/
structure IsTree (d : Disk) : Prop where
  root : d.isFolder [] = true
  above : ∀ {p name e}, d.get? (p ++ [name]) = some e → d.isFolder p = true ∧ isTooLong name = false

/-- Work that changes the files at some places and no others, and takes no folder away. -/
structure Changes (files : List Place) (d d' : Disk) : Prop where
  content : ∀ p, p ∉ files → d'.content? p = d.content? p
  folder : ∀ p, d.isFolder p = true → d'.isFolder p = true
  tree : d.IsTree → d'.IsTree

variable {d d' d'' : Disk} {p q : Place} {files : List Place} {content : Bytes}

theorem isFolder_eq_any (d : Disk) (p : Place) : d.isFolder p = (d.get? p).any Entry.isFolder := by
  unfold isFolder locate
  cases d.get? p <;> rfl

theorem isFolder_iff : d.isFolder p = true ↔ ∃ m, d.get? p = some (.folder m) := by
  rw [isFolder_eq_any]
  rcases d.get? p with _ | ⟨_ | _⟩ <;> simp [Entry.isFolder]

theorem content?_eq_some_iff : d.content? p = some content ↔ ∃ m, d.get? p = some (.file m content) := by
  rw [content?]
  rcases d.get? p with _ | ⟨_ | _⟩ <;> simp [Entry.content?]

theorem read_eq_ok_iff : d.read p = .ok content ↔ d.content? p = some content := by
  unfold read locate content?
  rcases d.get? p with _ | ⟨_ | _⟩ <;> simp [Entry.content?]

theorem content?_put (e : Entry) :
    (d.put p e).content? q = if p = q then e.content? else d.content? q := by
  rw [content?, get?_put]
  split <;> rfl

theorem isFolder_put (e : Entry) :
    (d.put p e).isFolder q = if p = q then e.isFolder else d.isFolder q := by
  rw [isFolder_eq_any, isFolder_eq_any, get?_put]
  split <;> rfl

theorem content?_erase : (d.erase p).content? q = if p = q then none else d.content? q := by
  rw [content?, get?_erase]
  split <;> rfl

theorem isFolder_erase (h : p ≠ q) : (d.erase p).isFolder q = d.isFolder q := by
  rw [isFolder_eq_any, isFolder_eq_any, get?_erase, if_neg h]

namespace Changes

theorem refl (files : List Place) (d : Disk) : Changes files d d :=
  ⟨fun _ _ => rfl, fun _ h => h, fun h => h⟩

theorem trans (h : Changes files d d') (h' : Changes files d' d'') : Changes files d d'' :=
  ⟨fun p hp => (h'.content p hp).trans (h.content p hp), fun p hp => h'.folder p (h.folder p hp),
    fun ht => h'.tree (h.tree ht)⟩

theorem mono {more : List Place} (h : Changes files d d') (hs : files ⊆ more) : Changes more d d' :=
  ⟨fun p hp => h.content p fun hm => hp (hs hm), h.folder, h.tree⟩

end Changes

section Trees

theorem isSome_get?_iff : (d.get? p).isSome = true ↔ p ∈ d.entries.map Prod.fst := by
  rw [get?]
  induction d.entries with
  | nil => simp [Assoc.get?]
  | cons e r ih => grind [Assoc.get?]

theorem isTree_iff : d.IsTree ↔ d.isFolder [] = true ∧ ∀ p ∈ d.entries.map Prod.fst,
    ∀ name ∈ p.getLast?, d.isFolder p.dropLast = true ∧ isTooLong name = false := by
  constructor
  · rintro ⟨hroot, habove⟩
    refine ⟨hroot, fun p hp name hname => ?_⟩
    obtain ⟨e, he⟩ := Option.isSome_iff_exists.1 (isSome_get?_iff.2 hp)
    obtain ⟨q, rfl⟩ := List.getLast?_eq_some_iff.1 hname
    rw [List.dropLast_concat]
    exact habove he
  · rintro ⟨hroot, habove⟩
    refine ⟨hroot, fun {p name e} he => ?_⟩
    have h := habove (p ++ [name]) (isSome_get?_iff.1 (by simp [he])) name (by simp)
    rwa [List.dropLast_concat] at h

instance (d : Disk) : Decidable d.IsTree := decidable_of_iff _ isTree_iff.symm

theorem IsTree.isFolder_above (h : d.IsTree) {below : Place} {e : Entry} (hne : below ≠ [])
    (he : d.get? (p ++ below) = some e) : d.isFolder p = true := by
  induction below using List.reverseRecOn generalizing e with
  | nil => exact absurd rfl hne
  | append_singleton below name ih =>
      rw [← List.append_assoc] at he
      have hf := (h.above he).1
      cases below with
      | nil => rwa [List.append_nil] at hf
      | cons x xs =>
          obtain ⟨m, hm⟩ := isFolder_iff.1 hf
          exact ih (by simp) hm

theorem IsTree.isFolder_prefix (h : d.IsTree) (below : Place)
    (hf : d.isFolder (p ++ below) = true) : d.isFolder p = true := by
  cases below with
  | nil => rwa [List.append_nil] at hf
  | cons x xs =>
      obtain ⟨m, hm⟩ := isFolder_iff.1 hf
      exact h.isFolder_above (by simp) hm

/-- From a folder the way to a name that is not there ends at that name. -/
theorem IsTree.obstacle_eq (h : d.IsTree) (here rest : Place) (name : String)
    (hf : d.isFolder (here ++ rest) = true) :
    d.obstacle here (rest ++ [name]) = if isTooLong name then .nameTooLong else .missing := by
  induction rest generalizing here with
  | nil =>
      rw [List.append_nil] at hf
      obtain ⟨m, hm⟩ := isFolder_iff.1 hf
      simp [obstacle, hm]
  | cons x rest ih =>
      have hx : d.isFolder (here ++ [x]) = true := by
        refine h.isFolder_prefix rest ?_
        rwa [List.append_assoc, List.singleton_append]
      obtain ⟨mx, hmx⟩ := isFolder_iff.1 hx
      obtain ⟨hhere, hlong⟩ := h.above hmx
      obtain ⟨m, hm⟩ := isFolder_iff.1 hhere
      rw [List.cons_append, obstacle, hm]
      simp only [hlong]
      rw [if_neg (by simp)]
      refine ih _ ?_
      rwa [List.append_assoc, List.singleton_append]

theorem IsTree.put (h : d.IsTree) {e : Entry} (hkeep : d.isFolder p = true → e.isFolder = true)
    (habove : ∀ q name, p = q ++ [name] → d.isFolder q = true ∧ isTooLong name = false) :
    (d.put p e).IsTree := by
  have hfolder (q : Place) (hq : d.isFolder q = true) : (d.put p e).isFolder q = true := by
    rw [isFolder_put]
    split
    · next heq => exact hkeep (heq ▸ hq)
    · exact hq
  refine ⟨hfolder [] h.root, ?_⟩
  intro q name f hf
  rw [get?_put] at hf
  split at hf
  · next heq =>
      obtain ⟨hq, hn⟩ := habove q name heq
      exact ⟨hfolder q hq, hn⟩
  · obtain ⟨hq, hn⟩ := h.above hf
    exact ⟨hfolder q hq, hn⟩

theorem IsTree.erase (h : d.IsTree) (hp : d.isFolder p = false) : (d.erase p).IsTree := by
  have hfolder (q : Place) (hq : d.isFolder q = true) : (d.erase p).isFolder q = true := by
    rwa [isFolder_erase fun heq => by rw [heq, hq] at hp; cases hp]
  refine ⟨hfolder [] h.root, ?_⟩
  intro q name e he
  rw [get?_erase] at he
  split at he
  · cases he
  · obtain ⟨hq, hn⟩ := h.above he
    exact ⟨hfolder q hq, hn⟩

end Trees

section Files

theorem changes_put_file (m : Nat) (hp : d.isFolder p = false)
    (habove : d.IsTree → ∀ q name, p = q ++ [name] → d.isFolder q = true ∧ isTooLong name = false) :
    Changes [p] d (d.put p (.file m content)) := by
  refine ⟨?_, ?_, ?_⟩
  · intro q hq
    rw [content?_put, if_neg]
    simpa [eq_comm] using hq
  · intro q hq
    rw [isFolder_put, if_neg, hq]
    rintro rfl
    rw [hq] at hp
    cases hp
  · intro ht
    exact ht.put (fun hf => by rw [hf] at hp; cases hp) (habove ht)

theorem write_eq_ok (h : d.write p content = .ok d') :
    Changes [p] d d' ∧ d'.content? p = some content := by
  simp only [write, locate] at h
  cases he : d.get? p with
  | some e =>
      rw [he] at h
      cases e with
      | folder m => simp at h
      | file m old =>
          obtain rfl : d.put p (.file m content) = d' := by simpa using h
          refine ⟨changes_put_file m ?_ ?_, by rw [content?_put, if_pos rfl, Entry.content?]⟩
          · rw [isFolder_eq_any, he]
            rfl
          · rintro ht q name rfl
            exact ht.above he
  | none =>
      rw [he] at h
      have hp : d.isFolder p = false := by
        rw [isFolder_eq_any, he]
        rfl
      cases ho : d.obstacle [] p with
      | missing =>
          simp only [ho] at h
          split at h
          · next hf =>
              obtain rfl : d.put p (.file newFileMode content) = d' := by simpa using h
              refine ⟨changes_put_file newFileMode hp ?_, by rw [content?_put, if_pos rfl, Entry.content?]⟩
              rintro ht q name rfl
              rw [List.dropLast_concat] at hf
              rw [ht.obstacle_eq [] q name hf] at ho
              exact ⟨hf, by simpa using ho⟩
          · cases h
      | _ => simp [ho] at h

theorem isFolder_of_content? (h : d.content? p = some content) : d.isFolder p = false := by
  obtain ⟨m, hm⟩ := content?_eq_some_iff.1 h
  rw [isFolder_eq_any, hm]
  rfl

theorem remove_eq_ok_iff :
    d.remove p = .ok d' ↔ (∃ content, d.content? p = some content) ∧ d.erase p = d' := by
  unfold remove locate content?
  rcases d.get? p with _ | ⟨_ | _⟩ <;> simp [Entry.content?]

theorem remove_eq_ok (h : d.remove p = .ok d') : Changes [p] d d' ∧ d'.content? p = none := by
  obtain ⟨⟨content, hc⟩, rfl⟩ := remove_eq_ok_iff.1 h
  have hp := isFolder_of_content? hc
  refine ⟨⟨?_, ?_, fun ht => ht.erase hp⟩, by rw [content?_erase, if_pos rfl]⟩
  · intro q hq
    rw [content?_erase, if_neg]
    simpa [eq_comm] using hq
  · intro q hq
    rwa [isFolder_erase fun heq => by rw [heq, hq] at hp; cases hp]

theorem locate_remove (ht : d.IsTree) (hne : p ≠ []) (h : d.remove p = .ok d') :
    d'.locate p = .error .missing := by
  obtain ⟨⟨content, hc⟩, rfl⟩ := remove_eq_ok_iff.1 h
  obtain ⟨m, hm⟩ := content?_eq_some_iff.1 hc
  have hp := isFolder_of_content? hc
  obtain ⟨q, name, rfl⟩ : ∃ q name, p = q ++ [name] :=
    ⟨p.dropLast, p.getLast hne, (List.dropLast_concat_getLast hne).symm⟩
  obtain ⟨hq, hlong⟩ := ht.above hm
  have hq' : (d.erase (q ++ [name])).isFolder ([] ++ q) = true := by
    rwa [List.nil_append, isFolder_erase fun heq => by rw [heq, hq] at hp; cases hp]
  rw [locate, get?_erase, if_pos rfl, (ht.erase hp).obstacle_eq [] _ name hq', hlong, if_neg (by simp)]

theorem locate_of_remove_missing (h : d.remove p = .error .missing) :
    d.locate p = .error .missing := by
  simp only [remove] at h
  split at h
  · cases h
  · cases h
  · next hl => rwa [← Except.error.inj h]

theorem content?_of_remove_missing (h : d.remove p = .error .missing) : d.content? p = none := by
  simp only [remove, locate] at h
  cases he : d.get? p with
  | none => simp [content?, he]
  | some e => cases e <;> simp [he] at h

end Files

section Folders

theorem changes_put_folder (m : Nat) (hp : d.content? p = none)
    (habove : d.IsTree → ∀ q name, p = q ++ [name] → d.isFolder q = true ∧ isTooLong name = false) :
    Changes [] d (d.put p (.folder m)) := by
  refine ⟨?_, ?_, ?_⟩
  · intro q _
    rw [content?_put]
    split
    · next heq => rw [← heq, hp, Entry.content?]
    · rfl
  · intro q hq
    rw [isFolder_put]
    split
    · rfl
    · exact hq
  · exact fun ht => ht.put (fun _ => rfl) (habove ht)

section Way

variable {here rest : Place} {name : String}

theorem makeFoldersFrom_long (h : isTooLong name = true) :
    d.makeFoldersFrom here (name :: rest) = (.error .nameTooLong, d) := by
  rw [makeFoldersFrom, if_pos h]

theorem makeFoldersFrom_none (h : isTooLong name = false) (he : d.get? (here ++ [name]) = none) :
    d.makeFoldersFrom here (name :: rest) =
      (d.put (here ++ [name]) (.folder newFolderMode)).makeFoldersFrom (here ++ [name]) rest := by
  simp only [makeFoldersFrom, h, he, Bool.false_eq_true, if_false]

theorem makeFoldersFrom_folder {m : Nat} (h : isTooLong name = false)
    (he : d.get? (here ++ [name]) = some (.folder m)) :
    d.makeFoldersFrom here (name :: rest) = d.makeFoldersFrom (here ++ [name]) rest := by
  simp only [makeFoldersFrom, h, he, Bool.false_eq_true, if_false]

theorem makeFoldersFrom_file {m : Nat} (h : isTooLong name = false)
    (he : d.get? (here ++ [name]) = some (.file m content)) :
    d.makeFoldersFrom here (name :: rest) =
      (.error (if rest.isEmpty then .exists else .notFolder), d) := by
  simp only [makeFoldersFrom, h, he, Bool.false_eq_true, if_false]

theorem makeFoldersFrom_changes (hhere : d.IsTree → d.isFolder here = true) :
    Changes [] d (d.makeFoldersFrom here rest).2 := by
  induction rest generalizing d here with
  | nil => exact .refl [] d
  | cons name rest ih =>
      cases hlong : isTooLong name with
      | true =>
          rw [makeFoldersFrom_long hlong]
          exact .refl [] d
      | false =>
          rcases he : d.get? (here ++ [name]) with _ | ⟨m, c⟩ | m
          · have hput : Changes [] d (d.put (here ++ [name]) (.folder newFolderMode)) := by
              refine changes_put_folder newFolderMode (by rw [content?, he, Option.bind_none]) ?_
              intro ht q other heq
              obtain ⟨rfl, rfl⟩ := List.append_singleton_inj.1 heq
              exact ⟨hhere ht, hlong⟩
            rw [makeFoldersFrom_none hlong he]
            refine hput.trans (ih fun _ => ?_)
            rw [isFolder_put, if_pos rfl, Entry.isFolder]
          · rw [makeFoldersFrom_file hlong he]
            exact .refl [] d
          · rw [makeFoldersFrom_folder hlong he]
            exact ih fun _ => isFolder_iff.2 ⟨m, he⟩

theorem isFolder_makeFoldersFrom (here : Place) (hhere : d.isFolder here = true ∨ rest ≠ [])
    (h : (d.makeFoldersFrom here rest).1 = .ok ()) :
    (d.makeFoldersFrom here rest).2.isFolder (here ++ rest) = true := by
  induction rest generalizing d here with
  | nil =>
      rw [List.append_nil]
      exact hhere.resolve_right fun hne => hne rfl
  | cons name rest ih =>
      rw [← List.singleton_append, ← List.append_assoc, List.singleton_append]
      cases hlong : isTooLong name with
      | true =>
          rw [makeFoldersFrom_long hlong] at h
          cases h
      | false =>
          rcases he : d.get? (here ++ [name]) with _ | ⟨m, c⟩ | m
          · rw [makeFoldersFrom_none hlong he] at h ⊢
            refine ih _ (.inl ?_) h
            rw [isFolder_put, if_pos rfl, Entry.isFolder]
          · rw [makeFoldersFrom_file hlong he] at h
            cases h
          · rw [makeFoldersFrom_folder hlong he] at h ⊢
            exact ih _ (.inl (isFolder_iff.2 ⟨m, he⟩)) h

end Way

theorem makeFolders_changes (d : Disk) (p : Place) : Changes [] d (d.makeFolders p).2 :=
  makeFoldersFrom_changes fun ht => ht.root

theorem isFolder_makeFolders (hp : p ≠ []) (h : (d.makeFolders p).1 = .ok ()) :
    (d.makeFolders p).2.isFolder p = true :=
  isFolder_makeFoldersFrom [] (.inr hp) h

theorem setMode_changes (d : Disk) (p : Place) (mode : Nat) : Changes [] d (d.setMode p mode) := by
  rw [setMode]
  cases he : d.get? p with
  | none => exact .refl [] d
  | some e =>
      have hkind : (e.withMode mode).isFolder = e.isFolder := by cases e <;> rfl
      refine ⟨?_, ?_, ?_⟩
      · intro q _
        simp only [content?_put]
        split
        · next heq => subst heq; cases e <;> simp [content?, he, Entry.withMode, Entry.content?]
        · rfl
      · intro q hq
        simp only [isFolder_put]
        split
        · next heq =>
            subst heq
            rw [hkind]
            simpa [isFolder, locate, he] using hq
        · exact hq
      · intro ht
        refine ht.put (fun hf => ?_) ?_
        · rw [hkind]
          simpa [isFolder, locate, he] using hf
        · rintro q name rfl
          exact ht.above he

theorem restrict_changes {kind : ItemKind} {location : String}
    (h : d.restrict kind p location = .ok d') : Changes [] d d' := by
  rw [restrict] at h
  split at h
  · cases h
    exact setMode_changes d p _
  · cases h
    exact .refl [] d
  · cases h

theorem restrict_of_content? (kind : ItemKind) (location : String) (h : d.content? p = some content) :
    ∃ d', d.restrict kind p location = .ok d' := by
  obtain ⟨m, hm⟩ := content?_eq_some_iff.1 h
  exact ⟨d.setMode p kind.ownerMode, by simp only [restrict, locate, hm]⟩

end Folders

end Disk

end DraftKeeper
