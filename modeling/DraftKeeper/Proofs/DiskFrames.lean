import DraftKeeper.Proofs.DraftFolders

namespace DraftKeeper

def left {ε σ α : Type} (work : EStateM ε σ α) (s : σ) : σ :=
  match work s with
  | .ok _ t | .error _ t => t

section Work

variable {ε σ α β : Type} {s t : σ}

theorem left_of_ok {work : EStateM ε σ α} {a : α} (h : work s = .ok a t) : left work s = t := by
  rw [left, h]

theorem left_of_error {work : EStateM ε σ α} {e : ε} (h : work s = .error e t) :
    left work s = t := by
  rw [left, h]

theorem left_bind_of_ok {work : EStateM ε σ α} {a : α} (next : α → EStateM ε σ β)
    (h : work s = .ok a t) : left (work >>= next) s = left (next a) t := by
  rw [left, bind_of_ok next h, left]

theorem left_bind_of_error {work : EStateM ε σ α} {e : ε} (next : α → EStateM ε σ β)
    (h : work s = .error e t) : left (work >>= next) s = t :=
  left_of_error (bind_eq_error.2 (.inl h))

/-- What holds between the states before and after each of two pieces of work holds of both together. -/
theorem left_bind {R : σ → σ → Prop} (htrans : ∀ {s t u}, R s t → R t u → R s u)
    {work : EStateM ε σ α} {next : α → EStateM ε σ β} (h : R s (left work s))
    (hn : ∀ a t, work s = .ok a t → R t (left (next a) t)) : R s (left (work >>= next) s) := by
  cases hw : work s with
  | ok a t =>
      rw [left_of_ok hw] at h
      rw [left, bind_of_ok next hw]
      exact htrans h (hn a t hw)
  | error e t =>
      rw [left_of_error hw] at h
      rwa [left_bind_of_error next hw]

end Work

namespace Disk

/-- The files at some places may have changed and the folders at others; every other entry is as it was,
and no folder is lost. -/
structure Within (files folders : Place → Prop) (d d' : Disk) : Prop where
  file : ∀ p, ¬ files p → ∀ m c, d'.get? p = some (.file m c) ↔ d.get? p = some (.file m c)
  folder : ∀ p, ¬ folders p → ∀ m, d'.get? p = some (.folder m) ↔ d.get? p = some (.folder m)
  stays : ∀ p, d.isFolder p = true → d'.isFolder p = true

variable {d d' d'' : Disk} {p here rest : Place} {content : Bytes}
  {files folders files' folders' : Place → Prop}

namespace Within

theorem refl (d : Disk) : Within files folders d d :=
  ⟨fun _ _ _ _ => Iff.rfl, fun _ _ _ => Iff.rfl, fun _ h => h⟩

theorem trans (h : Within files folders d d') (h' : Within files folders d' d'') :
    Within files folders d d'' :=
  ⟨fun p hp m c => (h'.file p hp m c).trans (h.file p hp m c),
    fun p hp m => (h'.folder p hp m).trans (h.folder p hp m), fun p hp => h'.stays p (h.stays p hp)⟩

theorem mono (h : Within files folders d d') (hf : ∀ p, files p → files' p)
    (hd : ∀ p, folders p → folders' p) : Within files' folders' d d' :=
  ⟨fun p hp => h.file p (mt (hf p) hp), fun p hp => h.folder p (mt (hd p) hp), h.stays⟩

theorem get? (h : Within files folders d d') (hf : ¬ files p) (hd : ¬ folders p) :
    d'.get? p = d.get? p := by
  refine Option.ext fun e => ?_
  cases e with
  | file m c => exact h.file p hf m c
  | folder m => exact h.folder p hd m

end Within

theorem within_put_file (m : Nat) (hp : d.isFolder p = false) :
    Within (· = p) folders d (d.put p (.file m content)) := by
  have hnone (m : Nat) : d.get? p ≠ some (.folder m) := fun he => by
    rw [isFolder_iff.2 ⟨m, he⟩] at hp
    cases hp
  refine ⟨fun q hq m' c => ?_, fun q _ m' => ?_, fun q hq => ?_⟩
  · rw [get?_put, if_neg fun h => hq h.symm]
  · rw [get?_put]
    split
    · next heq => subst heq; simp [hnone]
    · rfl
  · rw [isFolder_put, if_neg, hq]
    rintro rfl
    rw [hq] at hp
    cases hp

theorem within_put_folder (m : Nat) (hp : d.content? p = none) :
    Within files (· = p) d (d.put p (.folder m)) := by
  have hnone (m : Nat) (c : Bytes) : d.get? p ≠ some (.file m c) := fun he => by
    rw [content?_eq_some_iff.2 ⟨m, he⟩] at hp
    cases hp
  refine ⟨fun q _ m' c => ?_, fun q hq m' => ?_, fun q hq => ?_⟩
  · rw [get?_put]
    split
    · next heq => subst heq; simp [hnone]
    · rfl
  · rw [get?_put, if_neg fun h => hq h.symm]
  · rw [isFolder_put]
    split
    · rfl
    · exact hq

theorem within_write (h : d.write p content = .ok d') : Within (· = p) folders d d' := by
  rw [write] at h
  split at h
  · next m old hl =>
      cases h
      refine within_put_file m ?_
      rw [isFolder, hl]
      rfl
  · cases h
  · next hl =>
      split at h
      · cases h
        refine within_put_file newFileMode ?_
        rw [isFolder, hl]
      · cases h
  · cases h

theorem within_remove (h : d.remove p = .ok d') : Within (· = p) folders d d' := by
  obtain ⟨⟨content, hc⟩, rfl⟩ := remove_eq_ok_iff.1 h
  have hp := isFolder_of_content? hc
  have hother {q : Place} (hq : q ≠ p) : (d.erase p).get? q = d.get? q := by
    rw [get?_erase, if_neg hq.symm]
  refine ⟨fun q hq m c => by rw [hother hq], fun q _ m => ?_, fun q hq => ?_⟩
  · by_cases hq : q = p
    · subst hq
      obtain ⟨m', hm⟩ := content?_eq_some_iff.1 hc
      simp [hm]
    · rw [hother hq]
  · rwa [isFolder_erase fun heq => by rw [heq, hq] at hp; cases hp]

theorem within_makeFoldersFrom : Within files
    (fun q => ∃ way, way ≠ [] ∧ way <+: rest ∧ q = here ++ way ∧ d.get? q = none) d
    (d.makeFoldersFrom here rest).2 := by
  induction rest generalizing d here with
  | nil => exact .refl d
  | cons name rest ih =>
      have hlonger {way : Place} : here ++ [name] ++ way = here ++ name :: way :=
        List.append_cons here name way |>.symm
      cases hlong : isTooLong name with
      | true =>
          rw [makeFoldersFrom_long hlong]
          exact .refl d
      | false =>
          rcases he : d.get? (here ++ [name]) with _ | ⟨m, c⟩ | m
          · rw [makeFoldersFrom_none hlong he]
            refine ((within_put_folder newFolderMode ?_).mono (fun _ h => h) ?_).trans
              (ih.mono (fun _ h => h) ?_)
            · rw [content?, he, Option.bind_none]
            · rintro q rfl
              exact ⟨[name], by simp, List.prefix_cons_inj name |>.2 (List.nil_prefix), rfl, he⟩
            · rintro q ⟨way, -, hway, rfl, hnone⟩
              refine ⟨name :: way, by simp, (List.prefix_cons_inj name).2 hway, hlonger, ?_⟩
              rw [get?_put] at hnone
              split at hnone
              · cases hnone
              · exact hnone
          · rw [makeFoldersFrom_file hlong he]
            exact .refl d
          · rw [makeFoldersFrom_folder hlong he]
            refine ih.mono (fun _ h => h) ?_
            rintro q ⟨way, -, hway, rfl, hnone⟩
            exact ⟨name :: way, by simp, (List.prefix_cons_inj name).2 hway, hlonger, hnone⟩

theorem isFolder_on_way {way : Place} (h : (d.makeFoldersFrom here rest).1 = .ok ())
    (hne : way ≠ []) (hway : way <+: rest) :
    (d.makeFoldersFrom here rest).2.isFolder (here ++ way) = true := by
  induction rest generalizing d here way with
  | nil => exact absurd (List.prefix_nil.1 hway) hne
  | cons name rest ih =>
      obtain ⟨x, way, rfl⟩ := List.exists_cons_of_ne_nil hne
      obtain ⟨rfl, hrest⟩ := List.cons_prefix_cons.1 hway
      have hstep {d : Disk} (hx : d.isFolder (here ++ [x]) = true)
          (h : (d.makeFoldersFrom (here ++ [x]) rest).1 = .ok ()) :
          (d.makeFoldersFrom (here ++ [x]) rest).2.isFolder (here ++ x :: way) = true := by
        rw [List.append_cons here x way]
        cases way with
        | nil =>
            rw [List.append_nil]
            exact (makeFoldersFrom_changes fun _ => hx).folder _ hx
        | cons y way => exact ih h (List.cons_ne_nil y way) hrest
      cases hlong : isTooLong x with
      | true =>
          rw [makeFoldersFrom_long hlong] at h
          cases h
      | false =>
          rcases he : d.get? (here ++ [x]) with _ | ⟨m, c⟩ | m
          · rw [makeFoldersFrom_none hlong he] at h ⊢
            refine hstep ?_ h
            rw [isFolder_put, if_pos rfl, Entry.isFolder]
          · rw [makeFoldersFrom_file hlong he] at h
            cases h
          · rw [makeFoldersFrom_folder hlong he] at h ⊢
            exact hstep (isFolder_iff.2 ⟨m, he⟩) h

theorem within_makeFolders (d : Disk) (p : Place) :
    Within files (fun q => q ≠ [] ∧ q <+: p ∧ d.get? q = none) d (d.makeFolders p).2 := by
  refine within_makeFoldersFrom.mono (fun _ h => h) ?_
  rintro q ⟨way, hne, hway, rfl, hnone⟩
  exact ⟨hne, hway, hnone⟩

theorem isFolder_of_makeFolders {way : Place} (h : (d.makeFolders p).1 = .ok ()) (hne : way ≠ [])
    (hway : way <+: p) : (d.makeFolders p).2.isFolder way = true :=
  isFolder_on_way h hne hway

theorem within_setMode (mode : Nat) : Within (fun q => q = p ∧ d.isFolder p = false)
    (fun q => q = p ∧ d.isFolder p = true) d (d.setMode p mode) := by
  rw [setMode]
  rcases he : d.get? p with _ | ⟨m, c⟩ | m
  · exact .refl d
  · have hp : d.isFolder p = false := by
      rw [isFolder_eq_any, he]
      rfl
    exact (within_put_file mode hp).mono (fun q hq => ⟨hq, hp⟩) fun _ h => h
  · refine (within_put_folder mode ?_).mono (fun _ h => h) fun q hq => ⟨hq, isFolder_iff.2 ⟨m, he⟩⟩
    rw [content?, he]
    rfl

theorem within_restrict {kind : ItemKind} {location : String}
    (h : d.restrict kind p location = .ok d') : Within (fun q => q = p ∧ d.isFolder p = false)
      (fun q => q = p ∧ d.isFolder p = true) d d' := by
  rw [restrict] at h
  split at h
  · cases h
    exact within_setMode kind.ownerMode
  · cases h
    exact .refl d
  · cases h

end Disk

namespace Workspace

def Within (files folders : Place → Prop) (w w' : Workspace) : Prop :=
  w'.root = w.root ∧ w.disk.Within files folders w'.disk

variable {files folders files' folders' : Place → Prop} {w w' w'' : Workspace} {path p : String}
  {place : Place} {content : Bytes}

namespace Within

theorem refl (w : Workspace) : Within files folders w w := ⟨rfl, .refl w.disk⟩

theorem trans (h : Within files folders w w') (h' : Within files folders w' w'') :
    Within files folders w w'' :=
  ⟨h'.1.trans h.1, h.2.trans h'.2⟩

theorem mono (h : Within files folders w w') (hf : ∀ p, files p → files' p)
    (hd : ∀ p, folders p → folders' p) : Within files' folders' w w' :=
  ⟨h.1, h.2.mono hf hd⟩

end Within

theorem within_write (h : w.write path content = .ok w') :
    Within (fun q => Place.ofName? path = some q) folders w w' := by
  cases hr : resolve path with
  | error e => simp [write, hr, bind, Except.bind] at h
  | ok r =>
      obtain ⟨q, place⟩ := r
      cases hw : w.disk.write place content with
      | error f => simp [write, hr, hw, bind, Except.bind, Except.mapError] at h
      | ok disk =>
          obtain rfl : { w with disk } = w' := by
            simpa [write, hr, hw, bind, Except.bind, Except.mapError, pure, Except.pure] using h
          refine ⟨rfl, (Disk.within_write hw).mono ?_ fun _ h => h⟩
          rintro l rfl
          exact ofName?_eq_some_iff.2 ⟨q, hr⟩

theorem within_remove (h : w.remove path = .ok w') :
    Within (fun q => Place.ofName? path = some q) folders w w' := by
  cases hr : resolve path with
  | error e => simp [remove, hr, bind, Except.bind] at h
  | ok r =>
      obtain ⟨q, place⟩ := r
      simp only [remove, hr, bind, Except.bind] at h
      split at h
      · next disk hd =>
          cases h
          refine ⟨rfl, (Disk.within_remove hd).mono ?_ fun _ h => h⟩
          rintro l rfl
          exact ofName?_eq_some_iff.2 ⟨q, hr⟩
      · cases h
        exact .refl w
      · cases h

theorem within_restrict (h : w.restrict path = .ok w') :
    Within (fun q => Place.ofName? path = some q ∧ w.disk.isFolder q = false)
      (fun q => Place.ofName? path = some q ∧ w.disk.isFolder q = true) w w' := by
  cases hr : resolve path with
  | error e => simp [restrict, hr, bind, Except.bind] at h
  | ok r =>
      obtain ⟨q, place⟩ := r
      have hplace := ofName?_eq_some_iff.2 ⟨q, hr⟩
      simp only [restrict, hr, bind, Except.bind] at h
      split at h
      · next disk hd =>
          cases h
          refine ⟨rfl, (Disk.within_restrict hd).mono ?_ ?_⟩
          · rintro l ⟨rfl, hf⟩
            exact ⟨hplace, hf⟩
          · rintro l ⟨rfl, hf⟩
            exact ⟨hplace, hf⟩
      · cases h

theorem ofName?_eq (h : Place.ofName? path = some place) : place = Path.components path := by
  obtain ⟨p, hr⟩ := ofName?_eq_some_iff.1 h
  obtain ⟨hp, rfl⟩ := resolve_eq_ok_iff.1 hr
  exact Path.slashComponents_of_normalize hp

theorem isFolder_of_projectBase? (h : w.projectBase? path = .ok (some p)) :
    w.disk.isFolder (Path.components path) = true := by
  cases hr : resolve path with
  | error e => simp [projectBase?, hr, bind, Except.bind] at h
  | ok r =>
      obtain ⟨q, place⟩ := r
      rw [projectBase?_eq hr] at h
      rw [← ofName?_eq (ofName?_eq_some_iff.2 ⟨q, hr⟩)]
      split at h
      · next m hl => exact Disk.isFolder_iff.2 ⟨m, Disk.locate_eq_ok_iff.1 hl⟩
      all_goals cases h

end Workspace

namespace Storing

open Workspace

variable {files folders : Place → Prop} {w : Workspace} {base path : String} {names : List String}

theorem left_ask {α : Type} (f : Workspace → Except ItemError α) (w : Workspace) :
    left (ask f) w = w := by
  rw [left, ask]
  cases f w <;> rfl

theorem left_change {f : Workspace → Except ItemError Workspace}
    (h : ∀ w', f w = .ok w' → w.Within files folders w') :
    w.Within files folders (left (change f) w) := by
  rw [left, change]
  cases hf : f w with
  | ok w' => exact h w' hf
  | error e => exact .refl w

theorem left_makeFolder : w.Within files (fun q => q ≠ [] ∧ q <+: Path.components path ∧
    w.disk.get? q = none) (left (makeFolder path) w) := by
  have hleft : left (makeFolder path) w = (w.makeFolder path).2 := by
    rw [left, makeFolder]
    split
    · next h => split at h <;> cases h; rename_i hm; rw [hm]
    · next h => split at h <;> cases h; rename_i hm; rw [hm]
  rw [hleft, Workspace.makeFolder]
  cases hr : resolve path with
  | error e => exact .refl w
  | ok r =>
      obtain ⟨q, place⟩ := r
      obtain rfl := ofName?_eq (ofName?_eq_some_iff.2 ⟨q, hr⟩)
      have h : w.disk.Within files _ _ := Disk.within_makeFolders w.disk (Path.components path)
      dsimp only
      split
      · next hd => exact ⟨rfl, by rwa [hd] at h⟩
      · next hd => exact ⟨rfl, by rwa [hd] at h⟩

theorem isFolder_makeFolder {p : String} {w' : Workspace} {way : Place}
    (h : makeFolder path w = .ok p w') (hne : way ≠ []) (hway : way <+: Path.components path) :
    w'.disk.isFolder way = true := by
  rw [makeFolder, Workspace.makeFolder] at h
  cases hr : resolve path with
  | error e => simp [hr] at h
  | ok r =>
      obtain ⟨q, place⟩ := r
      obtain rfl := ofName?_eq (ofName?_eq_some_iff.2 ⟨q, hr⟩)
      simp only [hr] at h
      cases hd : w.disk.makeFolders (Path.components path) with
      | mk r disk =>
          rw [hd] at h
          cases r with
          | error f => simp at h
          | ok u =>
              cases h
              have hf := Disk.isFolder_of_makeFolders (by rw [hd]) hne hway
              rwa [hd] at hf

theorem left_restrictAlong (hfolders : ∀ parts, parts ≠ [] → parts <+: names →
      w.disk.isFolder (Path.components base ++ parts.flatMap Path.components) = true) :
    w.Within files (fun q => ∃ parts, parts ≠ [] ∧ parts <+: names ∧
      q = Path.components base ++ parts.flatMap Path.components)
      (left (restrictAlong base names) w) := by
  induction names generalizing base w with
  | nil => exact .refl w
  | cons name names ih =>
      have hnext := Path.components_join base name
      have hlonger (parts : List String) : Path.components (Path.join base name) ++
          parts.flatMap Path.components =
            Path.components base ++ (name :: parts).flatMap Path.components := by
        rw [hnext, List.append_assoc, List.flatMap_cons]
      have hhere : w.disk.isFolder (Path.components (Path.join base name)) = true := by
        have h := hfolders [name] (by simp) ((List.prefix_cons_inj name).2 (List.nil_prefix))
        rwa [List.flatMap_cons, List.flatMap_nil, List.append_nil, ← hnext] at h
      rw [restrictAlong]
      refine left_bind .trans (left_change fun w' h => ?_) fun u t h => ?_
      · refine (within_restrict h).mono ?_ ?_
        · rintro q ⟨hq, hf⟩
          rw [ofName?_eq hq, hhere] at hf
          cases hf
        · rintro q ⟨hq, -⟩
          refine ⟨[name], by simp, (List.prefix_cons_inj name).2 (List.nil_prefix), ?_⟩
          rw [ofName?_eq hq, ← hlonger, List.flatMap_nil, List.append_nil]
      · refine (ih fun parts hne hparts => ?_).mono (fun _ h => h) ?_
        · have hr := restrict_eq_ok (change_eq_ok.1 h)
          rw [hlonger]
          exact hr.2.folder _ (hfolders _ (by simp) ((List.prefix_cons_inj name).2 hparts))
        · rintro q ⟨parts, -, hparts, rfl⟩
          exact ⟨name :: parts, by simp, (List.prefix_cons_inj name).2 hparts, hlonger parts⟩

end Storing

namespace DraftFolder

open Workspace

/-- The first part of the name, between slashes, consists of separators and so leads nowhere. -/
def StaysInBase (name : String) : Prop :=
  ∃ part parts, Path.slashComponents name = part :: parts ∧ Path.components part = []

/-- The places on the way from the base of a project to its draft folder. The base itself is one of them
only if the first part of the folder's name leads nowhere. -/
def OnWay (name : String) (base q : Place) : Prop :=
  base <+: q ∧ q <+: base ++ Path.components name ∧ (q = base → StaysInBase name)

variable {files folders : Place → Prop} {name project flat c : String} {w : Workspace}

theorem left_find? (name project : String) (w : Workspace) : left (find? name project) w = w := by
  cases h : find? name project w with
  | ok found w' => rw [left_of_ok h, (find?_eq_ok h).1]
  | error e w' => rw [left_of_error h, find?_eq_error h]

theorem onWay_of_missing {q : Place} (hbase : w.disk.isFolder [c] = true) (hne : q ≠ [])
    (hq : q <+: c :: Path.components name) (hnone : w.disk.get? q = none) : OnWay name [c] q := by
  obtain ⟨x, q, rfl⟩ := List.exists_cons_of_ne_nil hne
  obtain rfl := (List.cons_prefix_cons.1 hq).1
  refine ⟨List.cons_prefix_cons.2 ⟨rfl, List.nil_prefix⟩, hq, ?_⟩
  intro heq
  obtain ⟨m, hm⟩ := Disk.isFolder_iff.1 hbase
  rw [heq, hm] at hnone
  cases hnone

theorem onWay_of_parts {base : Place} {parts : List String} (hne : parts ≠ [])
    (hparts : parts <+: Path.slashComponents name) :
    OnWay name base (base ++ parts.flatMap Path.components) := by
  refine ⟨List.prefix_append .., ?_, fun heq => ?_⟩
  · exact (List.prefix_append_right_inj base).2 (Path.flatMap_components_prefix hparts)
  · obtain ⟨rest, hrest⟩ := hparts
    obtain ⟨part, parts, rfl⟩ := List.exists_cons_of_ne_nil hne
    refine ⟨part, parts ++ rest, hrest.symm, ?_⟩
    rw [List.append_right_eq_self, List.flatMap_cons] at heq
    exact (List.append_eq_nil_iff.1 heq).1

theorem left_create (hone : Path.components project = [c]) :
    w.Within files (OnWay name [c]) (left (create name project) w) := by
  rw [create]
  refine left_bind .trans (by rw [Storing.left_ask]; exact .refl w) fun base t h => ?_
  obtain ⟨hbase, rfl⟩ := Storing.ask_eq_ok.1 h
  cases base with
  | none => exact .refl w
  | some base =>
      have hfolder := isFolder_of_projectBase? hbase
      have hcomponents : Path.components base = [c] := by
        rw [← hone]
        exact Path.components_of_normalize (projectBase?_eq_some hbase)
      have hjoin : Path.components (Path.join base name) = c :: Path.components name := by
        rw [Path.components_join, hcomponents, List.singleton_append]
      rw [hone] at hfolder
      refine left_bind .trans (Storing.left_makeFolder.mono (fun _ h => h) ?_) fun path t hm => ?_
      · rintro q ⟨hne, hway, hnone⟩
        rw [hjoin] at hway
        exact onWay_of_missing hfolder hne hway hnone
      · refine left_bind .trans ((Storing.left_restrictAlong ?_).mono (fun _ h => h) ?_)
          fun u t' h => .refl t'
        · intro parts hne hparts
          refine Storing.isFolder_makeFolder hm (by simp [hcomponents]) ?_
          rw [Path.components_join]
          exact (List.prefix_append_right_inj _).2 (Path.flatMap_components_prefix hparts)
        · rintro q ⟨parts, hne, hparts, rfl⟩
          rw [hcomponents]
          exact onWay_of_parts hne hparts

theorem left_ensure (hone : Path.components project = [c]) :
    w.Within files (OnWay name [c]) (left (ensure name project) w) := by
  rw [ensure]
  refine left_bind .trans (by rw [left_find?]; exact .refl w) fun found t h => ?_
  obtain ⟨rfl, -⟩ := find?_eq_ok h
  cases found with
  | some folder => exact .refl t
  | none => exact left_create hone

variable {folder : DraftFolder} {content : Bytes}

theorem left_contains (folder : DraftFolder) (flat : String) (w : Workspace) :
    left (folder.contains flat) w = w := by
  cases h : folder.contains flat w with
  | ok found w' => rw [left_of_ok h, (contains_eq_ok h).1]
  | error e w' => rw [left_of_error h, contains_eq_error h]

theorem left_write : w.Within (fun q => Place.ofName? (folder.filePath flat) = some q) folders
    (left (folder.write flat content) w) := by
  rw [write]
  refine left_bind .trans (Storing.left_change fun w' h => within_write h) fun u t h => ?_
  refine Storing.left_change fun w' hr => (within_restrict hr).mono (fun q hq => hq.1) ?_
  -- what was written is a file
  rintro q ⟨hq, hf⟩
  obtain ⟨l, hl, -, hc⟩ := Workspace.write_eq_ok (Storing.change_eq_ok.1 h)
  obtain rfl := Option.some.inj (hl.symm.trans hq)
  rw [Disk.isFolder_of_content? hc] at hf
  cases hf

theorem left_delete : w.Within (fun q => Place.ofName? (folder.filePath flat) = some q) folders
    (left (folder.delete flat) w) :=
  Storing.left_change fun _ h => within_remove h

end DraftFolder

end DraftKeeper
