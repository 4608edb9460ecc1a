import DraftKeeper.Proofs.DiskFrames

namespace DraftKeeper

section Runs

variable {ε σ α β : Type} {R R' : σ → σ → Prop} {s t : σ}

/-- Two runs end with the same result or with the same error, in related states. -/
inductive EndAlike (R : σ → σ → Prop) : EStateM.Result ε σ α → EStateM.Result ε σ α → Prop
  | ok (a : α) {s t : σ} (h : R s t) : EndAlike R (.ok a s) (.ok a t)
  | error (e : ε) {s t : σ} (h : R s t) : EndAlike R (.error e s) (.error e t)

def Respects (R : σ → σ → Prop) (work : EStateM ε σ α) : Prop :=
  ∀ s t, R s t → EndAlike R (work s) (work t)

namespace EndAlike

theorem mono {x y : EStateM.Result ε σ α} (h : EndAlike R x y) (hR : ∀ s t, R s t → R' s t) :
    EndAlike R' x y := by
  cases h with
  | ok a h => exact .ok a (hR _ _ h)
  | error e h => exact .error e (hR _ _ h)

theorem bind {work : EStateM ε σ α} {next : α → EStateM ε σ β} (h : EndAlike R (work s) (work t))
    (hn : ∀ a s' t', work s = .ok a s' → work t = .ok a t' → R s' t' →
      EndAlike R (next a s') (next a t')) : EndAlike R ((work >>= next) s) ((work >>= next) t) := by
  cases hs : work s with
  | ok a s' =>
      rw [hs] at h
      cases ht : work t with
      | ok b t' =>
          rw [ht] at h
          cases h with
          | ok a h =>
              rw [bind_of_ok next hs, bind_of_ok next ht]
              exact hn a s' t' hs ht h
      | error e t' =>
          rw [ht] at h
          cases h
  | error e s' =>
      rw [hs] at h
      cases ht : work t with
      | ok b t' =>
          rw [ht] at h
          cases h
      | error f t' =>
          rw [ht] at h
          cases h with
          | error e h =>
              rw [bind_eq_error.2 (.inl hs), bind_eq_error.2 (.inl ht)]
              exact .error e h

theorem left {work : EStateM ε σ α} (h : EndAlike R (work s) (work t)) :
    R (left work s) (DraftKeeper.left work t) := by
  rw [DraftKeeper.left, DraftKeeper.left]
  cases hs : work s <;> cases ht : work t <;> rw [hs, ht] at h <;> cases h <;> assumption

theorem of_left {work : EStateM ε σ α} (h : EndAlike R (work s) (work t))
    (h' : R' (DraftKeeper.left work s) (DraftKeeper.left work t)) : EndAlike R' (work s) (work t) := by
  rw [DraftKeeper.left, DraftKeeper.left] at h'
  cases hs : work s <;> cases ht : work t <;> rw [hs, ht] at h h' <;> cases h
  · exact .ok _ h'
  · exact .error _ h'

theorem of_ok {work : EStateM ε σ α} {a : α} {s' : σ} (h : EndAlike R (work s) (work t))
    (hs : work s = .ok a s') : ∃ t', work t = .ok a t' ∧ R s' t' := by
  rw [hs] at h
  cases ht : work t with
  | ok b t' =>
      rw [ht] at h
      cases h with
      | ok a h => exact ⟨t', rfl, h⟩
  | error f t' =>
      rw [ht] at h
      cases h

theorem of_error {work : EStateM ε σ α} {e : ε} {s' : σ} (h : EndAlike R (work s) (work t))
    (hs : work s = .error e s') : ∃ t', work t = .error e t' ∧ R s' t' := by
  rw [hs] at h
  cases ht : work t with
  | ok b t' =>
      rw [ht] at h
      cases h
  | error f t' =>
      rw [ht] at h
      cases h with
      | error e h => exact ⟨t', rfl, h⟩

end EndAlike

namespace Respects

theorem pure (a : α) : Respects R (Pure.pure a : EStateM ε σ α) := fun _ _ h => .ok a h

theorem throw (e : ε) : Respects R (MonadExcept.throw e : EStateM ε σ α) := fun _ _ h => .error e h

theorem bind {work : EStateM ε σ α} {next : α → EStateM ε σ β} (h : Respects R work)
    (hn : ∀ a, Respects R (next a)) : Respects R (work >>= next) := fun s t hst =>
  (h s t hst).bind fun a s' t' _ _ hst' => hn a s' t' hst'

end Respects

end Runs

/-- Two outcomes are the same error or related values. -/
inductive OutcomesAlike {ε α : Type} (R : α → α → Prop) : Except ε α → Except ε α → Prop
  | ok {a b : α} (h : R a b) : OutcomesAlike R (.ok a) (.ok b)
  | error (e : ε) : OutcomesAlike R (.error e) (.error e)

theorem OutcomesAlike.cases {ε α : Type} {R : α → α → Prop} {x y : Except ε α} (h : OutcomesAlike R x y) :
    (∃ a b, x = .ok a ∧ y = .ok b ∧ R a b) ∨ ∃ e, x = .error e ∧ y = .error e := by
  cases h with
  | ok h => exact .inl ⟨_, _, rfl, rfl, h⟩
  | error e => exact .inr ⟨e, rfl, rfl⟩

/-- Neither the place nor one on the way to it is among those given. -/
def Place.Avoids (places : Place → Prop) (p : Place) : Prop := ∀ x, x <+: p → ¬ places x

namespace Place.Avoids

variable {places : Place → Prop} {p q : Place}

theorem above (h : Avoids places q) (hp : p <+: q) : Avoids places p :=
  fun x hx => h x (hx.trans hp)

theorem self (h : Avoids places p) : ¬ places p := h p (List.prefix_refl p)

theorem append (h : Avoids places (p ++ q)) : Avoids places p := h.above (List.prefix_append p q)

end Place.Avoids

namespace Disk

def AgreeOff (places : Place → Prop) (d d' : Disk) : Prop := ∀ x, ¬ places x → d'.get? x = d.get? x

variable {places : Place → Prop} {d d' : Disk} {p here rest : Place} {content : Bytes}

namespace AgreeOff

theorem refl (d : Disk) : AgreeOff places d d := fun _ _ => rfl

theorem put (h : AgreeOff places d d') (p : Place) (e : Entry) : AgreeOff places (d.put p e) (d'.put p e) := by
  intro x hx
  rw [get?_put, get?_put, h x hx]

theorem erase (h : AgreeOff places d d') (p : Place) : AgreeOff places (d.erase p) (d'.erase p) := by
  intro x hx
  rw [get?_erase, get?_erase, h x hx]

end AgreeOff

theorem obstacle_congr (h : ∀ x, x <+: here ++ rest → d'.get? x = d.get? x) :
    d'.obstacle here rest = d.obstacle here rest := by
  induction rest generalizing here with
  | nil => rfl
  | cons name rest ih =>
      rw [obstacle, obstacle, h here (List.prefix_append _ _)]
      rw [List.append_cons] at h
      rw [ih h]

theorem locate_congr (h : ∀ x, x <+: p → d'.get? x = d.get? x) : d'.locate p = d.locate p := by
  have hway : d'.obstacle [] p = d.obstacle [] p := obstacle_congr h
  rw [locate, locate, h p (List.prefix_refl p), hway]

variable (h : AgreeOff places d d') (hp : Place.Avoids places p)

include h hp

theorem AgreeOff.locate : d'.locate p = d.locate p := locate_congr fun x hx => h x (hp x hx)

theorem AgreeOff.isFolder : d'.isFolder p = d.isFolder p := by
  rw [Disk.isFolder, Disk.isFolder, h.locate hp]

theorem AgreeOff.read : d'.read p = d.read p := by
  rw [Disk.read, Disk.read, h.locate hp]

theorem AgreeOff.write (content : Bytes) :
    OutcomesAlike (AgreeOff places) (d.write p content) (d'.write p content) := by
  rw [Disk.write, Disk.write, h.locate hp, h.isFolder (hp.above (List.dropLast_prefix p))]
  split
  · exact .ok (h.put p _)
  · exact .error _
  · split
    · exact .ok (h.put p _)
    · exact .error _
  · exact .error _

theorem AgreeOff.remove : OutcomesAlike (AgreeOff places) (d.remove p) (d'.remove p) := by
  rw [Disk.remove, Disk.remove, h.locate hp]
  split
  · exact .ok (h.erase p)
  · exact .error _
  · exact .error _

theorem AgreeOff.setMode (mode : Nat) : AgreeOff places (d.setMode p mode) (d'.setMode p mode) := by
  rw [Disk.setMode, Disk.setMode, h p hp.self]
  split
  · exact h.put p _
  · exact h

theorem AgreeOff.restrict (kind : ItemKind) (location : String) : OutcomesAlike (AgreeOff places)
    (d.restrict kind p location) (d'.restrict kind p location) := by
  rw [Disk.restrict, Disk.restrict, h.locate hp]
  split
  · exact .ok (h.setMode hp _)
  · exact .ok h
  · exact .error _

omit hp in
theorem AgreeOff.makeFoldersFrom (hp : Place.Avoids places (here ++ rest)) :
    (d'.makeFoldersFrom here rest).1 = (d.makeFoldersFrom here rest).1 ∧
      AgreeOff places (d.makeFoldersFrom here rest).2 (d'.makeFoldersFrom here rest).2 := by
  induction rest generalizing d d' here with
  | nil => exact ⟨rfl, h⟩
  | cons name rest ih =>
      rw [List.append_cons] at hp
      have hsame := h (here ++ [name]) hp.append.self
      cases hlong : isTooLong name with
      | true =>
          rw [makeFoldersFrom_long hlong, makeFoldersFrom_long hlong]
          exact ⟨rfl, h⟩
      | false =>
          rcases he : d.get? (here ++ [name]) with _ | ⟨m, c⟩ | m
          · rw [makeFoldersFrom_none hlong he, makeFoldersFrom_none hlong (hsame.trans he)]
            exact ih (h.put _ _) hp
          · rw [makeFoldersFrom_file hlong he, makeFoldersFrom_file hlong (hsame.trans he)]
            exact ⟨rfl, h⟩
          · rw [makeFoldersFrom_folder hlong he, makeFoldersFrom_folder hlong (hsame.trans he)]
            exact ih h hp

end Disk

namespace Workspace

def AgreeOff (places : Place → Prop) (w w' : Workspace) : Prop :=
  w'.root = w.root ∧ w.disk.AgreeOff places w'.disk

abbrev Agree : Workspace → Workspace → Prop := AgreeOff fun _ => False

variable {places places' : Place → Prop} {w w' w'' : Workspace} {path p : String} {place : Place}

namespace AgreeOff

theorem refl (w : Workspace) : AgreeOff places w w := ⟨rfl, .refl w.disk⟩

theorem symm (h : AgreeOff places w w') : AgreeOff places w' w :=
  ⟨h.1.symm, fun x hx => (h.2 x hx).symm⟩

theorem trans (h : AgreeOff places w w') (h' : AgreeOff places w' w'') : AgreeOff places w w'' :=
  ⟨h'.1.trans h.1, fun x hx => (h'.2 x hx).trans (h.2 x hx)⟩

theorem mono (h : AgreeOff places w w') (hp : ∀ x, places x → places' x) : AgreeOff places' w w' :=
  ⟨h.1, fun x hx => h.2 x (mt (hp x) hx)⟩

end AgreeOff

theorem Agree.agreeOff (h : Agree w w') : AgreeOff places w w' := h.mono fun _ => False.elim

theorem Within.agreeOff {files folders : Place → Prop} (h : w.Within files folders w') :
    w.AgreeOff (fun x => files x ∨ folders x) w' :=
  ⟨h.1, fun _ hx => h.2.get? (fun hf => hx (.inl hf)) fun hf => hx (.inr hf)⟩

theorem avoids_of_resolve (h : resolve path = .ok (p, place))
    (hp : Place.Avoids places (Path.components path)) : Place.Avoids places place := by
  rwa [ofName?_eq (ofName?_eq_some_iff.2 ⟨p, h⟩)]

variable (h : AgreeOff places w w') (hp : Place.Avoids places (Path.components path))

include h hp

theorem AgreeOff.file? : w'.file? path = w.file? path := by
  cases hr : resolve path with
  | error e => simp only [Workspace.file?, hr, bind, Except.bind]
  | ok r => rw [file?_eq hr, file?_eq hr, h.2.locate (avoids_of_resolve hr hp)]

theorem AgreeOff.folder? : w'.folder? path = w.folder? path := by
  cases hr : resolve path with
  | error e => simp only [Workspace.folder?, hr, bind, Except.bind]
  | ok r => rw [folder?_eq hr, folder?_eq hr, h.2.locate (avoids_of_resolve hr hp)]

theorem AgreeOff.projectBase? : w'.projectBase? path = w.projectBase? path := by
  cases hr : resolve path with
  | error e => simp only [Workspace.projectBase?, hr, bind, Except.bind]
  | ok r => rw [projectBase?_eq hr, projectBase?_eq hr, h.2.locate (avoids_of_resolve hr hp)]

theorem AgreeOff.read : w'.read path = w.read path := by
  cases hr : resolve path with
  | error e => simp only [Workspace.read, hr, bind, Except.bind]
  | ok r => rw [read_eq hr, read_eq hr, h.2.read (avoids_of_resolve hr hp)]

theorem AgreeOff.write (content : Bytes) :
    OutcomesAlike (AgreeOff places) (w.write path content) (w'.write path content) := by
  cases hr : resolve path with
  | error e =>
      simp only [Workspace.write, hr, bind, Except.bind]
      exact .error e
  | ok r =>
      obtain ⟨q, place⟩ := r
      simp only [Workspace.write, hr, bind, Except.bind]
      rcases (h.2.write (avoids_of_resolve hr hp) content).cases with ⟨d, d', hd, hd', hdisk⟩ | ⟨f, hf, hf'⟩
      · rw [hd, hd']
        exact .ok ⟨h.1, hdisk⟩
      · rw [hf, hf']
        exact .error _

theorem AgreeOff.remove : OutcomesAlike (AgreeOff places) (w.remove path) (w'.remove path) := by
  cases hr : resolve path with
  | error e =>
      simp only [Workspace.remove, hr, bind, Except.bind]
      exact .error e
  | ok r =>
      obtain ⟨q, place⟩ := r
      simp only [Workspace.remove, hr, bind, Except.bind]
      rcases (h.2.remove (avoids_of_resolve hr hp)).cases with ⟨d, d', hd, hd', hdisk⟩ | ⟨f, hf, hf'⟩
      · rw [hd, hd']
        exact .ok ⟨h.1, hdisk⟩
      · rw [hf, hf']
        cases f with
        | missing => exact .ok h
        | _ => exact .error _

theorem AgreeOff.restrict : OutcomesAlike (AgreeOff places) (w.restrict path) (w'.restrict path) := by
  cases hr : resolve path with
  | error e =>
      simp only [Workspace.restrict, hr, bind, Except.bind]
      exact .error e
  | ok r =>
      obtain ⟨q, place⟩ := r
      have hplace := avoids_of_resolve hr hp
      have hlocation : w'.location q = w.location q := by rw [location, location, h.1]
      simp only [Workspace.restrict, hr, bind, Except.bind, h.2.isFolder hplace, hlocation]
      rcases (h.2.restrict hplace (if w.disk.isFolder place then .folder else .file)
        (w.location q)).cases with ⟨d, d', hd, hd', hdisk⟩ | ⟨f, hf, hf'⟩
      · rw [hd, hd']
        exact .ok ⟨h.1, hdisk⟩
      · rw [hf, hf']
        exact .error _

theorem AgreeOff.makeFolder : (w'.makeFolder path).1 = (w.makeFolder path).1 ∧
    AgreeOff places (w.makeFolder path).2 (w'.makeFolder path).2 := by
  cases hr : resolve path with
  | error e =>
      simp only [Workspace.makeFolder, hr]
      exact ⟨trivial, h⟩
  | ok r =>
      obtain ⟨q, place⟩ := r
      have hplace : Place.Avoids places ([] ++ place) := avoids_of_resolve hr hp
      obtain ⟨hsame, hd⟩ := h.2.makeFoldersFrom hplace
      simp only [Workspace.makeFolder, hr, Disk.makeFolders]
      generalize w.disk.makeFoldersFrom [] place = r at hsame hd ⊢
      generalize w'.disk.makeFoldersFrom [] place = r' at hsame hd ⊢
      obtain ⟨r, disk⟩ := r
      obtain ⟨r', disk'⟩ := r'
      obtain rfl : r' = r := hsame
      cases r' with
      | ok u => exact ⟨rfl, h.1, hd⟩
      | error f => exact ⟨rfl, h.1, hd⟩

end Workspace

namespace Storing

open Workspace

variable {α : Type} {places : Place → Prop} {w w' : Workspace} {path base : String} {names : List String}

theorem ask_alike {R : Workspace → Workspace → Prop} {f : Workspace → Except ItemError α} (h : R w w')
    (hf : f w' = f w) : EndAlike R (ask f w) (ask f w') := by
  rw [ask, ask, hf]
  split
  · exact .ok _ h
  · exact .error _ h

theorem change_alike {f : Workspace → Except ItemError Workspace} (h : AgreeOff places w w')
    (hf : OutcomesAlike (AgreeOff places) (f w) (f w')) :
    EndAlike (AgreeOff places) (change f w) (change f w') := by
  rw [change, change]
  rcases hf.cases with ⟨v, v', hv, hv', hdisk⟩ | ⟨e, he, he'⟩
  · rw [hv, hv']
    exact .ok _ hdisk
  · rw [he, he']
    exact .error _ h

theorem respects_makeFolder (hp : Place.Avoids places (Path.components path)) :
    Respects (AgreeOff places) (makeFolder path) := by
  intro w w' h
  obtain ⟨hsame, hd⟩ := h.makeFolder hp
  rw [makeFolder, makeFolder]
  generalize w.makeFolder path = r at hsame hd ⊢
  generalize w'.makeFolder path = r' at hsame hd ⊢
  obtain ⟨r, u⟩ := r
  obtain ⟨r', u'⟩ := r'
  obtain rfl : r' = r := hsame
  cases r' with
  | ok q => exact .ok q hd
  | error e => exact .error _ hd

theorem respects_restrictAlong
    (hp : Place.Avoids places (Path.components base ++ names.flatMap Path.components)) :
    Respects (AgreeOff places) (restrictAlong base names) := by
  induction names generalizing base with
  | nil => exact .pure _
  | cons name names ih =>
      rw [List.flatMap_cons, ← List.append_assoc, ← Path.components_join] at hp
      rw [restrictAlong]
      exact .bind (fun w w' h => change_alike h (h.restrict hp.append)) fun _ => ih hp

end Storing

namespace DraftFolder

open Workspace

variable {places : Place → Prop} {w w' : Workspace} {name project flat base : String}
  {folder : DraftFolder}

theorem components_of_projectBase? (h : w.projectBase? project = .ok (some base)) :
    Path.components base = Path.components project :=
  Path.components_of_normalize (projectBase?_eq_some h)

section Folders

variable (hp : Place.Avoids places (Path.components project ++ Path.components name))

include hp

theorem respects_find? : Respects (AgreeOff places) (find? name project) := by
  intro w w' h
  rw [find?]
  refine (Storing.ask_alike h (h.projectBase? hp.append)).bind fun found u u' hu _ h => ?_
  obtain ⟨hbase, rfl⟩ := Storing.ask_eq_ok.1 hu
  cases found with
  | none => exact .ok _ h
  | some base =>
      have hjoin : Place.Avoids places (Path.components (Path.join base name)) := by
        rwa [Path.components_join, components_of_projectBase? hbase]
      exact (Storing.ask_alike h (h.folder? hjoin)).bind fun found u u' _ _ h => .ok _ h

theorem respects_create : Respects (AgreeOff places) (create name project) := by
  intro w w' h
  rw [create]
  refine (Storing.ask_alike h (h.projectBase? hp.append)).bind fun found u u' hu _ h => ?_
  obtain ⟨hbase, rfl⟩ := Storing.ask_eq_ok.1 hu
  cases found with
  | none => exact .error _ h
  | some base =>
      rw [← components_of_projectBase? hbase] at hp
      have hjoin : Place.Avoids places (Path.components (Path.join base name)) := by
        rwa [Path.components_join]
      refine (Storing.respects_makeFolder hjoin _ _ h).bind fun path u u' _ _ h => ?_
      rw [Path.components_eq_flatMap name] at hp
      exact (Storing.respects_restrictAlong hp _ _ h).bind fun _ v v' _ _ h => .ok _ h

theorem respects_ensure : Respects (AgreeOff places) (ensure name project) := by
  rw [ensure]
  refine .bind (respects_find? hp) fun found => ?_
  cases found with
  | some folder => exact .pure folder
  | none => exact respects_create hp

end Folders

section Files

variable (hp : Place.Avoids places (Path.components (folder.filePath flat)))

include hp

theorem respects_contains : Respects (AgreeOff places) (folder.contains flat) := by
  rw [contains]
  exact .bind (fun w w' h => Storing.ask_alike h (h.file? hp)) fun found => .pure _

theorem respects_write (content : Bytes) : Respects (AgreeOff places) (folder.write flat content) := by
  rw [write]
  exact .bind (fun w w' h => Storing.change_alike h (h.write hp content)) fun _ w w' h =>
    Storing.change_alike h (h.restrict hp)

theorem respects_delete : Respects (AgreeOff places) (folder.delete flat) :=
  fun _ _ h => Storing.change_alike h (h.remove hp)

end Files

end DraftFolder

end DraftKeeper
