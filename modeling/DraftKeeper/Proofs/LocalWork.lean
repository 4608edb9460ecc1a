import DraftKeeper.Proofs.AgreeingDisks
import DraftKeeper.Proofs.Confinement

namespace DraftKeeper

/-- Work that sees of the disk only the way to the draft file of a path. It changes entries of a region only,
loses no folder, and changes the content of no other file. -/
structure Options.LocalWork {α : Type} (o : Options) (p : String) (region : Place → Prop)
    (work : Storing α) : Prop where
  respects : ∀ places, Place.Avoids places (o.filePlace p) → Respects (Workspace.AgreeOff places) work
  stays : ∀ w : Workspace, w.AgreeOff region (left work w)
  changes : ∀ w : Workspace, w.Changes [o.filePlace p] (left work w)

/-- The places of the draft file of a path and of the folders on the way to it. -/
def Options.Near (o : Options) (p : String) (x : Place) : Prop := x = o.filePlace p ∨ o.OnWay p x

namespace Options.LocalWork

variable {α β : Type} {o : Options} {p : String} {region region' : Place → Prop} {work : Storing α}

theorem mono (h : o.LocalWork p region work) (hr : ∀ x, region x → region' x) :
    o.LocalWork p region' work :=
  ⟨h.respects, fun w => (h.stays w).mono hr, h.changes⟩

theorem bind {next : α → Storing β} (h : o.LocalWork p region work)
    (hn : ∀ a w w', work w = .ok a w' → o.LocalWork p region (next a)) :
    o.LocalWork p region (work >>= next) where
  respects places hp _ _ hw := (h.respects places hp _ _ hw).bind fun a _ _ ha _ hw' =>
    (hn a _ _ ha).respects places hp _ _ hw'
  stays w := left_bind .trans (h.stays w) fun a _ ha => (hn a w _ ha).stays _
  changes w := left_bind .trans (h.changes w) fun a _ ha => (hn a w _ ha).changes _

theorem of_left_eq (hr : ∀ places, Place.Avoids places (o.filePlace p) →
      Respects (Workspace.AgreeOff places) work) (hl : ∀ w, left work w = w) :
    o.LocalWork p region work := by
  refine ⟨hr, fun w => ?_, fun w => ?_⟩
  · rw [hl]
    exact .refl w
  · rw [hl]
    exact .refl _ w

theorem pure (a : α) : o.LocalWork p region (Pure.pure a : Storing α) :=
  of_left_eq (fun _ _ => .pure a) fun _ => rfl

end Options.LocalWork

namespace DraftFolder

variable {o : Options} {p : String} {folder : DraftFolder} {region : Place → Prop}

theorem left_changes {α : Type} {work : Storing α} {files : List Place} {w : Workspace}
    (hok : ∀ a w', work w = .ok a w' → w.Changes files w')
    (herror : ∀ e w', work w = .error e w' → w.Changes files w') : w.Changes files (left work w) := by
  cases h : work w with
  | ok a w' =>
      rw [left_of_ok h]
      exact hok a w' h
  | error e w' =>
      rw [left_of_error h]
      exact herror e w' h

theorem agreeOff_of_within {files : Place → Prop} {w w' : Workspace}
    (h : w.Within files (fun _ => False) w') : w.AgreeOff files w' :=
  h.agreeOff.mono fun _ hx => hx.resolve_right id

section Folders

variable (hp : Path.normalize p = .ok p)

theorem localWork_find? (o : Options) (p : String) :
    o.LocalWork p region (find? o.folder ((Path.project? p).getD "/")) :=
  .of_left_eq (fun _ h => respects_find? h.append) fun w => left_find? _ _ w

include hp

theorem localWork_ensure (o : Options) :
    o.LocalWork p (o.OnWay p) (ensure o.folder ((Path.project? p).getD "/")) := by
  obtain ⟨c, hc⟩ := Path.project_components hp
  refine ⟨fun places h => respects_ensure h.append, fun w => ?_, fun w => ?_⟩
  · have hway : o.OnWay p = OnWay o.folder [c] := by
      funext x
      rw [Options.OnWay, Path.basePlace, hc]
    rw [hway]
    have h : w.Within (fun _ => False) (OnWay o.folder [c]) (left (ensure o.folder _) w) := left_ensure hc
    exact h.agreeOff.mono fun x hx => hx.resolve_left id
  · refine left_changes (fun folder w' h => ?_) fun e w' h => ?_
    · exact (ensure_eq_ok h).1.mono (List.nil_subset _)
    · exact (ensure_eq_error h).mono (List.nil_subset _)

end Folders

section Files

variable (hp : Path.normalize p = .ok p)
  (hfolder : path? o.folder ((Path.project? p).getD "/") = some folder.path)

include hp hfolder

theorem localWork_contains : o.LocalWork p region (folder.contains (Path.flatten p)) := by
  refine .of_left_eq (fun places h => respects_contains ?_) fun w => left_contains _ _ w
  rwa [Options.components_filePath hp hfolder]

theorem localWork_write (content : Bytes) :
    o.LocalWork p (· = o.filePlace p) (folder.write (Path.flatten p) content) := by
  refine ⟨fun places h => respects_write ?_ content, fun w => ?_, fun w => ?_⟩
  · rwa [Options.components_filePath hp hfolder]
  · refine (agreeOff_of_within left_write).mono fun x hx => ?_
    exact Options.filePlace_of_path? hp hfolder hx
  · refine left_changes (fun u w' h => ?_) fun e w' h => ?_
    · obtain ⟨l, hl, hc, -⟩ := write_eq_ok h
      rwa [← Options.filePlace_of_path? hp hfolder hl]
    · rw [write_eq_error h]
      exact .refl _ w

theorem localWork_delete : o.LocalWork p (· = o.filePlace p) (folder.delete (Path.flatten p)) := by
  refine ⟨fun places h => respects_delete ?_, fun w => ?_, fun w => ?_⟩
  · rwa [Options.components_filePath hp hfolder]
  · refine (agreeOff_of_within left_delete).mono fun x hx => ?_
    exact Options.filePlace_of_path? hp hfolder hx
  · refine left_changes (fun u w' h => ?_) fun e w' h => ?_
    · obtain ⟨l, hl, hc, -⟩ := delete_eq_ok h
      rwa [← Options.filePlace_of_path? hp hfolder hl]
    · rw [delete_eq_error h]
      exact .refl _ w

end Files

def writeNew (folder : DraftFolder) (flat : String) (content : Bytes) : Storing Unit := do
  if !(← folder.contains flat) then
    folder.write flat content

def drop (name project flat : String) : Storing Unit := do
  match ← find? name project with
  | some folder => folder.delete flat
  | none => pure ()

theorem localWork_writeNew (hp : Path.normalize p = .ok p)
    (hfolder : path? o.folder ((Path.project? p).getD "/") = some folder.path) (content : Bytes) :
    o.LocalWork p (· = o.filePlace p) (folder.writeNew (Path.flatten p) content) := by
  rw [writeNew]
  refine .bind (localWork_contains hp hfolder) fun found w w' _ => ?_
  cases found with
  | true => exact .pure ()
  | false => exact localWork_write hp hfolder content

theorem localWork_drop (hp : Path.normalize p = .ok p) :
    o.LocalWork p (· = o.filePlace p) (drop o.folder ((Path.project? p).getD "/") (Path.flatten p)) := by
  rw [drop]
  refine .bind (localWork_find? o p) fun found w w' hf => ?_
  cases found with
  | none => exact .pure ()
  | some folder => exact localWork_delete hp ((find?_eq_ok hf).2 folder rfl).2.1

theorem localWork_inFolder {α : Type} {work : DraftFolder → Storing α} (hp : Path.normalize p = .ok p)
    (h : ∀ folder : DraftFolder, path? o.folder ((Path.project? p).getD "/") = some folder.path →
      o.LocalWork p (· = o.filePlace p) (work folder)) :
    o.LocalWork p (o.Near p) (ensure o.folder ((Path.project? p).getD "/") >>= work) :=
  .bind ((localWork_ensure hp o).mono fun _ => .inr) fun folder _ _ he =>
    (h folder (ensure_eq_ok he).2.2.1).mono fun _ => .inl

end DraftFolder

end DraftKeeper
