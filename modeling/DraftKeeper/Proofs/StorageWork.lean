import DraftKeeper.Proofs.DiskFrames
import DraftKeeper.Proofs.FiledDrafts

namespace DraftKeeper

/-- A relation that is kept by all work on the draft folders and the draft files of some paths, under one
name for the folders. -/
structure Workspace.Frame (name : String) (ps : String → Prop) (R : Workspace → Workspace → Prop) :
    Prop where
  refl : ∀ w, R w w
  trans : ∀ {u v w}, R u v → R v w → R u w
  ensure : ∀ {p} w, ps p → Path.normalize p = .ok p →
    R w (left (DraftFolder.ensure name ((Path.project? p).getD "/")) w)
  write : ∀ {p} {folder : DraftFolder} content w, ps p → Path.normalize p = .ok p →
    DraftFolder.path? name ((Path.project? p).getD "/") = some folder.path →
    R w (left (folder.write (Path.flatten p) content) w)
  delete : ∀ {p} {folder : DraftFolder} w, ps p → Path.normalize p = .ok p →
    DraftFolder.path? name ((Path.project? p).getD "/") = some folder.path →
    R w (left (folder.delete (Path.flatten p)) w)

namespace Keeper

/-- With these options, which stay, the two workspaces are related. -/
def Framed (o : Options) (R : Workspace → Workspace → Prop) (k k' : Keeper) : Prop :=
  k.options = o → k'.options = o ∧ R k.workspace k'.workspace

theorem left_storing {α : Type} (work : Storing α) (k : Keeper) :
    left (storing work) k = k.withWorkspace (left work k.workspace) := by
  rw [left, storing, left]
  cases work k.workspace <;> rfl

theorem ReadOnly.left {α : Type} {work : Keeping α} (h : ReadOnly work) (k : Keeper) :
    left work k = k := by
  rcases h k with ⟨a, ha⟩ | ⟨f, hf⟩
  · exact left_of_ok ha
  · exact left_of_error hf

theorem path?_of_ensureFolder {k k' : Keeper} {project : String} {folder : DraftFolder}
    (h : ensureFolder project k = .ok folder k') : k'.options = k.options ∧
      DraftFolder.path? k'.options.folder project = some folder.path := by
  rw [ensureFolder_eq] at h
  obtain ⟨w, hens, rfl⟩ := storing_eq_ok.1 h
  exact ⟨rfl, (DraftFolder.ensure_eq_ok hens).2.2.1⟩

theorem after_eq_left {α : Type} (work : Keeping α) (k : Keeper) : after work k = left work k := by
  rw [after, left]
  cases work k <;> rfl

section

variable {o : Options} {ps : String → Prop} {R : Workspace → Workspace → Prop} {k k' k'' : Keeper}
  {p path endpoint : String} {draft : Draft}

theorem Framed.congr (h : Framed o R k k') (ho : k''.options = k'.options)
    (hw : k''.workspace = k'.workspace) : Framed o R k k'' := by
  intro hk
  rw [ho, hw]
  exact h hk

theorem framed_storing {α : Type} {work : Storing α}
    (h : k.options = o → R k.workspace (left work k.workspace)) :
    Framed o R k (left (storing work) k) := by
  intro ho
  rw [left_storing]
  exact ⟨ho, h ho⟩

theorem framed_attempt {α : Type} {work : Keeping α} (h : Framed o R k (left work k)) :
    Framed o R k (attempt endpoint work k) := by
  rw [attempt]
  cases hw : work k with
  | ok a k' => rwa [left_of_ok hw] at h
  | error f k' =>
      rw [left_of_error hw] at h
      exact h.congr rfl rfl

variable (hR : Workspace.Frame o.folder ps R)

include hR

theorem Framed.refl (k : Keeper) : Framed o R k k := fun ho => ⟨ho, hR.refl k.workspace⟩

theorem Framed.trans (h : Framed o R k k') (h' : Framed o R k' k'') : Framed o R k k'' := by
  intro ho
  obtain ⟨ho', hw⟩ := h ho
  obtain ⟨ho'', hw'⟩ := h' ho'
  exact ⟨ho'', hR.trans hw hw'⟩

theorem ReadOnly.framed {α : Type} {work : Keeping α} (h : ReadOnly work) :
    Framed o R k (DraftKeeper.left work k) := by
  rw [h.left]
  exact .refl hR k

section Parts

variable (hp : ps p) (hn : Path.normalize p = .ok p)

include hp hn

theorem framed_ensureFolder : Framed o R k (left (ensureFolder ((Path.project? p).getD "/")) k) := by
  have hwork (project : String) : left (ensureFolder project) k =
      left (storing (DraftFolder.ensure k.options.folder project)) k := by
    rw [left, ensureFolder_eq, left]
  rw [hwork]
  refine framed_storing fun ho => ?_
  rw [ho]
  exact hR.ensure k.workspace hp hn

variable {folder : DraftFolder}
  (hfolder : DraftFolder.path? k.options.folder ((Path.project? p).getD "/") = some folder.path)

include hfolder

theorem framed_writeFile (content : Bytes) :
    Framed o R k (left (storing (folder.write (Path.flatten p) content)) k) := by
  refine framed_storing fun ho => ?_
  rw [ho] at hfolder
  exact hR.write content k.workspace hp hn hfolder

theorem framed_deleteFile : Framed o R k (left (storing (folder.delete (Path.flatten p))) k) := by
  refine framed_storing fun ho => ?_
  rw [ho] at hfolder
  exact hR.delete k.workspace hp hn hfolder

end Parts

theorem framed_write (hp : ps p) (hd : draft.IsFor p) : Framed o R k (left (write draft) k) := by
  rw [write, hd.project, hd.flat]
  refine left_bind (.trans hR) (framed_ensureFolder hR hp hd.normal) fun folder k₁ he => ?_
  obtain ⟨-, hpath⟩ := path?_of_ensureFolder he
  refine left_bind (.trans hR) (framed_writeFile hR hp hd.normal hpath draft.content) ?_
  exact fun u k₂ _ => .refl hR k₂

theorem framed_save (hp : ps p) (hd : draft.IsFor p) : Framed o R k (left (save p draft) k) := by
  rw [save]
  refine left_bind (.trans hR) (framed_write hR hp hd) fun location k₁ _ => ?_
  exact (Framed.refl hR k₁).congr rfl rfl

theorem framed_discard (hp : ps p) (hd : draft.IsFor p) :
    Framed o R k (left (discard draft.project draft.flat) k) := by
  rw [discard, hd.project, hd.flat]
  refine left_bind (.trans hR) (ReadOnly.framed hR (.findFolder? _)) fun found k₁ hf => ?_
  obtain ⟨rfl, hfind⟩ := findFolder?_eq_ok hf
  cases found with
  | none => exact .refl hR k₁
  | some folder =>
      obtain ⟨-, hpath, -⟩ := (DraftFolder.find?_eq_ok hfind).2 folder rfl
      exact framed_deleteFile hR hp hd.normal hpath

theorem framed_create (hp : ps p) (hn : Path.normalize p = .ok p) :
    Framed o R k (left (create p) k) := by
  rw [create]
  refine left_bind (.trans hR) (ReadOnly.framed hR (.ask _)) fun item k₁ hi => ?_
  obtain ⟨hitem, rfl⟩ := ask_eq_ok.1 hi
  cases item with
  | none => exact .refl hR _
  | some item =>
      obtain ⟨_, _, hr, hproject, -⟩ := Workspace.file?_eq_some hitem
      rw [Except.ok.inj (hn.symm.trans (Workspace.resolve_eq_ok_iff.1 hr).1).symm] at hproject
      refine left_bind (.trans hR) (ReadOnly.framed hR (.ask _)) fun content k₂ _ => ?_
      simp only [Draft.new, hproject]
      refine left_bind (.trans hR) (framed_ensureFolder hR hp hn) fun folder k₃ he => ?_
      obtain ⟨-, hpath⟩ := path?_of_ensureFolder he
      refine left_bind (.trans hR) (ReadOnly.framed hR (.contains _ _)) fun found k₄ hf => ?_
      obtain ⟨w, hcont, rfl⟩ := storing_eq_ok.1 hf
      cases found with
      | true => exact (Framed.refl hR _).congr rfl rfl
      | false =>
          refine left_bind (.trans hR) (framed_writeFile (k := k₃.withWorkspace w) hR hp hn hpath content) ?_
          intro u k₅ _
          exact (Framed.refl hR k₅).congr rfl rfl

theorem framed_opened (hp : ps p) (hn : Path.normalize p = .ok p) :
    Framed o R k (left (opened p) k) := by
  cases hd : k.drafts.get? p with
  | some draft =>
      rw [left_of_ok (opened_of_some hd)]
      exact .refl hR k
  | none =>
      rw [left, opened_of_none hd]
      exact framed_create hR hp hn

theorem framed_applied (endpoint : String) (e : Edit) (p : String) (draft : Draft) (k : Keeper) :
    Framed o R k (left (applied endpoint e p draft) k) := by
  cases h : applied endpoint e p draft k with
  | error f k' =>
      rw [left_of_error h, applied_eq_error h]
      exact .refl hR k
  | ok changed k' =>
      rw [left_of_ok h]
      rcases applied_eq_ok h with ⟨-, -, rfl⟩ | ⟨draft', -, -, rfl⟩
      · exact .refl hR _
      · exact (Framed.refl hR k).congr rfl rfl

theorem framed_edit (e : Edit) (hps : ∀ p, Path.normalize e.location = .ok p → ps p) :
    Framed o R k (left (edit endpoint e) k) := by
  rw [edit_eq]
  refine left_bind (.trans hR) (ReadOnly.framed hR (.normalized _)) fun p k₁ h => ?_
  obtain ⟨hp, rfl⟩ := normalized_eq_ok.1 h
  refine left_bind (.trans hR) (framed_opened hR (hps p hp) (Path.normalize_of_normalize hp)) ?_
  exact fun draft k₂ _ => framed_applied hR endpoint e p draft k₂

theorem framed_start (hps : ∀ p, Path.normalize path = .ok p → ps p) :
    Framed o R k (left (start path) k) := by
  rw [start_eq]
  refine left_bind (.trans hR) (ReadOnly.framed hR (.normalized _)) fun p k₁ h => ?_
  obtain ⟨hp, rfl⟩ := normalized_eq_ok.1 h
  refine left_bind (.trans hR) (framed_opened hR (hps p hp) (Path.normalize_of_normalize hp)) ?_
  exact fun draft k₂ _ => .refl hR k₂

theorem framed_settled (hp : ps p) (hd : draft.IsFor p) :
    Framed o R k (left (settled p draft) k) := by
  rw [settled]
  refine left_bind (.trans hR) (ReadOnly.framed hR .get) fun k₀ k₁ h => ?_
  obtain ⟨rfl, rfl⟩ : k = k₀ ∧ k = k₁ := by simpa [get_eq] using h
  split
  · exact left_bind (.trans hR) (framed_write hR hp hd) fun location k₁ _ => .refl hR k₁
  · exact framed_discard hR hp hd

theorem framed_stop (hk : k.Filed) (hps : ∀ p, Path.normalize path = .ok p → ps p) :
    Framed o R k (left (stop path) k) := by
  cases hp : Path.normalize path with
  | error cause =>
      rw [stop]
      refine left_bind (.trans hR) (ReadOnly.framed hR (.normalized _)) fun p k₁ h => ?_
      obtain ⟨hp', -⟩ := normalized_eq_ok.1 h
      cases hp.symm.trans hp'
  | ok p =>
      cases hd : k.drafts.get? p with
      | none =>
          rw [left_of_ok (stop_of_none hp hd)]
          exact .refl hR k
      | some draft =>
          rw [left, stop_of_some hp hd]
          refine left_bind (.trans hR) (framed_settled hR (hps p hp) (hk p draft hd)) ?_
          exact fun u k₁ _ => (Framed.refl hR k₁).congr rfl rfl

theorem framed_move {old new : String} (hk : k.Filed)
    (hps : ∀ p, Path.Named [old, new] p → ps p) : Framed o R k (left (move old new) k) := by
  rcases move_cases old new k with ⟨f, h, -⟩ | ⟨_, _, -, -, -, h⟩ |
    ⟨source, target, draft, hs, ht, -, hd, -, h⟩
  · rw [left_of_error h]
    exact .refl hR k
  · rw [left_of_ok h]
    exact .refl hR k
  · have hsource : ps source := hps source ⟨old, by simp, hs⟩
    have htarget : ps target := hps target ⟨new, by simp, ht⟩
    have hrekeyed : Framed o R k (k.rekeyed source target draft) := (Framed.refl hR k).congr rfl rfl
    refine hrekeyed.trans hR ?_
    rw [left, h]
    refine left_bind (.trans hR) (framed_discard hR hsource (hk source draft hd)) fun u k₁ _ => ?_
    refine left_bind (.trans hR) (framed_save hR htarget ?_) fun location k₂ _ => .refl hR k₂
    exact .movedTo draft (Path.normalize_of_normalize ht)

theorem framed_persistentLocation (hk : k.Filed)
    (hps : ∀ p, Path.normalize path = .ok p → ps p) :
    Framed o R k (left (persistentLocation? path) k) := by
  rcases persistentLocation?_cases path k with ⟨location, h⟩ | ⟨f, h⟩ | ⟨p, draft, hp, hd, h⟩
  · rw [left_of_ok h]
    exact .refl hR k
  · rw [left_of_error h]
    exact .refl hR k
  · rw [left, h]
    refine left_bind (.trans hR) (framed_save hR (hps p hp) (hk p draft hd)) ?_
    exact fun location k₁ _ => .refl hR k₁

theorem framed_sweepOne (s : SweepReport × Keeper) (hk : s.2.Filed)
    (hps : ∀ q d, s.2.drafts.get? q = some d → d.dirty = true → ps q) (p : String) :
    Framed o R s.2 (sweepOne s p).2 ∧ (sweepOne s p).2.Filed ∧
      ∀ q d, (sweepOne s p).2.drafts.get? q = some d → d.dirty = true → ps q := by
  rcases sweepOne_cases s p with ⟨h, -⟩ | ⟨draft, hd, hdirty, ⟨location, k, hs, h⟩ | ⟨f, k, hs, h⟩⟩
  · rw [h]
    exact ⟨.refl hR s.2, hk, hps⟩
  · have hc : Framed o R s.2 k := by
      have hleft := framed_save (k := s.2) hR (hps p draft hd hdirty) (hk p draft hd)
      rwa [left_of_ok hs] at hleft
    obtain ⟨k₁, hw, rfl⟩ := save_eq_ok hs
    obtain ⟨w, l, -, rfl, -⟩ := write_eq_ok hw
    rw [h]
    refine ⟨hc, hk.put (hk p draft hd).clean rfl, fun q d hq hqd => ?_⟩
    change (s.2.drafts.put p draft.clean).get? q = some d at hq
    rw [Drafts.get?_put] at hq
    split at hq
    · cases hq
      cases hqd
    · exact hps q d hq hqd
  · have hc : Framed o R s.2 k := by
      have hleft := framed_save (k := s.2) hR (hps p draft hd hdirty) (hk p draft hd)
      rwa [left_of_error hs] at hleft
    obtain ⟨w, -, rfl, -⟩ := write_eq_error (save_eq_error hs)
    rw [h]
    exact ⟨hc, hk, hps⟩

theorem framed_foldl_sweepOne (paths : List String) (s : SweepReport × Keeper) (hk : s.2.Filed)
    (hps : ∀ q d, s.2.drafts.get? q = some d → d.dirty = true → ps q) :
    Framed o R s.2 (paths.foldl sweepOne s).2 := by
  induction paths generalizing s with
  | nil => exact .refl hR s.2
  | cons p paths ih =>
      obtain ⟨hc, hk', hps'⟩ := framed_sweepOne hR s hk hps p
      exact hc.trans hR (ih (sweepOne s p) hk' hps')

end

end Keeper

namespace Operation

/-- The paths whose draft files an operation may write or remove: those it names, and for a sweep those
with a dirty draft. -/
def Concerns (o : Operation) (k : Keeper) (q : String) : Prop :=
  match o with
  | .sweep => ∃ d, k.drafts.get? q = some d ∧ d.dirty = true
  | o => Path.Named o.paths q

theorem framed (op : Operation) {o : Options} {R : Workspace → Workspace → Prop} {k : Keeper}
    (hk : k.Filed) (hR : Workspace.Frame o.folder (op.Concerns k) R) :
    Keeper.Framed o R k (op.perform k) := by
  have hone {path : String} {p : String} (hp : Path.normalize path = .ok p) : Path.Named [path] p :=
    ⟨path, List.mem_singleton_self path, hp⟩
  cases op with
  | track endpoint signal =>
      refine Keeper.framed_attempt ?_
      cases signal with
      | start path => exact Keeper.framed_start hR fun p hp => hone hp
      | stop path => exact Keeper.framed_stop hR hk fun p hp => hone hp
      | suspend path | resume path => exact .refl hR k
      | move old new => exact Keeper.framed_move hR hk fun p hp => hp
  | edit endpoint e =>
      rw [perform, Keeper.after_eq_left]
      exact Keeper.framed_edit hR e fun p hp => hone hp
  | persistentLocation path =>
      rw [perform, Keeper.after_eq_left]
      exact Keeper.framed_persistentLocation hR hk fun p hp => hone hp
  | sweep => exact Keeper.framed_foldl_sweepOne hR k.tracked (⟨0, 0⟩, k) hk fun q d hq hd => ⟨d, hq, hd⟩
  | content path =>
      rw [perform, Keeper.after_eq_left]
      exact Keeper.ReadOnly.framed hR (.content path)
  | recoverable path =>
      rw [perform, Keeper.after_eq_left]
      exact Keeper.ReadOnly.framed hR (.recoverable? path)

end Operation

end DraftKeeper
