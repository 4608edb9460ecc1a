import DraftKeeper.Proofs.ParallelRuns

namespace DraftKeeper

namespace Options

def FilePlaces (o : Options) (ps : String → Prop) (x : Place) : Prop := ∃ p, ps p ∧ x = o.filePlace p

variable {o : Options} {ps : String → Prop} {p q : String}

theorem length_folderPlace (hp : Path.normalize p = .ok p) (hq : Path.normalize q = .ok q) :
    (o.folderPlace p).length = (o.folderPlace q).length := by
  obtain ⟨c, hc⟩ := Path.project_components hp
  obtain ⟨b, hb⟩ := Path.project_components hq
  rw [folderPlace, folderPlace, Path.basePlace, Path.basePlace, hc, hb, List.length_append,
    List.length_append, List.length_singleton, List.length_singleton]

theorem avoids_folderPlace (hps : ∀ q, ps q → Path.normalize q = .ok q) (hp : Path.normalize p = .ok p) :
    Place.Avoids (o.FilePlaces ps) (o.folderPlace p) := by
  rintro x hx ⟨q, hq, rfl⟩
  have hlength := hx.length_le
  rw [filePlace, List.length_append, length_folderPlace (hps q hq) hp] at hlength
  exact absurd hlength (Nat.not_succ_le_self _)

theorem avoids_filePlace (hps : ∀ q, ps q → Path.normalize q = .ok q) (hp : Path.normalize p = .ok p)
    (hne : ∀ q, ps q → o.filePlace q ≠ o.filePlace p) :
    Place.Avoids (o.FilePlaces ps) (o.filePlace p) := by
  rintro x hx ⟨q, hq, rfl⟩
  refine hne q hq (hx.eq_of_length ?_)
  rw [filePlace, filePlace, List.length_append, List.length_append, length_folderPlace (hps q hq) hp]
  rfl

theorem avoids_components (hclear : ∀ q, ps q → ¬ o.folderPlace q <+: Path.components p) :
    Place.Avoids (o.FilePlaces ps) (Path.components p) := by
  rintro x hx ⟨q, hq, rfl⟩
  exact hclear q hq ((List.prefix_append ..).trans hx)

theorem not_onWay_filePlace (hp : Path.normalize p = .ok p) (hq : Path.normalize q = .ok q) :
    ¬ o.OnWay p (o.filePlace q) := by
  rintro ⟨-, hle, -⟩
  have hlength := hle.length_le
  rw [filePlace, List.length_append, length_folderPlace hq hp] at hlength
  exact absurd hlength (Nat.not_succ_le_self _)

end Options

theorem Keeper.ConfinedTo.get?_filePlace {k k' : Keeper} {ps : String → Prop} {p : String}
    (h : k.ConfinedTo ps k') (hps : ∀ q, ps q → Path.normalize q = .ok q) (hp : Path.normalize p = .ok p)
    (hne : ∀ q, ps q → k.options.filePlace q ≠ k.options.filePlace p) :
    k'.workspace.disk.get? (k.options.filePlace p) = k.workspace.disk.get? (k.options.filePlace p) := by
  refine h.2.2.get? ?_ ?_
  · rintro ⟨q, hq, heq⟩
    exact hne q hq heq.symm
  · rintro ⟨q, hq, hway⟩
    exact Options.not_onWay_filePlace (hps q hq) hp hway

namespace Workspace

/-- The draft folder of a path can be made if the base of its project is there. -/
def Opens (o : Options) (p : String) (w : Workspace) : Prop :=
  w.disk.isFolder (Path.basePlace p) = true →
    ∃ folder v, DraftFolder.ensure o.folder ((Path.project? p).getD "/") w = .ok folder v

instance (o : Options) (p : String) (w : Workspace) : Decidable (Opens o p w) :=
  match h : DraftFolder.ensure o.folder ((Path.project? p).getD "/") w with
  | .ok folder v => isTrue fun _ => ⟨folder, v, h⟩
  | .error e v => decidable_of_iff (w.disk.isFolder (Path.basePlace p) = false) (by simp [Opens, h])

/-- Off some places nothing has changed, or the draft folder of a path has been asked for. -/
def Settles (o : Options) (places : Place → Prop) : Option String → Workspace → Workspace → Prop
  | none, w, w' => w.AgreeOff places w'
  | some q, w, w' => ∃ folder v,
    DraftFolder.ensure o.folder ((Path.project? q).getD "/") w = .ok folder v ∧ v.AgreeOff places w'

variable {o : Options} {places : Place → Prop} {p : String} {w z : Workspace} {α : Type}

theorem settles_inFolder {work : DraftFolder → Storing α} (hz : w.AgreeOff places z)
    (hopen : Opens o p w) (havoids : Place.Avoids places (o.folderPlace p))
    (hplace : places (o.filePlace p)) (hwork : ∀ folder : DraftFolder,
      DraftFolder.path? o.folder ((Path.project? p).getD "/") = some folder.path →
        o.LocalWork p (· = o.filePlace p) (work folder)) :
    ∃ q?, (∀ q ∈ q?, q = p) ∧ Settles o places q? w
      (left (DraftFolder.ensure o.folder ((Path.project? p).getD "/") >>= work) z) := by
  have hrespects := DraftFolder.respects_ensure havoids w z hz
  cases hbase : w.disk.isFolder (Path.basePlace p) with
  | true =>
      obtain ⟨folder, v, hens⟩ := hopen hbase
      obtain ⟨v', hens', hv⟩ := hrespects.of_ok hens
      obtain ⟨-, -, hpath, -⟩ := DraftFolder.ensure_eq_ok hens'
      refine ⟨some p, by simp, folder, v, hens, hv.trans ?_⟩
      rw [left, bind_of_ok _ hens']
      refine ((hwork folder hpath).stays v').mono ?_
      rintro x rfl
      exact hplace
  | false =>
      obtain ⟨e, hens⟩ := DraftFolder.ensure_of_no_base o.folder hbase
      obtain ⟨z', hens', hz'⟩ := hrespects.of_error hens
      refine ⟨none, by simp, ?_⟩
      rw [left_of_error (bind_eq_error.2 (.inl hens'))]
      exact hz'

end Workspace

namespace Keeper

def Settles (ps : String → Prop) (k k' : Keeper) : Prop :=
  ∃ q?, (∀ q ∈ q?, ps q) ∧
    Workspace.Settles k.options (k.options.FilePlaces ps) q? k.workspace k'.workspace

variable {ps : String → Prop} {k k' : Keeper} {p path endpoint : String} {draft : Draft} {e : Edit}

theorem Settles.of_eq (h : k'.workspace = k.workspace) : Settles ps k k' := by
  refine ⟨none, nofun, ?_⟩
  rw [h]
  exact .refl _

theorem Settles.of_agreeOff (h : k.workspace.AgreeOff (k.options.FilePlaces ps) k'.workspace) :
    Settles ps k k' := ⟨none, nofun, h⟩

namespace Settles

variable {α β : Type} {work : Keeping α} {next : α → Keeping β} {z : Keeper}

theorem bind_readOnly (hw : ReadOnly work) (hn : ∀ a, work k = .ok a k → Settles ps k (left (next a) k)) :
    Settles ps k (left (work >>= next) k) := by
  rcases hw k with ⟨a, ha⟩ | ⟨f, hf⟩
  · rw [left, bind_of_ok _ ha]
    exact hn a ha
  · rw [left_of_error (bind_eq_error.2 (.inl hf))]
    exact .of_eq rfl

theorem bind_drafts (h : Settles ps k (left work z))
    (hn : ∀ a k', (left (next a) k').workspace = k'.workspace) :
    Settles ps k (left (work >>= next) z) := by
  cases hw : work z with
  | ok a k' =>
      rw [left_of_ok hw] at h
      obtain ⟨q?, hq, hs⟩ := h
      rw [left, bind_of_ok _ hw]
      refine ⟨q?, hq, ?_⟩
      have hsame := hn a k'
      rw [left] at hsame
      rwa [hsame]
  | error f k' =>
      rw [left_of_error hw] at h
      rwa [left_of_error (bind_eq_error.2 (.inl hw))]

end Settles

theorem left_inFolder {α : Type} (project : String) (work : DraftFolder → Storing α) (k : Keeper) :
    left (inFolder project work) k =
      k.withWorkspace (left (DraftFolder.ensure k.options.folder project >>= work) k.workspace) := by
  rw [← left_storing, left, inFolder, left]

theorem left_discard (project flat : String) (k : Keeper) : left (discard project flat) k =
    k.withWorkspace (left (DraftFolder.drop k.options.folder project flat) k.workspace) := by
  rw [← left_storing, left, discard_eq, left]

section Parts

variable (hps : ∀ q, ps q → Path.normalize q = .ok q) (hp : ps p)

include hps hp

theorem settles_inFolder {α : Type} {work : DraftFolder → Storing α} {z : Keeper}
    (hz : k.workspace.AgreeOff (k.options.FilePlaces ps) z.workspace) (ho : z.options = k.options)
    (hopen : k.workspace.Opens k.options p) (hwork : ∀ folder : DraftFolder,
      DraftFolder.path? k.options.folder ((Path.project? p).getD "/") = some folder.path →
        k.options.LocalWork p (· = k.options.filePlace p) (work folder)) :
    Settles ps k (left (inFolder ((Path.project? p).getD "/") work) z) := by
  obtain ⟨q?, hq, hsettles⟩ := Workspace.settles_inFolder hz hopen
    (Options.avoids_folderPlace hps (hps p hp)) ⟨p, hp, rfl⟩ hwork
  refine ⟨q?, fun q hmem => ?_, ?_⟩
  · rw [hq q hmem]
    exact hp
  · rw [left_inFolder, ho]
    exact hsettles

theorem settles_write {z : Keeper} (hz : k.workspace.AgreeOff (k.options.FilePlaces ps) z.workspace)
    (ho : z.options = k.options) (hopen : k.workspace.Opens k.options p) (hd : draft.IsFor p) :
    Settles ps k (left (write draft) z) := by
  rw [write_eq, hd.project, hd.flat]
  refine .bind_drafts (settles_inFolder hps hp hz ho hopen fun folder hfolder => ?_) fun _ _ => rfl
  exact .bind (DraftFolder.localWork_write hd.normal hfolder _) fun _ _ _ _ => .pure folder

theorem settles_create (hopen : k.workspace.Opens k.options p) : Settles ps k (left (create p) k) := by
  have hn := hps p hp
  rw [create_eq]
  refine .bind_readOnly (.ask _) fun item hi => ?_
  cases item with
  | none => exact .of_eq rfl
  | some item =>
      obtain ⟨_, _, hr, hproject, -⟩ := Workspace.file?_eq_some (ask_eq_ok.1 hi).1
      rw [Except.ok.inj (hn.symm.trans (Workspace.resolve_eq_ok_iff.1 hr).1).symm] at hproject
      refine .bind_readOnly (.ask _) fun content _ => ?_
      rw [hproject]
      refine .bind_drafts (settles_inFolder hps hp (.refl _) rfl hopen fun folder hfolder => ?_) fun _ _ => rfl
      exact DraftFolder.localWork_writeNew hn hfolder content

theorem settles_opened (hopen : k.workspace.Opens k.options p) : Settles ps k (left (opened p) k) := by
  cases hd : k.drafts.get? p with
  | some draft =>
      rw [left_of_ok (opened_of_some hd)]
      exact .of_eq rfl
  | none =>
      rw [left, opened_of_none hd]
      exact settles_create hps hp hopen

omit hps in
theorem agreeOff_discard (k : Keeper) (hd : draft.IsFor p) : k.workspace.AgreeOff (k.options.FilePlaces ps)
    (left (discard draft.project draft.flat) k).workspace := by
  rw [left_discard, hd.project, hd.flat]
  refine ((DraftFolder.localWork_drop hd.normal).stays k.workspace).mono ?_
  rintro x rfl
  exact ⟨p, hp, rfl⟩

theorem settles_settled (hopen : k.workspace.Opens k.options p) (hd : draft.IsFor p) :
    Settles ps k (left (settled p draft) k) := by
  rw [settled]
  refine .bind_readOnly .get fun k₀ h => ?_
  split
  · exact .bind_drafts (settles_write hps hp (.refl _) rfl hopen hd) fun _ _ => rfl
  · exact .of_agreeOff (agreeOff_discard hp k hd)

end Parts

section Events

variable (hps : ∀ q, ps q → Path.normalize q = .ok q) (hopen : ∀ q, ps q → k.workspace.Opens k.options q)

include hps hopen

theorem settles_start (hnamed : ∀ p, Path.normalize path = .ok p → ps p) :
    Settles ps k (left (start path) k) := by
  rw [start_eq]
  refine .bind_readOnly (.normalized _) fun p hn => ?_
  have hp := hnamed p (normalized_eq_ok.1 hn).1
  exact .bind_drafts (settles_opened hps hp (hopen p hp)) fun _ _ => rfl

theorem settles_edit (hnamed : ∀ p, Path.normalize e.location = .ok p → ps p) :
    Settles ps k (left (edit endpoint e) k) := by
  rw [edit_eq]
  refine .bind_readOnly (.normalized _) fun p hn => ?_
  have hp := hnamed p (normalized_eq_ok.1 hn).1
  refine .bind_drafts (settles_opened hps hp (hopen p hp)) fun draft k' => ?_
  cases h : applied endpoint e p draft k' with
  | error f k₁ => rw [left_of_error h, applied_eq_error h]
  | ok changed k₁ =>
      rw [left_of_ok h]
      rcases applied_eq_ok h with ⟨-, -, rfl⟩ | ⟨draft', -, -, rfl⟩
      · rfl
      · rfl

theorem settles_stop (hk : k.Filed) (hnamed : ∀ p, Path.normalize path = .ok p → ps p) :
    Settles ps k (left (stop path) k) := by
  cases hn : Path.normalize path with
  | error cause =>
      rw [stop]
      refine .bind_readOnly (.normalized _) fun p h => ?_
      cases hn.symm.trans (normalized_eq_ok.1 h).1
  | ok p =>
      have hp := hnamed p hn
      cases hd : k.drafts.get? p with
      | none =>
          rw [left_of_ok (stop_of_none hn hd)]
          exact .of_eq rfl
      | some draft =>
          rw [left, stop_of_some hn hd]
          exact .bind_drafts (settles_settled hps hp (hopen p hp) (hk p draft hd)) fun _ _ => rfl

theorem settles_move {old new : String} (hk : k.Filed) (hnamed : ∀ p, Path.Named [old, new] p → ps p) :
    Settles ps k (left (move old new) k) := by
  rcases move_cases old new k with ⟨f, h, -⟩ | ⟨_, _, -, -, -, h⟩ |
    ⟨source, target, draft, hs, ht, -, hd, -, h⟩
  · rw [left_of_error h]
    exact .of_eq rfl
  · rw [left_of_ok h]
    exact .of_eq rfl
  · have hsource := hnamed source ⟨old, by simp, hs⟩
    have htarget := hnamed target ⟨new, by simp, ht⟩
    have hdiscard := agreeOff_discard hsource (k.rekeyed source target draft) (hk source draft hd)
    rw [left, h, relocated]
    cases hw : discard draft.project draft.flat (k.rekeyed source target draft) with
    | error f z =>
        rw [left_of_error hw] at hdiscard
        rw [bind_eq_error.2 (.inl hw)]
        exact .of_agreeOff hdiscard
    | ok u z =>
        rw [left_of_ok hw] at hdiscard
        rw [bind_of_ok _ hw]
        obtain ⟨w, rfl, -⟩ := discard_changes hw
        have hfor : (draft.movedTo target).IsFor target := .movedTo draft (Path.normalize_of_normalize ht)
        have hwrite := settles_write hps htarget hdiscard rfl (hopen target htarget) hfor
        rw [save]
        exact .bind_drafts (.bind_drafts hwrite fun _ _ => rfl) fun _ _ => rfl

end Events

theorem settles_attempt {α : Type} {work : Keeping α} (h : Settles ps k (left work k)) :
    Settles ps k (attempt endpoint work k) := by
  rw [attempt]
  cases hw : work k with
  | ok a k' => rwa [left_of_ok hw] at h
  | error f k' => rwa [left_of_error hw] at h

end Keeper

theorem Event.settles (e : Event) {k : Keeper} (hk : k.Filed)
    (hopen : ∀ p, Path.Named e.paths p → k.workspace.Opens k.options p) :
    k.Settles (Path.Named e.paths) (e.handle k) := by
  have hnormal : ∀ p, Path.Named e.paths p → Path.normalize p = .ok p := by
    rintro p ⟨a, -, ha⟩
    exact Path.normalize_of_normalize ha
  have hone {path p : String} (hp : Path.normalize path = .ok p) : Path.Named [path] p :=
    ⟨path, List.mem_singleton_self path, hp⟩
  cases e with
  | edited endpoint edit => exact Keeper.settles_attempt (Keeper.settles_edit hnormal hopen fun p hp => hone hp)
  | tracking endpoint signal =>
      refine Keeper.settles_attempt ?_
      cases signal with
      | start path => exact Keeper.settles_start hnormal hopen fun p hp => hone hp
      | stop path => exact Keeper.settles_stop hnormal hopen hk fun p hp => hone hp
      | move old new => exact Keeper.settles_move hnormal hopen hk fun p hp => hp
      | suspend path | resume path => exact .of_eq rfl

end DraftKeeper
