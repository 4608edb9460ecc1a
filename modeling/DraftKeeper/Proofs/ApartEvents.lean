import DraftKeeper.Proofs.SettledFolders

namespace DraftKeeper

namespace Options

/-- The path lies neither on nor above nor inside the draft folder of its project. -/
def Clear (o : Options) (p : String) : Prop :=
  ¬ o.folderPlace p <+: Path.components p ∧ ¬ Path.components p <+: o.folderPlace p

instance (o : Options) (p : String) : Decidable (o.Clear p) :=
  inferInstanceAs (Decidable (¬ o.folderPlace p <+: Path.components p ∧ ¬ Path.components p <+: o.folderPlace p))

variable {o : Options} {p q : String}

theorem folderPlace_congr (h : Path.basePlace p = Path.basePlace q) : o.folderPlace p = o.folderPlace q := by
  rw [folderPlace, folderPlace, h]

theorem basePlace_prefix (hp : Path.normalize p = .ok p) : Path.basePlace p <+: Path.components p := by
  obtain ⟨c, cs, hcs, hproject, -, hone⟩ := Path.project?_eq hp
  rw [Path.basePlace, hproject, Option.getD_some, hone, hcs]
  exact List.prefix_append [c] cs

theorem basePlace_eq_of_prefix (hp : Path.normalize p = .ok p) (hq : Path.normalize q = .ok q)
    (h : Path.basePlace q <+: Path.components p) : Path.basePlace p = Path.basePlace q := by
  obtain ⟨c, hc⟩ : ∃ c, Path.basePlace p = [c] := Path.project_components hp
  obtain ⟨b, hb⟩ : ∃ b, Path.basePlace q = [b] := Path.project_components hq
  obtain ⟨cs, hcs⟩ := basePlace_prefix hp
  rw [← hcs, hc, hb] at h
  rw [hc, hb, (List.cons_prefix_cons.1 h).1]

theorem Clear.not_inside (h : o.Clear p) (hp : Path.normalize p = .ok p) (hq : Path.normalize q = .ok q) :
    ¬ o.folderPlace q <+: Path.components p := by
  intro hle
  have hbase := basePlace_eq_of_prefix hp hq ((List.prefix_append ..).trans hle)
  rw [← folderPlace_congr hbase] at hle
  exact h.1 hle

theorem Clear.not_onWay (h : o.Clear p) (hp : Path.normalize p = .ok p) (hq : Path.normalize q = .ok q) :
    ¬ o.OnWay q (Path.components p) := by
  rintro ⟨hbase, hle, -⟩
  have hsame := basePlace_eq_of_prefix hp hq hbase
  change Path.components p <+: o.folderPlace q at hle
  rw [← folderPlace_congr hsame] at hle
  exact h.2 hle

end Options

namespace Workspace

/-- No name of the path that stands right below a missing folder, on the way to the draft folder of a project
that exists, is too long. -/
def NamesFit (o : Options) (p : String) (w : Workspace) : Prop :=
  w.disk.isFolder (Path.basePlace p) = true → ∀ x name, x ++ [name] <+: Path.components p →
    x <+: o.folderPlace p → w.disk.isFolder x = false → Disk.isTooLong name = false

/-- If the draft folder is missing in a project that exists, there will be a place for the draft file. -/
def FileFits (o : Options) (p : String) (w : Workspace) : Prop :=
  w.disk.isFolder (Path.basePlace p) = true → w.disk.isFolder (o.folderPlace p) = false →
    (∃ l, o.draftPlace? p = some l) ∧ Disk.isTooLong (Path.flatten p) = false

theorem NamesFit.of_short {o : Options} {p : String} {w : Workspace}
    (h : ∀ name ∈ Path.components p, Disk.isTooLong name = false) : w.NamesFit o p := by
  intro _ x name hx _ _
  exact h name (hx.subset (by simp))

end Workspace

namespace Keeper

variable {k k' : Keeper} {p q : String} {w : Workspace} {places : Place → Prop}

theorem pathAlike_agreeOff (hp : Path.normalize p = .ok p)
    (hplace : Place.Avoids places (k.options.filePlace p))
    (hpath : Place.Avoids places (Path.components p)) (h : k.workspace.AgreeOff places w) :
    PathAlike (Workspace.AgreeOff places) k p w where
  work := ⟨hp, fun _ _ h => h.1, fun _ hwork =>
    (DraftFolder.localWork_inFolder hp hwork).respects places hplace⟩
  see := ⟨h.file? hpath, h.read hpath⟩
  drop _ _ := (DraftFolder.localWork_drop hp).respects places hplace _ _ h

theorem seenAlike_of_locate (hp : Path.normalize p = .ok p) {w w' : Workspace}
    (h : w'.disk.locate (Path.components p) = w.disk.locate (Path.components p)) : SeenAlike p w w' := by
  have hr := Workspace.resolve_of_normalize hp
  constructor
  · rw [Workspace.file?_eq hr, Workspace.file?_eq hr, h]
  · rw [Workspace.read_eq hr, Workspace.read_eq hr, Disk.read, Disk.read, h]

theorem pathAlike_prepared (hp : Path.normalize p = .ok p) (hq : Path.normalize q = .ok q)
    (h : Workspace.Prepared k.options q k.workspace w) (hclear : k.options.Clear p)
    (hnames : k.workspace.NamesFit k.options p)
    (hfile : ∀ d, k.drafts.get? p = some d → k.workspace.FileFits k.options p) :
    PathAlike (Workspace.Prepared k.options q) k p w where
  work := by
    refine ⟨hp, fun w w' h => ?_, fun work hwork => DraftFolder.respects_prepared_inFolder hp hq hwork⟩
    obtain ⟨folder, v, hens, hv⟩ := h.made
    exact hv.1.trans (Workspace.ensure_changes hens hq).1
  see := by
    refine seenAlike_of_locate hp (h.locate hq (hclear.not_onWay hp hq) fun x name hx hle hnone => ?_)
    obtain ⟨folder, v, hens, hv⟩ := h.made
    -- the root is a folder, so both paths are in one project
    cases x with
    | nil =>
        rw [h.tree.root] at hnone
        cases hnone
    | cons c x =>
        have hbase : Path.basePlace p = Path.basePlace q := by
          obtain ⟨b, hb⟩ : ∃ b, Path.basePlace q = [b] := Path.project_components hq
          refine Options.basePlace_eq_of_prefix hp hq ?_
          rw [Options.folderPlace, hb] at hle
          obtain rfl := (List.cons_prefix_cons.1 hle).1
          rw [hb]
          exact (List.prefix_append [c] _).trans ((List.prefix_append ..).trans hx)
        rw [← Options.folderPlace_congr hbase] at hle
        refine hnames ?_ _ name hx hle hnone
        rw [hbase, ← Bool.not_eq_false]
        intro hno
        obtain ⟨e, he⟩ := DraftFolder.ensure_of_no_base k.options.folder hno
        cases he.symm.trans hens
  drop d hd := DraftFolder.drop_prepared h hp hq (hfile d hd)

end Keeper

namespace Event

open Keeper

/-- The paths of two events are in nobody's way: no draft files at one place, none of the paths on, above or
inside a draft folder, and the draft folders can be made. -/
structure Far (k : Keeper) (a b : Event) : Prop where
  places : ∀ p, Path.Named a.paths p → ∀ q, Path.Named b.paths q →
    k.options.filePlace p ≠ k.options.filePlace q
  clear : ∀ p, Path.Named (a.paths ++ b.paths) p → k.options.Clear p
  opens : ∀ p, Path.Named (a.paths ++ b.paths) p → k.workspace.Opens k.options p

/-- Beyond that, a draft folder that is missing must not hide that a name is too long. -/
structure Apart (k : Keeper) (a b : Event) : Prop extends Far k a b where
  names : ∀ p, Path.Named (a.paths ++ b.paths) p → k.workspace.NamesFit k.options p
  files : ∀ p, Path.Named (a.paths ++ b.paths) p → ∀ d, k.drafts.get? p = some d →
    k.workspace.FileFits k.options p

variable {a b e : Event} {k k' : Keeper} {p : String}

theorem named_append : Path.Named (a.paths ++ b.paths) p ↔ Path.Named a.paths p ∨ Path.Named b.paths p := by
  simp only [Path.Named, List.mem_append, or_and_right, exists_or]

theorem normalize_of_named {paths : List String} (h : Path.Named paths p) : Path.normalize p = .ok p := by
  obtain ⟨a, -, ha⟩ := h
  exact Path.normalize_of_normalize ha

theorem Apart.symm (h : Apart k a b) : Apart k b a := by
  have hswap {p : String} (hp : Path.Named (b.paths ++ a.paths) p) : Path.Named (a.paths ++ b.paths) p :=
    named_append.2 (named_append.1 hp).symm
  exact ⟨⟨fun p hp q hq => (h.places q hq p hp).symm, fun p hp => h.clear p (hswap hp),
    fun p hp => h.opens p (hswap hp)⟩, fun p hp => h.names p (hswap hp), fun p hp => h.files p (hswap hp)⟩

theorem handle_after (h : Apart k a b) (hk : k.Filed) (ht : k.workspace.disk.IsTree)
    (ho : k'.options = k.options) (hd : ∀ p, Path.Named b.paths p → k'.drafts.get? p = k.drafts.get? p)
    {q? : Option String} (hq : ∀ q ∈ q?, Path.Named a.paths q)
    (hs : Workspace.Settles k.options (k.options.FilePlaces (Path.Named a.paths)) q? k.workspace
      k'.workspace) : b.result k' = b.result k ∧
      (∀ p, Path.Named b.paths p → (b.handle k').drafts.get? p = (b.handle k).drafts.get? p) ∧
      Workspace.Settles k.options (k.options.FilePlaces (Path.Named a.paths)) q? (b.handle k).workspace
        (b.handle k').workspace := by
  have hb {p : String} (hp : Path.Named b.paths p) : Path.Named (a.paths ++ b.paths) p :=
    named_append.2 (.inr hp)
  -- off the draft files of the other event
  have hoff (k₁ k₂ : Keeper) (ho₁ : k₁.options = k.options) (hk₁ : k₁.Filed)
      (halong : Alongside (Workspace.AgreeOff (k.options.FilePlaces (Path.Named a.paths)))
        (Path.Named b.paths) k₁ k₂) : b.result k₂ = b.result k₁ ∧
          Alongside (Workspace.AgreeOff (k.options.FilePlaces (Path.Named a.paths))) (Path.Named b.paths)
            (b.handle k₁) (b.handle k₂) := by
    refine handle_alike halong hk₁ fun p hp => ⟨hp, ?_⟩
    have hn := normalize_of_named hp
    refine pathAlike_agreeOff hn ?_ ?_ halong.workspace
    · rw [ho₁]
      exact Options.avoids_filePlace (fun q hq => normalize_of_named hq) hn fun q hq => h.places q hq p hp
    · exact Options.avoids_components fun q hq =>
        (h.clear p (hb hp)).not_inside hn (normalize_of_named hq)
  cases q? with
  | none =>
      obtain ⟨hresult, halong⟩ := hoff k k' rfl hk ⟨ho, hs, hd⟩
      exact ⟨hresult, halong.drafts, halong.workspace⟩
  | some q =>
      have hq := hq q rfl
      obtain ⟨folder, v, hens, hv⟩ := hs
      have hprepared : Workspace.Prepared k.options q k.workspace v := ⟨ht, folder, v, hens, .refl v⟩
      have hfirst : Alongside (Workspace.Prepared k.options q) (Path.Named b.paths) k (k.withWorkspace v) :=
        ⟨rfl, hprepared, fun _ _ => rfl⟩
      obtain ⟨hresult, halong⟩ := handle_alike hfirst hk fun p hp => ⟨hp, pathAlike_prepared
        (normalize_of_named hp) (normalize_of_named hq) hprepared (h.clear p (hb hp)) (h.names p (hb hp))
        (h.files p (hb hp))⟩
      obtain ⟨hresult', halong'⟩ := hoff (k.withWorkspace v) k' rfl hk ⟨ho, hv, hd⟩
      obtain ⟨folder', u, hu, huv⟩ := halong.workspace.made
      refine ⟨hresult'.trans hresult, fun p hp => ?_, folder', u, hu, ?_⟩
      · exact (halong'.drafts p hp).trans (halong.drafts p hp)
      · exact huv.agreeOff.trans halong'.workspace

theorem confined_handle (e : Event) (hk : k.Filed) :
    k.ConfinedTo (Path.Named e.paths) (e.handle k) := by
  cases e with
  | tracking endpoint signal => exact (Operation.track endpoint signal).confined hk
  | edited endpoint edit =>
      refine framed_attempt (framed_edit (frame k.options _) edit fun p hp => ?_) rfl
      exact ⟨edit.location, List.mem_singleton_self _, hp⟩

theorem get?_filePlace_handle (hk : k.Filed) (hp : Path.normalize p = .ok p)
    (hne : ∀ q, Path.Named e.paths q → k.options.filePlace q ≠ k.options.filePlace p) :
    (e.handle k).workspace.disk.get? (k.options.filePlace p) =
      k.workspace.disk.get? (k.options.filePlace p) :=
  (e.confined_handle hk).get?_filePlace (fun _ => normalize_of_named) hp hne

theorem after_other (h : Apart k a b) (hk : k.Filed) (ht : k.workspace.disk.IsTree) {q? : Option String}
    (hq : ∀ q ∈ q?, Path.Named a.paths q)
    (hs : Workspace.Settles k.options (k.options.FilePlaces (Path.Named a.paths)) q? k.workspace
      (a.handle k).workspace) : b.result (a.handle k) = b.result k ∧
      (∀ p, Path.Named b.paths p → (b.handle (a.handle k)).drafts.get? p = (b.handle k).drafts.get? p) ∧
      Workspace.Settles k.options (k.options.FilePlaces (Path.Named a.paths)) q? (b.handle k).workspace
        (b.handle (a.handle k)).workspace := by
  refine handle_after h hk ht (a.confined_handle hk).1 (fun p hp => ?_) hq hs
  refine get?_handle (fun hlocks => ?_) k
  exact h.places p (named_of_mem_locks hlocks) p hp rfl

end Event

end DraftKeeper
