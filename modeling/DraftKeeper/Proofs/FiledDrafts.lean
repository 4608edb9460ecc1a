import DraftKeeper.Proofs.Effects

namespace DraftKeeper

/-- The draft is one for a path: the path is normalized, and the draft has its flat name and project. -/
structure Draft.IsFor (d : Draft) (p : String) : Prop where
  normal : Path.normalize p = .ok p
  flat : d.flat = Path.flatten p
  project : d.project = (Path.project? p).getD "/"

def Keeper.Filed (k : Keeper) : Prop := ∀ p d, k.drafts.get? p = some d → d.IsFor p

namespace Draft

variable {d d' : Draft} {p q : String}

theorem apply_eq_ok {e : Delta} {u : TextUnit} {found : Option Draft} (h : d.apply e u = .ok found) :
    ∃ text, e.splice u d.text = .ok text ∧
      found = text.map fun text => d.replace (Text.Utf8.encode text) := by
  rw [apply] at h
  rcases hs : e.splice u d.text with cause | _ | text <;> rw [hs] at h <;> cases h
  · exact ⟨none, rfl, rfl⟩
  · exact ⟨some text, rfl, rfl⟩

theorem apply_eq_some {e : Delta} {u : TextUnit} (h : d.apply e u = .ok (some d')) :
    ∃ text, e.splice u d.text = .ok (some text) ∧ d' = d.replace (Text.Utf8.encode text) := by
  obtain ⟨found, hs, hd⟩ := apply_eq_ok h
  obtain ⟨text, rfl, rfl⟩ := Option.map_eq_some_iff.1 hd.symm
  exact ⟨text, hs, rfl⟩

namespace IsFor

theorem new (hp : Path.normalize p = .ok p) (content : Bytes) :
    (Draft.new (Path.flatten p) ((Path.project? p).getD "/") content).IsFor p :=
  ⟨hp, rfl, rfl⟩

theorem clean (h : d.IsFor p) : d.clean.IsFor p := ⟨h.normal, h.flat, h.project⟩

theorem apply {e : Delta} {u : TextUnit} (h : d.IsFor p) (he : d.apply e u = .ok (some d')) :
    d'.IsFor p := by
  obtain ⟨text, -, rfl⟩ := apply_eq_some he
  exact ⟨h.normal, h.flat, h.project⟩

/-- A path has a project, so nothing of the old path is left in a draft that has moved. -/
theorem movedTo (d : Draft) (hp : Path.normalize p = .ok p) : (d.movedTo p).IsFor p := by
  obtain ⟨c, cs, -, hproject, -⟩ := Path.project?_eq hp
  refine ⟨hp, rfl, ?_⟩
  simp only [Draft.movedTo, Draft.rename, hproject, Option.getD_some]

theorem place (h : d.IsFor p) (o : Options) :
    DraftFolder.place? o.folder d.project d.flat = o.draftPlace? p := by
  rw [Options.draftPlace?, h.flat, h.project]

end IsFor

end Draft

namespace Keeper

variable {k k' : Keeper}

theorem filed_new (o : Options) (w : Workspace) (capacity : Nat) (clock : Time.Instant) :
    (Keeper.new o w capacity clock).Filed := by
  intro p d hp
  cases hp

theorem Filed.put {p : String} {d : Draft} (h : k.Filed) (hd : d.IsFor p)
    (hk : k'.drafts = k.drafts.put p d) : k'.Filed := by
  intro q e hq
  rw [hk, Drafts.get?_put] at hq
  split at hq
  · next heq =>
      subst heq
      cases hq
      exact hd
  · exact h q e hq

theorem Filed.erase {p : String} (h : k.Filed) (hk : k'.drafts = k.drafts.erase p) : k'.Filed := by
  intro q e hq
  rw [hk, Drafts.get?_erase] at hq
  split at hq
  · cases hq
  · exact h q e hq

theorem Filed.of_eq (h : k.Filed) (hk : k'.drafts = k.drafts) : k'.Filed := by
  intro q e hq
  rw [hk] at hq
  exact h q e hq

theorem Filed.rekey {source target : String} {d : Draft} (h : k.Filed) (hd : d.IsFor target)
    (hk : k'.drafts = (k.drafts.erase source).put target d) : k'.Filed := by
  have herase : (k.withDrafts (k.drafts.erase source)).Filed := h.erase rfl
  exact herase.put hd hk

end Keeper

def Action.LeavesTree : Action → Prop
  | .outside disk => disk.IsTree
  | _ => True

namespace Session

variable {paths : List String} {s s' : Session}

theorem Step.filed (h : Step paths s s') (hs : s.keeper.Filed) : s'.keeper.Filed := by
  cases h.2 with
  | idle drafts => exact hs.of_eq drafts
  | opened p l content named free read drafts =>
      obtain ⟨a, -, ha⟩ := named
      exact hs.put (.new (Path.normalize_of_normalize ha) content) drafts
  | edited p draft draft' e tracked change drafts =>
      exact hs.put ((hs p draft tracked).apply change) drafts
  | saved p draft l tracked place drafts => exact hs.put (hs p draft tracked).clean drafts
  | stopped p draft tracked drafts => exact hs.erase drafts
  | moved source target draft l named other tracked free place drafts =>
      obtain ⟨a, -, ha⟩ := named
      exact hs.rekey (Draft.IsFor.movedTo draft (Path.normalize_of_normalize ha)).clean drafts

theorem Step.tree (h : Step paths s s') (hs : s.keeper.workspace.disk.IsTree) :
    s'.keeper.workspace.disk.IsTree := by
  cases h.2 with
  | edited p draft draft' e tracked change drafts workspace => rwa [workspace]
  | idle _ workspace | opened _ _ _ _ _ _ _ _ workspace | saved _ _ _ _ _ _ workspace
  | stopped _ _ _ _ workspace | moved _ _ _ _ _ _ _ _ _ _ workspace => exact workspace.2.tree hs

theorem Steps.filed (h : Steps paths s s') (hs : s.keeper.Filed) : s'.keeper.Filed := by
  induction h with
  | refl => exact hs
  | tail _ hstep ih => exact hstep.filed ih

theorem Steps.tree (h : Steps paths s s') (hs : s.keeper.workspace.disk.IsTree) :
    s'.keeper.workspace.disk.IsTree := by
  induction h with
  | refl => exact hs
  | tail _ hstep ih => exact hstep.tree ih

theorem Steps.options (h : Steps paths s s') : s'.keeper.options = s.keeper.options := by
  induction h with
  | refl => rfl
  | tail _ hstep ih => exact hstep.1.trans ih

theorem options_after (s : Session) (a : Action) :
    (s.after a).keeper.options = s.keeper.options := by
  cases a with
  | operation o =>
      by_cases hm : o.FailsToMove s.keeper
      · exact (Operation.perform_of_failsToMove hm).1
      · exact (o.steps s.edited (List.Subset.refl _) hm).options
  | outside disk | tick clock | delivery => rfl

theorem filed_after {s : Session} (h : s.keeper.Filed) (a : Action) : (s.after a).keeper.Filed := by
  cases a with
  | operation o =>
      by_cases hm : o.FailsToMove s.keeper
      · rcases (Operation.perform_of_failsToMove hm).2 with ⟨hd, -⟩ |
          ⟨source, target, draft, ht, -, hd, -⟩
        · exact h.of_eq hd
        · exact h.rekey (.movedTo draft ht) hd
      · exact (o.steps s.edited (List.Subset.refl _) hm).filed h
  | outside disk | tick clock | delivery => exact h

theorem tree_after {s : Session} (h : s.keeper.workspace.disk.IsTree) {a : Action}
    (ha : a.LeavesTree) : (s.after a).keeper.workspace.disk.IsTree := by
  cases a with
  | operation o =>
      by_cases hm : o.FailsToMove s.keeper
      · rcases (Operation.perform_of_failsToMove hm).2 with ⟨-, hw⟩ | ⟨_, _, _, -, -, -, hw⟩
        · change (o.perform s.keeper).workspace.disk.IsTree
          rwa [hw]
        · exact hw.2.tree h
      · exact (o.steps s.edited (List.Subset.refl _) hm).tree h
  | outside disk => exact ha
  | tick clock | delivery => exact h

variable {allowed : Session → Action → Prop} {o : Options} {w : Workspace} {capacity : Nat}
  {clock : Time.Instant}

theorem Reached.options (h : Reached allowed (.new o w capacity clock) s) : s.keeper.options = o :=
  h.invariant (I := fun s => s.keeper.options = o) rfl fun s a hs _ => (s.options_after a).trans hs

theorem Reached.filed (h : Reached allowed (.new o w capacity clock) s) : s.keeper.Filed :=
  h.invariant (I := fun s => s.keeper.Filed) (Keeper.filed_new o w capacity clock)
    fun _ a hs _ => filed_after hs a

theorem Reached.tree (h : Reached allowed (.new o w capacity clock) s) (ht : w.disk.IsTree)
    (ha : ∀ s a, allowed s a → a.LeavesTree) : s.keeper.workspace.disk.IsTree :=
  h.invariant (I := fun s => s.keeper.workspace.disk.IsTree) ht
    fun s a hs hal => tree_after hs (ha s a hal)

end Session

end DraftKeeper
