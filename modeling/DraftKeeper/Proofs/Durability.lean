import DraftKeeper.Proofs.FiledDrafts

namespace DraftKeeper

def Keeper.Keeps (k : Keeper) (p : String) (d : Draft) : Prop :=
  ∃ l, k.options.draftPlace? p = some l ∧ k.workspace.disk.content? l = some d.content

namespace Session

/-- An operation on these paths that is no failing move, or anything else that leaves the files in
draft folders alone. -/
def Orderly (paths : List String) (s : Session) : Action → Prop
  | .operation o => o.paths ⊆ paths ∧ ¬ o.FailsToMove s.keeper
  | .outside disk => ∀ p l, s.keeper.options.draftPlace? p = some l →
      disk.content? l = s.keeper.workspace.disk.content? l
  | .tick _ | .delivery => True

/-- Every path with an edited draft is tracked, and its draft file keeps the draft if that is clean. -/
structure Durable (paths : List String) (s : Session) : Prop where
  filed : s.keeper.Filed
  named : ∀ p d, s.keeper.drafts.get? p = some d → Path.Named paths p
  kept : ∀ p ∈ s.edited, ∃ d, s.keeper.drafts.get? p = some d ∧
    (d.dirty = false → s.keeper.Keeps p d)

variable {paths touched : List String} {s s' : Session} {k k' : Keeper} {files : List Place}

theorem keeps_of_changes {p : String} {d : Draft} (ha : k.options.Apart paths)
    (ho : k'.options = k.options) (hw : k.workspace.Changes files k'.workspace)
    (hfiles : ∀ l ∈ files, ∃ q ∈ touched, Path.Named paths q ∧ k.options.draftPlace? q = some l)
    (hp : Path.Named paths p) (hother : p ∉ touched) (h : k.Keeps p d) : k'.Keeps p d := by
  obtain ⟨l, hl, hc⟩ := h
  refine ⟨l, by rw [ho, hl], ?_⟩
  rw [hw.2.content l, hc]
  intro hmem
  obtain ⟨q, hq, hqn, hql⟩ := hfiles l hmem
  obtain rfl := ha p hp q hqn l hl hql
  exact hother hq

/-- Work on some paths keeps the drafts durable if it keeps those of these paths so. -/
theorem Durable.touch (h : Durable paths s) (touched : List String) (ha : s.keeper.options.Apart paths)
    (ho : s'.keeper.options = s.keeper.options)
    (hw : s.keeper.workspace.Changes files s'.keeper.workspace)
    (hfiles : ∀ l ∈ files, ∃ q ∈ touched, Path.Named paths q ∧
      s.keeper.options.draftPlace? q = some l)
    (hfiled : s'.keeper.Filed)
    (hrest : ∀ q ∉ touched, s'.keeper.drafts.get? q = s.keeper.drafts.get? q)
    (hedited : ∀ q ∉ touched, q ∈ s'.edited → q ∈ s.edited)
    (hnamed : ∀ q ∈ touched, Path.Named paths q)
    (hkept : ∀ q ∈ touched, q ∈ s'.edited → ∃ d, s'.keeper.drafts.get? q = some d ∧
      (d.dirty = false → s'.keeper.Keeps q d)) : Durable paths s' := by
  refine ⟨hfiled, fun q d hq => ?_, fun q hq => ?_⟩
  · by_cases ht : q ∈ touched
    · exact hnamed q ht
    · exact h.named q d ((hrest q ht).symm.trans hq)
  · by_cases ht : q ∈ touched
    · exact hkept q ht hq
    · obtain ⟨d, hd, hk⟩ := h.kept q (hedited q ht hq)
      refine ⟨d, (hrest q ht).trans hd, fun hclean => ?_⟩
      exact keeps_of_changes ha ho hw hfiles (h.named q d hd) ht (hk hclean)

theorem Durable.touch_one {p : String} (h : Durable paths s) (ha : s.keeper.options.Apart paths)
    (ho : s'.keeper.options = s.keeper.options) (hp : Path.Named paths p)
    (hw : s.keeper.workspace.Changes files s'.keeper.workspace)
    (hfiles : ∀ l ∈ files, s.keeper.options.draftPlace? p = some l)
    (hfiled : s'.keeper.Filed)
    (hrest : ∀ q, q ≠ p → s'.keeper.drafts.get? q = s.keeper.drafts.get? q)
    (hedited : ∀ q ∈ s'.edited, q ≠ p → q ∈ s.edited)
    (hkept : p ∈ s'.edited → ∃ d, s'.keeper.drafts.get? p = some d ∧
      (d.dirty = false → s'.keeper.Keeps p d)) : Durable paths s' := by
  refine h.touch [p] ha ho hw (fun l hl => ⟨p, List.mem_singleton_self p, hp, hfiles l hl⟩) hfiled
    ?_ ?_ ?_ ?_
  · intro q hq
    exact hrest q (by simpa using hq)
  · intro q hq he
    exact hedited q he (by simpa using hq)
  · intro q hq
    rwa [List.mem_singleton.1 hq]
  · intro q hq
    rwa [List.mem_singleton.1 hq]

theorem Durable.moved {source target : String} {draft : Draft} {l : Place} (h : Durable paths s)
    (ha : s.keeper.options.Apart paths) (ho : s'.keeper.options = s.keeper.options)
    (hfiled : s'.keeper.Filed) (hnamed : Path.Named paths target) (hne : source ≠ target)
    (htracked : s.keeper.drafts.get? source = some draft)
    (hplace : s.keeper.options.draftPlace? target = some l)
    (hdrafts : s'.keeper.drafts =
      (s.keeper.drafts.erase source).put target (draft.movedTo target).clean)
    (hw : s.keeper.workspace.Changes (l :: (s.keeper.options.draftPlace? source).toList)
      s'.keeper.workspace)
    (hcontent : s'.keeper.workspace.disk.content? l = some draft.content)
    (hedited : s'.edited = s.edited.map fun r => if r = source then target else r) :
    Durable paths s' := by
  have hsource := h.named source draft htracked
  refine h.touch [source, target] ha ho hw ?_ hfiled ?_ ?_ ?_ ?_
  · intro l' hl
    rcases List.mem_cons.1 hl with rfl | hl
    · exact ⟨target, by simp, hnamed, hplace⟩
    · exact ⟨source, by simp, hsource, Option.mem_toList.1 hl⟩
  · intro q hq
    obtain ⟨hs, ht⟩ : q ≠ source ∧ q ≠ target := by simpa using hq
    rw [hdrafts, Drafts.get?_put, if_neg ht.symm, Drafts.get?_erase, if_neg hs.symm]
  · intro q hq hmem
    obtain ⟨hs, ht⟩ : q ≠ source ∧ q ≠ target := by simpa using hq
    rw [hedited] at hmem
    obtain ⟨r, hr, rfl⟩ := List.mem_map.1 hmem
    split at ht
    · exact absurd rfl ht
    · next hr' => rwa [if_neg hr']
  · intro q hq
    rcases List.mem_cons.1 hq with rfl | hq
    · exact hsource
    · rwa [List.mem_singleton.1 hq]
  · intro q hq hmem
    rcases List.mem_cons.1 hq with rfl | hq
    · -- no path is edited under its old name
      rw [hedited] at hmem
      obtain ⟨r, -, hr⟩ := List.mem_map.1 hmem
      split at hr
      · exact absurd hr.symm hne
      · next hr' => exact absurd hr hr'
    · obtain rfl := List.mem_singleton.1 hq
      refine ⟨(draft.movedTo q).clean, ?_, fun _ => ⟨l, by rw [ho, hplace], hcontent⟩⟩
      rw [hdrafts, Drafts.get?_put, if_pos rfl]

theorem Step.durable (hs : Step paths s s') (ha : s.keeper.options.Apart paths)
    (h : Durable paths s) : Durable paths s' := by
  have hfiled := hs.filed h.filed
  obtain ⟨ho, he⟩ := hs
  have hplace {p : String} {d : Draft} (hd : s.keeper.drafts.get? p = some d) :
      DraftFolder.place? s.keeper.options.folder d.project d.flat =
        s.keeper.options.draftPlace? p := (h.filed p d hd).place _
  cases he with
  | idle drafts workspace edited =>
      exact h.touch [] ha ho workspace nofun hfiled (fun q _ => by rw [drafts])
        (fun q _ hq => edited hq) nofun nofun
  | opened p l content named free read drafts place workspace kept edited =>
      refine h.touch_one ha ho named workspace (by simpa using place) hfiled ?_
        (fun q hq _ => edited hq) fun hp => ?_
      · intro q hq
        rw [drafts, Drafts.get?_put, if_neg hq.symm]
      · -- an edited path is tracked, so it is not opened
        obtain ⟨d, hd, -⟩ := h.kept p (edited hp)
        rw [free] at hd
        cases hd
  | edited p draft draft' e tracked change drafts workspace edited =>
      have hw : s.keeper.workspace.Changes [] s'.keeper.workspace := by
        rw [workspace]
        exact .refl [] _
      refine h.touch_one ha ho (h.named p draft tracked) hw nofun hfiled ?_ ?_
        fun _ => ⟨draft', ?_, ?_⟩
      · intro q hq
        rw [drafts, Drafts.get?_put, if_neg hq.symm]
      · intro q hq hne
        rw [edited] at hq
        exact (List.mem_cons.1 hq).resolve_left hne
      · rw [drafts, Drafts.get?_put, if_pos rfl]
      · obtain ⟨text, -, rfl⟩ := Draft.apply_eq_some change
        nofun
  | saved p draft l tracked place drafts workspace kept edited =>
      rw [hplace tracked] at place
      refine h.touch_one ha ho (h.named p draft tracked) workspace (by simpa using place) hfiled ?_
        (fun q hq _ => edited hq) fun _ => ⟨draft.clean, ?_, fun _ => ⟨l, by rw [ho, place], kept⟩⟩
      · intro q hq
        rw [drafts, Drafts.get?_put, if_neg hq.symm]
      · rw [drafts, Drafts.get?_put, if_pos rfl]
  | stopped p draft tracked drafts workspace edited =>
      rw [hplace tracked] at workspace
      refine h.touch_one ha ho (h.named p draft tracked) workspace (by simp) hfiled ?_
        (fun q hq _ => (edited q hq).1) fun hp => absurd rfl (edited p hp).2
      intro q hq
      rw [drafts, Drafts.get?_erase, if_neg hq.symm]
  | moved source target draft l named other tracked free place drafts workspace kept edited =>
      have ⟨_, _, ht⟩ := named
      rw [(Draft.IsFor.movedTo draft (Path.normalize_of_normalize ht)).place] at place
      rw [hplace tracked] at workspace
      exact h.moved ha ho hfiled named other tracked place drafts workspace kept edited

theorem Steps.durable (hs : Steps paths s s') (ha : s.keeper.options.Apart paths)
    (h : Durable paths s) : Durable paths s' := by
  induction hs with
  | refl => exact h
  | tail hsteps hstep ih =>
      rw [← Steps.options hsteps] at ha
      exact hstep.durable ha ih

theorem Durable.after (h : Durable paths s) (ha : s.keeper.options.Apart paths) {a : Action}
    (ho : s.Orderly paths a) : Durable paths (s.after a) := by
  cases a with
  | operation o => exact (o.steps s.edited ho.1 ho.2).durable ha h
  | outside disk =>
      refine ⟨filed_after h.filed _, h.named, fun p hp => ?_⟩
      obtain ⟨d, hd, hk⟩ := h.kept p hp
      refine ⟨d, hd, fun hclean => ?_⟩
      obtain ⟨l, hl, hc⟩ := hk hclean
      exact ⟨l, hl, (ho p l hl).trans hc⟩
  | tick clock | delivery => exact ⟨h.filed, h.named, h.kept⟩

theorem Reached.durable {allowed : Session → Action → Prop} {o : Options} {w : Workspace}
    {capacity : Nat} {clock : Time.Instant} (h : Reached allowed (.new o w capacity clock) s)
    (ha : o.Apart paths) (hallowed : ∀ s a, allowed s a → s.Orderly paths a) : Durable paths s := by
  have hs : s.keeper.options = o ∧ Durable paths s := by
    refine h.invariant (I := fun s => s.keeper.options = o ∧ Durable paths s) ⟨rfl, ?_⟩ ?_
    · refine ⟨Keeper.filed_new o w capacity clock, fun p d hp => ?_, nofun⟩
      cases hp
    · rintro s a ⟨rfl, hd⟩ hstep
      exact ⟨s.options_after a, hd.after ha (hallowed s a hstep)⟩
  exact hs.2

/-- In every session on paths that are apart, a tracked draft that was edited and is clean lies in its
draft file as it is. -/
theorem clean_draft_is_kept {o : Options} {w : Workspace} {capacity : Nat} {clock : Time.Instant}
    {p : String} {d : Draft} (ha : o.Apart paths)
    (h : Reached (Orderly paths) (.new o w capacity clock) s)
    (hd : s.keeper.drafts.get? p = some d) (he : p ∈ s.edited) (hclean : d.dirty = false) :
    ∃ l, o.draftPlace? p = some l ∧ s.keeper.workspace.disk.content? l = some d.content := by
  obtain ⟨d', hd', hk⟩ := (h.durable ha fun _ _ ho => ho).kept p he
  obtain rfl := Option.some.inj (hd.symm.trans hd')
  obtain ⟨l, hl, hc⟩ := hk hclean
  exact ⟨l, by rwa [h.options] at hl, hc⟩

theorem clean_draft_is_kept_after_move :
    let s := sampleEdited.after (.operation (.track "e" (.move "/p/a" "/p/b")))
    ∃ d l, s.keeper.drafts.get? "/p/b" = some d ∧ d.text = "hi!" ∧
      Options.sample.draftPlace? "/p/b" = some l ∧
      s.keeper.workspace.disk.content? l = some d.content := by
  intro s
  have hr : Reached (Orderly ["/p/a", "/p/b"]) sample s := by
    refine .step (.step (.step .start ⟨?_, ?_⟩) ⟨?_, ?_⟩) ⟨?_, ?_⟩ <;> decide +kernel
  have hd : s.keeper.drafts.get? "/p/b" = some ⟨"p.b", "/p", [104, 105, 33], false⟩ := by
    decide +kernel
  obtain ⟨l, hl, hc⟩ := clean_draft_is_kept (by decide +kernel) hr hd (by decide +kernel) rfl
  exact ⟨_, l, hd, by decide +kernel, hl, hc⟩

end Session

end DraftKeeper
