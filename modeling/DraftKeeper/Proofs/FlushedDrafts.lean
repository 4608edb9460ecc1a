import DraftKeeper.Proofs.Independence
import DraftKeeper.Proofs.Sweeps
import DraftKeeper.Proofs.WritableDrafts
import Mathlib.Data.List.TakeWhile

namespace DraftKeeper

theorem Options.draftPlace?_of_filePlace {o : Options} {p q : String} (hp : Path.normalize p = .ok p)
    (hq : Path.normalize q = .ok q) (h : o.filePlace p = o.filePlace q) : o.draftPlace? p = o.draftPlace? q := by
  obtain ⟨hfolder, hflat⟩ := List.append_inj' h rfl
  have hproject := DraftFolder.project_eq_of_basePlace hp hq (List.append_cancel_right hfolder)
  rw [draftPlace?, draftPlace?, hproject, List.singleton_inj.1 hflat]

theorem Draft.clean_of_clean {d : Draft} (h : d.dirty = false) : d.clean = d := by
  rw [clean, ← h]

namespace Keeper

variable {k k' k₁ k'' : Keeper} {p q : String} {d : Draft} {s : SweepReport × Keeper} {ps qs : List String}

theorem isDirty_iff_get? : k.isDirty p = true ↔ ∃ d, k.drafts.get? p = some d ∧ d.dirty = true := by
  rw [isDirty, Option.any_eq_true]

theorem mem_tracked_iff : p ∈ k.tracked ↔ ∃ d, k.drafts.get? p = some d := by
  rw [tracked, Drafts.mem_paths_iff, Drafts.contains, Option.isSome_iff_exists]

theorem mem_tracked_of_isDirty (h : k.isDirty p = true) : p ∈ k.tracked := by
  obtain ⟨d, hd, -⟩ := isDirty_iff_get?.1 h
  exact mem_tracked_iff.2 ⟨d, hd⟩

section Visits

theorem total_sweepOne (s : SweepReport × Keeper) (p : String) :
    (sweepOne s p).1.persisted + (sweepOne s p).1.failed =
      s.1.persisted + s.1.failed + if s.2.isDirty p then 1 else 0 := by
  rcases sweepOne_cases s p with ⟨h, hclean⟩ | ⟨d, hd, hdirty, ⟨location, k, -, h⟩ | ⟨f, k, -, h⟩⟩
  · rw [h, isDirty_eq_false hclean]
    rfl
  · rw [h, isDirty_of_get? hd, if_pos hdirty]
    exact Nat.succ_add_eq_add_succ ..
  · rw [h, isDirty_of_get? hd, if_pos hdirty]
    rfl

theorem sweepOne_of_clean (h : s.2.isDirty p = false) : sweepOne s p = s := by
  rcases sweepOne_cases s p with ⟨hs, -⟩ | ⟨d, hd, hdirty, -⟩
  · exact hs
  · rw [isDirty_of_get? hd, hdirty] at h
    cases h

theorem foldl_sweepOne_of_clean (h : ∀ p ∈ ps, s.2.isDirty p = false) : ps.foldl sweepOne s = s := by
  induction ps with
  | nil => rfl
  | cons p ps ih =>
      rw [List.foldl_cons, sweepOne_of_clean (h p List.mem_cons_self)]
      exact ih fun q hq => h q (List.mem_cons_of_mem p hq)

theorem sweepOne_of_writable (hd : s.2.drafts.get? p = some d) (hdirty : d.dirty = true) (hfor : d.IsFor p)
    (ht : s.2.workspace.disk.IsTree) (h : s.2.options.Writable s.2.workspace.disk p) :
    ∃ location k, save p d s.2 = .ok location k ∧
      sweepOne s p = ({ s.1 with persisted := s.1.persisted + 1 }, k) := by
  rcases sweepOne_cases s p with ⟨-, hclean⟩ | ⟨d', hd', -, hs⟩
  · cases hdirty.symm.trans (hclean d hd)
  · obtain rfl := Option.some.inj (hd.symm.trans hd')
    rcases hs with hs | ⟨f, k, hw, -⟩
    · exact hs
    · obtain ⟨location, k', hwrite⟩ := write_of_writable ht hfor h
      cases hwrite.symm.trans (save_eq_error hw)

theorem content?_sweepOne (hd : s.2.drafts.get? p = some d) (hdirty : d.dirty = true) (hfor : d.IsFor p)
    (ht : s.2.workspace.disk.IsTree) (h : s.2.options.Writable s.2.workspace.disk p) :
    (sweepOne s p).2.workspace.disk.content? (s.2.options.filePlace p) = some d.content := by
  obtain ⟨location, k, hsave, hs⟩ := sweepOne_of_writable hd hdirty hfor ht h
  obtain ⟨k₁, hwrite, rfl⟩ := save_eq_ok hsave
  have hthere := get?_of_write hfor hwrite
  rw [hs]
  exact Disk.content?_eq_some_iff.2 ⟨_, hthere⟩

theorem sweepOne_of_not_writable (hd : s.2.drafts.get? p = some d) (hdirty : d.dirty = true) (hfor : d.IsFor p)
    (ht : s.2.workspace.disk.IsTree) (h : ¬ s.2.options.Writable s.2.workspace.disk p) :
    (sweepOne s p).1 = { s.1 with failed := s.1.failed + 1 } ∧ (sweepOne s p).2.drafts = s.2.drafts := by
  rcases sweepOne_cases s p with ⟨-, hclean⟩ | ⟨d', hd', -, ⟨location, k, hw, -⟩ | ⟨f, k, hw, hs⟩⟩
  · cases hdirty.symm.trans (hclean d hd)
  · obtain rfl := Option.some.inj (hd.symm.trans hd')
    obtain ⟨k₁, hwrite, -⟩ := save_eq_ok hw
    exact absurd (writable_of_write ht hfor hwrite) h
  · obtain ⟨w, -, rfl, -⟩ := write_eq_error (save_eq_error hw)
    rw [hs]
    exact ⟨rfl, rfl⟩

end Visits

/-- What visits to some paths have made of a keeper: the drafts that can be written are clean, and the others are
as they were. -/
structure Visited (ps : List String) (k k' : Keeper) : Prop where
  options : k'.options = k.options
  tracked : k'.tracked = k.tracked
  filed : k'.Filed
  asWritable : k.options.AsWritable k.workspace k'.workspace
  flushed : ∀ p d, k.drafts.get? p = some d → p ∈ ps → k.options.Writable k.workspace.disk p →
    k'.drafts.get? p = some d.clean
  kept : ∀ p d, k.drafts.get? p = some d → (p ∈ ps → ¬ k.options.Writable k.workspace.disk p) →
    k'.drafts.get? p = some d

namespace Visited

theorem refl (hk : k.Filed) : Visited [] k k :=
  ⟨rfl, rfl, hk, fun ht => ⟨ht, fun _ _ => Iff.rfl⟩, fun _ _ _ hp => absurd hp List.not_mem_nil, fun _ _ h _ => h⟩

theorem writable (h : Visited ps k k') (ht : k.workspace.disk.IsTree) (hp : Path.normalize p = .ok p) :
    k'.options.Writable k'.workspace.disk p ↔ k.options.Writable k.workspace.disk p := by
  rw [h.options]
  exact (h.asWritable ht).2 p hp

theorem of_get? (h : Visited ps k k') (hd : k.drafts.get? p = some d) :
    ((p ∈ ps ∧ k.options.Writable k.workspace.disk p) ∧ k'.drafts.get? p = some d.clean) ∨
      (¬ (p ∈ ps ∧ k.options.Writable k.workspace.disk p) ∧ k'.drafts.get? p = some d) := by
  by_cases hp : p ∈ ps ∧ k.options.Writable k.workspace.disk p
  · exact .inl ⟨hp, h.flushed p d hd hp.1 hp.2⟩
  · exact .inr ⟨hp, h.kept p d hd fun hps hw => hp ⟨hps, hw⟩⟩

theorem of_none (h : Visited ps k k') (hd : k.drafts.get? p = none) : k'.drafts.get? p = none := by
  cases hd' : k'.drafts.get? p with
  | none => rfl
  | some d' =>
      obtain ⟨d, hthere⟩ := mem_tracked_iff.1 (h.tracked ▸ mem_tracked_iff.2 ⟨d', hd'⟩)
      cases hd.symm.trans hthere

theorem content_eq (h : Visited ps k k') (p : String) :
    (k'.drafts.get? p).map Draft.content = (k.drafts.get? p).map Draft.content := by
  cases hd : k.drafts.get? p with
  | none => rw [h.of_none hd]
  | some d =>
      rcases h.of_get? hd with ⟨-, hd'⟩ | ⟨-, hd'⟩
      · rw [hd']
        rfl
      · rw [hd']

theorem isDirty_iff (h : Visited ps k k') : k'.isDirty p = true ↔
    k.isDirty p = true ∧ ¬ (p ∈ ps ∧ k.options.Writable k.workspace.disk p) := by
  cases hd : k.drafts.get? p with
  | none => simp [isDirty, hd, h.of_none hd]
  | some d =>
      rcases h.of_get? hd with ⟨hw, hd'⟩ | ⟨hw, hd'⟩
      · simp [isDirty_of_get? hd', hw, Draft.clean]
      · simp [isDirty_of_get? hd', isDirty_of_get? hd, hw]

theorem trans (hk : k.Filed) (ht : k.workspace.disk.IsTree) (h : Visited ps k k') (h' : Visited qs k' k'') :
    Visited (ps ++ qs) k k'' := by
  have ht' := (h.asWritable ht).1
  have hwritable {p : String} {d : Draft} (hd : k.drafts.get? p = some d) := h.writable ht (hk p d hd).normal
  refine ⟨h'.options.trans h.options, h'.tracked.trans h.tracked, h'.filed, ?_, fun p d hd hp hw => ?_,
    fun p d hd hp => ?_⟩
  · have hthen := h'.asWritable
    rw [h.options] at hthen
    exact (Options.frame_asWritable k.options fun _ => True).trans h.asWritable hthen
  · by_cases hps : p ∈ ps
    · -- a draft that is visited again is clean by then
      have hclean := h.flushed p d hd hps hw
      by_cases hqs : p ∈ qs
      · exact h'.flushed p d.clean hclean hqs ((hwritable hd).2 hw)
      · exact h'.kept p d.clean hclean fun hmem => absurd hmem hqs
    · refine h'.flushed p d (h.kept p d hd fun hmem => absurd hmem hps) ?_ ((hwritable hd).2 hw)
      exact (List.mem_append.1 hp).resolve_left hps
  · refine h'.kept p d (h.kept p d hd fun hps => hp (List.mem_append_left _ hps)) fun hqs => ?_
    exact mt (hwritable hd).1 (hp (List.mem_append_right _ hqs))

theorem sweepOne (hk : s.2.Filed) (ht : s.2.workspace.disk.IsTree) (p : String) :
    Visited [p] s.2 (Keeper.sweepOne s p).2 := by
  obtain ⟨hframed, hfiled, -⟩ := framed_sweepOne (Options.frame_asWritable s.2.options fun _ => True) s hk
    (fun _ _ _ _ => trivial) p
  obtain ⟨hoptions, hwritable⟩ := hframed rfl
  refine ⟨hoptions, tracked_sweepOne s p, hfiled, hwritable, fun q d hd hq hw => ?_, fun q d hd hq => ?_⟩
  · obtain rfl := List.mem_singleton.1 hq
    cases hdirty : d.dirty with
    | false =>
        rw [sweepOne_of_clean (isDirty_of_get? hd ▸ hdirty), hd, Draft.clean_of_clean hdirty]
    | true =>
        obtain ⟨location, k, hsave, hs⟩ := sweepOne_of_writable hd hdirty (hk q d hd) ht hw
        rw [hs, drafts_of_save hsave, Drafts.get?_put_self]
  · by_cases hqp : q = p
    · subst hqp
      cases hdirty : d.dirty with
      | false => rwa [sweepOne_of_clean (isDirty_of_get? hd ▸ hdirty)]
      | true =>
          have hnot := hq (List.mem_singleton_self q)
          rwa [(sweepOne_of_not_writable hd hdirty (hk q d hd) ht hnot).2]
    · rwa [get?_sweepOne_of_ne s hqp]

theorem foldl (hk : s.2.Filed) (ht : s.2.workspace.disk.IsTree) (ps : List String) :
    Visited ps s.2 (ps.foldl Keeper.sweepOne s).2 := by
  induction ps generalizing s with
  | nil => exact .refl hk
  | cons p ps ih =>
      have hone := sweepOne hk ht p
      exact hone.trans hk ht (ih hone.filed (hone.asWritable ht).1)

end Visited

section Sweep

theorem total_foldl_sweepOne (s : SweepReport × Keeper) (hps : ps.Nodup) :
    (ps.foldl sweepOne s).1.persisted + (ps.foldl sweepOne s).1.failed =
      s.1.persisted + s.1.failed + (ps.filter s.2.isDirty).length := by
  induction ps generalizing s with
  | nil => rfl
  | cons p ps ih =>
      obtain ⟨hp, hps⟩ := List.nodup_cons.1 hps
      have hsame : ps.filter (sweepOne s p).2.isDirty = ps.filter s.2.isDirty := by
        refine List.filter_congr fun q hq => ?_
        rw [isDirty, isDirty, get?_sweepOne_of_ne s (ne_of_mem_of_not_mem hq hp)]
      rw [List.foldl_cons, ih _ hps, hsame, total_sweepOne, List.filter_cons]
      split
      · rw [List.length_cons, Nat.add_right_comm, Nat.add_assoc]
      · rfl

theorem HasSwept.foldl (h : s.2.HasSwept ps s.1) : (ps.foldl sweepOne s).2.HasSwept [] (ps.foldl sweepOne s).1 := by
  induction ps generalizing s with
  | nil => exact h
  | cons p ps ih => exact ih h.visit

theorem tracked_sweep (k : Keeper) : k.sweep.2.tracked = k.tracked :=
  sweep_keeps (P := fun k' => k'.tracked = k.tracked) rfl fun s p _ hs => (tracked_sweepOne s p).trans hs

theorem total_sweep (k : Keeper) :
    k.sweep.1.persisted + k.sweep.1.failed = (k.tracked.filter k.isDirty).length := by
  rw [sweep, total_foldl_sweepOne _ (nodup_tracked k)]
  exact Nat.zero_add _

theorem failed_sweep (k : Keeper) : k.sweep.1.failed = (k.tracked.filter k.sweep.2.isDirty).length := by
  have hswept : k.sweep.2.HasSwept [] k.sweep.1 := HasSwept.foldl (s := (⟨0, 0⟩, k)) (.start k)
  rw [hswept.failed_eq, tracked_sweep]

def ahead (k : Keeper) (p : String) : List String := k.tracked.takeWhile fun q => q ≠ p

theorem ne_of_mem_ahead (h : q ∈ k.ahead p) : q ≠ p := by
  have hne := List.mem_takeWhile_imp h
  exact of_decide_eq_true hne

theorem split_tracked (hp : p ∈ k.tracked) : ∃ after, k.tracked = k.ahead p ++ p :: after ∧ p ∉ after := by
  obtain ⟨before, after, hsplit⟩ := List.append_of_mem hp
  obtain ⟨-, hafter, hne⟩ := List.nodup_append.1 (hsplit ▸ nodup_tracked k)
  refine ⟨after, ?_, (List.nodup_cons.1 hafter).1⟩
  rw [ahead, hsplit, List.takeWhile_append_of_pos fun q hq => decide_eq_true (hne q hq p List.mem_cons_self),
    List.takeWhile_cons_of_neg (by simp), List.append_nil]

theorem sweep_of_one (hp : p ∈ k.tracked) (hclean : ∀ q, q ≠ p → k.isDirty q = false) :
    k.sweep = sweepOne (⟨0, 0⟩, k) p := by
  obtain ⟨after, hsplit, hafter⟩ := split_tracked hp
  have hahead : (k.ahead p).foldl sweepOne (⟨0, 0⟩, k) = (⟨0, 0⟩, k) :=
    foldl_sweepOne_of_clean fun q hq => hclean q (ne_of_mem_ahead hq)
  rw [sweep, hsplit, List.foldl_append, List.foldl_cons, hahead]
  refine foldl_sweepOne_of_clean fun q hq => ?_
  have hne := ne_of_mem_of_not_mem hq hafter
  rw [isDirty, get?_sweepOne_of_ne _ hne]
  exact hclean q hne

def atVisit (k : Keeper) (p : String) : Keeper := ((k.ahead p).foldl sweepOne (⟨0, 0⟩, k)).2

def visit (k : Keeper) (p : String) : SweepReport := (sweepOne (⟨0, 0⟩, k.atVisit p) p).1

theorem get?_filePlace_foldl_sweepOne (hk : s.2.Filed) (hp : Path.normalize p = .ok p)
    (hne : ∀ q, s.2.isDirty q = true → s.2.options.filePlace q ≠ s.2.options.filePlace p) (ps : List String) :
    (ps.foldl sweepOne s).2.workspace.disk.get? (s.2.options.filePlace p) =
      s.2.workspace.disk.get? (s.2.options.filePlace p) := by
  have hconfined : s.2.ConfinedTo (fun q => s.2.isDirty q = true) (ps.foldl sweepOne s).2 :=
    framed_foldl_sweepOne (frame s.2.options _) ps s hk (fun _ d hq hd => isDirty_iff_get?.2 ⟨d, hq, hd⟩) rfl
  refine hconfined.get?_filePlace (fun q hq => ?_) hp hne
  obtain ⟨d, hd, -⟩ := isDirty_iff_get?.1 hq
  exact (hk q d hd).normal

variable (hk : k.Filed) (ht : k.workspace.disk.IsTree)

include hk ht

theorem visited_sweep : Visited k.tracked k k.sweep.2 := Visited.foldl (s := (⟨0, 0⟩, k)) hk ht k.tracked

theorem visited_atVisit (p : String) : Visited (k.ahead p) k (k.atVisit p) :=
  Visited.foldl (s := (⟨0, 0⟩, k)) hk ht _

theorem get?_atVisit (hd : k.drafts.get? p = some d) : (k.atVisit p).drafts.get? p = some d :=
  (visited_atVisit hk ht p).kept p d hd fun hp => absurd rfl (ne_of_mem_ahead hp)

theorem visit_of_writable (hd : k.drafts.get? p = some d) (hdirty : d.dirty = true)
    (hw : k.options.Writable k.workspace.disk p) : k.visit p = ⟨1, 0⟩ := by
  have h := visited_atVisit hk ht p
  have hfor := hk p d hd
  obtain ⟨location, k', -, hs⟩ := sweepOne_of_writable (s := (⟨0, 0⟩, k.atVisit p)) (get?_atVisit hk ht hd) hdirty hfor
    (h.asWritable ht).1 ((h.writable ht hfor.normal).2 hw)
  rw [visit, hs]

theorem visit_of_not_writable (hd : k.drafts.get? p = some d) (hdirty : d.dirty = true)
    (hw : ¬ k.options.Writable k.workspace.disk p) : k.visit p = ⟨0, 1⟩ := by
  have h := visited_atVisit hk ht p
  have hfor := hk p d hd
  exact (sweepOne_of_not_writable (s := (⟨0, 0⟩, k.atVisit p)) (get?_atVisit hk ht hd) hdirty hfor
    (h.asWritable ht).1 (mt (h.writable ht hfor.normal).1 hw)).1

theorem visit_eq_failed_iff :
    k.visit p = ⟨0, 1⟩ ↔ k.isDirty p = true ∧ ¬ k.options.Writable k.workspace.disk p := by
  constructor
  · intro hvisit
    have hdirty : k.isDirty p = true := by
      by_contra hclean
      have hthen := mt (fun h => ((visited_atVisit hk ht p).isDirty_iff.1 h).1) hclean
      have hs := sweepOne_of_clean (s := (⟨0, 0⟩, k.atVisit p)) (Bool.eq_false_of_not_eq_true hthen)
      rw [visit, hs] at hvisit
      cases hvisit
    obtain ⟨d, hd, hd'⟩ := isDirty_iff_get?.1 hdirty
    refine ⟨hdirty, fun hw => ?_⟩
    cases hvisit.symm.trans (visit_of_writable hk ht hd hd' hw)
  · rintro ⟨hdirty, hw⟩
    obtain ⟨d, hd, hd'⟩ := isDirty_iff_get?.1 hdirty
    exact visit_of_not_writable hk ht hd hd' hw

theorem isDirty_sweep_iff : k.sweep.2.isDirty p = true ↔ k.visit p = ⟨0, 1⟩ := by
  rw [(visited_sweep hk ht).isDirty_iff, visit_eq_failed_iff hk ht]
  exact and_congr_right fun hdirty => not_congr (and_iff_right (mem_tracked_of_isDirty hdirty))

/-- The visit to a draft comes to what a sweep comes to in which no other draft is dirty. -/
theorem sweep_eq_visit (hp : k.isDirty p = true) (ho : k₁.options = k.options) (hw : k₁.workspace = k.workspace)
    (hd : k₁.drafts.get? p = k.drafts.get? p) (hclean : ∀ q, q ≠ p → k₁.isDirty q = false) :
    k₁.sweep.1 = k.visit p := by
  obtain ⟨d, hd', hdirty⟩ := isDirty_iff_get?.1 hp
  rw [hd'] at hd
  have hfor := hk p d hd'
  have ht₁ : k₁.workspace.disk.IsTree := hw ▸ ht
  have hp₁ : p ∈ k₁.tracked := mem_tracked_of_isDirty (isDirty_iff_get?.2 ⟨d, hd, hdirty⟩)
  rw [sweep_of_one hp₁ hclean]
  by_cases hwritable : k.options.Writable k.workspace.disk p
  · obtain ⟨location, k', -, hs⟩ := sweepOne_of_writable (s := (⟨0, 0⟩, k₁)) hd hdirty hfor ht₁ (ho ▸ hw ▸ hwritable)
    rw [hs, visit_of_writable hk ht hd' hdirty hwritable]
  · rw [visit_of_not_writable hk ht hd' hdirty hwritable]
    exact (sweepOne_of_not_writable (s := (⟨0, 0⟩, k₁)) hd hdirty hfor ht₁ (ho ▸ hw ▸ hwritable)).1

/-- A second sweep writes nothing, and fails for the same drafts. -/
theorem sweep_again : k.sweep.2.sweep.1 = ⟨0, k.sweep.1.failed⟩ := by
  have h := visited_sweep hk ht
  have hsame : k.sweep.2.sweep.2.isDirty = k.sweep.2.isDirty := by
    funext p
    rw [Bool.eq_iff_iff, (visited_sweep h.filed (h.asWritable ht).1).isDirty_iff, and_iff_left_iff_imp]
    rintro hp ⟨-, hw⟩
    obtain ⟨hdirty, hnot⟩ := h.isDirty_iff.1 hp
    obtain ⟨d, hd, -⟩ := isDirty_iff_get?.1 hdirty
    exact hnot ⟨mem_tracked_of_isDirty hdirty, (h.writable ht (hk p d hd).normal).1 hw⟩
  have hfailed : k.sweep.2.sweep.1.failed = k.sweep.1.failed := by
    rw [failed_sweep, failed_sweep, hsame, tracked_sweep]
  have htotal := total_sweep k.sweep.2
  rw [tracked_sweep, ← failed_sweep, hfailed] at htotal
  have hnone : k.sweep.2.sweep.1.persisted = 0 := by omega
  rw [← hfailed, ← hnone]

theorem content?_filePlace_sweep (hd : k.drafts.get? p = some d) (hdirty : d.dirty = true)
    (hw : k.options.Writable k.workspace.disk p)
    (hne : ∀ q, q ≠ p → k.isDirty q = true → k.options.filePlace q ≠ k.options.filePlace p) :
    k.sweep.2.workspace.disk.content? (k.options.filePlace p) = some d.content := by
  have hfor := hk p d hd
  obtain ⟨after, hsplit, -⟩ := split_tracked (mem_tracked_of_isDirty (isDirty_iff_get?.2 ⟨d, hd, hdirty⟩))
  let s := (k.ahead p).foldl sweepOne (⟨0, 0⟩, k)
  have h : Visited (k.ahead p) k s.2 := visited_atVisit hk ht p
  have hw' := (h.writable ht hfor.normal).2 hw
  have hthere := content?_sweepOne (get?_atVisit hk ht hd) hdirty hfor (h.asWritable ht).1 hw'
  have hone := h.trans hk ht (.sweepOne h.filed (h.asWritable ht).1 p)
  have hkept := get?_filePlace_foldl_sweepOne hone.filed hfor.normal (fun q hq => ?_) after
  · rw [hone.options] at hkept
    rw [h.options] at hthere
    rw [sweep, hsplit, List.foldl_append, List.foldl_cons, Disk.content?, hkept]
    exact hthere
  · -- after its visit the draft is clean, and so the rest of the sweep is at other ones
    rw [hone.options]
    obtain ⟨hq, hnot⟩ := hone.isDirty_iff.1 hq
    refine hne q ?_ hq
    rintro rfl
    exact hnot ⟨List.mem_append_right _ (List.mem_singleton_self q), hw⟩

end Sweep

end Keeper

namespace Session

variable {o : Options} {w : Workspace} {capacity : Nat} {clock : Time.Instant} {s : Session}

/-- In every session a sweep writes the dirty drafts, each as if no other was dirty, and nothing else. -/
theorem sweep_flushes_dirty (h : Reached (fun _ a => a.LeavesTree) (.new o w capacity clock) s) (ht : w.disk.IsTree) :
    let k := s.keeper
    let k' := k.sweep.2
    k.sweep.1.persisted + k.sweep.1.failed = (k.tracked.filter k.isDirty).length ∧
      k'.tracked = k.tracked ∧
      (∀ p, (k'.drafts.get? p).map Draft.content = (k.drafts.get? p).map Draft.content) ∧
      (∀ p, k'.isDirty p = true ↔ k.visit p = ⟨0, 1⟩) ∧
      (∀ p ∈ k.tracked, ∀ l, o.draftPlace? p = some l →
        (∀ q, k.isDirty q = true → o.draftPlace? q ≠ some l) →
          k'.workspace.disk.get? l = k.workspace.disk.get? l) ∧
      (∀ p d, k.drafts.get? p = some d → d.dirty = true → k'.isDirty p = false →
        (∀ q, q ≠ p → k.isDirty q = true → o.draftPlace? q ≠ o.draftPlace? p) →
          ∃ l, o.draftPlace? p = some l ∧ k'.workspace.disk.content? l = some d.content) ∧
      (∀ p (k₁ : Keeper), k.isDirty p = true → k₁.options = k.options → k₁.workspace = k.workspace →
        k₁.drafts.get? p = k.drafts.get? p → (∀ q, q ≠ p → k₁.isDirty q = false) →
          k₁.sweep.1 = k.visit p) ∧
      k'.sweep.1 = ⟨0, k.sweep.1.failed⟩ := by
  intro k k'
  have hk : k.Filed := h.filed
  have htree : k.workspace.disk.IsTree := h.tree ht fun _ _ h => h
  obtain rfl : k.options = o := h.options
  have hvisited : k.Visited k.tracked k' := Keeper.visited_sweep hk htree
  have hplaces {p q : String} {d : Draft} (hd : k.drafts.get? p = some d) (hq : k.isDirty q = true)
      (h : k.options.draftPlace? q ≠ k.options.draftPlace? p) : k.options.filePlace q ≠ k.options.filePlace p := by
    obtain ⟨d', hd', -⟩ := Keeper.isDirty_iff_get?.1 hq
    exact fun heq => h (Options.draftPlace?_of_filePlace (hk q d' hd').normal (hk p d hd).normal heq)
  refine ⟨k.total_sweep, k.tracked_sweep, hvisited.content_eq, fun p => Keeper.isDirty_sweep_iff hk htree,
    fun p hp l hl hother => ?_, fun p d hd hdirty hclean hother => ?_,
    fun p k₁ hp ho hw hd hone => Keeper.sweep_eq_visit hk htree hp ho hw hd hone, Keeper.sweep_again hk htree⟩
  · obtain ⟨d, hd⟩ := Keeper.mem_tracked_iff.1 hp
    obtain rfl := Options.eq_filePlace (hk p d hd).normal hl
    refine Keeper.get?_filePlace_foldl_sweepOne (s := (⟨0, 0⟩, k)) hk (hk p d hd).normal (fun q hq => ?_) k.tracked
    refine hplaces hd hq ?_
    rw [hl]
    exact hother q hq
  · have hw : k.options.Writable k.workspace.disk p := by
      by_contra hnot
      have hstill := hvisited.isDirty_iff.2 ⟨Keeper.isDirty_iff_get?.2 ⟨d, hd, hdirty⟩, fun hp => hnot hp.2⟩
      cases hstill.symm.trans hclean
    obtain ⟨l, hl⟩ := Option.isSome_iff_exists.1 hw.place
    obtain rfl := Options.eq_filePlace (hk p d hd).normal hl
    exact ⟨_, hl, Keeper.content?_filePlace_sweep hk htree hd hdirty hw fun q hne hq =>
      hplaces hd hq (hother q hne hq)⟩

def blockedDisk : Disk :=
  ⟨[([], .folder 0o755), (["p"], .folder 0o755), (["p", ".d"], .folder 0o700), (["p", ".d", "p.b"], .folder 0o700)]⟩

def sampleBlocked : Session :=
  ((samplePair.after (.operation (.edit "e" ⟨"/p/a", .insert 2 "!"⟩))).after
    (.operation (.edit "e" ⟨"/p/b", .insert 1 "!"⟩))).after (.outside blockedDisk)

theorem sweep_beside_folder :
    Reached (fun _ a => a.LeavesTree) samplePair sampleBlocked ∧
      sampleBlocked.keeper.tracked = ["/p/a", "/p/b"] ∧ sampleBlocked.keeper.sweep.1 = ⟨1, 1⟩ ∧
      sampleBlocked.keeper.visit "/p/b" = ⟨0, 1⟩ ∧ sampleBlocked.keeper.sweep.2.sweep.1 = ⟨0, 1⟩ ∧
      sampleBlocked.keeper.sweep.2.workspace.disk.content? ["p", ".d", "p.a"] = some [104, 105, 33] := by
  have hblocked : blockedDisk.IsTree := by decide
  have hpair : samplePair.keeper.workspace.disk.IsTree := by decide
  have hr : Reached (fun _ a => a.LeavesTree) samplePair sampleBlocked :=
    .step (.step (.step .start trivial) trivial) hblocked
  obtain ⟨-, -, -, hdirty, -, hflushed, -, hagain⟩ := sweep_flushes_dirty hr hpair
  have htracked : sampleBlocked.keeper.tracked = ["/p/a", "/p/b"] := by decide +kernel
  have hsweep : sampleBlocked.keeper.sweep.1 = ⟨1, 1⟩ := by decide +kernel
  have hstill : sampleBlocked.keeper.sweep.2.isDirty "/p/b" = true := by decide +kernel
  have hplace : Options.sample.draftPlace? "/p/a" = some ["p", ".d", "p.a"] := by decide
  have hd : sampleBlocked.keeper.drafts.get? "/p/a" = some ⟨"p.a", "/p", [104, 105, 33], true⟩ := by
    decide +kernel
  obtain ⟨l, hl, hcontent⟩ := hflushed "/p/a" _ hd rfl (by decide +kernel) fun q hne hq => by
    have hmem := Keeper.mem_tracked_of_isDirty hq
    rw [htracked, List.mem_cons, or_iff_right hne, List.mem_singleton] at hmem
    rw [hmem]
    decide +kernel
  obtain rfl := Option.some.inj (hplace.symm.trans hl)
  rw [hsweep] at hagain
  exact ⟨hr, htracked, hsweep, (hdirty "/p/b").1 hstill, hagain, hcontent⟩

end Session

end DraftKeeper
