import DraftKeeper.Proofs.Operations
import Mathlib.Data.List.Sort

namespace DraftKeeper.Keeper

/-- After a step of a sweep, or after some of them, every draft is there with its content, and what
was clean is. -/
def Swept (k k' : Keeper) : Prop :=
  ∀ p d, k.drafts.get? p = some d → ∃ d', k'.drafts.get? p = some d' ∧
    d'.content = d.content ∧ (d.dirty = false → d'.dirty = false)

namespace Swept

variable {k k' k'' : Keeper}

theorem refl (k : Keeper) : Swept k k := fun _ d hd => ⟨d, hd, rfl, fun h => h⟩

theorem trans (h : Swept k k') (h' : Swept k' k'') : Swept k k'' := by
  intro p d hd
  obtain ⟨d', hd', hc', hclean'⟩ := h p d hd
  obtain ⟨d'', hd'', hc'', hclean''⟩ := h' p d' hd'
  exact ⟨d'', hd'', hc''.trans hc', fun hd => hclean'' (hclean' hd)⟩

theorem withWorkspace (k : Keeper) (w : Workspace) : Swept k (k.withWorkspace w) := refl k

theorem of_save {p location : String} {draft : Draft} (hd : k.drafts.get? p = some draft)
    (h : save p draft k = .ok location k') :
    Swept k k' ∧ k'.drafts.get? p = some draft.clean := by
  obtain ⟨k₁, hw, rfl⟩ := save_eq_ok h
  obtain ⟨w, l, -, rfl, -⟩ := write_eq_ok hw
  refine ⟨fun q d hq => ?_, (Drafts.get?_put ..).trans (if_pos rfl)⟩
  change ∃ d', (k.drafts.put p draft.clean).get? q = some d' ∧ _
  rw [Drafts.get?_put]
  split
  · next heq =>
      subst heq
      obtain rfl := Option.some.inj (hd.symm.trans hq)
      exact ⟨draft.clean, rfl, rfl, fun _ => rfl⟩
  · exact ⟨d, hq, rfl, fun hclean => hclean⟩

end Swept

/-- What a visit does to the keeper does not depend on what the sweep has counted. -/
theorem sweepOne_snd (r r' : SweepReport) (k : Keeper) (path : String) :
    (sweepOne (r, k) path).2 = (sweepOne (r', k) path).2 := by
  rw [sweepOne, sweepOne]
  cases k.drafts.get? path with
  | none => rfl
  | some draft =>
      cases hd : draft.dirty with
      | false => simp [hd]
      | true =>
          simp only [hd, if_true]
          cases save path draft k <;> rfl

theorem sweepOne_swept (s : SweepReport × Keeper) (path : String) :
    Swept s.2 (sweepOne s path).2 ∧ s.1.failed ≤ (sweepOne s path).1.failed ∧
      ((sweepOne s path).1.failed = s.1.failed →
        ∀ d, (sweepOne s path).2.drafts.get? path = some d → d.dirty = false) := by
  rcases sweepOne_cases s path with ⟨h, hclean⟩ |
    ⟨draft, hd, -, ⟨location, k, hs, h⟩ | ⟨f, k, hs, h⟩⟩
  · rw [h]
    exact ⟨.refl s.2, Nat.le_refl _, fun _ => hclean⟩
  · rw [h]
    obtain ⟨hswept, hsaved⟩ := Swept.of_save hd hs
    refine ⟨hswept, Nat.le_refl _, fun _ d hp => ?_⟩
    obtain rfl := Option.some.inj (hsaved.symm.trans hp)
    rfl
  · rw [h]
    obtain ⟨w, -, rfl, -⟩ := write_eq_error (save_eq_error hs)
    exact ⟨.withWorkspace s.2 w, Nat.le_succ _, fun hfailed => absurd hfailed (Nat.succ_ne_self _)⟩

theorem foldl_sweepOne_swept (ps : List String) (s : SweepReport × Keeper) :
    Swept s.2 (ps.foldl sweepOne s).2 ∧ s.1.failed ≤ (ps.foldl sweepOne s).1.failed ∧
      ((ps.foldl sweepOne s).1.failed = s.1.failed → ∀ p ∈ ps, ∀ d, s.2.drafts.get? p = some d →
        ∃ d', (ps.foldl sweepOne s).2.drafts.get? p = some d' ∧ d'.content = d.content ∧
          d'.dirty = false) := by
  induction ps generalizing s with
  | nil => exact ⟨.refl s.2, Nat.le_refl _, nofun⟩
  | cons q ps ih =>
      obtain ⟨hone, hle, hclean⟩ := sweepOne_swept s q
      obtain ⟨hrest, hle', hclean'⟩ := ih (sweepOne s q)
      refine ⟨hone.trans hrest, Nat.le_trans hle hle', fun hfailed p hp d hd => ?_⟩
      rw [List.foldl_cons] at hfailed ⊢
      obtain ⟨d₁, hd₁, hc₁, -⟩ := hone p d hd
      rcases List.mem_cons.1 hp with rfl | hp
      · obtain ⟨d₂, hd₂, hc₂, hd₂'⟩ := hrest p d₁ hd₁
        exact ⟨d₂, hd₂, hc₂.trans hc₁, hd₂' (hclean (by omega) d₁ hd₁)⟩
      · obtain ⟨d₂, hd₂, hc₂, hd₂'⟩ := hclean' (by omega) p hp d₁ hd₁
        exact ⟨d₂, hd₂, hc₂.trans hc₁, hd₂'⟩

theorem sweep_clean {k : Keeper} {p : String} {d : Draft} (hd : k.drafts.get? p = some d)
    (hfailed : k.sweep.1.failed = 0) :
    ∃ d', k.sweep.2.drafts.get? p = some d' ∧ d'.content = d.content ∧ d'.dirty = false := by
  have hp : p ∈ k.tracked := (k.drafts.mem_paths_iff p).2 (by simp [Drafts.contains, hd])
  exact (foldl_sweepOne_swept k.tracked (⟨0, 0⟩, k)).2.2 hfailed p hp d hd

section Counting

variable {k k' : Keeper} {p path : String} {draft : Draft} {left : List String} {report : SweepReport}

theorem nodup_tracked (k : Keeper) : k.tracked.Nodup :=
  k.drafts.ordered.imp fun h => Std.ne_of_lt h

theorem tracked_eq_of_contains (h : ∀ p, k'.drafts.contains p = k.drafts.contains p) :
    k'.tracked = k.tracked := by
  refine List.Pairwise.eq_of_mem_iff k'.drafts.ordered k.drafts.ordered fun p => ?_
  change p ∈ k'.drafts.paths ↔ p ∈ k.drafts.paths
  rw [Drafts.mem_paths_iff, Drafts.mem_paths_iff, h]

def isDirty (k : Keeper) (p : String) : Bool := (k.drafts.get? p).any Draft.dirty

theorem isDirty_of_get? (hd : k.drafts.get? p = some draft) : k.isDirty p = draft.dirty := by
  rw [isDirty, hd, Option.any_some]

theorem isDirty_eq_false (h : ∀ draft ∈ k.drafts.get? p, draft.dirty = false) : k.isDirty p = false := by
  cases hd : k.drafts.get? p with
  | none => rw [isDirty, hd, Option.any_none]
  | some draft => exact (isDirty_of_get? hd).trans (h draft hd)

/-- A sweep that has these paths left has counted the drafts that are dirty among the others. -/
def HasSwept (k : Keeper) (left : List String) (report : SweepReport) : Prop :=
  ∃ visited, k.tracked = visited ++ left ∧ report.failed = (visited.filter k.isDirty).length

theorem HasSwept.start (k : Keeper) : k.HasSwept k.tracked ⟨0, 0⟩ := ⟨[], rfl, rfl⟩

theorem HasSwept.of_drafts (h : k.HasSwept left report) (hk : k'.drafts = k.drafts) :
    k'.HasSwept left report := by
  obtain ⟨visited, htracked, hcount⟩ := h
  have hdirty : k'.isDirty = k.isDirty := by
    funext p
    rw [isDirty, isDirty, hk]
  exact ⟨visited, by rw [tracked, hk]; exact htracked, by rw [hdirty]; exact hcount⟩

theorem HasSwept.next {report' : SweepReport} (h : k.HasSwept (path :: left) report)
    (htracked : k'.tracked = k.tracked) (hother : ∀ q ≠ path, k'.isDirty q = k.isDirty q)
    (hcount : report'.failed = report.failed + if k'.isDirty path then 1 else 0) :
    k'.HasSwept left report' := by
  obtain ⟨visited, hall, hfailed⟩ := h
  refine ⟨visited ++ [path], by rw [htracked, hall, List.append_assoc]; rfl, ?_⟩
  have hnodup := hall ▸ nodup_tracked k
  have hsame : visited.filter k'.isDirty = visited.filter k.isDirty := by
    refine List.filter_congr fun q hq => hother q ?_
    rintro rfl
    exact (List.nodup_append.1 hnodup).2.2 q hq q List.mem_cons_self rfl
  rw [hcount, hfailed, List.filter_append, List.length_append, hsame, List.filter_singleton]
  cases k'.isDirty path <;> rfl

theorem drafts_of_save {location : String} (h : save p draft k = .ok location k') :
    k'.drafts = k.drafts.put p draft.clean := by
  obtain ⟨k₁, hw, rfl⟩ := save_eq_ok h
  obtain ⟨w, -, -, rfl, -⟩ := write_eq_ok hw
  rfl

theorem get?_sweepOne_of_ne {q : String} (s : SweepReport × Keeper) (h : q ≠ p) :
    (sweepOne s p).2.drafts.get? q = s.2.drafts.get? q := by
  rcases sweepOne_cases s p with ⟨hs, -⟩ | ⟨d, -, -, ⟨location, k, hw, hs⟩ | ⟨f, k, hw, hs⟩⟩
  · rw [hs]
  · rw [hs, drafts_of_save hw, Drafts.get?_put_of_ne h]
  · obtain ⟨w, -, rfl, -⟩ := write_eq_error (save_eq_error hw)
    rw [hs]
    rfl

theorem tracked_sweepOne (s : SweepReport × Keeper) (p : String) : (sweepOne s p).2.tracked = s.2.tracked := by
  refine tracked_eq_of_contains fun q => ?_
  rcases sweepOne_cases s p with ⟨hs, -⟩ | ⟨d, hd, -, ⟨location, k, hw, hs⟩ | ⟨f, k, hw, hs⟩⟩
  · rw [hs]
  · rw [hs, Drafts.contains, Drafts.contains, drafts_of_save hw, Drafts.get?_put]
    split
    · next heq => rw [← heq, hd]; rfl
    · rfl
  · obtain ⟨w, -, rfl, -⟩ := write_eq_error (save_eq_error hw)
    rw [hs]
    rfl

theorem HasSwept.visit (h : k.HasSwept (path :: left) report) :
    (sweepOne (report, k) path).2.HasSwept left (sweepOne (report, k) path).1 := by
  refine h.next (tracked_sweepOne (report, k) path) (fun q hq => ?_) ?_
  · rw [isDirty, isDirty, get?_sweepOne_of_ne _ hq]
  rcases sweepOne_cases (report, k) path with ⟨hs, hclean⟩ |
    ⟨draft, hd, hdirty, ⟨location, k', hw, hs⟩ | ⟨f, k', hw, hs⟩⟩
  · simp [hs, isDirty_eq_false hclean]
  · have hnot : k'.isDirty path = false := by
      rw [isDirty, drafts_of_save hw, Drafts.get?_put_self]
      rfl
    rw [hs, hnot]
    rfl
  · obtain ⟨w, -, rfl, -⟩ := write_eq_error (save_eq_error hw)
    have hstill : (k.withWorkspace w).isDirty path = true := (isDirty_of_get? hd).trans hdirty
    rw [hs, hstill]
    rfl

theorem HasSwept.failed_eq (h : k.HasSwept [] report) :
    report.failed = (k.tracked.filter k.isDirty).length := by
  obtain ⟨visited, hall, hfailed⟩ := h
  rw [hall, List.append_nil, hfailed]

end Counting

end DraftKeeper.Keeper
