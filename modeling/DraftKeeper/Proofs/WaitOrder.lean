import DraftKeeper.Proofs.PrunedLocks
import Mathlib.Data.List.MinMax
import Mathlib.Data.String.Basic

namespace DraftKeeper

namespace Traffic

variable {s : Traffic} {t t' t'' : Errand} {path : String}

/-- The errand lacks no guard now, or nobody has the one that it asks for, or it only has to take it. -/
def Able (s : Traffic) (t : Errand) : Prop :=
  ∀ path, t.next? = some path → s.Free path ∨ ∃ g, t.stage = .queued path g ∧ s.locks.holds g = true

/-- The path that an errand asks for is held by the other, or the other has asked for it earlier. -/
def WaitsFor (s : Traffic) (t t' : Errand) : Prop :=
  t ∈ s.errands ∧ t' ∈ s.errands ∧ ∃ path, t.next? = some path ∧
    ((∃ g', (path, g') ∈ t'.held) ∨
      ∃ g', t'.stage = .queued path g' ∧ ∀ g, t.stage = .queued path g → g'.ticket < g.ticket)

/-- The other errand asks for a greater path, or it has asked for the same one earlier. -/
def Before (t t' : Errand) : Prop :=
  ∃ path path', t.next? = some path ∧ t'.next? = some path' ∧ (path < path' ∨ path = path' ∧
    ∃ g', t'.stage = .queued path g' ∧ ∀ g, t.stage = .queued path g → g'.ticket < g.ticket)

theorem next?_of_queued {g : Guard} (h : t.stage = .queued path g) : t.next? = some path := by
  rw [Errand.next?, h]
  rfl

theorem Before.trans (h : Before t t') (h' : Before t' t'') : Before t t'' := by
  obtain ⟨path, path', hpath, hpath', hlt⟩ := h
  obtain ⟨_, path'', hnext, hpath'', hlt'⟩ := h'
  obtain rfl := Option.some.inj (hpath'.symm.trans hnext)
  refine ⟨path, path'', hpath, hpath'', ?_⟩
  rcases hlt with hlt | ⟨rfl, g', hg', hearlier⟩
  · rcases hlt' with hlt' | ⟨rfl, -⟩
    · exact .inl (lt_trans hlt hlt')
    · exact .inl hlt
  · rcases hlt' with hlt' | ⟨rfl, g'', hg'', hearlier'⟩
    · exact .inl hlt'
    · exact .inr ⟨rfl, g'', hg'', fun g hg => (hearlier' g' hg').trans (hearlier g hg)⟩

theorem not_before_self (t : Errand) : ¬ Before t t := by
  rintro ⟨path, path', hpath, hpath', hlt⟩
  obtain rfl := Option.some.inj (hpath.symm.trans hpath')
  rcases hlt with hlt | ⟨-, g, hg, hearlier⟩
  · exact lt_irrefl path hlt
  · exact Nat.lt_irrefl _ (hearlier g hg)

namespace Orderly

/-- Who holds a guard and waits in turn asks for a greater path. -/
theorem before_of_waits (h : Orderly s) (hw : s.WaitsFor t t') (hw' : s.WaitsFor t' t'') : Before t t' := by
  obtain ⟨-, ht', path, hpath, ⟨g', hheld⟩ | ⟨g', hqueued, hearlier⟩⟩ := hw
  · obtain ⟨-, -, path', hpath', -⟩ := hw'
    exact ⟨path, path', hpath, hpath', .inl ((h.ordered t' ht').lt_next hpath' hheld)⟩
  · exact ⟨path, path, hpath, next?_of_queued hqueued, .inr ⟨rfl, g', hqueued, hearlier⟩⟩

theorem no_circle (h : Orderly s) (t : Errand) : ¬ Relation.TransGen s.WaitsFor t t := by
  -- along a path of waits every errand but the last one waits in turn
  have hbefore {t t' : Errand} (hw : Relation.TransGen s.WaitsFor t t') :
      ∀ t'', s.WaitsFor t' t'' → Before t t' := by
    induction hw with
    | single hw => exact fun t'' hw' => h.before_of_waits hw hw'
    | tail _ hw ih => exact fun t'' hw' => (ih _ hw).trans (h.before_of_waits hw hw')
  intro hcircle
  obtain ⟨t', hw, -⟩ := Relation.TransGen.head'_iff.1 hcircle
  exact not_before_self t (hbefore hcircle t' hw)

/-- A path that is not free has a first request, and the errand behind it has the guard or only has to take
it. -/
theorem first_of_not_free (h : Orderly s) (hfree : ¬ s.Free path) : ∃ t ∈ s.errands, ∃ g,
    s.line.find? (fun e => e.1 = path) = some (path, g) ∧
      ((path, g) ∈ t.held ∨ t.stage = .queued path g ∧ s.locks.holds g = true) := by
  obtain ⟨e, hfind⟩ : ∃ e, s.line.find? (fun e => e.1 = path) = some e := by
    rw [← Option.isSome_iff_exists, List.find?_isSome]
    rw [h.free_iff] at hfree
    push Not at hfree
    simpa using hfree
  have hline := List.mem_of_find?_eq_some hfind
  obtain rfl : e.1 = path := by simpa using List.find?_some hfind
  obtain ⟨t, ht, hout⟩ := h.mem_line_iff.1 hline
  refine ⟨t, ht, e.2, hfind, ?_⟩
  rcases List.mem_append.1 hout with hheld | hout
  · exact .inl hheld
  · refine .inr ⟨?_, (h.faithful.holds_iff hline).2 hfind⟩
    cases hstage : t.stage with
    | ready | found =>
        rw [hstage] at hout
        cases hout
    | queued path g =>
        rw [hstage] at hout
        rw [List.mem_singleton.1 hout]

theorem first_earlier (h : Orderly s) {e e' : String × Guard} (he : e ∈ s.line)
    (hfind : s.line.find? (fun x => x.1 = e.1) = some e') (hne : e' ≠ e) :
    e'.2.ticket < e.2.ticket := by
  obtain ⟨-, before, after, hline, hbefore⟩ := List.find?_eq_some_iff_append.1 hfind
  have hsorted := h.sorted
  rw [hline] at he hsorted
  rcases List.mem_append.1 he with he | he
  · simpa using hbefore e he
  · rw [List.map_append, List.pairwise_append, List.map_cons, List.pairwise_cons] at hsorted
    rcases List.mem_cons.1 he with rfl | he
    · exact absurd rfl hne
    · exact hsorted.2.1.1 _ (List.mem_map_of_mem he)

theorem able_or_waits (h : Orderly s) (ht : t ∈ s.errands) : s.Able t ∨ ∃ t', s.WaitsFor t t' := by
  by_cases hable : s.Able t
  · exact .inl hable
  rw [Able] at hable
  push Not at hable
  obtain ⟨path, hnext, hfree, hlacks⟩ := hable
  obtain ⟨t', ht', g', hfind, hheld | ⟨hqueued, hholds⟩⟩ := h.first_of_not_free hfree
  · exact .inr ⟨t', ht, ht', path, hnext, .inl ⟨g', hheld⟩⟩
  · refine .inr ⟨t', ht, ht', path, hnext, .inr ⟨g', hqueued, fun g hg => ?_⟩⟩
    have hline : (path, g) ∈ s.line :=
      h.mem_line_iff.2 ⟨t, ht, List.mem_append_right _ (by simp [hg, Stage.out])⟩
    refine h.first_earlier hline hfind ?_
    rintro ⟨⟩
    exact hlacks _ hg hholds

theorem next?_of_not_able (h : ¬ s.Able t) : t.next?.isSome := by
  rw [Able] at h
  push Not at h
  obtain ⟨path, hnext, -⟩ := h
  rw [hnext]
  rfl

/-- The greatest path that is asked for is free, or the errand that has its guard or comes first lacks none. -/
theorem exists_able (h : Orderly s) (ht : t ∈ s.errands) (hnew : t ≠ .finished) :
    ∃ t ∈ s.errands, t ≠ .finished ∧ s.Able t := by
  by_contra hnone
  push Not at hnone
  obtain ⟨p, hp⟩ := Option.isSome_iff_exists.1 (next?_of_not_able (hnone t ht hnew))
  obtain ⟨path, hmax⟩ : ∃ path : String, (s.errands.filterMap Errand.next?).maximum = path := by
    refine WithBot.ne_bot_iff_exists.1 ?_ |>.imp fun _ => Eq.symm
    rw [ne_eq, List.maximum_eq_bot]
    exact List.ne_nil_of_mem (List.mem_filterMap.2 ⟨t, ht, hp⟩)
  obtain ⟨t, ht, hnext⟩ := List.mem_filterMap.1 (List.maximum_mem hmax)
  have hunfinished {t : Errand} {path : String} (hnext : t.next? = some path) : t ≠ .finished := by
    rintro rfl
    cases hnext
  have hfree : ¬ s.Free path := by
    intro hfree
    refine hnone t ht (hunfinished hnext) fun path' hnext' => .inl ?_
    rwa [← Option.some.inj (hnext.symm.trans hnext')]
  obtain ⟨t', ht', g, -, hheld | ⟨hqueued, hholds⟩⟩ := h.first_of_not_free hfree
  · -- who holds the greatest path asks for nothing
    have hnew' : t' ≠ .finished := by
      rintro rfl
      cases hheld
    obtain ⟨path', hpath'⟩ := Option.isSome_iff_exists.1 (next?_of_not_able (hnone t' ht' hnew'))
    have hle : path' ≤ path :=
      WithBot.coe_le_coe.1 (hmax ▸ List.le_maximum_of_mem' (List.mem_filterMap.2 ⟨t', ht', hpath'⟩))
    exact absurd ((h.ordered t' ht').lt_next hpath' hheld) (not_lt_of_ge hle)
  · have hnext' := next?_of_queued hqueued
    refine hnone t' ht' (hunfinished hnext') fun path' hpath' => .inr ⟨g, ?_, hholds⟩
    rw [← Option.some.inj (hnext'.symm.trans hpath'), hqueued]

end Orderly

/-- Errands cannot block one another. While one of them has not finished, there is one that has not finished
and lacks no guard, or asks for a guard that is free or its own to take. Any other waits for one that has the
guard or asked for it earlier, and nobody waits, through others or not, for itself. -/
theorem Reached.no_deadlock (h : Reached s) :
    ((∃ t ∈ s.errands, t ≠ .finished) → ∃ t ∈ s.errands, t ≠ .finished ∧ s.Able t) ∧
      (∀ t ∈ s.errands, s.Able t ∨ ∃ t', s.WaitsFor t t') ∧
      ∀ t, ¬ Relation.TransGen s.WaitsFor t t := by
  have ho := h.orderly
  exact ⟨fun ⟨t, ht, hnew⟩ => ho.exists_able ht hnew, fun t ht => ho.able_or_waits ht, ho.no_circle⟩

theorem no_deadlock_opposite : Reached opposite ∧ (∃ t t', opposite.WaitsFor t t') ∧
    (∃ t ∈ opposite.errands, t ≠ .finished ∧ opposite.Able t) ∧
      ∀ t, ¬ Relation.TransGen opposite.WaitsFor t t := by
  obtain ⟨hable, -, hcircle⟩ := reached_opposite.no_deadlock
  have hwaits : opposite.WaitsFor ⟨[], .queued "/p/a" ⟨0, 1⟩, ["/p/b"], []⟩
      ⟨[("/p/a", ⟨0, 0⟩)], .ready, ["/p/b"], []⟩ :=
    ⟨List.mem_cons_of_mem _ List.mem_cons_self, List.mem_cons_self, "/p/a", rfl,
      .inl ⟨⟨0, 0⟩, List.mem_cons_self⟩⟩
  exact ⟨reached_opposite, ⟨_, _, hwaits⟩, hable ⟨_, List.mem_cons_self, by decide⟩, hcircle⟩

end Traffic

end DraftKeeper
