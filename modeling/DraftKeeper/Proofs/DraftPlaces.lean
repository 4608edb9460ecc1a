import DraftKeeper.Proofs.KeeperSteps

namespace DraftKeeper

def Path.Named (paths : List String) (p : String) : Prop := ∃ a ∈ paths, Path.normalize a = .ok p

theorem Path.named_iff {paths : List String} {p : String} :
    Named paths p ↔ p ∈ paths.filterMap fun a => (normalize a).toOption := by
  simp only [Named, List.mem_filterMap]
  refine exists_congr fun a => and_congr_right fun _ => ?_
  cases normalize a <;> simp [Except.toOption]

instance (paths : List String) (P : String → Prop) [DecidablePred P] :
    Decidable (∀ p, Path.Named paths p → P p) :=
  decidable_of_iff (∀ p ∈ paths.filterMap fun a => (Path.normalize a).toOption, P p) (by
    simp only [← Path.named_iff])

/-- No two of the paths that are named here agree in project and flat name. -/
def Path.Distinct (paths : List String) : Prop :=
  ∀ p, Named paths p → ∀ q, Named paths q → project? p = project? q → flatten p = flatten q → p = q

/-- No two of the paths that are named here have their draft files at one place. -/
def Options.Apart (o : Options) (paths : List String) : Prop :=
  ∀ p, Path.Named paths p → ∀ q, Path.Named paths q →
    ∀ l ∈ o.draftPlace? p, o.draftPlace? q = some l → p = q

instance (paths : List String) : Decidable (Path.Distinct paths) :=
  inferInstanceAs (Decidable (∀ p, Path.Named paths p → ∀ q, Path.Named paths q →
    Path.project? p = Path.project? q → Path.flatten p = Path.flatten q → p = q))

instance (o : Options) (paths : List String) : Decidable (o.Apart paths) :=
  inferInstanceAs (Decidable (∀ p, Path.Named paths p → ∀ q, Path.Named paths q →
    ∀ l ∈ o.draftPlace? p, o.draftPlace? q = some l → p = q))

namespace Options

variable {o : Options} {p q : String} {l : Place}

theorem draftPlace?_eq_some (hp : Path.normalize p = .ok p) (h : o.draftPlace? p = some l) :
    ∃ c cs path, Path.components p = c :: cs ∧ Path.project? p = some ("/" ++ c) ∧
      DraftFolder.path? o.folder ((Path.project? p).getD "/") = some path ∧
      Path.slashComponents path = c :: Path.components o.folder ∧
      l = Path.slashComponents path ++ [Path.flatten p] := by
  obtain ⟨c, cs, hcs, hproject, hnorm, hone⟩ := Path.project?_eq hp
  obtain ⟨base, path, hbase, hpath, hsplit, rfl⟩ :=
    DraftFolder.place?_eq_some (Path.components_flatten hp) h
  refine ⟨c, cs, path, hcs, hproject, hpath, ?_, rfl⟩
  rw [hproject, Option.getD_some, hnorm] at hbase
  obtain rfl := Except.ok.inj hbase
  rw [hsplit, Path.slashComponents_of_normalize hnorm, hone]
  rfl

/-- Two paths whose draft files are at one place have the same project and the same flat name. -/
theorem same_of_draftPlace? (hp : Path.normalize p = .ok p) (hq : Path.normalize q = .ok q)
    (hpl : o.draftPlace? p = some l) (hql : o.draftPlace? q = some l) :
    Path.project? p = Path.project? q ∧ Path.flatten p = Path.flatten q := by
  obtain ⟨c, cs, path, -, hproject, -, hfolder, rfl⟩ := draftPlace?_eq_some hp hpl
  obtain ⟨c', cs', path', -, hproject', -, hfolder', hl⟩ := draftPlace?_eq_some hq hql
  obtain ⟨hpath, hflat⟩ := List.append_inj' hl rfl
  rw [hfolder, hfolder'] at hpath
  rw [hproject, hproject', (List.cons.inj hpath).1]
  exact ⟨rfl, (List.cons.inj hflat).1⟩

/-- The flat name of a path is too long to be a part of the path beside another one. -/
theorem draftPlace?_ne (hp : Path.normalize p = .ok p) (h : o.draftPlace? p = some l) :
    l ≠ Path.slashComponents p := by
  obtain ⟨c, cs, path, -, -, -, hfolder, rfl⟩ := draftPlace?_eq_some hp h
  rw [hfolder, Path.slashComponents_of_normalize hp]
  intro heq
  have hlength := congrArg String.length (Path.eq_ofComponents hp)
  rw [← heq, Path.ofComponents_append, String.length_append, Path.length_ofComponents_cons,
    Path.length_ofComponents_cons] at hlength
  have hflat := Path.length_flatten hp
  omega

theorem apart_of_distinct {paths : List String} (h : Path.Distinct paths) : o.Apart paths := by
  rintro p ⟨a, ha, hp⟩ q ⟨b, hb, hq⟩ l hpl hql
  obtain ⟨hproject, hflat⟩ :=
    same_of_draftPlace? (Path.normalize_of_normalize hp) (Path.normalize_of_normalize hq) hpl hql
  exact h p ⟨a, ha, hp⟩ q ⟨b, hb, hq⟩ hproject hflat

end Options

end DraftKeeper
