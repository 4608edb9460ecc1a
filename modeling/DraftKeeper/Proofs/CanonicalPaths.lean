import DraftKeeper.Proofs.NormalPaths

namespace DraftKeeper.Path

variable {s t p q : String} {cs : List String}

def slashed (s : String) : List Char := s.toList.map fun c => if c = '\\' then '/' else c

def names (s : String) : List String :=
  (((slashed s).splitOn '/').filter fun p => !p.isEmpty).map String.ofList

def joined (s : String) : String := "/" ++ "/".intercalate (names s)

structure Acceptable (s : String) : Prop where
  noNull : Char.ofNat 0 ∉ slashed s
  named : names s ≠ []
  noDots : ∀ c ∈ names s, c ≠ "." ∧ c ≠ ".."
  noBlank : ∀ c ∈ names s, ¬ ∀ x ∈ c.toList, Text.Blank.isBlank x = true
  fits : (joined s).length ≤ 512

theorem splitOn_slashed (l : List Char) :
    (l.map fun c => if c = '\\' then '/' else c).splitOn '/' =
      pieces (fun c => c = '/' || c = '\\') l := by
  rw [pieces_eq_splitOnP, List.splitOn_eq_splitOnP]
  induction l with
  | nil => rfl
  | cons c l ih =>
      rw [List.map_cons, List.splitOnP_cons_eq_if_modifyHead, List.splitOnP_cons_eq_if_modifyHead, ih]
      by_cases hback : c = '\\'
      · simp [hback]
      · by_cases hslash : c = '/' <;> simp [hback, hslash]

theorem names_eq_components (s : String) : names s = components s := by
  rw [names, slashed, splitOn_slashed]
  rfl

theorem null_mem_slashed_iff : Char.ofNat 0 ∈ slashed s ↔ Char.ofNat 0 ∈ s.toList := by
  rw [slashed, List.mem_map]
  constructor
  · rintro ⟨c, hc, hnull⟩
    split at hnull
    · exact absurd hnull (by decide)
    · exact hnull ▸ hc
  · intro h
    exact ⟨_, h, by decide⟩

theorem ofComponents_eq_intercalate (hne : cs ≠ []) : ofComponents cs = "/" ++ "/".intercalate cs := by
  rw [← String.toList_inj, String.toList_append, String.toList_intercalate]
  induction cs with
  | nil => exact absurd rfl hne
  | cons c cs ih =>
      rw [toList_ofComponents_cons]
      cases cs with
      | nil => simp [ofComponents]
      | cons d ds =>
          rw [ih (List.cons_ne_nil d ds)]
          simp

theorem joined_eq_ofComponents (h : names s ≠ []) : joined s = ofComponents (components s) := by
  rw [joined, ← ofComponents_eq_intercalate h, names_eq_components]

theorem fault?_of_names (h : Acceptable s) : ∀ c ∈ components s, fault? c = none := by
  intro c hc
  rw [← names_eq_components] at hc
  obtain ⟨hdot, hdots⟩ := h.noDots c hc
  refine fault?_eq_none_iff.2 ⟨hdot, hdots, ?_⟩
  rw [Bool.eq_false_iff, ne_eq, Text.Blank.allBlank, List.all_eq_true]
  exact h.noBlank c hc

theorem normalize_eq_ok_iff_acceptable : normalize s = .ok p ↔ Acceptable s ∧ p = joined s := by
  rw [normalize_eq_ok_iff]
  constructor
  · rintro ⟨hnull, hne, hfault, rfl, hlength⟩
    rw [← names_eq_components] at hne
    have hjoined := joined_eq_ofComponents hne
    have hparts (c : String) (hc : c ∈ names s) := fault?_eq_none_iff.1 (hfault c (names_eq_components s ▸ hc))
    refine ⟨⟨?_, hne, fun c hc => ?_, fun c hc => ?_, ?_⟩, hjoined.symm⟩
    · rwa [null_mem_slashed_iff]
    · exact ⟨(hparts c hc).1, (hparts c hc).2.1⟩
    · rw [← List.all_eq_true]
      exact Bool.eq_false_iff.1 (hparts c hc).2.2
    · rwa [hjoined]
  · rintro ⟨h, rfl⟩
    have hjoined := joined_eq_ofComponents h.named
    refine ⟨?_, ?_, fault?_of_names h, hjoined, h.fits⟩
    · rw [← null_mem_slashed_iff]
      exact h.noNull
    · rw [← names_eq_components]
      exact h.named

theorem names_of_normalize (h : normalize s = .ok p) : names p = names s := by
  rw [names_eq_components, names_eq_components, components_of_normalize h]

theorem eq_iff_names_eq (hs : normalize s = .ok p) (ht : normalize t = .ok q) : p = q ↔ names s = names t := by
  constructor
  · rintro rfl
    rw [← names_of_normalize hs, names_of_normalize ht]
  · intro h
    obtain ⟨-, rfl⟩ := normalize_eq_ok_iff_acceptable.1 hs
    obtain ⟨-, rfl⟩ := normalize_eq_ok_iff_acceptable.1 ht
    rw [joined, joined, h]

/-- A path is taken exactly if it is acceptable, and its names joined are its normal form. The normal forms are
the paths that are their own, equal exactly for paths of equal names; and the first name alone is the normal form of
the project. -/
theorem normalize_is_canonical (s p : String) :
    (normalize s = .ok p ↔ Acceptable s ∧ p = joined s) ∧
      ((∃ t, normalize t = .ok p) ↔ normalize p = .ok p) ∧
      (∀ t q, normalize s = .ok p → normalize t = .ok q → (p = q ↔ names s = names t)) ∧
      (normalize s = .ok p → ∃ c rest, names p = c :: rest ∧ project? p = some ("/" ++ c) ∧
        normalize ("/" ++ c) = .ok ("/" ++ c)) := by
  refine ⟨normalize_eq_ok_iff_acceptable, ?_, fun t q hs ht => eq_iff_names_eq hs ht, fun h => ?_⟩
  · constructor
    · rintro ⟨t, ht⟩
      exact normalize_of_normalize ht
    · intro hp
      exact ⟨p, hp⟩
  · obtain ⟨c, rest, hc, hproject, hnorm, -⟩ := project?_eq (normalize_of_normalize h)
    exact ⟨c, rest, by rw [names_eq_components, hc], hproject, hnorm⟩

theorem normalize_is_canonical_of_backslashes :
    normalize "p\\\\a b/.c\\" = .ok "/p/a b/.c" ∧ normalize "//p/a b//.c" = .ok "/p/a b/.c" ∧
      names "p\\\\a b/.c\\" = names "//p/a b//.c" ∧
      ∃ c rest, names "/p/a b/.c" = c :: rest ∧ project? "/p/a b/.c" = some ("/" ++ c) ∧
        normalize ("/" ++ c) = .ok ("/" ++ c) := by
  have hback : normalize "p\\\\a b/.c\\" = .ok "/p/a b/.c" := normalize_eq_ok_iff.2 (by decide)
  have hslash : normalize "//p/a b//.c" = .ok "/p/a b/.c" := normalize_eq_ok_iff.2 (by decide)
  obtain ⟨-, -, hsame, hproject⟩ := normalize_is_canonical "p\\\\a b/.c\\" "/p/a b/.c"
  exact ⟨hback, hslash, (hsame _ _ hback hslash).1 rfl, hproject hback⟩

end DraftKeeper.Path
