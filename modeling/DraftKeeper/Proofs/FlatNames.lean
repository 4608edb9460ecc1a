import DraftKeeper.Proofs.StartedFiles
import Mathlib.Data.List.Forall2
import Mathlib.Data.Set.Operations

namespace DraftKeeper.Path

variable {p q r project : String}

def SlashOrDot (x y : Char) : Prop := x = y ∨ x = '/' ∧ y = '.' ∨ x = '.' ∧ y = '/'

instance (x y : Char) : Decidable (SlashOrDot x y) :=
  inferInstanceAs (Decidable (x = y ∨ x = '/' ∧ y = '.' ∨ x = '.' ∧ y = '/'))

theorem slashOrDot_iff {x y : Char} :
    SlashOrDot x y ↔ (if x = '/' then '.' else x) = if y = '/' then '.' else y := by
  unfold SlashOrDot
  split_ifs <;> grind

theorem eq_of_slashOrDot {l m : List Char} (h : List.Forall₂ SlashOrDot l m) (hl : '.' ∉ l) (hm : '.' ∉ m) :
    l = m := by
  induction h with
  | nil => rfl
  | @cons x y l m hxy _ ih =>
      rw [List.mem_cons, not_or] at hl hm
      rcases hxy with rfl | ⟨-, rfl⟩ | ⟨rfl, -⟩
      · rw [ih hl.2 hm.2]
      · exact absurd rfl hm.1
      · exact absurd rfl hl.1

/-- Paths have one flat name exactly if they differ in slashes and dots alone. -/
theorem flatten_eq_iff (hp : normalize p = .ok p) (hq : normalize q = .ok q) :
    flatten p = flatten q ↔ List.Forall₂ SlashOrDot p.toList q.toList := by
  obtain ⟨l, hl, hflat⟩ := toList_flatten hp
  obtain ⟨m, hm, hflat'⟩ := toList_flatten hq
  rw [← String.toList_inj, hflat, hflat', hl, hm, List.forall₂_cons, and_iff_right (.inl rfl),
    ← List.forall₂_eq_eq_eq, List.forall₂_map_left_iff, List.forall₂_map_right_iff]
  simp only [← slashOrDot_iff]

theorem join_flatten (hp : normalize p = .ok p) (hr : normalize r = .ok r) :
    join r (flatten p) = r ++ "/" ++ flatten p := by
  rw [join_eq_ofComponents hr (components_flatten hp), ← String.toList_inj, ofComponents_concat,
    ← eq_ofComponents hr]
  simp

/-- All that can be wrong with the path of a flat name in a folder is its length. -/
theorem normalize_join_flatten (hp : normalize p = .ok p) (hr : normalize r = .ok r) :
    normalize (join r (flatten p)) = if (join r (flatten p)).length ≤ maxLength then .ok (join r (flatten p))
      else .error .tooLong := by
  rw [join_eq_ofComponents hr (components_flatten hp)]
  refine normalize_ofComponents (List.append_ne_nil_of_right_ne_nil _ (List.cons_ne_nil _ _)) fun c hc => ?_
  rcases List.mem_append.1 hc with hc | hc
  · exact isName_of_mem hr hc
  · rw [List.mem_singleton.1 hc]
    exact isName_flatten hp

def Undotted (project : String) : Set String :=
  {p | (∃ s, normalize s = .ok p) ∧ project? p = some project ∧ ∀ c ∈ (components p).tail, '.' ∉ c.toList}

theorem toList_of_undotted (h : p ∈ Undotted project) :
    ∃ l, p.toList = project.toList ++ l ∧ '.' ∉ l := by
  obtain ⟨⟨s, hs⟩, hproject, hfree⟩ := h
  have hp := normalize_of_normalize hs
  obtain ⟨c, cs, hcs, hfirst, -⟩ := project?_eq hp
  obtain rfl := Option.some.inj (hfirst.symm.trans hproject)
  refine ⟨(ofComponents cs).toList, ?_, fun hdot => ?_⟩
  · rw [eq_ofComponents hp, hcs, toList_ofComponents_cons]
    simp
  · rcases mem_toList_ofComponents hdot with hslash | ⟨d, hd, hmem⟩
    · exact absurd hslash (by decide)
    · exact hfree d (by rwa [hcs]) hmem

theorem injOn_flatten (project : String) : Set.InjOn flatten (Undotted project) := by
  intro p hp q hq h
  obtain ⟨l, hl, hfree⟩ := toList_of_undotted hp
  obtain ⟨m, hm, hfree'⟩ := toList_of_undotted hq
  obtain ⟨⟨s, hs⟩, -⟩ := hp
  obtain ⟨⟨t, ht⟩, -⟩ := hq
  have hmarks := (flatten_eq_iff (normalize_of_normalize hs) (normalize_of_normalize ht)).1 h
  -- both begin with the project, so they can only differ behind it
  rw [hl, hm] at hmarks
  have hrest := List.forall₂_drop project.toList.length hmarks
  rw [List.drop_left, List.drop_left] at hrest
  rw [← String.toList_inj, hl, hm, eq_of_slashOrDot hrest hfree hfree']

/-- Joined to a folder, the flat name of a path is the path of a child of the folder, which is its own normal
form if it is not too long. Two paths share a flat name exactly if they differ in slashes and dots alone, so in
a project no two do whose components below the project have no dots. -/
theorem flat_name_is_child :
    (∀ s t p r : String, normalize s = .ok p → normalize t = .ok r →
      normalize (join r (flatten p)) = (if (join r (flatten p)).length ≤ maxLength then .ok (join r (flatten p))
        else .error .tooLong) ∧
      join r (flatten p) = r ++ "/" ++ flatten p ∧ flatten p ≠ "" ∧ '/' ∉ (flatten p).toList ∧
      components (join r (flatten p)) = components r ++ [flatten p]) ∧
    (∀ s t p q : String, normalize s = .ok p → normalize t = .ok q →
      (flatten p = flatten q ↔ List.Forall₂ SlashOrDot p.toList q.toList)) ∧
    ∀ project : String, Set.InjOn flatten (Undotted project) := by
  refine ⟨fun s t p r hs ht => ?_, fun s t p q hs ht => ?_, injOn_flatten⟩
  · have hp := normalize_of_normalize hs
    have hr := normalize_of_normalize ht
    obtain ⟨hne, hfree, -⟩ := isName_flatten hp
    exact ⟨normalize_join_flatten hp hr, join_flatten hp hr, hne, fun hslash => (hfree _ hslash).1 rfl,
      by rw [components_join, components_flatten hp]⟩
  · exact flatten_eq_iff (normalize_of_normalize hs) (normalize_of_normalize ht)

theorem flat_name_of_dots :
    normalize (join "/p/.d" (flatten "/. ./.../.c")) = .ok "/p/.d/. .......c" ∧
      flatten "/. ./.../.c" = flatten "/. ./.....c" ∧ flatten "/. ./a/b" ≠ flatten "/. ./a/c" ∧
      normalize (join Session.filledPath (flatten Session.filledPath)) = .error .tooLong := by
  obtain ⟨hchild, hshared, hinj⟩ := flat_name_is_child
  have hp : normalize "\\. .//.../.c" = .ok "/. ./.../.c" := normalize_eq_ok_iff.2 (by decide)
  have hq : normalize "/. ./.....c" = .ok "/. ./.....c" := normalize_eq_ok_iff.2 (by decide)
  have hr : normalize "p/.d" = .ok "/p/.d" := normalize_eq_ok_iff.2 (by decide)
  refine ⟨?_, (hshared _ _ _ _ hp hq).2 (by decide), fun h => ?_, ?_⟩
  · rw [(hchild _ _ _ _ hp hr).1]
    decide
  · have hb : "/. ./a/b" ∈ Undotted "/. ." := ⟨⟨"/. ./a/b", normalize_eq_ok_iff.2 (by decide)⟩, by decide⟩
    have hc : "/. ./a/c" ∈ Undotted "/. ." := ⟨⟨"/. ./a/c", normalize_eq_ok_iff.2 (by decide)⟩, by decide⟩
    exact absurd (hinj "/. ." hb hc h) (by decide)
  · obtain ⟨hnorm, hjoin, -⟩ := hchild _ _ _ _ Session.normalize_filledPath Session.normalize_filledPath
    have hflat := length_flatten Session.normalize_filledPath
    have hpath := Session.length_filledPath
    rw [hnorm, if_neg]
    rw [hjoin, String.length_append, String.length_append, show "/".length = 1 from rfl, maxLength]
    omega

end DraftKeeper.Path
