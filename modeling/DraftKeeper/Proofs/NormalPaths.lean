import DraftKeeper.Path

namespace DraftKeeper.Path

variable {sep : Char → Bool}

theorem pieces_eq_splitOnP (sep : Char → Bool) (l : List Char) : pieces sep l = l.splitOnP sep := by
  induction l with
  | nil => rfl
  | cons x l ih =>
      rw [List.splitOnP_cons_eq_if_modifyHead, pieces, ih]
      cases h : l.splitOnP sep with
      | nil => exact absurd h (List.splitOnP_ne_nil sep l)
      | cons p ps => rfl

theorem mem_pieces {l p : List Char} (hp : p ∈ pieces sep l) {x : Char} (hx : x ∈ p) :
    x ∈ l ∧ sep x = false := by
  induction l generalizing p with
  | nil =>
      rw [pieces, List.mem_singleton] at hp
      subst hp
      cases hx
  | cons y l ih =>
      by_cases hy : sep y = true
      · rw [pieces, if_pos hy, List.mem_cons] at hp
        rcases hp with rfl | hp
        · cases hx
        · exact ⟨List.mem_cons_of_mem _ (ih hp hx).1, (ih hp hx).2⟩
      · rw [pieces, if_neg hy] at hp
        cases hl : pieces sep l with
        | nil => exact absurd (pieces_eq_splitOnP sep l ▸ hl) (List.splitOnP_ne_nil sep l)
        | cons q qs =>
            rw [hl] at hp ih
            rcases List.mem_cons.1 hp with rfl | hp
            · rcases List.mem_cons.1 hx with rfl | hx
              · exact ⟨List.mem_cons_self, by simpa using hy⟩
              · have h := ih List.mem_cons_self hx
                exact ⟨List.mem_cons_of_mem _ h.1, h.2⟩
            · have h := ih (List.mem_cons_of_mem _ hp) hx
              exact ⟨List.mem_cons_of_mem _ h.1, h.2⟩

theorem pieces_of_free {l p : List Char} {ps : List (List Char)} {x : Char} (hx : sep x = false)
    (hl : pieces sep l = p :: ps) : pieces sep (x :: l) = (x :: p) :: ps := by
  rw [pieces, if_neg (by simp [hx]), hl]

theorem exists_pieces (sep : Char → Bool) (l : List Char) : ∃ p ps, pieces sep l = p :: ps := by
  rw [pieces_eq_splitOnP]
  exact List.exists_cons_of_ne_nil (List.splitOnP_ne_nil sep l)

theorem pieces_flatMap {sub : Char → Bool} (h : ∀ x, sub x = true → sep x = true) (l : List Char) :
    (pieces sub l).flatMap (pieces sep) = pieces sep l := by
  induction l with
  | nil => rfl
  | cons x l ih =>
      by_cases hsub : sub x = true
      · rw [pieces, if_pos hsub, pieces, if_pos (h x hsub), ← ih]
        rfl
      · obtain ⟨p, ps, hp⟩ := exists_pieces sub l
        rw [hp, List.flatMap_cons] at ih
        rw [pieces_of_free (by simpa using hsub) hp, List.flatMap_cons]
        by_cases hsep : sep x = true
        · rw [pieces, if_pos hsep, pieces, if_pos hsep, ← ih]
          rfl
        · obtain ⟨q, qs, hq⟩ := exists_pieces sep p
          have hl : pieces sep l = q :: (qs ++ ps.flatMap (pieces sep)) := by
            rw [← ih, hq, List.cons_append]
          rw [pieces_of_free (by simpa using hsep) hq, pieces_of_free (by simpa using hsep) hl]
          rfl

theorem componentsBy_flatMap {sub : Char → Bool} (h : ∀ x, sub x = true → sep x = true) (s : String) :
    (componentsBy sub s).flatMap (componentsBy sep) = componentsBy sep s := by
  have hempty (l : List (List Char)) :
      (l.filter fun p => !p.isEmpty).flatMap (fun p => (pieces sep p).filter fun q => !q.isEmpty) =
        l.flatMap fun p => (pieces sep p).filter fun q => !q.isEmpty := by
    induction l with
    | nil => rfl
    | cons p l ih => cases p <;> simp [pieces, ih]
  have hparts : componentsBy sep s = ((pieces sub s.toList).flatMap fun p =>
      (pieces sep p).filter fun q => !q.isEmpty).map String.ofList := by
    rw [componentsBy, ← pieces_flatMap h s.toList, List.filter_flatMap]
  rw [hparts, ← hempty, List.map_flatMap, componentsBy, List.flatMap_map]
  congr 1
  funext p
  rw [componentsBy, String.toList_ofList]

theorem mem_componentsBy {s c : String} (h : c ∈ componentsBy sep s) :
    c ≠ "" ∧ ∀ x ∈ c.toList, x ∈ s.toList ∧ sep x = false := by
  obtain ⟨p, hp, rfl⟩ := List.mem_map.1 h
  obtain ⟨hp, hne⟩ := List.mem_filter.1 hp
  refine ⟨?_, ?_⟩
  · rw [ne_eq, String.ofList_eq_empty_iff]
    simpa using hne
  · intro x hx
    rw [String.toList_ofList] at hx
    exact mem_pieces hp hx

theorem componentsBy_nil (sep : Char → Bool) : componentsBy sep (String.ofList []) = [] := by
  simp [componentsBy, pieces]

theorem componentsBy_free {c : String} (hne : c ≠ "") (h : ∀ x ∈ c.toList, sep x = false) :
    componentsBy sep c = [c] := by
  rw [componentsBy, pieces_eq_splitOnP, List.splitOnP_eq_singleton h, List.filter_cons_of_pos]
  · simp
  · simpa using hne

theorem componentsBy_append_cons {x : Char} (hx : sep x = true) (l r : List Char) :
    componentsBy sep (String.ofList (l ++ x :: r)) =
      componentsBy sep (String.ofList l) ++ componentsBy sep (String.ofList r) := by
  simp only [componentsBy, String.toList_ofList, pieces_eq_splitOnP,
    List.splitOnP_append_cons l r hx, List.filter_append, List.map_append]

theorem componentsBy_cons {x : Char} (hx : sep x = true) (r : List Char) :
    componentsBy sep (String.ofList (x :: r)) = componentsBy sep (String.ofList r) := by
  have h := componentsBy_append_cons hx [] r
  rwa [componentsBy_nil, List.nil_append, List.nil_append] at h

theorem toList_ofComponents_cons (c : String) (cs : List String) :
    (ofComponents (c :: cs)).toList = '/' :: (c.toList ++ (ofComponents cs).toList) := by
  simp [ofComponents, String.toList_join, List.flatMap_map]

theorem length_ofComponents_cons (c : String) (cs : List String) :
    (ofComponents (c :: cs)).length = c.length + (ofComponents cs).length + 1 := by
  rw [← String.length_toList, toList_ofComponents_cons]
  simp only [List.length_cons, List.length_append, String.length_toList]

theorem ofComponents_append (cs ds : List String) :
    ofComponents (cs ++ ds) = ofComponents cs ++ ofComponents ds := by
  simp only [ofComponents, List.map_append, String.join_append]

theorem componentsBy_ofComponents (hsep : sep '/' = true) {cs : List String}
    (h : ∀ c ∈ cs, c ≠ "" ∧ ∀ x ∈ c.toList, sep x = false) :
    componentsBy sep (ofComponents cs) = cs := by
  induction cs with
  | nil => exact componentsBy_nil sep
  | cons c cs ih =>
      obtain ⟨hne, hfree⟩ := h c List.mem_cons_self
      have hc : componentsBy sep (String.ofList ('/' :: c.toList)) = [c] := by
        rw [componentsBy_cons hsep, String.ofList_toList, componentsBy_free hne hfree]
      have hcs := ih fun d hd => h d (List.mem_cons_of_mem _ hd)
      rw [← String.ofList_toList (s := ofComponents (c :: cs)), toList_ofComponents_cons]
      cases cs with
      | nil => simpa [ofComponents] using hc
      | cons d ds =>
          rw [← String.ofList_toList (s := ofComponents (d :: ds)), toList_ofComponents_cons,
            componentsBy_cons hsep] at hcs
          rw [toList_ofComponents_cons, ← List.cons_append, componentsBy_append_cons hsep, hc, hcs,
            List.singleton_append]

theorem componentsBy_dropWhile (hsep : sep '/' = true) (l : List Char) :
    componentsBy sep (String.ofList (l.dropWhile (· = '/'))) =
      componentsBy sep (String.ofList l) := by
  induction l with
  | nil => rfl
  | cons x l ih =>
      by_cases hx : x = '/'
      · subst hx
        rw [List.dropWhile_cons_of_pos (by simp), ih, componentsBy_cons hsep]
      · rw [List.dropWhile_cons_of_neg (by simpa using hx)]

theorem componentsBy_trimStart (hsep : sep '/' = true) (s : String) :
    componentsBy sep (String.ofList (trimStart s)) = componentsBy sep s := by
  rw [trimStart, componentsBy_dropWhile hsep, String.ofList_toList]

theorem componentsBy_trimEnd (hsep : sep '/' = true) (s : String) :
    componentsBy sep (String.ofList (trimEnd s)) = componentsBy sep s := by
  have h (m : List Char) : componentsBy sep (String.ofList (m.dropWhile (· = '/')).reverse) =
      componentsBy sep (String.ofList m.reverse) := by
    induction m with
    | nil => rfl
    | cons x m ih =>
        by_cases hx : x = '/'
        · subst hx
          rw [List.dropWhile_cons_of_pos (by simp), ih, List.reverse_cons,
            componentsBy_append_cons hsep, componentsBy_nil, List.append_nil]
        · rw [List.dropWhile_cons_of_neg (by simpa using hx)]
  rw [trimEnd, h, List.reverse_reverse, String.ofList_toList]

theorem componentsBy_join (hsep : sep '/' = true) (base relative : String) :
    componentsBy sep (join base relative) =
      componentsBy sep base ++ componentsBy sep relative := by
  have hr := componentsBy_trimStart hsep relative
  simp only [join]
  split
  · next h =>
      rw [List.isEmpty_iff.1 h, componentsBy_nil] at hr
      rw [componentsBy_trimEnd hsep, ← hr, List.append_nil]
  · rw [componentsBy_append_cons hsep, componentsBy_trimEnd hsep, hr]

theorem components_join (base relative : String) :
    components (join base relative) = components base ++ components relative :=
  componentsBy_join rfl base relative

theorem components_eq_flatMap (s : String) : components s = (slashComponents s).flatMap components := by
  refine (componentsBy_flatMap (fun x hx => ?_) s).symm
  simp_all

theorem flatMap_components_prefix {s : String} {parts : List String} (h : parts <+: slashComponents s) :
    parts.flatMap components <+: components s := by
  obtain ⟨rest, hrest⟩ := h
  rw [components_eq_flatMap s, ← hrest, List.flatMap_append]
  exact List.prefix_append ..

theorem fault?_eq_none_iff {c : String} :
    fault? c = none ↔ c ≠ "." ∧ c ≠ ".." ∧ Text.Blank.allBlank c = false := by
  rw [fault?]
  by_cases hdot : c = "."
  · simp [hdot]
  by_cases hdots : c = ".."
  · simp [hdots]
  · simp [hdot, hdots]

theorem normalize_eq_ok_iff {s p : String} :
    normalize s = .ok p ↔ Char.ofNat 0 ∉ s.toList ∧ components s ≠ [] ∧
      (∀ c ∈ components s, fault? c = none) ∧ p = ofComponents (components s) ∧
      p.length ≤ maxLength := by
  have hs : s.isEmpty = true → components s = [] := fun h => by
    rw [String.isEmpty_iff] at h
    subst h
    exact componentsBy_nil _
  simp only [normalize]
  grind

theorem mem_components {s c : String} (h : c ∈ components s) :
    c ≠ "" ∧ ∀ x ∈ c.toList, x ∈ s.toList ∧ x ≠ '/' ∧ x ≠ '\\' := by
  obtain ⟨hne, hc⟩ := mem_componentsBy h
  refine ⟨hne, fun x hx => ⟨(hc x hx).1, ?_⟩⟩
  simpa using (hc x hx).2

theorem components_ofComponents {s : String} : components (ofComponents (components s)) = components s :=
  componentsBy_ofComponents rfl fun _ hc =>
    ⟨(mem_componentsBy hc).1, fun x hx => ((mem_componentsBy hc).2 x hx).2⟩

theorem slashComponents_ofComponents {s : String} :
    slashComponents (ofComponents (components s)) = components s :=
  componentsBy_ofComponents rfl fun c hc =>
    ⟨(mem_components hc).1, fun x hx => by simpa using ((mem_components hc).2 x hx).2.1⟩

theorem mem_toList_ofComponents {cs : List String} {x : Char} (h : x ∈ (ofComponents cs).toList) :
    x = '/' ∨ ∃ c ∈ cs, x ∈ c.toList := by
  induction cs with
  | nil => simp [ofComponents] at h
  | cons c cs ih =>
      rw [toList_ofComponents_cons] at h
      grind

section Normal

variable {s p : String}

theorem components_of_normalize (h : normalize s = .ok p) : components p = components s := by
  obtain ⟨-, -, -, rfl, -⟩ := normalize_eq_ok_iff.1 h
  exact components_ofComponents

theorem slashComponents_of_normalize (h : normalize s = .ok p) : slashComponents p = components s := by
  obtain ⟨-, -, -, rfl, -⟩ := normalize_eq_ok_iff.1 h
  exact slashComponents_ofComponents

theorem normalize_of_normalize (h : normalize s = .ok p) : normalize p = .ok p := by
  have hc := components_of_normalize h
  obtain ⟨hz, hne, hf, hp, hl⟩ := normalize_eq_ok_iff.1 h
  refine normalize_eq_ok_iff.2 ⟨fun hmem => ?_, by rwa [hc], by rwa [hc], by rwa [hc], hl⟩
  rw [hp] at hmem
  rcases mem_toList_ofComponents hmem with h0 | ⟨c, hcs, hx⟩
  · exact absurd h0 (by decide)
  · exact hz ((mem_components hcs).2 _ hx).1

theorem eq_ofComponents (h : normalize p = .ok p) : p = ofComponents (components p) :=
  (normalize_eq_ok_iff.1 h).2.2.2.1

theorem project?_eq (h : normalize p = .ok p) : ∃ c cs, components p = c :: cs ∧
    project? p = some ("/" ++ c) ∧ normalize ("/" ++ c) = .ok ("/" ++ c) ∧
    components ("/" ++ c) = [c] := by
  obtain ⟨hz, hne, hf, hp, hl⟩ := normalize_eq_ok_iff.1 h
  obtain ⟨c, cs, hcs⟩ := List.exists_cons_of_ne_nil hne
  rw [hcs] at hf hp
  have hmem : c ∈ components p := by rw [hcs]; exact List.mem_cons_self
  obtain ⟨hc, hfree⟩ := mem_components hmem
  have hlist : p.toList = '/' :: (c.toList ++ (ofComponents cs).toList) := by
    rw [← toList_ofComponents_cons, ← hp]
  have hone : components ("/" ++ c) = [c] := by
    have h1 : "/" ++ c = ofComponents [c] := by simp [ofComponents]
    rw [h1]
    refine componentsBy_ofComponents rfl ?_
    intro d hd
    rw [List.mem_singleton] at hd
    subst hd
    exact ⟨hc, fun x hx => by simpa using (hfree x hx).2⟩
  have hslash : ∀ x ∈ c.toList, x ≠ '/' := fun x hx => (hfree x hx).2.1
  refine ⟨c, cs, hcs, ?_, ?_, hone⟩
  · have htake : (c.toList ++ (ofComponents cs).toList).takeWhile (· ≠ '/') = c.toList := by
      rw [List.takeWhile_append_of_pos (by simpa using hslash)]
      cases cs with
      | nil => simp [ofComponents]
      | cons d ds => simp [toList_ofComponents_cons]
    rw [project?]
    rw [hlist]
    simp only [htake]
    rw [if_neg (by simpa using hc)]
    congr 1
    rw [← String.toList_inj]
    simp
  · refine normalize_eq_ok_iff.2 ⟨?_, ?_, ?_, ?_, ?_⟩
    · intro hmem
      have : Char.ofNat 0 = '/' ∨ Char.ofNat 0 ∈ c.toList := by simpa using hmem
      rcases this with h0 | h0
      · exact absurd h0 (by decide)
      · exact hz (hfree _ h0).1
    · rw [hone]; simp
    · rw [hone]
      intro d hd
      rw [List.mem_singleton] at hd
      exact hd ▸ hf c List.mem_cons_self
    · rw [hone]; simp [ofComponents]
    · have hp' := congrArg List.length hlist
      rw [String.length_toList] at hp'
      simp only [String.length_append, List.length_cons, List.length_append, String.length_toList] at hp' ⊢
      have : "/".length = 1 := rfl
      omega

theorem toList_flatten (h : normalize p = .ok p) : ∃ l, p.toList = '/' :: l ∧
    (flatten p).toList = l.map fun c => if c = '/' then '.' else c := by
  obtain ⟨c, cs, hcs, -⟩ := project?_eq h
  have hp := eq_ofComponents h
  refine ⟨c.toList ++ (ofComponents cs).toList, ?_, ?_⟩
  · rw [← toList_ofComponents_cons, ← hcs, ← hp]
  · have hlist : p.toList = '/' :: (c.toList ++ (ofComponents cs).toList) := by
      rw [← toList_ofComponents_cons, ← hcs, ← hp]
    simp only [flatten, withoutSlash, hlist, String.toList_ofList]

theorem length_flatten (h : normalize p = .ok p) : (flatten p).length + 1 = p.length := by
  obtain ⟨l, hl, hf⟩ := toList_flatten h
  rw [← String.length_toList, ← String.length_toList, hf, hl, List.length_map, List.length_cons]

theorem components_flatten (h : normalize p = .ok p) : components (flatten p) = [flatten p] := by
  obtain ⟨l, hl, hf⟩ := toList_flatten h
  obtain ⟨c, cs, hcs, -⟩ := project?_eq h
  have hp : p.toList = '/' :: (c.toList ++ (ofComponents cs).toList) := by
    rw [← toList_ofComponents_cons, ← hcs, ← eq_ofComponents h]
  have hc : c ≠ "" := (mem_components (s := p) (by rw [hcs]; exact List.mem_cons_self)).1
  refine componentsBy_free ?_ ?_
  · intro he
    rw [he] at hf
    obtain rfl : l = c.toList ++ (ofComponents cs).toList := by
      rw [hl] at hp
      exact (List.cons.inj hp).2
    simp_all
  · intro x hx
    rw [hf] at hx
    obtain ⟨y, hy, rfl⟩ := List.mem_map.1 hx
    have hback : y ≠ '\\' := by
      rintro rfl
      have hmem : '\\' ∈ (ofComponents (components p)).toList := by
        rw [← eq_ofComponents h, hl]
        exact List.mem_cons_of_mem _ hy
      rcases mem_toList_ofComponents hmem with h0 | ⟨d, hd, hx⟩
      · exact absurd h0 (by decide)
      · exact ((mem_components hd).2 _ hx).2.2 rfl
    by_cases hs : y = '/' <;> simp [hs, hback]

end Normal

end DraftKeeper.Path
