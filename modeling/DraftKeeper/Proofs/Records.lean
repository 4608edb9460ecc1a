import DraftKeeper.Json.Decode
import Mathlib.Data.List.Nodup

namespace DraftKeeper.Json

def column (n : String) (fields : List (String × Json)) : List (String × Json) := fields.filter fun f => f.1 = n

def Agree (names : List String) (own fields : List (String × Json)) : Prop :=
  ∀ n ∈ names, column n fields = column n own

/-- An object with the fields of another one, in any order, and further ones under names that are not declared. -/
inductive Extends (declared : List String) : Json → Json → Prop
  | mk {own extra fields : List (String × Json)} (hperm : fields.Perm (own ++ extra))
      (hextra : ∀ f ∈ extra, f.1 ∉ declared) : Extends declared (.object own) (.object fields)

variable {n tag : String} {v : Json} {declared : List String} {own extra fields : List (String × Json)}

@[simp] theorem column_nil (n : String) : column n [] = [] := rfl

@[simp]
theorem column_cons (n m : String) (v : Json) (fields : List (String × Json)) :
    column n ((m, v) :: fields) = if m = n then (m, v) :: column n fields else column n fields := by
  simp [column, List.filter_cons]

@[simp]
theorem column_append (n : String) (fields more : List (String × Json)) :
    column n (fields ++ more) = column n fields ++ column n more := List.filter_append ..

theorem column_eq_nil (h : ∀ f ∈ fields, f.1 ≠ n) : column n fields = [] := by
  simpa [column, List.filter_eq_nil_iff] using fun _ _ hf => h _ hf

theorem column_filter_ne (h : n ≠ tag) (fields : List (String × Json)) :
    column n (fields.filter fun f => f.1 ≠ tag) = column n fields := by
  rw [column, column, List.filter_filter]
  refine List.filter_congr fun f _ => ?_
  by_cases hf : f.1 = n
  · simp [hf, h]
  · simp [hf]

theorem field?_eq (n : String) (fields : List (String × Json)) :
    field? n fields = (column n fields).head?.map (·.2) := by
  induction fields with
  | nil => rfl
  | cons f fs ih =>
      rw [field?] at ih ⊢
      rw [column_cons, List.lookup_cons, ih]
      by_cases hf : f.1 = n
      · rw [if_pos hf, beq_iff_eq.2 hf.symm]
        rfl
      · rw [if_neg hf, beq_eq_false_iff_ne.2 (Ne.symm hf)]

theorem length_column_le_one (h : (fields.map (·.1)).Nodup) (n : String) : (column n fields).length ≤ 1 := by
  have hcount := List.nodup_iff_count_le_one.1 h n
  rwa [List.count, List.countP_map, List.countP_eq_length_filter] at hcount

theorem Agree.of_perm (hnodup : (own.map (·.1)).Nodup) (hperm : fields.Perm (own ++ extra))
    (hextra : ∀ f ∈ extra, f.1 ∉ declared) : Agree declared own fields := by
  intro n hn
  have hcolumn : (column n fields).Perm (column n own) := by
    have hfilter : (column n fields).Perm (column n (own ++ extra)) := hperm.filter _
    have hnone : column n extra = [] := column_eq_nil fun f hf hname => hextra f hf (hname ▸ hn)
    rwa [column_append, hnone, List.append_nil] at hfilter
  -- there is one field of the name at most, so there is nothing left to order
  rcases hown : column n own with _ | ⟨f, _ | ⟨g, fs⟩⟩
  · exact List.perm_nil.1 (hown ▸ hcolumn)
  · exact List.perm_singleton.1 (hown ▸ hcolumn)
  · have := length_column_le_one hnodup n
    simp [hown] at this

theorem Extends.agree (h : Extends declared (.object own) v) (hnodup : (own.map (·.1)).Nodup) :
    ∃ fields, v = .object fields ∧ Agree declared own fields := by
  cases h with
  | mk hperm hextra => exact ⟨_, rfl, .of_perm hnodup hperm hextra⟩

theorem Extends.refl (declared : List String) (own : List (String × Json)) :
    Extends declared (.object own) (.object own) := by
  have hperm : own.Perm (own ++ []) := by rw [List.append_nil]
  exact .mk hperm (by simp)

theorem Agree.without (h : Agree (tag :: declared) ((tag, v) :: own) fields) (htag : tag ∉ declared) :
    Agree declared own (fields.filter fun f => f.1 ≠ tag) := by
  intro n hn
  have hne : tag ≠ n := fun heq => htag (heq ▸ hn)
  rw [column_filter_ne hne.symm, h n (List.mem_cons_of_mem _ hn), column_cons, if_neg hne]

theorem Agree.need {α : Type} (h : Agree declared own fields) (hn : n ∈ declared) (decode : Decoder α) :
    need fields n decode = need own n decode := by
  rw [Json.need, Json.need, field?_eq, field?_eq, h n hn]

theorem Agree.getOr {α : Type} (h : Agree declared own fields) (hn : n ∈ declared) (absent : α)
    (decode : Decoder α) : getOr fields n absent decode = getOr own n absent decode := by
  rw [Json.getOr, Json.getOr, field?_eq, field?_eq, h n hn]

theorem checkFields_eq_ok {ms : List Member} {seen : List String} (h : ∀ m ∈ ms, column m.name fields = [] ∨
      m.name ∉ seen ∧ ∃ v, column m.name fields = [(m.name, v)] ∧ m.check v = .ok ()) :
    checkFields ms seen fields = .ok () := by
  induction fields generalizing seen with
  | nil => rfl
  | cons f fs ih =>
      obtain ⟨n, v⟩ := f
      have hskip : ∀ m ∈ ms, m.name ≠ n → column m.name ((n, v) :: fs) = column m.name fs := fun m _ hne => by
        rw [column_cons, if_neg hne.symm]
      cases hfind : ms.find? fun m => m.name = n with
      | none =>
          simp only [checkFields, hfind]
          refine ih fun m hm => ?_
          rw [← hskip m hm (by simpa using List.find?_eq_none.1 hfind m hm)]
          exact h m hm
      | some m =>
          have hm := List.mem_of_find?_eq_some hfind
          have hname : m.name = n := by simpa using List.find?_some hfind
          have hcolumn := h m hm
          rw [hname, column_cons, if_pos rfl] at hcolumn
          obtain ⟨hseen, w, hw, hcheck⟩ := hcolumn.resolve_left (by simp)
          obtain ⟨hv, hrest⟩ := List.cons.inj hw
          obtain rfl : v = w := congrArg Prod.snd hv
          have hseen' : seen.contains n = false := by simpa using hseen
          simp only [checkFields, hfind, hseen', hcheck]
          refine ih fun m' hm' => ?_
          by_cases hne : m'.name = n
          · exact .inl (hne ▸ hrest)
          · rw [← hskip m' hm' hne]
            refine (h m' hm').imp_right fun hones => ⟨?_, hones.2⟩
            simpa [hne] using hones.1

theorem check_of {α : Type} {a : α} {decode : Decoder α} (n : String) (absent : Bool) (h : decode v = .ok a) :
    (Member.of n decode absent).check v = .ok () := by
  change (decode v).map _ = _
  rw [h]
  rfl

theorem Range.holds_iff {range : Range} {i : Int} : range.holds i ↔ range.least ≤ i ∧ i ≤ range.greatest := by
  simp [Range.holds]

theorem asInteger_eq {range : Range} {i : Int} (h : range.holds i) : asInteger range (.integer i) = .ok i := by
  rw [asInteger, if_pos h]

theorem asNatural_eq {range : Range} {i : Nat} (h : range.holds i) : asNatural range (.integer i) = .ok i := by
  rw [asNatural, asInteger_eq h]
  rfl

/-- The fields that a layout declares stand at most once, with values that pass their tests. -/
def Layout.Fits (l : Layout) (own : List (String × Json)) : Prop := ∀ m ∈ l.members,
  column m.name own = [] ∨ ∃ v, column m.name own = [(m.name, v)] ∧ m.check v = .ok ()

theorem Layout.Fits.ofFields {l : Layout} (h : l.Fits own) (hagree : Agree l.names own fields) :
    l.ofFields fields = .ok fields := by
  have hcheck : checkFields l.members [] fields = .ok () := checkFields_eq_ok fun m hm => by
    rw [hagree m.name (List.mem_map_of_mem hm)]
    exact (h m hm).imp_right fun hone => ⟨List.not_mem_nil, hone⟩
  rw [Layout.ofFields, hcheck]
  rfl

theorem splitTag_of_found {decode : Decoder String} {t : String} (h : column tag fields = []) :
    splitTag tag decode (some t) fields = .ok (some t, fields.filter fun f => f.1 ≠ tag) := by
  induction fields with
  | nil => rfl
  | cons f fs ih =>
      obtain ⟨n, v⟩ := f
      rw [column_cons] at h
      by_cases hn : n = tag
      · simp [hn] at h
      · rw [if_neg hn] at h
        rw [splitTag, if_neg hn, ih h]
        simp [hn, Except.map]

theorem splitTag_eq {decode : Decoder String} {t : String} (h : column tag fields = [(tag, v)])
    (hdecode : decode v = .ok t) :
    splitTag tag decode none fields = .ok (some t, fields.filter fun f => f.1 ≠ tag) := by
  induction fields with
  | nil => cases h
  | cons f fs ih =>
      obtain ⟨n, w⟩ := f
      rw [column_cons] at h
      by_cases hn : n = tag
      · subst hn
        rw [if_pos rfl] at h
        obtain ⟨hw, hrest⟩ := List.cons.inj h
        obtain rfl : w = v := congrArg Prod.snd hw
        simp only [splitTag, if_pos, hdecode, splitTag_of_found hrest]
        simp
      · rw [if_neg hn] at h
        rw [splitTag, if_neg hn, ih h]
        simp [hn, Except.map]

theorem taggedFields_eq {l : Layout} (variants : List (String × Layout)) (name : String) (form : TagForm)
    (hvariant : variants.lookup tag = some l) (hfits : l.Fits own) (hnames : ("type" :: l.names).Nodup)
    (hown : column "type" own = []) (hagree : Agree ("type" :: l.names) (("type", .string tag) :: own) fields) :
    ∃ rest, taggedFields name form variants (.object fields) = .ok (tag, rest) ∧ Agree l.names own rest := by
  have hknown : (variants.map (·.1)).contains tag = true := by
    obtain ⟨before, after, rfl, -⟩ := List.lookup_eq_some_iff.1 hvariant
    simp
  have htype : column "type" fields = [("type", .string tag)] := by
    rw [hagree "type" List.mem_cons_self, column_cons, if_pos rfl, hown]
  have hrest := hagree.without (List.nodup_cons.1 hnames).1
  have htag : asTag form (variants.map (·.1)) (.string tag) = .ok tag := by rw [asTag, hknown, if_pos rfl]
  refine ⟨fields.filter fun f => f.1 ≠ "type", ?_, hrest⟩
  change (splitTag "type" (asTag form (variants.map (·.1))) none fields >>= _) = _
  rw [splitTag_eq htype htag]
  change (((variants.lookup tag).getD _).ofFields _).map _ = _
  rw [hvariant, Option.getD_some, hfits.ofFields hrest]
  rfl

end DraftKeeper.Json
