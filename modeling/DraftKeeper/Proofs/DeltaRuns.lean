import DraftKeeper.Draft
import DraftKeeper.Proofs.OffsetUnits
import DraftKeeper.Proofs.TextEncoding

namespace DraftKeeper

namespace Delta

variable {e : Delta} {u : TextUnit} {text : String} {l r : List Char}

def unitsAfter (u : TextUnit) (us : List Nat) : Delta → List Nat
  | .insert n text => us.take n ++ u.units text.toList ++ us.drop n
  | .remove n count =>
    us.take n ++ us.drop (TextUnit.roundUp us (min us.length (n + count.toNat)))

def spliceUnits (e : Delta) (u : TextUnit) (us : List Nat) :
    Except OutOfRange (Option (List Nat)) :=
  if e.isEffective then
    if us.length < e.offset ∨ TextUnit.insidePair us e.offset then
      .error ⟨e.offset, us.length, u⟩
    else .ok (some (unitsAfter u us e))
  else .ok none

def inserted : Delta → String
  | .insert _ text => text
  | .remove .. => ""

def removed (u : TextUnit) : Delta → List Char → List Char
  | .insert .., _ => []
  | .remove _ count, cs => u.take count.toNat cs

/-- The bytes at which an edit cuts a text: where it begins, and where what it takes away ends. -/
def cut? (e : Delta) (u : TextUnit) (text : String) : Option (Nat × Nat) :=
  (u.byteIndex? text e.offset).map fun i =>
    match e with
    | .insert .. => (i, i)
    | .remove _ count => (i, u.advance text i count.toNat)

theorem splice_eq_some_iff {changed : String} : e.splice u text = .ok (some changed) ↔
    e.isEffective = true ∧ ∃ l r, u.splitAt? e.offset text.toList = some (l, r) ∧
      changed = String.ofList (l ++ e.atHead u r) := by
  constructor
  · intro h
    by_cases he : e.isEffective = true
    · rw [splice, if_pos he] at h
      cases hs : u.splitAt? e.offset text.toList with
      | none => rw [hs] at h; cases h
      | some parts =>
          rw [hs] at h
          cases h
          exact ⟨he, parts.1, parts.2, rfl, rfl⟩
    · rw [splice, if_neg he] at h
      cases h
  · rintro ⟨he, l, r, hs, rfl⟩
    rw [splice, if_pos he, hs]

section Units

theorem spliceUnits_of_split (he : e.isEffective = true)
    (h : u.splitAt? e.offset text.toList = some (l, r)) :
    e.spliceUnits u (u.units text.toList) = .ok (some (u.units (l ++ e.atHead u r))) := by
  have hin : ¬ ((u.units text.toList).length < e.offset ∨
      TextUnit.insidePair (u.units text.toList) e.offset = true) := by
    rw [TextUnit.length_units, ← TextUnit.splitAt?_eq_none_iff, h]
    exact Option.some_ne_none _
  obtain ⟨htext, hoff⟩ := TextUnit.splitAt?_eq_some h
  rw [← TextUnit.length_units] at hoff
  rw [spliceUnits, if_pos he, if_neg hin, ← htext, TextUnit.units_append]
  cases e with
  | insert n added =>
      change _ = n at hoff
      simp only [unitsAfter, atHead, ← hoff, List.take_left, List.drop_left, TextUnit.units_append,
        List.append_assoc]
  | remove n count =>
      change _ = n at hoff
      simp only [unitsAfter, atHead, ← hoff, List.length_append, Nat.add_min_add_left,
        TextUnit.roundUp_append_right, List.drop_length_add_append, List.take_left,
        TextUnit.units_append, TextUnit.units_drop]

theorem spliceUnits_of_not_split (he : e.isEffective = true)
    (h : u.splitAt? e.offset text.toList = none) :
    e.spliceUnits u (u.units text.toList) = .error ⟨e.offset, u.length text.toList, u⟩ := by
  rw [TextUnit.splitAt?_eq_none_iff, ← TextUnit.length_units] at h
  rw [spliceUnits, if_pos he, if_pos h, TextUnit.length_units]

theorem splice_eq_spliceUnits (e : Delta) (u : TextUnit) (text : String) :
    e.splice u text = (e.spliceUnits u (u.units text.toList)).map
      (Option.map fun us => String.ofList (TextUnit.ofUnits us)) := by
  by_cases he : e.isEffective = true
  · rw [splice, if_pos he]
    cases h : u.splitAt? e.offset text.toList with
    | none => rw [spliceUnits_of_not_split he h]; rfl
    | some s => rw [spliceUnits_of_split he h, Except.map, Option.map_some, TextUnit.ofUnits_units]
  · rw [splice, if_neg he, spliceUnits, if_neg he]
    rfl

theorem units_ofUnits_of_spliceUnits {us : List Nat}
    (h : e.spliceUnits u (u.units text.toList) = .ok (some us)) :
    u.units (TextUnit.ofUnits us) = us := by
  by_cases he : e.isEffective = true
  · cases hs : u.splitAt? e.offset text.toList with
    | none => cases (spliceUnits_of_not_split he hs).symm.trans h
    | some s =>
        cases (spliceUnits_of_split he hs).symm.trans h
        rw [TextUnit.ofUnits_units]
  · rw [spliceUnits, if_neg he] at h
    cases h

end Units

section Cuts

theorem removed_append (e : Delta) (u : TextUnit) (cs : List Char) :
    ∃ kept, removed u e cs ++ kept = cs ∧ e.atHead u cs = e.inserted.toList ++ kept := by
  cases e with
  | insert n text => exact ⟨cs, rfl, rfl⟩
  | remove n count => exact ⟨u.drop count.toNat cs, TextUnit.take_append_drop .., rfl⟩

theorem cut?_of_split (h : u.splitAt? e.offset text.toList = some (l, r)) :
    e.cut? u text =
      some (TextUnit.byteLength l, TextUnit.byteLength (l ++ removed u e r)) := by
  obtain ⟨htext, -⟩ := TextUnit.splitAt?_eq_some h
  rw [cut?, TextUnit.byteIndex?, h, TextUnit.byteLength_append]
  cases e with
  | insert n added => rfl
  | remove n count =>
      simp only [Option.map_some, TextUnit.advance, ← htext, TextUnit.fromByte_append, removed]

/-- Both cuts lie between characters, in order; the edited text is what lies before and behind
them, with what is inserted in between. -/
theorem splice_of_cut {i j : Nat} (he : e.isEffective = true) (h : e.cut? u text = some (i, j)) :
    i ≤ j ∧ String.Pos.Raw.IsValid text ⟨i⟩ ∧ String.Pos.Raw.IsValid text ⟨j⟩ ∧
      ∃ changed, e.splice u text = .ok (some changed) ∧
        Text.Utf8.encode changed = (Text.Utf8.encode text).take i ++ Text.Utf8.encode e.inserted ++
          (Text.Utf8.encode text).drop j := by
  cases hs : u.splitAt? e.offset text.toList with
  | none => rw [cut?, TextUnit.byteIndex?, hs] at h; cases h
  | some s =>
      obtain ⟨l, r⟩ := s
      obtain ⟨rfl, rfl⟩ := Prod.mk.inj (Option.some.inj ((cut?_of_split hs).symm.trans h))
      obtain ⟨htext, -⟩ := TextUnit.splitAt?_eq_some hs
      obtain ⟨kept, hkept, hhead⟩ := removed_append e u r
      have hbehind : (l ++ removed u e r) ++ kept = text.toList := by
        rw [List.append_assoc, hkept, htext]
      have hlist : String.ofList text.toList = text := String.ofList_toList
      refine ⟨?_, ?_, ?_, String.ofList (l ++ e.atHead u r), ?_, ?_⟩
      · rw [TextUnit.byteLength_append]
        exact Nat.le_add_right ..
      · have hvalid := TextUnit.isValid_byteLength htext
        rwa [hlist] at hvalid
      · have hvalid := TextUnit.isValid_byteLength hbehind
        rwa [hlist] at hvalid
      · rw [splice, if_pos he, hs]
      · have hbefore : (Text.Utf8.encode text).take (TextUnit.byteLength l) =
            Text.Utf8.encodeChars l := by
          rw [Text.Utf8.encode, ← htext, TextUnit.take_encodeChars]
        have hafter : (Text.Utf8.encode text).drop (TextUnit.byteLength (l ++ removed u e r)) =
            Text.Utf8.encodeChars kept := by
          rw [Text.Utf8.encode, ← hbehind, TextUnit.drop_encodeChars]
        rw [hbefore, hafter, Text.Utf8.encode, String.toList_ofList, hhead,
          TextUnit.encodeChars_append, TextUnit.encodeChars_append, List.append_assoc]
        rfl

theorem splice_of_not_cut (he : e.isEffective = true) (h : e.cut? u text = none) :
    e.splice u text = .error ⟨e.offset, u.length text.toList, u⟩ := by
  rw [cut?, TextUnit.byteIndex?, Option.map_eq_none_iff, Option.map_eq_none_iff] at h
  rw [splice, if_pos he, h]

end Cuts

/-- The units of a text under edit, and whether an edit has changed them. -/
structure UnitRun where
  units : List Nat
  changed : Bool

def UnitRun.step (u : TextUnit) (s : UnitRun) (e : Delta) : UnitRun :=
  match e.spliceUnits u s.units with
  | .ok (some us) => ⟨us, true⟩
  | .ok none | .error _ => s

end Delta

namespace Draft

variable {d d' : Draft} {u : TextUnit} {s : Delta.UnitRun}

/-- A draft after an edit, whether that has an effect, has none or fails. -/
def step (u : TextUnit) (d : Draft) (e : Delta) : Draft :=
  match d.apply e u with
  | .ok (some changed) => changed
  | .ok none | .error _ => d

def applyAll (d : Draft) (u : TextUnit) (es : List Delta) : Draft := es.foldl (step u) d

def unitRun (d : Draft) (u : TextUnit) (es : List Delta) : Delta.UnitRun :=
  es.foldl (Delta.UnitRun.step u) ⟨u.units d.text.toList, false⟩

/-- A draft that began as `d` stands where the units do. -/
structure Matches (u : TextUnit) (d d' : Draft) (s : Delta.UnitRun) : Prop where
  units : u.units d'.text.toList = s.units
  draft : d' = if s.changed then d.replace (Text.Utf8.encode d'.text) else d

@[simp] theorem text_replace (d : Draft) (text : String) :
    (d.replace (Text.Utf8.encode text)).text = text := Text.Utf8.decode_encode text

theorem replace_replace (d : Draft) (content content' : Bytes) :
    (d.replace content).replace content' = d.replace content' := rfl

theorem apply_eq_spliceUnits (d : Draft) (e : Delta) (u : TextUnit) :
    d.apply e u = (e.spliceUnits u (u.units d.text.toList)).map
      (Option.map fun us => d.replace (Text.Utf8.encodeChars (TextUnit.ofUnits us))) := by
  rw [apply, Delta.splice_eq_spliceUnits]
  rcases e.spliceUnits u (u.units d.text.toList) with cause | _ | us
  · rfl
  · rfl
  · simp only [Except.map, Option.map_some, Text.Utf8.encode, String.toList_ofList]

theorem step_of_spliceUnits {e : Delta} {us : List Nat}
    (h : e.spliceUnits u (u.units d.text.toList) = .ok (some us)) :
    d.step u e = d.replace (Text.Utf8.encode (String.ofList (TextUnit.ofUnits us))) := by
  rw [step, apply_eq_spliceUnits, h, Text.Utf8.encode, String.toList_ofList]
  rfl

theorem Matches.step (h : Matches u d d' s) (e : Delta) :
    Matches u d (d'.step u e) (s.step u e) := by
  rw [Delta.UnitRun.step, ← h.units]
  cases hs : e.spliceUnits u (u.units d'.text.toList) with
  | error cause =>
      rw [Draft.step, apply_eq_spliceUnits, hs]
      exact h
  | ok after =>
      cases after with
      | none =>
          rw [Draft.step, apply_eq_spliceUnits, hs]
          exact h
      | some us =>
          rw [step_of_spliceUnits hs]
          constructor
          · rw [text_replace, String.toList_ofList, Delta.units_ofUnits_of_spliceUnits hs]
          · rw [text_replace, if_pos rfl, h.draft]
            split
            · rw [replace_replace]
            · rfl

theorem Matches.run (h : Matches u d d' s) (es : List Delta) :
    Matches u d (es.foldl (Draft.step u) d') (es.foldl (Delta.UnitRun.step u) s) := by
  induction es generalizing d' s with
  | nil => exact h
  | cons e es ih => exact ih (h.step e)

theorem applyAll_matches (d : Draft) (u : TextUnit) (es : List Delta) :
    Matches u d (d.applyAll u es) (d.unitRun u es) := Matches.run ⟨rfl, rfl⟩ es

theorem Matches.encode (h : Matches u d d' s) :
    Text.Utf8.encode d'.text = Text.Utf8.encodeChars (TextUnit.ofUnits s.units) := by
  rw [← h.units, TextUnit.ofUnits_units, Text.Utf8.encode]

/-- An effective edit cuts the text between characters and in order, and joins what lies before and
behind the cuts with what is inserted; one whose offset has no byte is out of range. -/
def CutsBetweenCharacters (d : Draft) (e : Delta) (u : TextUnit) : Prop :=
  match e.cut? u d.text with
  | none => d.apply e u = .error ⟨e.offset, u.length d.text.toList, u⟩
  | some (i, j) =>
    i ≤ j ∧ String.Pos.Raw.IsValid d.text ⟨i⟩ ∧ String.Pos.Raw.IsValid d.text ⟨j⟩ ∧
      d.apply e u = .ok (some (d.replace ((Text.Utf8.encode d.text).take i ++
        Text.Utf8.encode e.inserted ++ (Text.Utf8.encode d.text).drop j)))

theorem cutsBetweenCharacters {e : Delta} (d : Draft) (u : TextUnit)
    (he : e.isEffective = true) : d.CutsBetweenCharacters e u := by
  rw [CutsBetweenCharacters]
  cases hcut : e.cut? u d.text with
  | none =>
      change d.apply e u = _
      rw [apply, Delta.splice_of_not_cut he hcut]
  | some cut =>
      obtain ⟨hle, hi, hj, changed, hsplice, hbytes⟩ := Delta.splice_of_cut he hcut
      refine ⟨hle, hi, hj, ?_⟩
      rw [apply, hsplice, ← hbytes]

/-- Edits of a draft in any number, going on after those that fail, are the same edits of the list
of its units: in what the text is after them, in what the next edit does to it or how that fails,
and in what the draft holds, which is the encoded text as soon as one edit changed something and
the bytes as they were before that. The text is cut between characters only. -/
theorem applyAll_agrees_with_units (d : Draft) (u : TextUnit) (es : List Delta) :
    u.units (d.applyAll u es).text.toList = (d.unitRun u es).units ∧
      d.applyAll u es =
        (if (d.unitRun u es).changed then
          d.replace (Text.Utf8.encodeChars (TextUnit.ofUnits (d.unitRun u es).units))
        else d) ∧
      ∀ e : Delta,
        (d.applyAll u es).apply e u = (e.spliceUnits u (d.unitRun u es).units).map
          (Option.map fun us =>
            (d.applyAll u es).replace (Text.Utf8.encodeChars (TextUnit.ofUnits us))) ∧
        (e.isEffective = true → (d.applyAll u es).CutsBetweenCharacters e u) := by
  have hrun := applyAll_matches d u es
  refine ⟨hrun.units, ?_, fun e => ⟨?_, cutsBetweenCharacters _ u⟩⟩
  · rw [← hrun.encode]
    exact hrun.draft
  · rw [← hrun.units]
    exact apply_eq_spliceUnits ..

end Draft

end DraftKeeper
