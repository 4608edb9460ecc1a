import DraftKeeper.TextUnit
import DraftKeeper.Text.Utf8

namespace DraftKeeper.TextUnit

variable {u : TextUnit} {c : Char} {cs l r : List Char} {us vs : List Nat} {n v : Nat}

def codes : TextUnit → Char → List Nat
  | .char, c => [c.toNat]
  | .utf16, c =>
    if c.toNat < 0x10000 then [c.toNat]
    else [0xD800 + (c.toNat - 0x10000) / 0x400, 0xDC00 + (c.toNat - 0x10000) % 0x400]

def units (u : TextUnit) (cs : List Char) : List Nat := cs.flatMap u.codes

def isTrail (v : Nat) : Bool := decide (0xDC00 ≤ v ∧ v < 0xE000)

def insidePair (us : List Nat) (n : Nat) : Bool := us[n]?.any isTrail

def roundUp (us : List Nat) (n : Nat) : Nat := if insidePair us n then n + 1 else n

def ofUnits : List Nat → List Char
  | [] => []
  | [v] => [Char.ofNat v]
  | v :: w :: us =>
    if isTrail w then
      Char.ofNat (0x10000 + (v - 0xD800) * 0x400 + (w - 0xDC00)) :: ofUnits us
    else Char.ofNat v :: ofUnits (w :: us)

section Characters

theorem isTrail_toNat (c : Char) : isTrail c.toNat = false := by
  have hvalid : c.toNat < 0xD800 ∨ 0xDFFF < c.toNat ∧ c.toNat < 0x110000 := c.valid
  exact decide_eq_false (by omega)

theorem codes_cases (u : TextUnit) (c : Char) :
    (u.codes c = [c.toNat] ∧ u.width c = 1) ∨
      ∃ v w, u.codes c = [v, w] ∧ u.width c = 2 ∧ isTrail v = false ∧ isTrail w = true ∧
        0x10000 + (v - 0xD800) * 0x400 + (w - 0xDC00) = c.toNat := by
  have hvalid : c.toNat < 0xD800 ∨ 0xDFFF < c.toNat ∧ c.toNat < 0x110000 := c.valid
  cases u with
  | char => exact .inl ⟨rfl, rfl⟩
  | utf16 =>
      by_cases h : c.toNat < 0x10000
      · exact .inl ⟨if_pos h, if_pos h⟩
      · exact .inr ⟨_, _, if_neg h, if_neg h, decide_eq_false (by omega), decide_eq_true (by omega),
          by omega⟩

theorem length_codes (u : TextUnit) (c : Char) : (u.codes c).length = u.width c := by
  rcases codes_cases u c with ⟨hc, hw⟩ | ⟨v, w, hc, hw, -⟩
  · rw [hc, hw]
    rfl
  · rw [hc, hw]
    rfl

@[simp] theorem units_nil : u.units [] = [] := rfl

@[simp] theorem units_cons : u.units (c :: cs) = u.codes c ++ u.units cs := List.flatMap_cons

@[simp] theorem units_append : u.units (l ++ r) = u.units l ++ u.units r := List.flatMap_append

@[simp] theorem length_units (u : TextUnit) (cs : List Char) :
    (u.units cs).length = u.length cs := by
  induction cs with
  | nil => rfl
  | cons c cs ih => rw [units_cons, List.length_append, length_codes, ih]; rfl

theorem width_pos (u : TextUnit) (c : Char) : 0 < u.width c := by
  cases u with
  | char => exact Nat.one_pos
  | utf16 => rw [width]; split <;> decide

theorem width_le_two (u : TextUnit) (c : Char) : u.width c ≤ 2 := by
  cases u with
  | char => exact Nat.le_succ 1
  | utf16 => rw [width]; split <;> decide

theorem length_cons : u.length (c :: cs) = u.width c + u.length cs := rfl

theorem length_append : u.length (l ++ r) = u.length l + u.length r := by
  simp only [← length_units, units_append, List.length_append]

theorem length_eq_zero_iff : u.length cs = 0 ↔ cs = [] := by
  cases cs with
  | nil => exact iff_of_true rfl rfl
  | cons c cs =>
      have hpos := u.width_pos c
      rw [length_cons]
      exact iff_of_false (by omega) (List.cons_ne_nil c cs)

end Characters

section Pairs

@[simp] theorem insidePair_nil : insidePair [] n = false := rfl

theorem insidePair_cons_zero : insidePair (v :: us) 0 = isTrail v := rfl

theorem insidePair_append_right : insidePair (us ++ vs) (us.length + n) = insidePair vs n := by
  rw [insidePair, List.getElem?_append_right (Nat.le_add_right ..), Nat.add_sub_cancel_left]
  rfl

theorem roundUp_append_right :
    roundUp (us ++ vs) (us.length + n) = us.length + roundUp vs n := by
  rw [roundUp, roundUp, insidePair_append_right]
  split <;> omega

theorem insidePair_units_zero (u : TextUnit) (cs : List Char) :
    insidePair (u.units cs) 0 = false := by
  cases cs with
  | nil => rfl
  | cons c cs =>
      rw [units_cons]
      rcases codes_cases u c with ⟨hc, -⟩ | ⟨v, w, hc, -, hv, -⟩
      · rw [hc]
        exact isTrail_toNat c
      · rw [hc]
        exact hv

theorem insidePair_cons_units (h : n + 1 < u.width c) :
    insidePair (u.units (c :: cs)) (n + 1) = true := by
  rcases codes_cases u c with ⟨-, hw⟩ | ⟨v, w, hc, hw, -, hpair, -⟩
  · omega
  · obtain rfl : n = 0 := by omega
    rw [units_cons, hc]
    exact hpair

theorem insidePair_units_cons (h : u.width c ≤ n) :
    insidePair (u.units (c :: cs)) n = insidePair (u.units cs) (n - u.width c) := by
  obtain ⟨k, rfl⟩ := Nat.exists_eq_add_of_le h
  rw [units_cons, Nat.add_sub_cancel_left, ← length_codes, insidePair_append_right]

end Pairs

section Offsets

theorem splitAt?_eq_none_iff :
    u.splitAt? n cs = none ↔ u.length cs < n ∨ insidePair (u.units cs) n = true := by
  induction cs generalizing n with
  | nil => cases n <;> simp [splitAt?, length]
  | cons c cs ih =>
      cases n with
      | zero => simp [splitAt?, insidePair_units_zero, -units_cons]
      | succ n =>
          rw [splitAt?]
          split
          · next hw => exact iff_of_true rfl (.inr (insidePair_cons_units hw))
          · next hw =>
              have hlen : u.length (c :: cs) = u.width c + u.length cs := rfl
              rw [Option.map_eq_none_iff, ih, insidePair_units_cons (Nat.le_of_not_lt hw), hlen]
              refine or_congr_left ?_
              omega

theorem units_drop (u : TextUnit) (n : Nat) (cs : List Char) :
    u.units (u.drop n cs) =
      (u.units cs).drop (roundUp (u.units cs) (min (u.units cs).length n)) := by
  induction cs generalizing n with
  | nil => cases n <;> rfl
  | cons c cs ih =>
      cases n with
      | zero => rw [Nat.min_zero, roundUp, insidePair_units_zero]; rfl
      | succ n =>
          have hlen : (u.units (c :: cs)).length = (u.codes c).length + (u.units cs).length := by
            rw [units_cons, List.length_append]
          have hwidth := length_codes u c
          by_cases hw : n + 1 < u.width c
          · -- only the first unit of a pair is to go: the pair goes as a whole
            have hmin : min (u.units (c :: cs)).length (n + 1) = n + 1 := by omega
            have hn : n + 1 + 1 = (u.codes c).length := by
              rcases codes_cases u c with ⟨-, h⟩ | ⟨v, w, -, h, -⟩ <;> omega
            have hzero : n + 1 - u.width c = 0 := by omega
            rw [hmin, roundUp, if_pos (insidePair_cons_units hw), hn, units_cons, List.drop_left,
              drop, hzero]
            cases cs <;> rfl
          · have hmin : min (u.units (c :: cs)).length (n + 1) =
                (u.codes c).length + min (u.units cs).length (n + 1 - u.width c) := by omega
            rw [hmin, units_cons, roundUp_append_right, List.drop_length_add_append, drop, ih]

end Offsets

section Decoding

theorem ofUnits_cons_of_not_trail (h : insidePair us 0 = false) :
    ofUnits (v :: us) = Char.ofNat v :: ofUnits us := by
  cases us with
  | nil => rfl
  | cons w us =>
      rw [insidePair_cons_zero] at h
      rw [ofUnits, h]
      rfl

@[simp] theorem ofUnits_units (u : TextUnit) (cs : List Char) : ofUnits (u.units cs) = cs := by
  induction cs with
  | nil => rfl
  | cons c cs ih =>
      rw [units_cons]
      rcases codes_cases u c with ⟨hc, -⟩ | ⟨v, w, hc, -, -, hw, hval⟩
      · rw [hc, List.singleton_append, ofUnits_cons_of_not_trail (insidePair_units_zero u cs),
          Char.ofNat_toNat, ih]
      · rw [hc, List.cons_append, List.singleton_append, ofUnits, if_pos hw, hval,
          Char.ofNat_toNat, ih]

end Decoding

section Cuts

@[simp] theorem byteLength_append : byteLength (l ++ r) = byteLength l + byteLength r := by
  induction l with
  | nil => exact (Nat.zero_add _).symm
  | cons c l ih =>
      change c.utf8Size + byteLength (l ++ r) = c.utf8Size + byteLength l + byteLength r
      rw [ih, Nat.add_assoc]

theorem length_encodeChars (cs : List Char) :
    (Text.Utf8.encodeChars cs).length = byteLength cs := by
  induction cs with
  | nil => rfl
  | cons c cs ih =>
      rw [Text.Utf8.encodeChars, List.flatMap_cons, List.length_append,
        String.length_utf8EncodeChar]
      exact congrArg (c.utf8Size + ·) ih

theorem encodeChars_append :
    Text.Utf8.encodeChars (l ++ r) = Text.Utf8.encodeChars l ++ Text.Utf8.encodeChars r :=
  List.flatMap_append

theorem take_encodeChars :
    (Text.Utf8.encodeChars (l ++ r)).take (byteLength l) = Text.Utf8.encodeChars l := by
  rw [encodeChars_append, ← length_encodeChars, List.take_left]

theorem drop_encodeChars :
    (Text.Utf8.encodeChars (l ++ r)).drop (byteLength l) = Text.Utf8.encodeChars r := by
  rw [encodeChars_append, ← length_encodeChars, List.drop_left]

theorem fromByte_append : fromByte (byteLength l) (l ++ r) = r := by
  induction l with
  | nil => cases r <;> rfl
  | cons c l ih =>
      have hpos := c.utf8Size_pos
      have hsize : byteLength (c :: l) = c.utf8Size + byteLength l := rfl
      rw [List.cons_append, fromByte, if_neg (by omega), hsize, Nat.add_sub_cancel_left, ih]

theorem utf8ByteSize_ofList (cs : List Char) : (String.ofList cs).utf8ByteSize = byteLength cs := by
  rw [← String.size_toByteArray, String.toByteArray_ofList, List.utf8Encode, List.size_toByteArray]
  exact length_encodeChars cs

theorem rawEndPos_ofList (cs : List Char) : (String.ofList cs).rawEndPos = ⟨byteLength cs⟩ := by
  rw [← utf8ByteSize_ofList]
  rfl

theorem isValid_byteLength (h : l ++ r = cs) :
    String.Pos.Raw.IsValid (String.ofList cs) ⟨byteLength l⟩ := by
  rw [String.Pos.Raw.isValid_iff_exists_append]
  exact ⟨String.ofList l, String.ofList r, by rw [← h, String.ofList_append],
    (rawEndPos_ofList l).symm⟩

end Cuts

end DraftKeeper.TextUnit
