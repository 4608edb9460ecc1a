import DraftKeeper.Text.Utf8

namespace DraftKeeper.Text.Utf8

variable {n value due : Nat} {low high b : UInt8} {bs : Bytes}

theorem toNat_byte (h : n < 256) : (UInt8.ofNat n).toNat = n := UInt8.toNat_ofNat_of_lt h

theorem lead_eq (b : UInt8) : lead b =
    if b.toNat < 0x80 then ([Char.ofNat b.toNat], .idle)
    else if b.toNat < 0xC2 then ([replacement], .idle)
    else if b.toNat < 0xE0 then ([], .inside (b.toNat - 0xC0) 1 0x80 0xBF)
    else if b.toNat = 0xE0 then ([], .inside 0 2 0xA0 0xBF)
    else if b.toNat = 0xED then ([], .inside 0xD 2 0x80 0x9F)
    else if b.toNat < 0xF0 then ([], .inside (b.toNat - 0xE0) 2 0x80 0xBF)
    else if b.toNat = 0xF0 then ([], .inside 0 3 0x90 0xBF)
    else if b.toNat < 0xF4 then ([], .inside (b.toNat - 0xF0) 3 0x80 0xBF)
    else if b.toNat = 0xF4 then ([], .inside 4 3 0x80 0x8F)
    else ([replacement], .idle) := by
  simp only [lead, UInt8.lt_iff_toNat_lt, ← UInt8.toNat_inj]
  rfl

theorem lead_one (h : n < 0x80) : lead (UInt8.ofNat n) = ([Char.ofNat n], .idle) := by
  rw [lead_eq, toNat_byte (by omega), if_pos h]

theorem lead_two (h : 2 ≤ n) (hn : n < 0x20) :
    lead (UInt8.ofNat (n + 0xC0)) = ([], .inside n 1 0x80 0xBF) := by
  rw [lead_eq, toNat_byte (by omega), if_neg (by omega), if_neg (by omega), if_pos (by omega),
    Nat.add_sub_cancel]

theorem lead_three (hn : n < 0x10) : ∃ low high : UInt8,
    lead (UInt8.ofNat (n + 0xE0)) = ([], .inside n 2 low high) ∧
      ∀ b : UInt8, low ≤ b ∧ b ≤ high ↔ 0x80 ≤ b.toNat ∧ b.toNat ≤ 0xBF ∧ (n = 0 → 0xA0 ≤ b.toNat) ∧
        (n = 0xD → b.toNat ≤ 0x9F) := by
  rw [lead_eq, toNat_byte (by omega), if_neg (by omega), if_neg (by omega), if_neg (by omega)]
  simp only [UInt8.le_iff_toNat_le]
  by_cases h0 : n = 0
  · subst h0
    refine ⟨0xA0, 0xBF, rfl, fun b => ?_⟩
    change 0xA0 ≤ b.toNat ∧ b.toNat ≤ 0xBF ↔ _
    omega
  by_cases hd : n = 0xD
  · subst hd
    refine ⟨0x80, 0x9F, rfl, fun b => ?_⟩
    change 0x80 ≤ b.toNat ∧ b.toNat ≤ 0x9F ↔ _
    omega
  rw [if_neg (by omega), if_neg (by omega), if_pos (by omega), Nat.add_sub_cancel]
  refine ⟨0x80, 0xBF, rfl, fun b => ?_⟩
  change 0x80 ≤ b.toNat ∧ b.toNat ≤ 0xBF ↔ _
  omega

theorem lead_four (hn : n ≤ 4) : ∃ low high : UInt8,
    lead (UInt8.ofNat (n + 0xF0)) = ([], .inside n 3 low high) ∧
      ∀ b : UInt8, low ≤ b ∧ b ≤ high ↔ 0x80 ≤ b.toNat ∧ b.toNat ≤ 0xBF ∧ (n = 0 → 0x90 ≤ b.toNat) ∧
        (n = 4 → b.toNat ≤ 0x8F) := by
  rw [lead_eq, toNat_byte (by omega), if_neg (by omega), if_neg (by omega), if_neg (by omega),
    if_neg (by omega), if_neg (by omega), if_neg (by omega)]
  simp only [UInt8.le_iff_toNat_le]
  by_cases h0 : n = 0
  · subst h0
    refine ⟨0x90, 0xBF, rfl, fun b => ?_⟩
    change 0x90 ≤ b.toNat ∧ b.toNat ≤ 0xBF ↔ _
    omega
  by_cases h4 : n = 4
  · subst h4
    refine ⟨0x80, 0x8F, rfl, fun b => ?_⟩
    change 0x80 ≤ b.toNat ∧ b.toNat ≤ 0x8F ↔ _
    omega
  rw [if_neg (by omega), if_pos (by omega), Nat.add_sub_cancel]
  refine ⟨0x80, 0xBF, rfl, fun b => ?_⟩
  change 0x80 ≤ b.toNat ∧ b.toNat ≤ 0xBF ↔ _
  omega

theorem decodeFrom_idle (b : UInt8) (bs : Bytes) :
    decodeFrom .idle (b :: bs) = (lead b).1 ++ decodeFrom (lead b).2 bs := rfl

theorem decodeFrom_inside (h : low ≤ b ∧ b ≤ high) (hdue : 1 < due) :
    decodeFrom (.inside value due low high) (b :: bs) =
      decodeFrom (.inside (value * 64 + (b.toNat - 0x80)) (due - 1) 0x80 0xBF) bs := by
  rw [decodeFrom, step, if_pos h]
  simp only [if_neg (Nat.not_le.2 hdue), List.nil_append]

theorem decodeFrom_last (h : low ≤ b ∧ b ≤ high) :
    decodeFrom (.inside value 1 low high) (b :: bs) =
      Char.ofNat (value * 64 + (b.toNat - 0x80)) :: decodeFrom .idle bs := by
  rw [decodeFrom, step, if_pos h]
  rfl

theorem toNat_continuation (h : n < 0x40) : (UInt8.ofNat (n + 0x80)).toNat = n + 0x80 :=
  toNat_byte (by omega)

theorem continuation_mem (h : n < 0x40) :
    0x80 ≤ UInt8.ofNat (n + 0x80) ∧ UInt8.ofNat (n + 0x80) ≤ 0xBF := by
  rw [UInt8.le_iff_toNat_le, UInt8.le_iff_toNat_le, toNat_continuation h]
  exact ⟨Nat.le_add_left .., Nat.add_le_add_right (Nat.le_of_lt_succ h) 0x80⟩

theorem ofNat_eq {c : Char} (h : n = c.toNat) : Char.ofNat n = c := by
  rw [h, Char.ofNat_toNat]

theorem decodeFrom_utf8EncodeChar_append (c : Char) (bs : Bytes) :
    decodeFrom .idle (String.utf8EncodeChar c ++ bs) = c :: decodeFrom .idle bs := by
  have hvalid : c.toNat < 0xD800 ∨ 0xDFFF < c.toNat ∧ c.toNat < 0x110000 := c.valid
  have hval : c.val.toNat = c.toNat := rfl
  have h₁ : c.toNat % 0x40 < 0x40 := Nat.mod_lt _ (by decide)
  have h₂ : c.toNat / 64 % 0x40 < 0x40 := Nat.mod_lt _ (by decide)
  have h₃ : c.toNat / 4096 % 0x40 < 0x40 := Nat.mod_lt _ (by decide)
  simp only [String.utf8EncodeChar, hval]
  split
  · rw [List.singleton_append, decodeFrom_idle, lead_one (by omega), Char.ofNat_toNat]
    rfl
  split
  · rw [List.cons_append, List.singleton_append, decodeFrom_idle, lead_two (by omega) (by omega),
      List.nil_append, decodeFrom_last (continuation_mem h₁), toNat_continuation h₁,
      ofNat_eq (c := c) (by omega)]
  split
  · obtain ⟨low, high, hlead, hsecond⟩ := lead_three (n := c.toNat / 4096 % 0x10) (by omega)
    have hin := (hsecond (UInt8.ofNat (c.toNat / 64 % 0x40 + 0x80))).2 (by
      rw [toNat_continuation h₂]
      omega)
    rw [List.cons_append, List.cons_append, List.singleton_append, decodeFrom_idle, hlead,
      List.nil_append, decodeFrom_inside hin (by decide), decodeFrom_last (continuation_mem h₁),
      toNat_continuation h₁, toNat_continuation h₂, ofNat_eq (c := c) (by omega)]
  · obtain ⟨low, high, hlead, hsecond⟩ := lead_four (n := c.toNat / 262144 % 0x08) (by omega)
    have hin := (hsecond (UInt8.ofNat (c.toNat / 4096 % 0x40 + 0x80))).2 (by
      rw [toNat_continuation h₃]
      omega)
    rw [List.cons_append, List.cons_append, List.cons_append, List.singleton_append,
      decodeFrom_idle, hlead, List.nil_append, decodeFrom_inside hin (by decide),
      decodeFrom_inside (continuation_mem h₂) (by decide), decodeFrom_last (continuation_mem h₁),
      toNat_continuation h₁, toNat_continuation h₂, toNat_continuation h₃,
      ofNat_eq (c := c) (by omega)]

theorem decodeFrom_encodeChars_append (cs : List Char) (bs : Bytes) :
    decodeFrom .idle (encodeChars cs ++ bs) = cs ++ decodeFrom .idle bs := by
  induction cs with
  | nil => rfl
  | cons c cs ih =>
      rw [encodeChars, List.flatMap_cons, List.append_assoc, decodeFrom_utf8EncodeChar_append]
      exact congrArg (c :: ·) ih

theorem decodeChars_encodeChars (cs : List Char) : decodeChars (encodeChars cs) = cs := by
  have h := decodeFrom_encodeChars_append cs []
  rwa [List.append_nil, decodeFrom, List.append_nil] at h

@[simp] theorem decode_encode (s : String) : decode (encode s) = s := by
  rw [decode, encode, decodeChars_encodeChars, String.ofList_toList]

end DraftKeeper.Text.Utf8
