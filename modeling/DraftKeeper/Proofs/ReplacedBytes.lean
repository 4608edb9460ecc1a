import DraftKeeper.Proofs.TextEncoding

namespace DraftKeeper.Text.Utf8

open String (utf8EncodeChar)

variable {b : UInt8} {bs p q rest t u : Bytes} {s s' : Pending} {c : Char} {cs : List Char} {n x y z : Nat}

/-- The bytes begin the encoding of a character, or are all of it. -/
def Begins (p : Bytes) : Prop := ∃ c, p <+: utf8EncodeChar c

/-- One replacement stands for the bytes, before others: there is no character, and they are as many as might
have begun one, or a single one that could not. -/
structure Broken (p rest : Bytes) : Prop where
  nonempty : p ≠ []
  noChar : ∀ c, ¬ utf8EncodeChar c <+: p ++ rest
  begins : p.length ≠ 1 → Begins p
  longest : ∀ q, q <+: p ++ rest → Begins q → q.length ≤ p.length

inductive Decodes : Bytes → List Char → Prop
  | nil : Decodes [] []
  | char (c : Char) {bs : Bytes} {cs : List Char} : Decodes bs cs → Decodes (utf8EncodeChar c ++ bs) (c :: cs)
  | broken {p bs : Bytes} {cs : List Char} : Broken p bs → Decodes bs cs → Decodes (p ++ bs) (replacement :: cs)

section Characters

theorem ofNat_sub_add (h : n ≤ b.toNat) : UInt8.ofNat (b.toNat - n + n) = b := by
  rw [Nat.sub_add_cancel h, UInt8.ofNat_toNat]

theorem toNat_ofNat_of_valid (h : n.isValidChar) : (Char.ofNat n).toNat = n := by
  rw [Char.ofNat, dif_pos h]
  rfl

theorem utf8EncodeChar_one (h : n < 0x80) : utf8EncodeChar (Char.ofNat n) = [UInt8.ofNat n] := by
  have hc : (Char.ofNat n).val.toNat = n := toNat_ofNat_of_valid (.inl (by omega))
  simp only [utf8EncodeChar, hc]
  rw [if_pos (by omega)]

theorem utf8EncodeChar_two (hn : 2 ≤ n) (hn' : n < 0x20) (hx : x < 0x40) :
    utf8EncodeChar (Char.ofNat (n * 64 + x)) = [UInt8.ofNat (n + 0xC0), UInt8.ofNat (x + 0x80)] := by
  have hc : (Char.ofNat (n * 64 + x)).val.toNat = n * 64 + x := toNat_ofNat_of_valid (.inl (by omega))
  have h₀ : (n * 64 + x) / 64 % 0x20 = n := by omega
  have h₁ : (n * 64 + x) % 0x40 = x := by omega
  simp only [utf8EncodeChar, hc]
  rw [if_neg (by omega), if_pos (by omega), h₀, h₁]

theorem utf8EncodeChar_three (hn : n < 0x10) (hx : x < 0x40) (hy : y < 0x40) (hlow : n = 0 → 0x20 ≤ x)
    (hhigh : n = 0xD → x < 0x20) : utf8EncodeChar (Char.ofNat ((n * 64 + x) * 64 + y)) =
      [UInt8.ofNat (n + 0xE0), UInt8.ofNat (x + 0x80), UInt8.ofNat (y + 0x80)] := by
  have hc : (Char.ofNat ((n * 64 + x) * 64 + y)).val.toNat = (n * 64 + x) * 64 + y :=
    toNat_ofNat_of_valid (by rw [Nat.isValidChar]; omega)
  have h₀ : ((n * 64 + x) * 64 + y) / 4096 % 0x10 = n := by omega
  have h₁ : ((n * 64 + x) * 64 + y) / 64 % 0x40 = x := by omega
  have h₂ : ((n * 64 + x) * 64 + y) % 0x40 = y := by omega
  simp only [utf8EncodeChar, hc]
  rw [if_neg (by omega), if_neg (by omega), if_pos (by omega), h₀, h₁, h₂]

theorem utf8EncodeChar_four (hn : n ≤ 4) (hx : x < 0x40) (hy : y < 0x40) (hz : z < 0x40)
    (hlow : n = 0 → 0x10 ≤ x) (hhigh : n = 4 → x < 0x10) :
    utf8EncodeChar (Char.ofNat (((n * 64 + x) * 64 + y) * 64 + z)) =
      [UInt8.ofNat (n + 0xF0), UInt8.ofNat (x + 0x80), UInt8.ofNat (y + 0x80), UInt8.ofNat (z + 0x80)] := by
  have hc : (Char.ofNat (((n * 64 + x) * 64 + y) * 64 + z)).val.toNat = ((n * 64 + x) * 64 + y) * 64 + z :=
    toNat_ofNat_of_valid (by rw [Nat.isValidChar]; omega)
  have h₀ : (((n * 64 + x) * 64 + y) * 64 + z) / 262144 % 0x08 = n := by omega
  have h₁ : (((n * 64 + x) * 64 + y) * 64 + z) / 4096 % 0x40 = x := by omega
  have h₂ : (((n * 64 + x) * 64 + y) * 64 + z) / 64 % 0x40 = y := by omega
  have h₃ : (((n * 64 + x) * 64 + y) * 64 + z) % 0x40 = z := by omega
  simp only [utf8EncodeChar, hc]
  rw [if_neg (by omega), if_neg (by omega), if_neg (by omega), h₀, h₁, h₂, h₃]

end Characters

section States

/-- Where a reader stands after bytes that all go on with the character begun. -/
def Pending.after : Pending → Bytes → Option Pending
  | s, [] => some s
  | .idle, _ :: _ => none
  | .inside value due low high, b :: bs =>
    if low ≤ b ∧ b ≤ high then (step (.inside value due low high) b).2.after bs else none

def Pending.CanEnd (s : Pending) : Prop := ∃ t, s.after t = some .idle

variable {value due : Nat} {low high : UInt8}

theorem after_append (s : Pending) (t u : Bytes) : s.after (t ++ u) = (s.after t).bind (·.after u) := by
  induction t generalizing s with
  | nil => rfl
  | cons b t ih =>
      cases s with
      | idle => rfl
      | inside value due low high =>
          rw [List.cons_append, Pending.after, Pending.after]
          split
          · exact ih _
          · rfl

theorem after_one : (Pending.inside value 1 low high).after t = some .idle ↔
    ∃ b, t = [b] ∧ low ≤ b ∧ b ≤ high := by
  cases t with
  | nil => simp [Pending.after]
  | cons b t =>
      rw [Pending.after]
      split
      · next hb => cases t <;> simp [step, hb, Pending.after]
      · next hb => simp_all

theorem after_more : (Pending.inside value (due + 2) low high).after t = some .idle ↔
    ∃ b u, t = b :: u ∧ (low ≤ b ∧ b ≤ high) ∧
      (Pending.inside (value * 64 + (b.toNat - 0x80)) (due + 1) 0x80 0xBF).after u = some .idle := by
  have hstep {b : UInt8} (hb : low ≤ b ∧ b ≤ high) : (step (.inside value (due + 2) low high) b).2 =
      .inside (value * 64 + (b.toNat - 0x80)) (due + 1) 0x80 0xBF := by
    rw [step, if_pos hb]
    rfl
  constructor
  · intro h
    cases t with
    | nil => cases h
    | cons b t =>
        rw [Pending.after] at h
        split at h
        · next hb => exact ⟨b, t, rfl, hb, hstep hb ▸ h⟩
        · cases h
  · rintro ⟨b, u, rfl, hb, hu⟩
    rw [Pending.after, if_pos hb, hstep hb, hu]

theorem canEnd_tail (value due : Nat) : (Pending.inside value due 0x80 0xBF).CanEnd := by
  induction due generalizing value with
  | zero => exact ⟨[0x80], rfl⟩
  | succ due ih =>
      by_cases hdue : due = 0
      · subst hdue
        exact ⟨[0x80], rfl⟩
      · obtain ⟨t, ht⟩ := ih (value * 64)
        refine ⟨0x80 :: t, ?_⟩
        rw [Pending.after, if_pos (by decide), step, if_pos (by decide)]
        simpa [hdue] using ht

theorem canEnd_step (value due : Nat) {b : UInt8} (h : low ≤ b ∧ b ≤ high) :
    (step (.inside value due low high) b).2.CanEnd := by
  rw [step, if_pos h]
  dsimp only
  split
  · exact ⟨[], rfl⟩
  · exact canEnd_tail _ _

theorem canEnd_of_mem {b : UInt8} (h : low ≤ b ∧ b ≤ high) : (Pending.inside value due low high).CanEnd := by
  obtain ⟨t, ht⟩ := canEnd_step value due h
  exact ⟨b :: t, by rw [Pending.after, if_pos h, ht]⟩

theorem Pending.CanEnd.after (h : s.CanEnd) (ht : s.after t = some s') : s'.CanEnd := by
  induction t generalizing s with
  | nil =>
      cases ht
      exact h
  | cons b t ih =>
      cases s with
      | idle => cases ht
      | inside value due low high =>
          rw [Pending.after] at ht
          split at ht
          · next hb => exact ih (canEnd_step _ _ hb) ht
          · cases ht

theorem exists_after (s : Pending) (bs : Bytes) : ∃ t rest s', bs = t ++ rest ∧ s.after t = some s' ∧
    ∀ x r, rest = x :: r → s'.after [x] = none := by
  induction bs generalizing s with
  | nil => exact ⟨[], [], s, rfl, rfl, nofun⟩
  | cons b bs ih =>
      cases hb : s.after [b] with
      | none =>
          refine ⟨[], b :: bs, s, rfl, rfl, ?_⟩
          rintro x r ⟨⟩
          exact hb
      | some s₁ =>
          obtain ⟨t, rest, s', rfl, ht, hmost⟩ := ih s₁
          exact ⟨b :: t, rest, s', rfl, by rw [← List.singleton_append, after_append, hb, Option.bind_some, ht],
            hmost⟩

end States

section Reading

variable {value due : Nat} {low high : UInt8}

theorem decodeFrom_after (h : s.after t = some (.inside value due low high)) (rest : Bytes) :
    decodeFrom s (t ++ rest) = decodeFrom (.inside value due low high) rest := by
  induction t generalizing s with
  | nil =>
      cases h
      rfl
  | cons b t ih =>
      cases s with
      | idle => cases h
      | inside value' due' low' high' =>
          rw [Pending.after] at h
          split at h
          · next hb =>
              by_cases hdue : due' ≤ 1
              · cases t <;> simp [step, hb, hdue, Pending.after] at h
              · rw [step, if_pos hb] at h
                simp only [if_neg hdue] at h
                rw [List.cons_append, decodeFrom_inside hb (by omega)]
                exact ih h
          · cases h

theorem decodeFrom_stuck (h : ∀ x r, rest = x :: r → (Pending.inside value due low high).after [x] = none) :
    decodeFrom (.inside value due low high) rest = replacement :: decodeFrom .idle rest := by
  cases rest with
  | nil => rfl
  | cons x r =>
      have hx := h x r rfl
      by_cases hin : low ≤ x ∧ x ≤ high
      · rw [Pending.after, if_pos hin] at hx
        cases hx
      · rw [decodeFrom, step, if_neg hin]
        rfl

end Reading

section Firsts

/-- First bytes of characters of more bytes, and where a reader stands after them. -/
inductive Begun (b : UInt8) : Pending → Prop
  | two {n : Nat} (hb : b.toNat = n + 0xC0) (hn : 2 ≤ n ∧ n < 0x20) : Begun b (.inside n 1 0x80 0xBF)
  | three {n : Nat} (low high : UInt8) (hb : b.toNat = n + 0xE0) (hn : n < 0x10)
      (hnext : ∀ x : UInt8, low ≤ x ∧ x ≤ high ↔ 0x80 ≤ x.toNat ∧ x.toNat ≤ 0xBF ∧
        (n = 0 → 0xA0 ≤ x.toNat) ∧ (n = 0xD → x.toNat ≤ 0x9F)) :
      Begun b (.inside n 2 low high)
  | four {n : Nat} (low high : UInt8) (hb : b.toNat = n + 0xF0) (hn : n ≤ 4)
      (hnext : ∀ x : UInt8, low ≤ x ∧ x ≤ high ↔ 0x80 ≤ x.toNat ∧ x.toNat ≤ 0xBF ∧
        (n = 0 → 0x90 ≤ x.toNat) ∧ (n = 4 → x.toNat ≤ 0x8F)) :
      Begun b (.inside n 3 low high)

theorem eq_ofNat_of_toNat (h : b.toNat = n) : b = UInt8.ofNat n := by
  rw [← h, UInt8.ofNat_toNat]

theorem lead_cases (b : UInt8) : b.toNat < 0x80 ∨ (∃ s, lead b = ([], s) ∧ Begun b s) ∨
    lead b = ([replacement], .idle) := by
  have hb := b.toNat_lt
  by_cases h80 : b.toNat < 0x80
  · exact .inl h80
  by_cases hC2 : b.toNat < 0xC2
  · rw [lead_eq, if_neg h80, if_pos hC2]
    exact .inr (.inr rfl)
  by_cases hE0 : b.toNat < 0xE0
  · obtain ⟨n, hn⟩ := Nat.exists_eq_add_of_le' (show 0xC0 ≤ b.toNat by omega)
    refine .inr (.inl ⟨_, ?_, .two hn (by omega)⟩)
    rw [eq_ofNat_of_toNat hn]
    exact lead_two (by omega) (by omega)
  by_cases hF0 : b.toNat < 0xF0
  · obtain ⟨n, hn⟩ := Nat.exists_eq_add_of_le' (show 0xE0 ≤ b.toNat by omega)
    obtain ⟨low, high, hlead, hnext⟩ := lead_three (n := n) (by omega)
    rw [← eq_ofNat_of_toNat hn] at hlead
    exact .inr (.inl ⟨_, hlead, .three low high hn (by omega) hnext⟩)
  by_cases hF4 : b.toNat ≤ 0xF4
  · obtain ⟨n, hn⟩ := Nat.exists_eq_add_of_le' (show 0xF0 ≤ b.toNat by omega)
    obtain ⟨low, high, hlead, hnext⟩ := lead_four (n := n) (by omega)
    rw [← eq_ofNat_of_toNat hn] at hlead
    exact .inr (.inl ⟨_, hlead, .four low high hn (by omega) hnext⟩)
  · rw [lead_eq, if_neg h80, if_neg hC2, if_neg hE0, if_neg (by omega), if_neg (by omega), if_neg hF0,
      if_neg (by omega), if_neg (by omega), if_neg (by omega)]
    exact .inr (.inr rfl)

theorem mem_tail_iff {x : UInt8} : 0x80 ≤ x ∧ x ≤ 0xBF ↔ 0x80 ≤ x.toNat ∧ x.toNat ≤ 0xBF := by
  rw [UInt8.le_iff_toNat_le, UInt8.le_iff_toNat_le]
  rfl

theorem Begun.canEnd (h : Begun b s) : s.CanEnd := by
  cases h with
  | two => exact canEnd_tail _ _
  | @three n low high _ _ hnext =>
      by_cases h0 : n = 0
      · exact canEnd_of_mem ((hnext 0xA0).2 ⟨by decide, by decide, fun _ => by decide, by omega⟩)
      · exact canEnd_of_mem ((hnext 0x80).2 ⟨by decide, by decide, fun h => absurd h h0, fun _ => by decide⟩)
  | @four n low high _ _ hnext =>
      by_cases h0 : n = 0
      · exact canEnd_of_mem ((hnext 0x90).2 ⟨by decide, by decide, fun _ => by decide, by omega⟩)
      · exact canEnd_of_mem ((hnext 0x80).2 ⟨by decide, by decide, fun h => absurd h h0, fun _ => by decide⟩)

theorem Begun.exists_encoded (h : Begun b s) (ht : s.after t = some .idle) :
    ∃ c, utf8EncodeChar c = b :: t := by
  cases h with
  | two hb hn =>
      obtain ⟨x, rfl, hx⟩ := after_one.1 ht
      obtain ⟨hx, hx'⟩ := mem_tail_iff.1 hx
      refine ⟨_, (utf8EncodeChar_two (x := x.toNat - 0x80) hn.1 hn.2 (by omega)).trans ?_⟩
      rw [← eq_ofNat_of_toNat hb, ofNat_sub_add hx]
  | three low high hb hn hnext =>
      obtain ⟨x, u, rfl, hx, ht⟩ := after_more.1 ht
      obtain ⟨y, rfl, hy⟩ := after_one.1 ht
      obtain ⟨hx, hx', hlow, hhigh⟩ := (hnext x).1 hx
      obtain ⟨hy, hy'⟩ := mem_tail_iff.1 hy
      refine ⟨_, (utf8EncodeChar_three (x := x.toNat - 0x80) (y := y.toNat - 0x80) hn (by omega) (by omega)
        (by omega) (by omega)).trans ?_⟩
      rw [← eq_ofNat_of_toNat hb, ofNat_sub_add hx, ofNat_sub_add hy]
  | four low high hb hn hnext =>
      obtain ⟨x, u, rfl, hx, ht⟩ := after_more.1 ht
      obtain ⟨y, v, rfl, hy, ht⟩ := after_more.1 ht
      obtain ⟨z, rfl, hz⟩ := after_one.1 ht
      obtain ⟨hx, hx', hlow, hhigh⟩ := (hnext x).1 hx
      obtain ⟨hy, hy'⟩ := mem_tail_iff.1 hy
      obtain ⟨hz, hz'⟩ := mem_tail_iff.1 hz
      refine ⟨_, (utf8EncodeChar_four (x := x.toNat - 0x80) (y := y.toNat - 0x80) (z := z.toNat - 0x80) hn
        (by omega) (by omega) (by omega) (by omega) (by omega)).trans ?_⟩
      rw [← eq_ofNat_of_toNat hb, ofNat_sub_add hx, ofNat_sub_add hy, ofNat_sub_add hz]

end Firsts

section Pieces

theorem begins_encoded (c : Char) : Begins (utf8EncodeChar c) := ⟨c, List.prefix_rfl⟩

theorem decodeFrom_cons_of_begun (hlead : lead b = ([], s)) (ht : s.after t = some s') (hs : s' ≠ .idle)
    (hmost : ∀ x r, rest = x :: r → s'.after [x] = none) :
    decodeFrom .idle (b :: t ++ rest) = replacement :: decodeFrom .idle rest := by
  cases s' with
  | idle => exact absurd rfl hs
  | inside value due low high =>
      rw [List.cons_append, decodeFrom_idle, hlead, List.nil_append, decodeFrom_after ht, decodeFrom_stuck hmost]

theorem eq_of_decodeFrom (h : utf8EncodeChar c = bs) (hcs : decodeFrom .idle bs = cs) : [c] = cs := by
  have hread := decodeFrom_utf8EncodeChar_append c []
  rw [List.append_nil, h, hcs] at hread
  exact hread.symm

theorem utf8EncodeChar_replacement : utf8EncodeChar replacement = [0xEF, 0xBF, 0xBD] := by decide

theorem ne_cons_of_lead (hlead : lead b = ([replacement], .idle)) : utf8EncodeChar c ≠ b :: t := by
  intro h
  obtain ⟨rfl, -⟩ := List.cons.inj (eq_of_decodeFrom h (by rw [decodeFrom_idle, hlead]; rfl))
  rw [utf8EncodeChar_replacement] at h
  obtain ⟨rfl, -⟩ := List.cons.inj h
  cases hlead

/-- The encodings of characters are complete, since each is read back as its character. -/
theorem Begun.after_encoded (hb : Begun b s) (hlead : lead b = ([], s)) (h : utf8EncodeChar c = b :: t) :
    s.after t = some .idle := by
  obtain ⟨t, rest, s', rfl, ht, hmost⟩ := exists_after s t
  by_cases hs : s' = .idle
  · subst hs
    obtain ⟨c', hc'⟩ := hb.exists_encoded ht
    have hread := eq_of_decodeFrom h (by rw [← List.cons_append, ← hc', decodeFrom_utf8EncodeChar_append])
    obtain ⟨rfl, -⟩ := List.cons.inj hread
    rw [hc'] at h
    rw [← (List.cons.inj h).2]
    exact ht
  · obtain ⟨rfl, -⟩ := List.cons.inj (eq_of_decodeFrom h (decodeFrom_cons_of_begun hlead ht hs hmost))
    rw [utf8EncodeChar_replacement] at h
    obtain ⟨rfl, hrest⟩ := List.cons.inj h
    rw [← hrest]
    cases hlead
    decide

theorem Begun.isSome_after_of_begins (hb : Begun b s) (hlead : lead b = ([], s)) (h : Begins (b :: t)) :
    (s.after t).isSome = true := by
  obtain ⟨c, u, hc⟩ := h
  have hidle : s.after (t ++ u) = some .idle := hb.after_encoded hlead hc.symm
  rw [after_append] at hidle
  obtain ⟨s', hs', -⟩ := Option.bind_eq_some_iff.1 hidle
  rw [hs', Option.isSome_some]

theorem Begun.begins (hb : Begun b s) (ht : s.after t = some s') : Begins (b :: t) := by
  obtain ⟨u, hu⟩ := hb.canEnd.after ht
  obtain ⟨c, hc⟩ := hb.exists_encoded (t := t ++ u) (by rw [after_append, ht, Option.bind_some, hu])
  exact ⟨c, hc ▸ List.prefix_append (b :: t) u⟩

theorem Begun.broken (hb : Begun b s) (hlead : lead b = ([], s)) (ht : s.after t = some s') (hs : s' ≠ .idle)
    (hmost : ∀ x r, rest = x :: r → s'.after [x] = none) : Broken (b :: t) rest := by
  have hlongest (q : Bytes) (hq : q <+: b :: t ++ rest) (hbegins : Begins q) : q.length ≤ (b :: t).length := by
    refine Nat.le_of_not_lt fun hlong => ?_
    obtain ⟨v, rfl⟩ := List.prefix_of_prefix_length_le (List.prefix_append _ rest) hq (Nat.le_of_lt hlong)
    cases v with
    | nil => simp at hlong
    | cons x v =>
        obtain ⟨r, hr⟩ := (List.prefix_append_right_inj _).1 hq
        have hsome : (s.after (t ++ x :: v)).isSome = true := hb.isSome_after_of_begins hlead hbegins
        rw [after_append, ht, Option.bind_some, ← List.singleton_append, after_append,
          hmost x (v ++ r) hr.symm] at hsome
        cases hsome
  refine ⟨List.cons_ne_nil b t, fun c hc => ?_, fun _ => hb.begins ht, hlongest⟩
  obtain ⟨v, hv⟩ := List.prefix_of_prefix_length_le hc (List.prefix_append _ rest)
    (hlongest _ hc (begins_encoded c))
  obtain ⟨x, u, hu⟩ := List.exists_cons_of_ne_nil (String.utf8EncodeChar_ne_nil (c := c))
  rw [hu] at hv
  obtain ⟨rfl, rfl⟩ := List.cons.inj hv
  change s.after (u ++ v) = some s' at ht
  rw [after_append, hb.after_encoded hlead hu, Option.bind_some] at ht
  cases v with
  | nil =>
      cases ht
      exact hs rfl
  | cons y v => cases ht

theorem broken_of_lead (hlead : lead b = ([replacement], .idle)) (rest : Bytes) : Broken [b] rest := by
  have hnone (q : Bytes) (hq : q <+: [b] ++ rest) (hbegins : Begins q) : q = [] := by
    cases q with
    | nil => rfl
    | cons x q =>
        obtain ⟨rfl, -⟩ := List.cons_prefix_cons.1 hq
        obtain ⟨c, v, hc⟩ := hbegins
        exact absurd hc.symm (ne_cons_of_lead hlead)
  refine ⟨List.cons_ne_nil b [], fun c hc => ?_, fun h => absurd rfl h, fun q hq hbegins => ?_⟩
  · exact String.utf8EncodeChar_ne_nil (hnone _ hc (begins_encoded c))
  · rw [hnone q hq hbegins]
    exact Nat.zero_le _

theorem exists_piece (b : UInt8) (bs : Bytes) : (∃ c rest, b :: bs = utf8EncodeChar c ++ rest) ∨
    ∃ p rest, b :: bs = p ++ rest ∧ Broken p rest ∧
      decodeFrom .idle (b :: bs) = replacement :: decodeFrom .idle rest := by
  rcases lead_cases b with hb | ⟨s, hlead, hb⟩ | hlead
  · exact .inl ⟨Char.ofNat b.toNat, bs, by rw [utf8EncodeChar_one hb, UInt8.ofNat_toNat, List.singleton_append]⟩
  · obtain ⟨t, rest, s', rfl, ht, hmost⟩ := exists_after s bs
    by_cases hs : s' = .idle
    · subst hs
      obtain ⟨c, hc⟩ := hb.exists_encoded ht
      exact .inl ⟨c, rest, by rw [hc, List.cons_append]⟩
    · exact .inr ⟨b :: t, rest, rfl, hb.broken hlead ht hs hmost, decodeFrom_cons_of_begun hlead ht hs hmost⟩
  · refine .inr ⟨[b], bs, rfl, broken_of_lead hlead bs, ?_⟩
    rw [decodeFrom_idle, hlead, List.singleton_append]

theorem Broken.length_le {p' rest' : Bytes} (h : Broken p rest) (h' : Broken p' rest')
    (heq : p ++ rest = p' ++ rest') : p.length ≤ p'.length := by
  by_cases hone : p.length = 1
  · rw [hone]
    exact List.length_pos_iff.2 h'.nonempty
  · exact h'.longest p (heq ▸ List.prefix_append p rest) (h.begins hone)

theorem Broken.unique {p' rest' : Bytes} (h : Broken p rest) (h' : Broken p' rest')
    (heq : p ++ rest = p' ++ rest') : p = p' ∧ rest = rest' :=
  List.append_inj heq (Nat.le_antisymm (h.length_le h' heq) (h'.length_le h heq.symm))

theorem Broken.decodeFrom (h : Broken p rest) :
    decodeFrom .idle (p ++ rest) = replacement :: decodeFrom .idle rest := by
  obtain ⟨b, t, rfl⟩ := List.exists_cons_of_ne_nil h.nonempty
  rcases exists_piece b (t ++ rest) with ⟨c, rest', hc⟩ | ⟨p, rest', hp, hbroken, hread⟩
  · exact absurd ⟨rest', hc.symm⟩ (h.noChar c)
  · obtain ⟨-, rfl⟩ := h.unique hbroken hp
    exact hread

end Pieces

theorem Decodes.decodeFrom_eq (h : Decodes bs cs) : decodeFrom .idle bs = cs := by
  induction h with
  | nil => rfl
  | char c _ ih => rw [decodeFrom_utf8EncodeChar_append, ih]
  | broken hp _ ih => rw [hp.decodeFrom, ih]

theorem decodes_decodeFrom (bs : Bytes) : Decodes bs (decodeFrom .idle bs) := by
  -- each piece takes a byte or more, so what is left is shorter
  induction hn : bs.length using Nat.strongRecOn generalizing bs with
  | ind n ih =>
      subst hn
      cases bs with
      | nil => exact .nil
      | cons b bs =>
          rcases exists_piece b bs with ⟨c, rest, hc⟩ | ⟨p, rest, hp, hbroken, hread⟩
          · have hpos := c.utf8Size_pos
            have hlen : rest.length < (b :: bs).length := by
              rw [hc, List.length_append, String.length_utf8EncodeChar]
              omega
            rw [hc, decodeFrom_utf8EncodeChar_append]
            exact .char c (ih _ hlen rest rfl)
          · have hpos := List.length_pos_iff.2 hbroken.nonempty
            have hlen : rest.length < (b :: bs).length := by
              rw [hp, List.length_append]
              omega
            rw [hread, hp]
            exact .broken hbroken (ih _ hlen rest rfl)

/-- Bytes are read in one way, with one replacement for each piece that is malformed. -/
theorem decodes_iff : Decodes bs cs ↔ decodeChars bs = cs :=
  ⟨Decodes.decodeFrom_eq, fun h => h ▸ decodes_decodeFrom bs⟩

end DraftKeeper.Text.Utf8
