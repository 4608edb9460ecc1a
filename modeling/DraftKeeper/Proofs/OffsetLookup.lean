import DraftKeeper.Proofs.OffsetUnits
import Mathlib.Data.Set.Basic
import Mathlib.Order.Bounds.Defs

namespace DraftKeeper.TextUnit

variable {u : TextUnit} {c : Char} {cs l m r l' r' : List Char} {text s : String} {i j n k : Nat}

/-- `s` is what a text has from byte `i` to byte `j`, where both lie between characters. -/
def Spans (text : String) (i j : Nat) (s : String) : Prop :=
  ∃ before after, text = before ++ s ++ after ∧ before.utf8ByteSize = i ∧ i + s.utf8ByteSize = j

/-- The boundaries from boundary `i` on that have `n` units or more between `i` and them. -/
def reaching (u : TextUnit) (text : String) (i n : Nat) : Set Nat :=
  {j | ∃ s, Spans text i j s ∧ n ≤ u.length s.toList}

section Spans

theorem utf8ByteSize_eq (s : String) : s.utf8ByteSize = byteLength s.toList := by
  rw [← utf8ByteSize_ofList, String.ofList_toList]

theorem spans_iff : Spans text i j s ↔
    ∃ l r, l ++ s.toList ++ r = text.toList ∧ byteLength l = i ∧ i + byteLength s.toList = j := by
  constructor
  · rintro ⟨before, after, rfl, rfl, rfl⟩
    refine ⟨before.toList, after.toList, ?_, (utf8ByteSize_eq before).symm, ?_⟩
    · rw [String.toList_append, String.toList_append]
    · rw [utf8ByteSize_eq s]
  · rintro ⟨l, r, htext, rfl, rfl⟩
    refine ⟨String.ofList l, String.ofList r, ?_, utf8ByteSize_ofList l, ?_⟩
    · rw [← String.toList_inj, String.toList_append, String.toList_append, String.toList_ofList,
        String.toList_ofList, htext]
    · rw [utf8ByteSize_eq s]

theorem spans_ofList (htext : l ++ m ++ r = text.toList) :
    Spans text (byteLength l) (byteLength (l ++ m)) (String.ofList m) := by
  refine spans_iff.2 ⟨l, r, ?_, rfl, ?_⟩
  · rwa [String.toList_ofList]
  · rw [String.toList_ofList, byteLength_append]

theorem eq_of_byteLength_eq (h : l ++ r = l' ++ r') (hlen : byteLength l = byteLength l') :
    l = l' ∧ r = r' := by
  have hr : r = r' := by
    rw [← fromByte_append (l := l) (r := r), h, hlen, fromByte_append]
  subst hr
  exact ⟨List.append_cancel_right h, rfl⟩

theorem isValid_iff_exists_split :
    String.Pos.Raw.IsValid text ⟨i⟩ ↔ ∃ l r, l ++ r = text.toList ∧ byteLength l = i := by
  rw [String.Pos.Raw.isValid_iff_exists_append]
  constructor
  · rintro ⟨before, after, rfl, hi⟩
    refine ⟨before.toList, after.toList, String.toList_append.symm, ?_⟩
    rw [← utf8ByteSize_eq]
    exact (congrArg String.Pos.Raw.byteIdx hi).symm
  · rintro ⟨l, r, htext, rfl⟩
    refine ⟨String.ofList l, String.ofList r, ?_, (rawEndPos_ofList l).symm⟩
    rw [← String.ofList_append, htext, String.ofList_toList]

theorem spans_iff_of_split (htext : l ++ r = text.toList) : Spans text (byteLength l) j s ↔
    s.toList <+: r ∧ byteLength (l ++ s.toList) = j := by
  rw [spans_iff, byteLength_append]
  constructor
  · rintro ⟨l', r', htext', hl, hj⟩
    rw [← htext, List.append_assoc] at htext'
    obtain ⟨rfl, rfl⟩ := eq_of_byteLength_eq htext' hl
    exact ⟨List.prefix_append .., hj⟩
  · rintro ⟨⟨r', rfl⟩, hj⟩
    exact ⟨l, r', by rw [List.append_assoc, htext], rfl, hj⟩

end Spans

section Counts

theorem splitAt?_width_add : u.splitAt? (u.width c + n) (c :: cs) =
    (u.splitAt? n cs).map fun (l, r) => (c :: l, r) := by
  obtain ⟨k, hk⟩ := Nat.exists_eq_add_one.2 (u.width_pos c)
  have hcount : u.width c + n = k + n + 1 := by omega
  have hrest : k + n + 1 - u.width c = n := by omega
  rw [hcount, splitAt?, if_neg (by omega), hrest]

theorem drop_width_add : u.drop (u.width c + n) (c :: cs) = u.drop n cs := by
  obtain ⟨k, hk⟩ := Nat.exists_eq_add_one.2 (u.width_pos c)
  have hcount : u.width c + n = k + n + 1 := by omega
  have hrest : k + n + 1 - u.width c = n := by omega
  rw [hcount, drop, hrest]

theorem splitAt?_append (u : TextUnit) (l r : List Char) :
    u.splitAt? (u.length l) (l ++ r) = some (l, r) := by
  induction l with
  | nil => cases r <;> rfl
  | cons c l ih => rw [length_cons, List.cons_append, splitAt?_width_add, ih]; rfl

theorem drop_append (u : TextUnit) (l r : List Char) : u.drop (u.length l) (l ++ r) = r := by
  induction l with
  | nil => cases r <;> rfl
  | cons c l ih => rw [length_cons, List.cons_append, drop_width_add, ih]

theorem splitAt?_eq_some_iff : u.splitAt? n cs = some (l, r) ↔ l ++ r = cs ∧ u.length l = n := by
  constructor
  · exact splitAt?_eq_some
  · rintro ⟨rfl, rfl⟩
    exact splitAt?_append u l r

theorem take_prefix (u : TextUnit) (n : Nat) (cs : List Char) : u.take n cs <+: cs :=
  ⟨u.drop n cs, take_append_drop u n cs⟩

theorem take_prefix_of_le (h : n ≤ u.length m) : u.take n (m ++ r) <+: m := by
  induction m generalizing n with
  | nil =>
      obtain rfl : n = 0 := Nat.le_zero.1 h
      cases r <;> exact List.nil_prefix
  | cons c m ih =>
      cases n with
      | zero => exact List.nil_prefix
      | succ n =>
          rw [length_cons] at h
          rw [List.cons_append, take, List.cons_prefix_cons]
          exact ⟨rfl, ih (by omega)⟩

/-- What is taken has the units asked for, and one more if they end inside a pair, or it is all there is. -/
theorem length_take_bounds (u : TextUnit) (n : Nat) (cs : List Char) :
    min n (u.length cs) ≤ u.length (u.take n cs) ∧ u.length (u.take n cs) ≤ min n (u.length cs) + 1 := by
  induction cs generalizing n with
  | nil => cases n <;> exact ⟨Nat.min_le_right .., Nat.zero_le _⟩
  | cons c cs ih =>
      cases n with
      | zero => exact ⟨Nat.min_le_left .., Nat.zero_le _⟩
      | succ n =>
          have hpos := u.width_pos c
          have hwidth := u.width_le_two c
          obtain ⟨hleast, hmost⟩ := ih (n + 1 - u.width c)
          -- a pair that is cut already goes over by one, and nothing more is taken then
          have hover : n + 1 - u.width c = 0 → u.length (u.take (n + 1 - u.width c) cs) = 0 := by
            intro hzero
            rw [hzero]
            cases cs <;> rfl
          rw [take, length_cons, length_cons]
          omega

theorem take_of_length_le (h : u.length cs ≤ n) : u.take n cs = cs := by
  induction cs generalizing n with
  | nil => cases n <;> rfl
  | cons c cs ih =>
      have hpos := u.width_pos c
      rw [length_cons] at h
      cases n with
      | zero => omega
      | succ n => rw [take, ih (by omega)]

theorem take_add (h : u.length (u.take n cs) ≤ n) (k : Nat) :
    u.take (n + k) cs = u.take n cs ++ u.take k (u.drop n cs) := by
  induction cs generalizing n with
  | nil => cases n <;> cases k <;> simp [take, drop]
  | cons c cs ih =>
      cases n with
      | zero => simp [take, drop]
      | succ n =>
          rw [take, length_cons] at h
          have hsum : n + 1 + k - u.width c = n + 1 - u.width c + k := by omega
          rw [Nat.add_right_comm, take, Nat.add_right_comm, hsum, ih (by omega), take, drop, List.cons_append]

end Counts

section Bytes

theorem byteLength_le_of_prefix (h : l <+: m) : byteLength l ≤ byteLength m := by
  obtain ⟨r, rfl⟩ := h
  rw [byteLength_append]
  exact Nat.le_add_right ..

theorem byteIndex?_eq_some_iff :
    u.byteIndex? text n = some i ↔ ∃ s, Spans text 0 i s ∧ u.length s.toList = n := by
  have hspans (s : String) : Spans text 0 i s ↔ s.toList <+: text.toList ∧ byteLength s.toList = i :=
    spans_iff_of_split (l := []) rfl
  rw [byteIndex?, Option.map_eq_some_iff]
  constructor
  · rintro ⟨⟨l, r⟩, hsplit, rfl⟩
    obtain ⟨htext, hlen⟩ := splitAt?_eq_some hsplit
    refine ⟨String.ofList l, (hspans _).2 ?_, ?_⟩
    · rw [String.toList_ofList]
      exact ⟨⟨r, htext⟩, rfl⟩
    · rwa [String.toList_ofList]
  · rintro ⟨s, hs, hlen⟩
    obtain ⟨⟨r, htext⟩, rfl⟩ := (hspans s).1 hs
    exact ⟨(s.toList, r), splitAt?_eq_some_iff.2 ⟨htext, hlen⟩, rfl⟩

theorem byteIndex?_eq_none_iff : u.byteIndex? text n = none ↔
    u.length text.toList < n ∨ insidePair (u.units text.toList) n = true := by
  rw [byteIndex?, Option.map_eq_none_iff, splitAt?_eq_none_iff]

theorem advance_of_split (htext : l ++ r = text.toList) :
    u.advance text (byteLength l) n = byteLength (l ++ u.take n r) := by
  rw [advance, ← htext, fromByte_append, byteLength_append]

theorem mem_reaching_iff (htext : l ++ r = text.toList) : j ∈ u.reaching text (byteLength l) n ↔
    ∃ m, m <+: r ∧ n ≤ u.length m ∧ byteLength (l ++ m) = j := by
  constructor
  · rintro ⟨s, hs, hn⟩
    obtain ⟨hstart, hj⟩ := (spans_iff_of_split htext).1 hs
    exact ⟨s.toList, hstart, hn, hj⟩
  · rintro ⟨m, hstart, hn, hj⟩
    refine ⟨String.ofList m, (spans_iff_of_split htext).2 ?_, ?_⟩
    · rw [String.toList_ofList]
      exact ⟨hstart, hj⟩
    · rwa [String.toList_ofList]

theorem isLeast_advance (htext : l ++ r = text.toList) (h : n ≤ u.length r) :
    IsLeast (u.reaching text (byteLength l) n) (u.advance text (byteLength l) n) := by
  rw [advance_of_split htext]
  constructor
  · rw [mem_reaching_iff htext]
    have henough := (length_take_bounds u n r).1
    exact ⟨u.take n r, take_prefix u n r, by omega, rfl⟩
  · intro j hj
    obtain ⟨m, ⟨r', rfl⟩, hn, rfl⟩ := (mem_reaching_iff htext).1 hj
    exact byteLength_le_of_prefix ((List.prefix_append_right_inj l).2 (take_prefix_of_le hn))

theorem reaching_eq_empty_iff (htext : l ++ r = text.toList) :
    u.reaching text (byteLength l) n = ∅ ↔ u.length r < n := by
  constructor
  · intro hempty
    by_contra hle
    have hmem := (isLeast_advance htext (Nat.le_of_not_lt hle)).1
    rw [hempty] at hmem
    exact hmem
  · intro hlt
    rw [Set.eq_empty_iff_forall_notMem]
    intro j hj
    obtain ⟨m, ⟨r', rfl⟩, hn, -⟩ := (mem_reaching_iff htext).1 hj
    rw [length_append] at hlt
    omega

end Bytes

/-- An offset has the byte of the one boundary with so many units before it, and none exactly if it is past the
end or inside a surrogate pair. From a boundary, a count leads to the nearest boundary with as many units or more
in between, or to the end if there is none, and counts add up as long as the first is not rounded up. -/
theorem lookup_and_advance_are_exact (u : TextUnit) (text : String) :
    (∀ o i, u.byteIndex? text o = some i ↔ ∃ s, Spans text 0 i s ∧ u.length s.toList = o) ∧
      (∀ i j s t, Spans text 0 i s → Spans text 0 j t → u.length s.toList = u.length t.toList → i = j) ∧
      (∀ o, u.byteIndex? text o = none ↔
        u.length text.toList < o ∨ insidePair (u.units text.toList) o = true) ∧
      ∀ i, String.Pos.Raw.IsValid text ⟨i⟩ →
        (∀ n, (u.reaching text i n).Nonempty → IsLeast (u.reaching text i n) (u.advance text i n)) ∧
        (∀ n, u.reaching text i n = ∅ → u.advance text i n = text.utf8ByteSize) ∧
        ∀ n s, Spans text i (u.advance text i n) s → u.length s.toList ≤ n →
          ∀ m, u.advance text (u.advance text i n) m = u.advance text i (n + m) := by
  refine ⟨fun o i => byteIndex?_eq_some_iff, ?_, fun o => byteIndex?_eq_none_iff, ?_⟩
  · intro i j s t hs ht hlen
    have hi := (byteIndex?_eq_some_iff (u := u)).2 ⟨s, hs, hlen⟩
    have hj := (byteIndex?_eq_some_iff (u := u)).2 ⟨t, ht, rfl⟩
    exact Option.some.inj (hi.symm.trans hj)
  · intro i hi
    obtain ⟨l, r, htext, rfl⟩ := isValid_iff_exists_split.1 hi
    refine ⟨?_, ?_, ?_⟩
    · intro n hsome
      refine isLeast_advance htext (Nat.le_of_not_lt fun hlt => ?_)
      rw [(reaching_eq_empty_iff htext).2 hlt] at hsome
      exact Set.not_nonempty_empty hsome
    · intro n hempty
      have hlt := (reaching_eq_empty_iff htext).1 hempty
      rw [advance_of_split htext, take_of_length_le (Nat.le_of_lt hlt), htext, utf8ByteSize_eq]
    · intro n s hs hexact m
      have htake : s.toList = u.take n r := by
        obtain ⟨hstart, hj⟩ := (spans_iff_of_split htext).1 hs
        rw [advance_of_split htext] at hj
        obtain ⟨r', hr'⟩ := hstart
        have hsame : l ++ s.toList ++ r' = l ++ u.take n r ++ u.drop n r := by
          rw [List.append_assoc, hr', List.append_assoc, take_append_drop]
        exact List.append_cancel_left (eq_of_byteLength_eq hsame hj).1
      rw [htake] at hexact
      have hnext : l ++ u.take n r ++ u.drop n r = text.toList := by
        rw [List.append_assoc, take_append_drop, htext]
      rw [advance_of_split htext, advance_of_split hnext, advance_of_split htext, take_add hexact,
        List.append_assoc]

theorem advance_over_pair :
    String.Pos.Raw.IsValid "a😀b" ⟨1⟩ ∧ TextUnit.utf16.byteIndex? "a😀b" 2 = none ∧
      IsLeast (TextUnit.utf16.reaching "a😀b" 1 1) 5 ∧ TextUnit.utf16.advance "a😀b" 1 1 = 5 ∧
      Spans "a😀b" 1 5 "😀" ∧ TextUnit.utf16.length "😀".toList = 2 ∧
      TextUnit.utf16.advance "a😀b" (TextUnit.utf16.advance "a😀b" 1 2) 1 =
        TextUnit.utf16.advance "a😀b" 1 3 := by
  obtain ⟨-, -, hnone, hadvance⟩ := lookup_and_advance_are_exact .utf16 "a😀b"
  have hspan : Spans "a😀b" 1 5 "😀" := ⟨"a", "b", by decide, by decide, by decide⟩
  have hvalid : String.Pos.Raw.IsValid "a😀b" ⟨1⟩ :=
    isValid_iff_exists_split.2 ⟨['a'], ['😀', 'b'], by decide, by decide⟩
  obtain ⟨hleast, -, hsum⟩ := hadvance 1 hvalid
  have hfive : TextUnit.utf16.advance "a😀b" 1 1 = 5 := by decide
  have hfive' : TextUnit.utf16.advance "a😀b" 1 2 = 5 := by decide
  refine ⟨hvalid, (hnone 2).2 (.inr (by decide)), ?_, hfive, hspan, by decide, ?_⟩
  · rw [← hfive]
    exact hleast 1 ⟨5, "😀", hspan, by decide⟩
  · exact hsum 2 "😀" (hfive'.symm ▸ hspan) (by decide) 1

end DraftKeeper.TextUnit
