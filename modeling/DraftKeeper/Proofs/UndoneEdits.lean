import DraftKeeper.Proofs.DeltaRuns
import DraftKeeper.Proofs.OffsetLookup

namespace DraftKeeper.Delta

open TextUnit (Spans)

variable {u : TextUnit} {text changed s : String} {o : Nat} {count : Int}

theorem insert_eq_some_iff : (insert o s).splice u text = .ok (some changed) ↔
    s ≠ "" ∧ ∃ l r, (l ++ r = text.toList ∧ u.length l = o) ∧
      changed = String.ofList (l ++ (s.toList ++ r)) := by
  simp only [splice_eq_some_iff, TextUnit.splitAt?_eq_some_iff]
  simp only [isEffective, offset, atHead, Bool.not_eq_true', String.isEmpty_eq_false_iff]

theorem remove_eq_some_iff : (remove o count).splice u text = .ok (some changed) ↔
    0 < count ∧ ∃ l r, (l ++ r = text.toList ∧ u.length l = o) ∧
      changed = String.ofList (l ++ u.drop count.toNat r) := by
  simp only [splice_eq_some_iff, TextUnit.splitAt?_eq_some_iff]
  simp only [isEffective, offset, atHead, decide_eq_true_eq]

theorem remove_inserted (h : (insert o s).splice u text = .ok (some changed)) :
    (remove o (u.length s.toList)).splice u changed = .ok (some text) := by
  obtain ⟨hs, l, r, ⟨htext, hlen⟩, rfl⟩ := insert_eq_some_iff.1 h
  have hpos : 0 < u.length s.toList := by
    rw [Nat.pos_iff_ne_zero, ne_eq, TextUnit.length_eq_zero_iff, String.toList_eq_nil_iff]
    exact hs
  refine remove_eq_some_iff.2 ⟨by exact_mod_cast hpos, l, s.toList ++ r, ⟨?_, hlen⟩, ?_⟩
  · rw [String.toList_ofList]
  · rw [Int.toNat_natCast, TextUnit.drop_append, htext, String.ofList_toList]

/-- What a removal takes away lies at its offset and has the units asked for, or all that are left; a pair in
which they end counts as a whole. -/
theorem insert_removed (h : (remove o count).splice u text = .ok (some changed)) :
    ∃ i j s, u.byteIndex? text o = some i ∧ Spans text i j s ∧
      min count.toNat (u.length text.toList - o) ≤ u.length s.toList ∧
      u.length s.toList ≤ min count.toNat (u.length text.toList - o) + 1 ∧
      (s ≠ "" → (insert o s).splice u changed = .ok (some text)) ∧ (s = "" → changed = text) := by
  obtain ⟨-, l, r, ⟨htext, hlen⟩, rfl⟩ := remove_eq_some_iff.1 h
  have hsplit : u.splitAt? o text.toList = some (l, r) := TextUnit.splitAt?_eq_some_iff.2 ⟨htext, hlen⟩
  have hparts := u.take_append_drop count.toNat r
  have hleft : u.length text.toList - o = u.length r := by
    rw [← htext, TextUnit.length_append, hlen, Nat.add_sub_cancel_left]
  have hspan : Spans text (TextUnit.byteLength l) (TextUnit.byteLength (l ++ u.take count.toNat r))
      (String.ofList (u.take count.toNat r)) := by
    refine TextUnit.spans_ofList (r := u.drop count.toNat r) ?_
    rw [List.append_assoc, hparts, htext]
  refine ⟨_, _, _, ?_, hspan, ?_⟩
  · rw [TextUnit.byteIndex?, hsplit, Option.map_some]
  · rw [hleft, String.toList_ofList]
    obtain ⟨hleast, hmost⟩ := TextUnit.length_take_bounds u count.toNat r
    refine ⟨hleast, hmost, fun hne => ?_, fun hempty => ?_⟩
    · refine insert_eq_some_iff.2 ⟨hne, l, u.drop count.toNat r, ⟨?_, hlen⟩, ?_⟩
      · rw [String.toList_ofList]
      · rw [String.toList_ofList, hparts, htext, String.ofList_toList]
    · rw [String.ofList_eq_empty_iff] at hempty
      rw [hempty, List.nil_append] at hparts
      rw [hparts, htext, String.ofList_toList]

/-- Whatever was inserted into a text, removing as many units at the same offset gives the text back; and
whatever was removed is a piece of the text, at that offset and of that many units, one more at most, which gives
the text back when it is inserted there. Where nothing was left to remove the text was never changed. -/
theorem edits_are_undone (u : TextUnit) (text : String) (o : Nat) :
    (∀ s changed, s ≠ "" → (insert o s).splice u text = .ok (some changed) →
      (remove o (u.length s.toList)).splice u changed = .ok (some text)) ∧
    ∀ count changed, (remove o count).splice u text = .ok (some changed) →
      ∃ i j s, u.byteIndex? text o = some i ∧ Spans text i j s ∧
        min count.toNat (u.length text.toList - o) ≤ u.length s.toList ∧
        u.length s.toList ≤ min count.toNat (u.length text.toList - o) + 1 ∧
        (s ≠ "" → (insert o s).splice u changed = .ok (some text)) ∧ (s = "" → changed = text) :=
  ⟨fun _ _ _ h => remove_inserted h, fun _ _ h => insert_removed h⟩

theorem removed_pair_is_put_back :
    (remove 1 1).splice .utf16 "a😀b" = .ok (some "ab") ∧
      (∃ i j s, TextUnit.utf16.byteIndex? "a😀b" 1 = some i ∧ Spans "a😀b" i j s ∧
        1 ≤ TextUnit.utf16.length s.toList ∧ (s ≠ "" → (insert 1 s).splice .utf16 "ab" = .ok (some "a😀b"))) ∧
      (insert 2 "😀").splice .utf16 "ab" = .ok (some "ab😀") ∧
      (remove 2 (TextUnit.utf16.length "😀".toList)).splice .utf16 "ab😀" = .ok (some "ab") := by
  have hremoved : (remove 1 1).splice .utf16 "a😀b" = .ok (some "ab") := by decide
  have hinserted : (insert 2 "😀").splice .utf16 "ab" = .ok (some "ab😀") := by decide
  obtain ⟨i, j, s, hi, hspan, hleast, -, hback, -⟩ := (edits_are_undone .utf16 "a😀b" 1).2 1 "ab" hremoved
  refine ⟨hremoved, ⟨i, j, s, hi, hspan, ?_, hback⟩, hinserted, ?_⟩
  · have hone : min (1 : Int).toNat (TextUnit.utf16.length "a😀b".toList - 1) = 1 := by decide
    exact hone ▸ hleast
  · exact (edits_are_undone .utf16 "ab" 2).1 "😀" "ab😀" (by decide) hinserted

end DraftKeeper.Delta
