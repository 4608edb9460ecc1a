import DraftKeeper.Proofs.FailedOperations
import DraftKeeper.Proofs.KeptDrafts

namespace DraftKeeper

open Text.Utf8 (encode)

namespace TextUnit

variable {u : TextUnit} {n : Nat} {cs l r : List Char}

theorem eq_nil_of_splitAt?_iff (h : u.splitAt? n cs = some (l, r)) : r = [] ↔ n = u.length cs := by
  obtain ⟨rfl, rfl⟩ := splitAt?_eq_some h
  rw [length_append, ← length_eq_zero_iff (u := u)]
  omega

theorem drop_eq_self_iff (hn : 0 < n) : u.drop n cs = cs ↔ cs = [] := by
  obtain ⟨n, rfl⟩ := Nat.exists_eq_add_of_le' hn
  cases cs with
  | nil => exact iff_of_true rfl rfl
  | cons c cs =>
      refine iff_of_false (fun h => ?_) (List.cons_ne_nil c cs)
      have hparts := congrArg List.length (u.take_append_drop (n + 1 - u.width c) cs)
      have hlen := congrArg List.length h
      rw [drop, List.length_cons] at hlen
      rw [List.length_append] at hparts
      omega

end TextUnit

namespace Delta

variable {e : Delta} {u : TextUnit} {text changed : String} {cs l r : List Char}

/-- Something is to be removed at the end of a text, where nothing is left. -/
def RemovesNothing (e : Delta) (u : TextUnit) (text : String) : Prop :=
  ∃ count : Int, 0 < count ∧ e = .remove (u.length text.toList) count

theorem atHead_eq_self_iff (he : e.isEffective = true) :
    e.atHead u cs = cs ↔ cs = [] ∧ ∃ n count, e = .remove n count := by
  cases e with
  | insert n text =>
      have hne : text ≠ "" := by simpa [isEffective] using he
      simp [atHead, hne]
  | remove n count =>
      have hpos : 0 < count.toNat := by simpa [isEffective] using he
      rw [atHead, TextUnit.drop_eq_self_iff hpos]
      exact ⟨fun h => ⟨h, n, count, rfl⟩, fun h => h.1⟩

/-- An edit that takes effect leaves the text as it is exactly if it removes nothing. -/
theorem splice_eq_self_iff (h : e.splice u text = .ok (some changed)) :
    changed = text ↔ e.RemovesNothing u text := by
  obtain ⟨he, l, r, hs, rfl⟩ := splice_eq_some_iff.1 h
  obtain ⟨htext, -⟩ := TextUnit.splitAt?_eq_some hs
  rw [← String.toList_inj, String.toList_ofList, ← htext, List.append_cancel_left_eq,
    atHead_eq_self_iff he, TextUnit.eq_nil_of_splitAt?_iff hs]
  constructor
  · rintro ⟨hoff, n, count, rfl⟩
    obtain rfl : n = u.length text.toList := hoff
    exact ⟨count, by simpa [isEffective] using he, rfl⟩
  · rintro ⟨count, -, rfl⟩
    exact ⟨rfl, _, count, rfl⟩

theorem RemovesNothing.isEffective (h : e.RemovesNothing u text) : e.isEffective = true := by
  obtain ⟨count, hpos, rfl⟩ := h
  exact decide_eq_true hpos

theorem isEffective_of_splice_eq_none (h : e.splice u text = .ok none) : e.isEffective = false := by
  by_contra he
  rw [Bool.not_eq_false] at he
  rw [splice, if_pos he] at h
  cases hs : u.splitAt? e.offset text.toList with
  | none => rw [hs] at h; cases h
  | some parts => rw [hs] at h; cases h

end Delta

namespace Keeper

variable {k k' : Keeper} {path endpoint p : String} {d : Draft} {e : Edit} {changed : Bool}

theorem content_of_get? (hp : Path.normalize path = .ok p) (hd : k.drafts.get? p = some d) :
    content path k = .ok d.text k := by
  refine content_eq_ok_iff.2 ⟨p, hp, .inl ?_⟩
  rw [texts_apply, hd, Option.map_some]

theorem shown_of_opened (hp : Path.normalize path = .ok p) (h : opened p k = .ok d k') :
    content path k = .ok d.text k ∧ (k.drafts.get? p = some d ∨
      k.drafts.get? p = none ∧ d.dirty = false) ∧ k'.drafts.get? p = some d ∧ k'.updates = k.updates ∧
        k'.options = k.options ∧ k'.clock = k.clock := by
  rcases opened_eq_ok.1 h with ⟨hd, rfl⟩ | ⟨hfree, hc⟩
  · exact ⟨content_of_get? hp hd, .inl hd, hd, rfl, rfl, rfl⟩
  have hnorm := Path.normalize_of_normalize hp
  obtain ⟨w, l, content, hread, rfl, rfl, -⟩ := create_eq_ok hnorm hc
  refine ⟨content_eq_ok_iff.2 ⟨p, hp, .inr ⟨?_, ?_⟩⟩, .inr ⟨hfree, rfl⟩, Drafts.get?_put_self .., rfl, rfl, rfl⟩
  · rw [texts_apply, hfree, Option.map_none]
  · exact Workspace.text_eq_ok_iff.2
      ⟨content, (Workspace.read_eq_ok_iff_content? hnorm).1 hread, rfl⟩

/-- An edit that succeeds answers that it changed something, publishes an update and marks the draft dirty, or
it does none of the three. It does them if another text is seen of the path afterwards, and also where it
removes nothing at the end of the text: then the same text is seen. -/
theorem edit_tells_change_iff (h : edit endpoint e k = .ok changed k') :
    ∃ p d before after, Path.normalize e.location = .ok p ∧
      content e.location k = .ok before k ∧ content e.location k' = .ok after k' ∧
      (k.drafts.get? p = some d ∨ k.drafts.get? p = none ∧ d.dirty = false) ∧ d.text = before ∧
      k'.drafts.get? p = some (if changed then d.replace (encode after) else d) ∧
      k'.updates = k.updates ++ (if changed then [⟨endpoint, e, k.clock⟩] else []) ∧
      (changed = true ↔ after ≠ before ∨ e.delta.RemovesNothing k.options.unit before) ∧
      (e.delta.RemovesNothing k.options.unit before → after = before) := by
  obtain ⟨p, d, k₁, hp, ho, ha⟩ := edit_eq_ok h
  obtain ⟨hbefore, hthere, hd, hupdates, hoptions, hclock⟩ := shown_of_opened hp ho
  rcases applied_eq_ok ha with ⟨rfl, happly, rfl⟩ | ⟨d', rfl, happly, rfl⟩
  · -- the edit has no effect
    obtain ⟨found, hsplice, hnone⟩ := Draft.apply_eq_ok happly
    obtain rfl := Option.map_eq_none_iff.1 hnone.symm
    rw [hoptions] at hsplice
    have hkeeps : ¬ e.delta.RemovesNothing k.options.unit d.text := fun hr => by
      cases hr.isEffective.symm.trans (Delta.isEffective_of_splice_eq_none hsplice)
    refine ⟨p, d, d.text, d.text, hp, hbefore, content_of_get? hp hd, hthere, rfl, hd, ?_, ?_, fun _ => rfl⟩
    · simpa using hupdates
    · simpa using hkeeps
  · obtain ⟨text, hsplice, rfl⟩ := Draft.apply_eq_some happly
    rw [hoptions] at hsplice
    have hsame := Delta.splice_eq_self_iff hsplice
    have hd' := Drafts.get?_put_self k₁.drafts p (d.replace (encode text))
    refine ⟨p, d, d.text, text, hp, hbefore, ?_, hthere, rfl, hd', ?_, ?_, hsame.2⟩
    · rw [content_of_get? hp hd', Draft.text_replace]
    · simp [hupdates, hclock]
    · refine iff_of_true rfl ?_
      rw [← hsame]
      exact ne_or_eq text d.text

end Keeper

namespace Session

open Keeper (edit content answer?)

theorem insertion_is_told :
    ∃ k d, edit "e" ⟨"/p/a", .insert 2 "!"⟩ sampleKept.keeper = .ok true k ∧
      content "/p/a" sampleKept.keeper = .ok "hi" sampleKept.keeper ∧
      content "/p/a" k = .ok "hi!" k ∧ k.updates = [⟨"e", ⟨"/p/a", .insert 2 "!"⟩, ⟨0, 0, 0⟩⟩] ∧
      k.drafts.get? "/p/a" = some d ∧ d.dirty = true := by
  have hp : Path.normalize "/p/a" = .ok "/p/a" := Path.normalize_eq_ok_iff.2 (by decide)
  obtain ⟨hok, hhi, hhi'⟩ :
      Keeper.failure? (edit "e" ⟨"/p/a", .insert 2 "!"⟩) sampleKept.keeper = none ∧
      answer? (content "/p/a") sampleKept.keeper = some "hi" ∧
      answer? (content "/p/a") (Keeper.after (edit "e" ⟨"/p/a", .insert 2 "!"⟩) sampleKept.keeper) =
        some "hi!" := by decide
  obtain ⟨changed, hedit⟩ := Keeper.eq_ok_of_failure? _ _ hok
  obtain ⟨p, d, before, text, hnorm, hbefore, htext, -, -, hd, hupdates, hiff, -⟩ :=
    Keeper.edit_tells_change_iff hedit
  dsimp only at hnorm hbefore htext
  obtain rfl : "/p/a" = p := Except.ok.inj (hp.symm.trans hnorm)
  rw [answer?, hbefore] at hhi
  rw [answer?, htext] at hhi'
  obtain rfl : before = "hi" := Option.some.inj hhi
  obtain rfl : text = "hi!" := Option.some.inj hhi'
  obtain rfl : changed = true := hiff.2 (.inl (by decide))
  exact ⟨_, _, hedit, hbefore, htext, hupdates, hd, rfl⟩

/-- A file is opened by a removal at its end. The same text is seen before and after, but an update is
published, and the next sweep puts the content of the file in the place of the draft that was kept for it. -/
theorem removal_at_end_overwrites_kept_draft :
    let e : Edit := ⟨"/p/a", .remove 2 1⟩
    let k := Keeper.after (edit "e" e) sampleKept.keeper
    Reached (fun _ _ => True) sampleKept sampleKept ∧
      answer? (edit "e" e) sampleKept.keeper = some true ∧
      answer? (content "/p/a") sampleKept.keeper = some "hi" ∧ answer? (content "/p/a") k = some "hi" ∧
      k.updates = [⟨"e", e, ⟨0, 0, 0⟩⟩] ∧ (k.drafts.get? "/p/a").map Draft.dirty = some true ∧
      answer? (Keeper.recoverable? "/p/a") sampleKept.keeper = some (some "hi!") ∧
      sampleKept.keeper.workspace.disk.content? ["p", ".d", "p.a"] = some [104, 105, 33] ∧
      k.sweep.2.workspace.disk.content? ["p", ".d", "p.a"] = some [104, 105] := by
  refine ⟨.start, ?_⟩
  decide +kernel

end Session

end DraftKeeper
