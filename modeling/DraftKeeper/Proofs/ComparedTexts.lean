import DraftKeeper.Proofs.Comparisons
import DraftKeeper.Proofs.DraftPlaces
import DraftKeeper.Proofs.ReplacedBytes
import DraftKeeper.Proofs.TextMaps

namespace DraftKeeper

open Text.Utf8 (decode encode)
open Digest.Sha256 (NoCollision)

def Delta.textAfter (u : TextUnit) (es : List Delta) (text : String) : String :=
  es.foldl (fun text e => e.editedText u text) text

namespace Draft

theorem text_applyAll (d : Draft) (u : TextUnit) (es : List Delta) :
    (d.applyAll u es).text = Delta.textAfter u es d.text := by
  induction es generalizing d with
  | nil => rfl
  | cons e es ih => exact (ih (d.step u e)).trans (by rw [text_step]; rfl)

end Draft

namespace Keeper

variable {k k' : Keeper} {path p : String} {d : Draft} {e : Edit} {file : Bytes}
  {edits : List (String × Edit)}

def editAll (edits : List (String × Edit)) (k : Keeper) : Keeper :=
  edits.foldl (fun k e => after (edit e.1 e.2) k) k

theorem after_edit_of_get? (endpoint : String) (hp : Path.normalize e.location = .ok p)
    (hd : k.drafts.get? p = some d) :
    (after (edit endpoint e) k).workspace = k.workspace ∧ (after (edit endpoint e) k).options = k.options ∧
      (after (edit endpoint e) k).drafts.get? p = some (d.step k.options.unit e.delta) := by
  rw [after, edit_of_opened hp (opened_of_some hd), applied, bind_of_ok _ (get_eq k), Draft.step]
  rcases d.apply e.delta k.options.unit with cause | _ | changed
  · exact ⟨rfl, rfl, hd⟩
  · exact ⟨rfl, rfl, hd⟩
  · exact ⟨rfl, rfl, Drafts.get?_put_self ..⟩

theorem editAll_of_get? (hp : ∀ e ∈ edits, Path.normalize e.2.location = .ok p)
    (hd : k.drafts.get? p = some d) : (k.editAll edits).workspace = k.workspace ∧
      (k.editAll edits).drafts.get? p = some (d.applyAll k.options.unit (edits.map fun e => e.2.delta)) := by
  induction edits generalizing k d with
  | nil => exact ⟨rfl, hd⟩
  | cons e edits ih =>
      obtain ⟨hw, ho, hd'⟩ := after_edit_of_get? e.1 (hp e List.mem_cons_self) hd
      obtain ⟨hw', hlast⟩ := ih (fun e' he => hp e' (List.mem_cons_of_mem e he)) hd'
      rw [ho] at hlast
      exact ⟨hw'.trans hw, hlast⟩

theorem copied_of_start (hp : Path.normalize path = .ok p) (hd : k.drafts.get? p = none)
    (hfile : k.workspace.read p = .ok file) (h : start path k = .ok () k') :
    k'.options = k.options ∧ k'.workspace.read p = .ok file ∧
      ∃ d, k'.drafts.get? p = some d ∧ d.content = file := by
  obtain ⟨q, d, hq, ho⟩ := start_eq_ok h
  obtain rfl := Except.ok.inj (hp.symm.trans hq)
  have hnorm := Path.normalize_of_normalize hp
  rw [opened_of_none hd] at ho
  obtain ⟨w, l, content, hread, rfl, rfl, hl, hw, -⟩ := create_eq_ok hnorm ho
  obtain rfl := Except.ok.inj (hfile.symm.trans hread)
  refine ⟨rfl, ?_, _, Drafts.get?_put_self .., rfl⟩
  rw [Workspace.read_eq_ok_iff_content? hnorm] at hfile ⊢
  rw [← hfile]
  exact hw.2.content _ (by simpa using (Options.draftPlace?_ne hnorm hl).symm)

end Keeper

namespace Comparison

/-- A text comes back from its bytes, and bytes are read with one replacement for each piece that is malformed.
Unless the digests of two texts collide, contents differ exactly if these texts do, and a draft is ahead of a file
that can be read exactly if its text is not the file's: in particular neither when tracking has only begun nor
after edits that come back to the text of the file. -/
theorem compares_texts :
    (∀ t : String, decode (encode t) = t) ∧
      (∀ (bs : Bytes) (t : String), Text.Utf8.Decodes bs t.toList ↔ decode bs = t) ∧
      (∀ bs : Bytes, decode (encode (decode bs)) = decode bs) ∧
      (∀ l r : Bytes, NoCollision (encode (decode l)) (encode (decode r)) →
        (differ l r = false ↔ decode l = decode r)) ∧
      (∀ (w : Workspace) (o : Drafts) (p : String) (d : Draft) (file : Bytes), o.get? p = some d →
        w.read p = .ok file → NoCollision (encode d.text) (encode (decode file)) →
        (isAhead w o p = false ↔ d.text = decode file)) ∧
      ∀ (k k' : Keeper) (path p : String) (file : Bytes), Path.normalize path = .ok p →
        k.drafts.get? p = none → k.workspace.read p = .ok file → Keeper.start path k = .ok () k' →
        isAhead k'.workspace k'.drafts p = false ∧
          ∀ edits : List (String × Edit), (∀ e ∈ edits, Path.normalize e.2.location = .ok p) →
            Delta.textAfter k.options.unit (edits.map fun e => e.2.delta) (decode file) = decode file →
            isAhead (k'.editAll edits).workspace (k'.editAll edits).drafts p = false := by
  refine ⟨Text.Utf8.decode_encode, fun bs t => ?_, fun bs => Text.Utf8.decode_encode _,
    fun l r => differ_eq_false_iff, fun w o p d file hd hfile hsha => ?_,
    fun k k' path p file hp hd hfile hstart => ?_⟩
  · rw [Text.Utf8.decodes_iff, decode, ← String.toList_inj, String.toList_ofList]
  · rw [isAhead_of_read hd hfile]
    exact differ_eq_false_iff hsha
  · obtain ⟨ho, hread, d, hd', rfl⟩ := Keeper.copied_of_start hp hd hfile hstart
    refine ⟨?_, fun edits hedits htext => ?_⟩
    · rw [isAhead_of_read hd' hread]
      exact differ_of_decode_eq rfl
    · obtain ⟨hw, hlast⟩ := Keeper.editAll_of_get? hedits hd'
      rw [← hw] at hread
      rw [isAhead_of_read hlast hread]
      refine differ_of_decode_eq ?_
      rw [ho]
      exact (Draft.text_applyAll d _ _).trans htext

def sampleMalformed : Keeper :=
  .new .sample ⟨"/w", ⟨[([], .folder 0o755), (["p"], .folder 0o755),
    (["p", "a"], .file 0o644 [0x61, 0xFF])]⟩⟩ 4 ⟨0, 0, 0⟩

def sampleStarted : Keeper := Keeper.after (Keeper.start "/p/a") sampleMalformed

def sampleEdits : List (String × Edit) :=
  [("e", ⟨"/p/a", .insert 0 "x"⟩), ("f", ⟨"p\\a", .remove 0 1⟩)]

theorem compares_texts_of_malformed :
    isAhead sampleStarted.workspace sampleStarted.drafts "/p/a" = false ∧
      isAhead (sampleStarted.editAll (sampleEdits.take 1)).workspace
        (sampleStarted.editAll (sampleEdits.take 1)).drafts "/p/a" ≠ false ∧
      isAhead (sampleStarted.editAll sampleEdits).workspace
        (sampleStarted.editAll sampleEdits).drafts "/p/a" = false ∧
      (sampleStarted.editAll sampleEdits).drafts.get? "/p/a" =
        some ⟨"p.a", "/p", [0x61, 0xEF, 0xBF, 0xBD], true⟩ ∧
      differ [0x61, 0xFF] [0x61, 0xEF, 0xBF, 0xBD] = false := by
  obtain ⟨-, -, -, hdiffer, hahead, hcopies⟩ := compares_texts
  have hp : Path.normalize "/p/a" = .ok "/p/a" := Path.normalize_eq_ok_iff.2 (by decide +kernel)
  have hread {w : Workspace} (hw : w.disk.content? ["p", "a"] = some [0x61, 0xFF]) :
      w.read "/p/a" = .ok [0x61, 0xFF] := (Workspace.read_eq_ok_iff_content? hp).2 hw
  obtain ⟨u, hstart⟩ := Keeper.eq_ok_of_failure? (Keeper.start "/p/a") sampleMalformed (by decide +kernel)
  obtain ⟨hstarted, hedited⟩ := hcopies _ _ _ _ _ hp rfl (hread (by decide +kernel)) hstart
  refine ⟨hstarted, ?_, hedited sampleEdits ?_ (by decide +kernel), by decide +kernel, ?_⟩
  · have hiff := hahead (sampleStarted.editAll (sampleEdits.take 1)).workspace
      (sampleStarted.editAll (sampleEdits.take 1)).drafts "/p/a" ⟨"p.a", "/p", [0x78, 0x61, 0xEF, 0xBF, 0xBD], true⟩
      [0x61, 0xFF] (by decide +kernel) (hread (by decide +kernel)) (by decide +kernel)
    rw [ne_eq, hiff]
    decide +kernel
  · have hback : Path.normalize "p\\a" = .ok "/p/a" := Path.normalize_eq_ok_iff.2 (by decide +kernel)
    simp [sampleEdits, hp, hback]
  · exact (hdiffer _ _ (by decide +kernel)).2 (by decide +kernel)

end Comparison

end DraftKeeper
