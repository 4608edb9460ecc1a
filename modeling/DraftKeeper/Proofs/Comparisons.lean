import DraftKeeper.Comparison
import DraftKeeper.Proofs.Workspaces

namespace DraftKeeper

theorem Text.Utf8.encode_injective : Function.Injective Text.Utf8.encode := by
  intro s t h
  have hbytes : s.toList.utf8Encode = t.toList.utf8Encode := congrArg List.toByteArray h
  rwa [String.utf8Encode_toList, String.utf8Encode_toList, String.toByteArray_inj] at hbytes

namespace Digest.Sha256

def NoCollision (a b : Bytes) : Prop := digest a = digest b → a = b

instance (a b : Bytes) : Decidable (NoCollision a b) :=
  inferInstanceAs (Decidable (digest a = digest b → a = b))

theorem hexDigit_inj {m n : Nat} (hm : m < 16) (hn : n < 16) (h : hexDigit m = hexDigit n) :
    m = n := by
  have hall : ∀ a b : Fin 16, hexDigit a = hexDigit b → a = b := by decide
  exact congrArg Fin.val (hall ⟨m, hm⟩ ⟨n, hn⟩ h)

theorem hexChars_cons (b : UInt8) (bs : Bytes) : hexChars (b :: bs) =
    hexDigit (b.toNat / 16) :: hexDigit (b.toNat % 16) :: hexChars bs := rfl

theorem hexChars_inj {bs cs : Bytes} (h : hexChars bs = hexChars cs) : bs = cs := by
  induction bs generalizing cs with
  | nil =>
      cases cs with
      | nil => rfl
      | cons c cs => cases h
  | cons b bs ih =>
      cases cs with
      | nil => cases h
      | cons c cs =>
          rw [hexChars_cons, hexChars_cons] at h
          obtain ⟨hhigh, h⟩ := List.cons.inj h
          obtain ⟨hlow, h⟩ := List.cons.inj h
          have hb := b.toNat_lt
          have hc := c.toNat_lt
          have hdiv := hexDigit_inj (by omega) (by omega) hhigh
          have hmod := hexDigit_inj (by omega) (by omega) hlow
          have hbc : b = c := UInt8.toNat_inj.1 (by omega)
          rw [hbc, ih h]

theorem digestHex_inj {a b : Bytes} (h : digestHex a = digestHex b) : digest a = digest b :=
  hexChars_inj (String.ofList_injective h)

end Digest.Sha256

namespace Comparison

open Text.Utf8 Digest.Sha256

theorem differ_iff {l r : Bytes} (h : NoCollision (encode (decode l)) (encode (decode r))) :
    differ l r = true ↔ decode l ≠ decode r := by
  unfold differ textDigest
  rw [decide_eq_true_iff]
  refine not_congr ⟨fun hd => encode_injective (h (digestHex_inj hd)), fun heq => ?_⟩
  rw [heq]

/-- Contents with the same text do not differ, whatever their bytes. -/
theorem differ_of_decode_eq {l r : Bytes} (h : decode l = decode r) : differ l r = false :=
  decide_eq_false fun hne => hne (by rw [textDigest, textDigest, h])

theorem differ_eq_false_iff {l r : Bytes} (h : NoCollision (encode (decode l)) (encode (decode r))) :
    differ l r = false ↔ decode l = decode r := by
  rw [← Bool.not_eq_true, differ_iff h, Decidable.not_not]

theorem isAhead_of_read {w : Workspace} {o : Drafts} {p : String} {d : Draft} {file : Bytes}
    (hd : o.get? p = some d) (hfile : w.read p = .ok file) : isAhead w o p = differ d.content file := by
  obtain ⟨place, hplace, -⟩ := Workspace.read_eq_ok_iff.1 hfile
  obtain ⟨q, hq⟩ := Workspace.ofName?_eq_some_iff.1 hplace
  have hitem := Workspace.file?_of_read (Workspace.resolve_eq_ok_iff.1 hq).1 hfile
  simp only [isAhead, hd, fileContent?, hitem, bind, Except.bind, hfile, Except.map]

theorem read_of_isAhead {w : Workspace} {o : Drafts} {path : String} (h : isAhead w o path = true) :
    ∃ content, w.read path = .ok content := by
  unfold isAhead fileContent? at h
  cases hr : w.read path with
  | ok content => exact ⟨content, rfl⟩
  | error e =>
      split at h
      · cases h
      · rcases hf : w.file? path with _ | _ | item <;>
          simp [hf, hr, bind, Except.bind, Except.map, pure, Except.pure] at h

end Comparison

end DraftKeeper
