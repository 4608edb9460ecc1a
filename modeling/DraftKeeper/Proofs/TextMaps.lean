import DraftKeeper.Proofs.DeltaRuns
import DraftKeeper.Proofs.Effects

namespace DraftKeeper

/-- The text after an edit of its units; an edit that fails or has no effect leaves the text. -/
def Delta.editedText (u : TextUnit) (e : Delta) (text : String) : String :=
  match e.spliceUnits u (u.units text.toList) with
  | .ok (some us) => String.ofList (TextUnit.ofUnits us)
  | .ok none | .error _ => text

theorem Draft.text_step (d : Draft) (u : TextUnit) (e : Delta) :
    (d.step u e).text = e.editedText u d.text := by
  rw [step, apply_eq_spliceUnits, Delta.editedText]
  rcases e.spliceUnits u (u.units d.text.toList) with cause | _ | us
  · rfl
  · rfl
  · change Text.Utf8.decode (Text.Utf8.encodeChars _) = _
    rw [Text.Utf8.decode, Text.Utf8.decodeChars_encodeChars]

namespace Workspace

def text? (w : Workspace) (p : String) : Option String :=
  (w.disk.content? (Path.slashComponents p)).map Text.Utf8.decode

end Workspace

abbrev TextMap := String → Option String

namespace TextMap

def empty : TextMap := fun _ => none

def set (m : TextMap) (p : String) (text : Option String) : TextMap :=
  fun q => if p = q then text else m q

def opened (m : TextMap) (w : Workspace) (p : String) : TextMap :=
  if (m p).isSome then m else m.set p (w.text? p)

def edited (m : TextMap) (u : TextUnit) (e : Delta) (p : String) : TextMap :=
  m.set p ((m p).map (e.editedText u))

def erased (m : TextMap) (p : String) : TextMap := m.set p none

def renamed (m : TextMap) (source target : String) : TextMap :=
  if source = target ∨ m source = none then m else (m.erased source).set target (m source)

def atPath (m : TextMap) (path : String) (change : String → TextMap) : TextMap :=
  match Path.normalize path with
  | .ok p => change p
  | .error _ => m

/-- The map after an operation that ended in a failure, or in none. An edit out of range has opened
the file by then; any other failure, and any other operation, changes nothing. -/
def after (m : TextMap) (u : TextUnit) (w : Workspace) : Operation → Option Failure → TextMap
  | .track _ (.start path), none => m.atPath path (m.opened w)
  | .track _ (.stop path), none => m.atPath path m.erased
  | .track _ (.move old new), none =>
    m.atPath old fun source => m.atPath new fun target => m.renamed source target
  | .edit _ e, none => m.atPath e.location fun p => (m.opened w p).edited u e.delta p
  | .edit _ e, some (.outOfRange _) => m.atPath e.location (m.opened w)
  | _, _ => m

variable {m : TextMap} {path p : String}

theorem atPath_of_ok {change : String → TextMap} (h : Path.normalize path = .ok p) :
    m.atPath path change = change p := by
  rw [atPath, h]

theorem set_self {text : Option String} (h : m p = text) : m.set p text = m := by
  funext q
  rw [set]
  split
  · next hq => rw [← hq, h]
  · rfl

end TextMap

namespace Operation

/-- The failure that an operation ends in, if it does. A sweep counts failures and ends in none. -/
def failure? : Operation → Keeper → Option Failure
  | .track _ signal => Keeper.failure? (Keeper.track signal)
  | .edit endpoint e => Keeper.failure? (Keeper.edit endpoint e)
  | .persistentLocation path => Keeper.failure? (Keeper.persistentLocation? path)
  | .sweep => fun _ => none
  | .content path => Keeper.failure? (Keeper.content path)
  | .recoverable path => Keeper.failure? (Keeper.recoverable? path)

end Operation

namespace Keeper

variable {k k' : Keeper} {path endpoint p : String} {draft : Draft} {f : Failure}

def texts (k : Keeper) : TextMap := fun p => (k.drafts.get? p).map Draft.text

section Failures

def FailsOnly {α : Type} (sort : Failure → Prop) (work : Keeping α) : Prop :=
  ∀ k f k', work k = .error f k' → sort f

theorem FailsOnly.bind {α β : Type} {sort : Failure → Prop} {work : Keeping α}
    {next : α → Keeping β} (h : FailsOnly sort work) (hn : ∀ a, FailsOnly sort (next a)) :
    FailsOnly sort (work >>= next) := by
  intro k f k' he
  rcases bind_eq_error.1 he with he | ⟨a, k₁, -, he⟩
  · exact h k f k' he
  · exact hn a k₁ f k' he

/-- An edit out of range is the failure of no other step than the edit. -/
def NotOutOfRange (f : Failure) : Prop := ∀ cause, f ≠ .outOfRange cause

theorem failsOnly_storing {α : Type} (work : Storing α) :
    FailsOnly NotOutOfRange (storing work) := by
  intro k f k' h
  obtain ⟨cause, w, -, rfl, -⟩ := storing_eq_error.1 h
  exact nofun

theorem failsOnly_ensureFolder (project : String) :
    FailsOnly NotOutOfRange (ensureFolder project) := fun k f k' h =>
  failsOnly_storing (DraftFolder.ensure k.options.folder project) k f k' h

theorem failsOnly_create (p : String) : FailsOnly NotOutOfRange (create p) := by
  refine .bind (failsOnly_storing _) fun item => ?_
  cases item with
  | none =>
      intro k f k' h
      obtain ⟨rfl, -⟩ := throw_eq_error.1 h
      exact nofun
  | some item =>
      refine .bind (failsOnly_storing _) fun content =>
        .bind (failsOnly_ensureFolder _) fun folder => .bind (failsOnly_storing _) fun found => ?_
      cases found with
      | true => exact fun _ _ _ => nofun
      | false => exact .bind (failsOnly_storing _) fun _ => fun _ _ _ => nofun

theorem edit_error_cases {e : Edit} (h : edit endpoint e k = .error f k') :
    (∃ p draft cause, Path.normalize e.location = .ok p ∧ opened p k = .ok draft k' ∧
        f = .outOfRange cause) ∨
      NotOutOfRange f ∧ k'.drafts = k.drafts := by
  rw [edit_eq] at h
  rcases bind_eq_error.1 h with h | ⟨p, k₁, hp, h⟩
  · obtain ⟨⟨cause, -, rfl⟩, rfl⟩ := normalized_eq_error.1 h
    refine .inr ⟨fun cause h => ?_, rfl⟩
    cases h
  obtain ⟨hnorm, rfl⟩ := normalized_eq_ok.1 hp
  rcases bind_eq_error.1 h with ho | ⟨draft, k₁, ho, h⟩
  · obtain ⟨-, hc⟩ := opened_eq_error.1 ho
    obtain ⟨w, rfl, -⟩ := create_eq_error hc
    exact .inr ⟨failsOnly_create p k f _ hc, rfl⟩
  · obtain rfl := applied_eq_error h
    rw [applied, bind_of_ok _ (get_eq _)] at h
    rcases ha : draft.apply e.delta k'.options.unit with cause | _ | draft'
    · rw [ha] at h
      obtain ⟨rfl, -⟩ := throw_eq_error.1 h
      exact .inl ⟨p, draft, cause, hnorm, ho, rfl⟩
    · rw [ha] at h
      exact absurd h pure_ne_error
    · rw [ha] at h
      cases h

end Failures

section Texts

theorem texts_eq_of_drafts (h : k'.drafts = k.drafts) : k'.texts = k.texts := by
  funext q
  rw [texts, h, texts]

theorem texts_of_put (h : k'.drafts = k.drafts.put p draft) :
    k'.texts = k.texts.set p (some draft.text) := by
  funext q
  rw [texts, h, Drafts.get?_put, TextMap.set]
  split <;> rfl

theorem texts_of_erase (h : k'.drafts = k.drafts.erase p) : k'.texts = k.texts.erased p := by
  funext q
  rw [texts, h, Drafts.get?_erase, TextMap.erased, TextMap.set]
  split <;> rfl

theorem texts_of_get? (h : k.drafts.get? p = some draft) : k.texts p = some draft.text := by
  rw [texts, h]
  rfl

theorem texts_of_put_same {draft' : Draft} (hd : k.drafts.get? p = some draft)
    (ht : draft'.text = draft.text) (h : k'.drafts = k.drafts.put p draft') :
    k'.texts = k.texts := by
  rw [texts_of_put h, ht, TextMap.set_self (texts_of_get? hd)]

theorem texts_opened (hp : Path.normalize p = .ok p) (h : opened p k = .ok draft k') :
    k'.texts = k.texts.opened k.workspace p ∧ k'.drafts.get? p = some draft := by
  rcases opened_eq_ok.1 h with ⟨hd, rfl⟩ | ⟨hnone, hc⟩
  · refine ⟨?_, hd⟩
    rw [TextMap.opened, texts_of_get? hd]
    rfl
  · obtain ⟨w, l, content, hread, rfl, rfl, -⟩ := create_eq_ok hp hc
    refine ⟨?_, Drafts.get?_put_self ..⟩
    have htext : k.workspace.text? p = some (Text.Utf8.decode content) := by
      rw [Workspace.text?, (Workspace.read_eq_ok_iff_content? hp).1 hread]
      rfl
    have hfree : k.texts p = none := by
      rw [texts, hnone]
      rfl
    rw [texts_of_put (k := k) rfl, TextMap.opened, hfree, htext]
    rfl

theorem options_opened (hp : Path.normalize p = .ok p) (h : opened p k = .ok draft k') :
    k'.options = k.options := by
  rcases opened_eq_ok.1 h with ⟨-, rfl⟩ | ⟨-, hc⟩
  · rfl
  · obtain ⟨w, l, content, -, -, rfl, -⟩ := create_eq_ok hp hc
    rfl

theorem text_of_apply {d d' : Draft} {e : Delta} {u : TextUnit}
    (h : d.apply e u = .ok (some d')) : d'.text = e.editedText u d.text := by
  rw [← Draft.text_step, Draft.step, h]

theorem text_of_apply_none {d : Draft} {e : Delta} {u : TextUnit} (h : d.apply e u = .ok none) :
    e.editedText u d.text = d.text := by
  rw [← Draft.text_step, Draft.step, h]

theorem texts_applied {e : Edit} {changed : Bool} (hd : k.drafts.get? p = some draft)
    (h : applied endpoint e p draft k = .ok changed k') :
    k'.texts = k.texts.edited k.options.unit e.delta p := by
  rw [TextMap.edited, texts_of_get? hd, Option.map_some]
  rcases applied_eq_ok h with ⟨-, ha, rfl⟩ | ⟨draft', -, ha, rfl⟩
  · rw [text_of_apply_none ha]
    exact (TextMap.set_self (texts_of_get? hd)).symm
  · rw [← text_of_apply ha]
    exact texts_of_put rfl

theorem texts_save {location : String} (hd : k.drafts.get? p = some draft)
    (h : save p draft k = .ok location k') : k'.texts = k.texts := by
  obtain ⟨k₁, hw, rfl⟩ := save_eq_ok h
  obtain ⟨w, l, -, rfl, -⟩ := write_eq_ok hw
  have htext : draft.clean.text = draft.text := rfl
  exact texts_of_put_same hd htext rfl

theorem texts_save_error (h : save p draft k = .error f k') : k'.texts = k.texts := by
  obtain ⟨w, cause, rfl, -⟩ := write_eq_error (save_eq_error h)
  rfl

theorem texts_after_save (hd : k.drafts.get? p = some draft) : (after (save p draft) k).texts = k.texts := by
  cases hs : save p draft k with
  | ok location k' =>
      rw [after_of_ok hs]
      exact texts_save hd hs
  | error f k' =>
      rw [after_of_error hs]
      exact texts_save_error hs

theorem texts_rekeyed (source target : String) (draft : Draft) :
    (k.rekeyed source target draft).texts =
      (k.texts.erased source).set target (some draft.text) := by
  have herased : (k.withDrafts (k.drafts.erase source)).texts = k.texts.erased source :=
    texts_of_erase rfl
  have hdrafts : (k.rekeyed source target draft).drafts =
      (k.withDrafts (k.drafts.erase source)).drafts.put target (draft.movedTo target) := rfl
  rw [texts_of_put hdrafts, herased]
  rfl

theorem texts_relocated {target : String} {u : Unit}
    (hd : k.drafts.get? target = some (draft.movedTo target))
    (h : relocated target draft k = .ok u k') : k'.texts = k.texts := by
  obtain ⟨k₁, location, hdiscard, hsave⟩ := relocated_eq_ok h
  obtain ⟨w, rfl, -⟩ := discard_changes hdiscard
  exact texts_save (k := k.withWorkspace w) hd hsave

theorem texts_sweep (k : Keeper) : k.sweep.2.texts = k.texts := by
  refine sweep_keeps (P := fun k' => k'.texts = k.texts) rfl fun s path _ hs => ?_
  rcases after_sweepOne s path with h | ⟨draft, hd, h⟩
  · rw [h, hs]
  · rw [h, texts_after_save hd, hs]

theorem texts_persistentLocation (path : String) (k : Keeper) :
    (after (persistentLocation? path) k).texts = k.texts := by
  rcases after_persistentLocation path k with h | ⟨p, draft, -, hd, h⟩
  · rw [h]
  · rw [h, texts_after_save hd]

end Texts

end Keeper

namespace Operation

variable {k k' : Keeper} {endpoint path old new : String} {f : Failure}

/-- What the keeper has for texts after an operation is what the map makes of those before it. -/
def MapsTexts (o : Operation) (k : Keeper) : Prop :=
  (o.perform k).texts = k.texts.after k.options.unit k.workspace o (o.failure? k)

theorem failure?_of_ok (signal : Tracking) {u : Unit} (h : Keeper.track signal k = .ok u k') :
    (Operation.track endpoint signal).failure? k = none := by
  rw [failure?, Keeper.failure?, h]

theorem failure?_of_error (signal : Tracking) (h : Keeper.track signal k = .error f k') :
    (Operation.track endpoint signal).failure? k = some f := by
  rw [failure?, Keeper.failure?, h]

theorem mapsTexts_start : MapsTexts (.track endpoint (.start path)) k := by
  rw [MapsTexts]
  cases h : Keeper.start path k with
  | ok u k' =>
      obtain ⟨p, draft, hp, ho⟩ := Keeper.start_eq_ok h
      rw [perform_of_ok (.start path) h, failure?_of_ok (.start path) h, TextMap.after,
        TextMap.atPath_of_ok hp]
      exact (Keeper.texts_opened (Path.normalize_of_normalize hp) ho).1
  | error f k' =>
      rw [perform_of_error (.start path) h, failure?_of_error (.start path) h]
      rcases Keeper.start_eq_error h with rfl | ⟨p, hp, ho⟩
      · rfl
      · obtain ⟨w, rfl, -⟩ := Keeper.create_eq_error (Keeper.opened_eq_error.1 ho).2
        rfl

theorem mapsTexts_stop : MapsTexts (.track endpoint (.stop path)) k := by
  rw [MapsTexts]
  cases h : Keeper.stop path k with
  | ok u k' =>
      rw [perform_of_ok (.stop path) h, failure?_of_ok (.stop path) h, TextMap.after]
      obtain ⟨p, hp, ⟨hd, rfl⟩ | ⟨draft, k₁, hd, hs, rfl⟩⟩ := Keeper.stop_eq_ok h
      · rw [TextMap.atPath_of_ok hp]
        exact (TextMap.set_self (by rw [Keeper.texts, hd]; rfl)).symm
      · obtain ⟨w, rfl, -⟩ := Keeper.settled_changes hs
        rw [TextMap.atPath_of_ok hp]
        exact Keeper.texts_of_erase rfl
  | error f k' =>
      rw [perform_of_error (.stop path) h, failure?_of_error (.stop path) h]
      rcases Keeper.stop_eq_error h with rfl | ⟨p, draft, -, -, hs⟩
      · rfl
      · obtain ⟨w, cause, rfl, -⟩ := Keeper.settled_eq_error hs
        rfl

theorem mapsTexts_move (hm : ¬ (Operation.track endpoint (.move old new)).FailsToMove k) :
    MapsTexts (.track endpoint (.move old new)) k := by
  rw [MapsTexts]
  rcases Keeper.move_cases old new k with ⟨f, h, -⟩ | ⟨source, target, hs, ht, hidle, h⟩ |
    ⟨source, target, draft, hs, ht, hne, hd, hfree, h⟩
  · exact absurd ⟨f, k, h⟩ hm
  · have hnone : source = target ∨ k.texts source = none :=
      hidle.imp_right fun hd => by rw [Keeper.texts, hd]; rfl
    rw [perform_of_ok (.move old new) h, failure?_of_ok (.move old new) h, TextMap.after,
      TextMap.atPath_of_ok hs, TextMap.atPath_of_ok ht, TextMap.renamed, if_pos hnone]
  · cases hr : Keeper.relocated target draft (k.rekeyed source target draft) with
    | error f k' => exact absurd ⟨f, k', h.trans hr⟩ hm
    | ok u k' =>
        have htext := Keeper.texts_of_get? hd
        have hsome : ¬ (source = target ∨ k.texts source = none) := by simp [hne, htext]
        rw [perform_of_ok (.move old new) (h.trans hr), failure?_of_ok (.move old new) (h.trans hr),
          TextMap.after, TextMap.atPath_of_ok hs, TextMap.atPath_of_ok ht, TextMap.renamed,
          if_neg hsome, htext, ← Keeper.texts_rekeyed]
        exact Keeper.texts_relocated (Drafts.get?_put_self ..) hr

theorem mapsTexts_edit {e : Edit} : MapsTexts (.edit endpoint e) k := by
  rw [MapsTexts, perform]
  cases h : Keeper.edit endpoint e k with
  | ok changed k' =>
      have hfailure : (Operation.edit endpoint e).failure? k = none := by
        rw [failure?, Keeper.failure?, h]
      obtain ⟨p, draft, k₁, hp, ho, ha⟩ := Keeper.edit_eq_ok h
      have hnorm := Path.normalize_of_normalize hp
      obtain ⟨htexts, hd⟩ := Keeper.texts_opened hnorm ho
      rw [Keeper.after_of_ok h, hfailure, TextMap.after, TextMap.atPath_of_ok hp, ← htexts,
        ← Keeper.options_opened hnorm ho]
      exact Keeper.texts_applied hd ha
  | error f k' =>
      have hfailure : (Operation.edit endpoint e).failure? k = some f := by
        rw [failure?, Keeper.failure?, h]
      rw [Keeper.after_of_error h, hfailure]
      rcases Keeper.edit_error_cases h with ⟨p, draft, cause, hp, ho, rfl⟩ | ⟨hf, hdrafts⟩
      · rw [TextMap.after, TextMap.atPath_of_ok hp]
        exact (Keeper.texts_opened (Path.normalize_of_normalize hp) ho).1
      · rw [Keeper.texts_eq_of_drafts hdrafts]
        cases f with
        | outOfRange cause => exact absurd rfl (hf cause)
        | _ => rfl

theorem mapsTexts (o : Operation) (hm : ¬ o.FailsToMove k) : MapsTexts o k := by
  cases o with
  | track endpoint signal =>
      cases signal with
      | start path => exact mapsTexts_start
      | stop path => exact mapsTexts_stop
      | suspend path | resume path => rfl
      | move old new => exact mapsTexts_move hm
  | edit endpoint e => exact mapsTexts_edit
  | persistentLocation path => exact Keeper.texts_persistentLocation path k
  | sweep => exact Keeper.texts_sweep k
  | content path => exact congrArg Keeper.texts ((Keeper.ReadOnly.content path).after k)
  | recoverable path => exact congrArg Keeper.texts ((Keeper.ReadOnly.recoverable? path).after k)

end Operation

end DraftKeeper
