import DraftKeeper.Proofs.EventResults
import DraftKeeper.Proofs.FiledDrafts
import DraftKeeper.Proofs.ShownTexts

namespace DraftKeeper

def Action.published (k : Keeper) : Action → List Update
  | .operation (.edit endpoint e) => (Event.edited endpoint e).published k
  | _ => []

/-- The action begins to track the path, if it is not tracked and can be. -/
def Action.Opens (p : String) : Action → Prop
  | .operation (.track _ (.start path)) => Path.normalize path = .ok p
  | .operation (.edit _ e) => Path.normalize e.location = .ok p
  | _ => False

/-- A text after the edits of a path among updates, one after another. Nothing if one of the edits is out of
range or has no effect. -/
def Update.replay (u : TextUnit) (p text : String) (news : List Update) : Option String :=
  (news.filter fun x => (Path.normalize x.edit.location).toOption = some p).foldlM
    (fun text x => (x.edit.delta.splice u text).toOption.join) text

section Replaying

variable {u : TextUnit} {p text : String}

theorem Update.replay_append (news news' : List Update) : replay u p text (news ++ news') =
    (replay u p text news).bind fun text => replay u p text news' := by
  rw [replay, List.filter_append, List.foldlM_append]
  rfl

theorem Update.replay_nil : replay u p text [] = some text := rfl

theorem Update.replay_one {x : Update} (hp : Path.normalize x.edit.location = .ok p) {text' : String}
    (h : x.edit.delta.splice u text = .ok (some text')) : replay u p text [x] = some text' := by
  rw [replay, List.filter_cons_of_pos (by simp [hp, Except.toOption]), List.filter_nil, List.foldlM_cons, h]
  rfl

theorem Update.replay_others {news : List Update}
    (h : ∀ x ∈ news, Path.normalize x.edit.location ≠ .ok p) : replay u p text news = some text := by
  rw [replay, List.filter_eq_nil_iff.2 fun x hx => ?_]
  · rfl
  · intro hp
    refine h x hx (Event.mem_normalized.1 ?_)
    rw [of_decide_eq_true hp]
    exact List.mem_singleton_self p

end Replaying

namespace Keeper

variable {k k' : Keeper} {p path endpoint text : String} {draft : Draft} {e : Edit}

theorem published_of_ok (h : edit endpoint e k = .ok true k') :
    (Event.edited endpoint e).published k = [⟨endpoint, e, k.clock⟩] := by
  simp only [Event.published, Event.result, h]

theorem published_of_ineffective (h : edit endpoint e k = .ok false k') :
    (Event.edited endpoint e).published k = [] := by
  simp only [Event.published, Event.result, h]

theorem published_of_error {f : Failure} (h : edit endpoint e k = .error f k') :
    (Event.edited endpoint e).published k = [] := by
  simp only [Event.published, Event.result, h]

theorem location_of_published {x : Update} (hx : x ∈ (Event.edited endpoint e).published k) : x.edit = e := by
  cases h : edit endpoint e k with
  | ok changed k' =>
      cases changed with
      | true =>
          rw [published_of_ok h] at hx
          rw [List.mem_singleton.1 hx]
      | false =>
          rw [published_of_ineffective h] at hx
          cases hx
  | error f k' =>
      rw [published_of_error h] at hx
      cases hx

theorem edit_replays (hp : Path.normalize e.location = .ok p)
    (htext : (after (edit endpoint e) k).texts p = some text) :
    ∃ seed, k.texts.opened k.workspace p p = some seed ∧
      Update.replay k.options.unit p seed ((Event.edited endpoint e).published k) = some text := by
  have hnorm := Path.normalize_of_normalize hp
  have hopened {draft : Draft} {k₁ : Keeper} (ho : opened p k = .ok draft k₁) :
      k.texts.opened k.workspace p p = some draft.text ∧ k₁.texts p = some draft.text := by
    obtain ⟨htexts, hd⟩ := texts_opened hnorm ho
    exact ⟨by rw [← htexts, texts_of_get? hd], texts_of_get? hd⟩
  cases h : edit endpoint e k with
  | ok changed k' =>
      rw [after_of_ok h] at htext
      obtain ⟨q, draft, k₁, hq, ho, ha⟩ := edit_eq_ok h
      obtain rfl := Except.ok.inj (hp.symm.trans hq)
      obtain ⟨hseed, hdraft⟩ := hopened ho
      refine ⟨draft.text, hseed, ?_⟩
      rcases applied_eq_ok ha with ⟨rfl, -, rfl⟩ | ⟨draft', rfl, hchange, rfl⟩
      · -- the edit had no effect, but it may have opened the file
        rw [published_of_ineffective h, Update.replay_nil, ← hdraft, htext]
      · have hput : text = draft'.text := by
          rw [texts_of_put (k := k₁) rfl, TextMap.set, if_pos rfl] at htext
          exact (Option.some.inj htext).symm
        rw [options_opened hnorm ho] at hchange
        obtain ⟨text', hsplice, rfl⟩ := Draft.apply_eq_some hchange
        rw [Draft.text_replace] at hput
        rw [published_of_ok h, Update.replay_one hp hsplice, hput]
  | error f k' =>
      rw [after_of_error h] at htext
      rw [published_of_error h]
      rcases edit_error_cases h with ⟨q, draft, cause, hq, ho, -⟩ | ⟨-, hdrafts⟩
      · -- the edit was out of range of a draft that stays
        obtain rfl := Except.ok.inj (hp.symm.trans hq)
        obtain ⟨hseed, hdraft⟩ := hopened ho
        exact ⟨draft.text, hseed, by rw [Update.replay_nil, ← hdraft, htext]⟩
      · rw [texts_eq_of_drafts hdrafts] at htext
        refine ⟨text, ?_, Update.replay_nil⟩
        rw [TextMap.opened, htext]
        exact htext

theorem updates_attempt {α : Type} (endpoint : String) (work : Keeping α) (k : Keeper) :
    (attempt endpoint work k).updates = (after work k).updates := by
  rw [attempt, after]
  cases work k <;> rfl

theorem updates_save (p : String) (draft : Draft) (k : Keeper) :
    (after (save p draft) k).updates = k.updates := by
  cases hs : save p draft k with
  | ok location k' =>
      obtain ⟨k₁, hw, rfl⟩ := save_eq_ok hs
      obtain ⟨w, l, -, rfl, -⟩ := write_eq_ok hw
      rw [after_of_ok hs]
      rfl
  | error f k' =>
      obtain ⟨w, cause, rfl, -⟩ := write_eq_error (save_eq_error hs)
      rw [after_of_error hs]
      rfl

theorem updates_persistentLocation (path : String) (k : Keeper) :
    (after (persistentLocation? path) k).updates = k.updates := by
  rcases after_persistentLocation path k with h | ⟨p, draft, -, -, h⟩
  · rw [h]
  · rw [h, updates_save]

theorem updates_sweep (k : Keeper) : k.sweep.2.updates = k.updates := by
  refine sweep_keeps (P := fun k' => k'.updates = k.updates) rfl fun s path _ hs => ?_
  rcases after_sweepOne s path with h | ⟨draft, -, h⟩
  · rw [h, hs]
  · rw [h, updates_save, hs]

theorem content_of_text (hp : Path.normalize path = .ok p) (h : k.texts p = some text) :
    content path k = .ok text k := by
  rw [content_eq k hp, h]

theorem texts_congr (h : k'.drafts.get? p = k.drafts.get? p) : k'.texts p = k.texts p := by
  rw [texts, h, texts]

end Keeper

namespace Operation

variable {k : Keeper} {o : Operation} {p path old new endpoint text : String}

theorem text_perform_start (hp : Path.normalize path = .ok p) (hbefore : k.texts p = some text) :
    ((Operation.track endpoint (.start path)).perform k).texts p = some text := by
  rw [mapsTexts_start]
  cases (Operation.track endpoint (.start path)).failure? k with
  | none => rw [TextMap.after, TextMap.atPath_of_ok hp, TextMap.opened, hbefore, Option.isSome_some, if_pos rfl,
      hbefore]
  | some f => exact hbefore

theorem text_perform_stop (hp : Path.normalize path = .ok p) (hbefore : k.texts p = some text)
    (hafter : ((Operation.track endpoint (.stop path)).perform k).texts p ≠ none) :
    ((Operation.track endpoint (.stop path)).perform k).texts p = some text := by
  rw [mapsTexts_stop] at hafter ⊢
  cases hf : (Operation.track endpoint (.stop path)).failure? k with
  | none =>
      rw [hf, TextMap.after, TextMap.atPath_of_ok hp, TextMap.erased, TextMap.set, if_pos rfl] at hafter
      exact absurd rfl hafter
  | some f => exact hbefore

theorem text_perform_move (hbefore : k.texts p = some text)
    (hafter : ((Operation.track endpoint (.move old new)).perform k).texts p ≠ none) :
    ((Operation.track endpoint (.move old new)).perform k).texts p = some text := by
  have htext {k' : Keeper} (h : k'.drafts.get? p = k.drafts.get? p) : k'.texts p = some text := by
    rw [Keeper.texts_congr h, hbefore]
  have hdrafts : ((Operation.track endpoint (.move old new)).perform k).drafts =
      (Keeper.after (Keeper.move old new) k).drafts := Keeper.drafts_attempt endpoint _ k
  rcases Keeper.move_cases old new k with ⟨f, h, -⟩ | ⟨_, _, -, -, -, h⟩ |
    ⟨source, target, draft, hs, ht, hne, hd, hfree, h⟩
  · exact htext (by rw [hdrafts, Keeper.after_of_error h])
  · exact htext (by rw [hdrafts, Keeper.after_of_ok h])
  · have hafter_move : Keeper.after (Keeper.move old new) k =
        Keeper.after (Keeper.relocated target draft) (k.rekeyed source target draft) := by
      rw [Keeper.after, h, Keeper.after]
    by_cases hsource : p = source
    · -- the source is not tracked any more
      subst hsource
      refine absurd ?_ hafter
      rw [Keeper.texts, hdrafts, hafter_move, Keeper.get?_of_relocated hne, Keeper.rekeyed,
        Keeper.withDrafts, Drafts.get?_put_of_ne hne, Drafts.get?_erase_self]
      rfl
    by_cases htarget : p = target
    · -- the target was not tracked before
      subst htarget
      rw [Keeper.texts, hfree] at hbefore
      cases hbefore
    have hlocks : p ∉ (Event.tracking endpoint (.move old new)).locks := by
      simp [Event.locks, hs, ht, hne, hsource, htarget]
    refine htext ?_
    rw [hdrafts]
    exact Keeper.get?_after_move hlocks

theorem text_kept (hbefore : k.texts p = some text) (hafter : (o.perform k).texts p ≠ none)
    (ho : ∀ endpoint e, o = .edit endpoint e → Path.normalize e.location ≠ .ok p) :
    (o.perform k).texts p = some text := by
  cases o with
  | track endpoint signal =>
      cases signal with
      | start path =>
          by_cases hp : Path.normalize path = .ok p
          · exact text_perform_start hp hbefore
          · rw [← hbefore]
            refine Keeper.texts_congr ?_
            exact (congrArg (Drafts.get? · p) (Keeper.drafts_attempt ..)).trans (Keeper.get?_after_start hp)
      | stop path =>
          by_cases hp : Path.normalize path = .ok p
          · exact text_perform_stop hp hbefore hafter
          · rw [← hbefore]
            refine Keeper.texts_congr ?_
            exact (congrArg (Drafts.get? · p) (Keeper.drafts_attempt ..)).trans (Keeper.get?_after_stop hp)
      | suspend path | resume path => exact hbefore
      | move old new => exact text_perform_move hbefore hafter
  | edit endpoint e =>
      rw [← hbefore]
      exact Keeper.texts_congr (Keeper.get?_after_edit (ho endpoint e rfl))
  | persistentLocation path =>
      rw [perform, Keeper.texts_persistentLocation, hbefore]
  | sweep => rw [perform, Keeper.texts_sweep, hbefore]
  | content path => rw [perform, (Keeper.ReadOnly.content path).after, hbefore]
  | recoverable path => rw [perform, (Keeper.ReadOnly.recoverable? path).after, hbefore]

theorem updates_perform (o : Operation) (k : Keeper) :
    (o.perform k).updates = k.updates ++ (Action.operation o).published k := by
  have hnone {k' : Keeper} (h : k'.updates = k.updates) : k'.updates = k.updates ++ [] := by
    rw [h, List.append_nil]
  cases o with
  | track endpoint signal => exact (Event.tracking endpoint signal).sent_handle k |>.1
  | edit endpoint e =>
      refine Eq.trans ?_ ((Event.edited endpoint e).sent_handle k).1
      rw [perform, Event.handle, Keeper.updates_attempt]
  | persistentLocation path => exact hnone (Keeper.updates_persistentLocation path k)
  | sweep => exact hnone (Keeper.updates_sweep k)
  | content path => exact hnone (by rw [perform, (Keeper.ReadOnly.content path).after])
  | recoverable path => exact hnone (by rw [perform, (Keeper.ReadOnly.recoverable? path).after])

end Operation

namespace Session

variable {s : Session} {a : Action} {p text : String}

/-- One action leads a tracked path from its text to the text after the updates that the action publishes. -/
theorem text_step (hbefore : s.keeper.texts p = some text) (hafter : (s.after a).keeper.texts p ≠ none) :
    (s.after a).keeper.texts p =
      Update.replay s.keeper.options.unit p text (a.published s.keeper) := by
  have hkept (h : (s.after a).keeper.texts p = some text)
      (hnews : ∀ x ∈ a.published s.keeper, Path.normalize x.edit.location ≠ .ok p) :
      (s.after a).keeper.texts p = Update.replay s.keeper.options.unit p text (a.published s.keeper) := by
    rw [h, Update.replay_others hnews]
  cases a with
  | outside disk | tick clock | delivery => exact hkept hbefore (fun x hx => absurd hx List.not_mem_nil)
  | operation o =>
      by_cases ho : ∃ endpoint e, o = .edit endpoint e ∧ Path.normalize e.location = .ok p
      · obtain ⟨endpoint, e, rfl, hp⟩ := ho
        obtain ⟨text', htext⟩ := Option.ne_none_iff_exists'.1 hafter
        obtain ⟨seed, hseed, hreplay⟩ := Keeper.edit_replays hp htext
        rw [TextMap.opened, hbefore, Option.isSome_some, if_pos rfl, hbefore] at hseed
        obtain rfl := Option.some.inj hseed
        rw [htext]
        exact hreplay.symm
      · push Not at ho
        refine hkept (Operation.text_kept hbefore hafter ho) fun x hx => ?_
        cases o with
        | edit endpoint e =>
            rw [Keeper.location_of_published hx]
            exact ho endpoint e rfl
        | _ => cases hx

theorem text_opened (ha : a.Opens p) (hbefore : s.keeper.texts p = none)
    (hafter : (s.after a).keeper.texts p ≠ none) : ∃ seed, s.keeper.workspace.text? p = some seed ∧
      (s.after a).keeper.texts p = Update.replay s.keeper.options.unit p seed (a.published s.keeper) := by
  have hseed : s.keeper.texts.opened s.keeper.workspace p p = s.keeper.workspace.text? p := by
    rw [TextMap.opened, hbefore, if_neg (by simp), TextMap.set, if_pos rfl]
  obtain ⟨text, htext⟩ := Option.ne_none_iff_exists'.1 hafter
  rw [htext]
  cases a with
  | outside disk | tick clock | delivery => exact ha.elim
  | operation o =>
      cases o with
      | edit endpoint e =>
          obtain ⟨seed, hopened, hreplay⟩ := Keeper.edit_replays ha htext
          exact ⟨seed, hseed.symm.trans hopened, hreplay.symm⟩
      | track endpoint signal =>
          cases signal with
          | start path =>
              refine ⟨text, ?_, rfl⟩
              change ((Operation.track endpoint (.start path)).perform s.keeper).texts p = some text at htext
              rw [Operation.mapsTexts_start] at htext
              cases hf : (Operation.track endpoint (.start path)).failure? s.keeper with
              | none => rwa [hf, TextMap.after, TextMap.atPath_of_ok ha, hseed] at htext
              | some f =>
                  rw [hf] at htext
                  cases hbefore.symm.trans htext
          | _ => exact ha.elim
      | _ => exact ha.elim

end Session

/-- A session, and the updates that a subscriber has taken from it. -/
structure Listening where
  session : Session
  taken : List Update

namespace Listening

def after (l : Listening) (a : Action) : Listening where
  session := l.session.after a
  taken :=
    match a with
    | .delivery => l.taken ++ l.session.keeper.heldUpdates.2
    | .operation _ | .outside _ | .tick _ => l.taken

def run (l : Listening) (as : List Action) : Listening := as.foldl after l

/-- The updates that the subscriber has taken, and those that it would take now. -/
def heard (l : Listening) : List Update := l.taken ++ l.session.keeper.heldUpdates.2

def published (l : Listening) : List Action → List Update
  | [] => []
  | a :: as => a.published l.session.keeper ++ (l.after a).published as

def Throughout (P : Listening → Prop) (l : Listening) : List Action → Prop
  | [] => P l
  | a :: as => P l ∧ (l.after a).Throughout P as

instance decidableThroughout (P : Listening → Prop) [DecidablePred P] (l : Listening) :
    (as : List Action) → Decidable (l.Throughout P as)
  | [] => inferInstanceAs (Decidable (P l))
  | a :: as =>
    have := decidableThroughout P (l.after a) as
    inferInstanceAs (Decidable (P l ∧ (l.after a).Throughout P as))

def KeepsUp (l : Listening) : Prop := l.session.keeper.heldUpdates.1 = 0

def Tracks (p : String) (l : Listening) : Prop := p ∈ l.session.keeper.tracked

instance : DecidablePred KeepsUp := fun l => inferInstanceAs (Decidable (l.session.keeper.heldUpdates.1 = 0))

instance (p : String) : DecidablePred (Tracks p) := fun l =>
  inferInstanceAs (Decidable (p ∈ l.session.keeper.tracked))

/-- An action of a run begins to track the path, and it is tracked from then on. -/
structure Period (l : Listening) (p : String) (opening : Action) (during : List Action) : Prop where
  opens : opening.Opens p
  free : ¬ l.Tracks p
  tracked : (l.after opening).Throughout (Tracks p) during

variable {l : Listening} {p text : String} {a opening : Action} {as before during : List Action}
  {P : Listening → Prop}

theorem run_append (l : Listening) (as bs : List Action) : l.run (as ++ bs) = (l.run as).run bs :=
  List.foldl_append

theorem Throughout.start (h : l.Throughout P as) : P l := by
  cases as with
  | nil => exact h
  | cons a as => exact h.1

theorem Throughout.run (h : l.Throughout P (as ++ during)) : (l.run as).Throughout P during := by
  induction as generalizing l with
  | nil => exact h
  | cons a as ih => exact ih h.2

theorem Throughout.finish (h : l.Throughout P as) : P (l.run as) := by
  rw [← List.append_nil as] at h
  exact h.run

theorem options_run (l : Listening) (as : List Action) :
    (l.run as).session.keeper.options = l.session.keeper.options := by
  induction as generalizing l with
  | nil => rfl
  | cons a as ih => exact (ih (l.after a)).trans (l.session.options_after a)

theorem KeepsUp.heard (h : l.KeepsUp) : l.heard = l.taken ++ l.session.keeper.updates := by
  change l.taken ++ l.session.keeper.updates.drop l.session.keeper.heldUpdates.1 = _
  rw [h, List.drop_zero]

theorem tracks_iff : l.Tracks p ↔ l.session.keeper.texts p ≠ none := by
  rw [Tracks, Keeper.tracked, Drafts.mem_paths_iff, Drafts.contains, Keeper.texts, ← Option.ne_none_iff_isSome,
    ne_eq, ne_eq, Option.map_eq_none_iff]

theorem heard_after (h : l.KeepsUp) (h' : (l.after a).KeepsUp) :
    (l.after a).heard = l.heard ++ a.published l.session.keeper := by
  have hquiet {us : List Update} (hus : us = l.taken ++ l.session.keeper.updates) : us = l.heard ++ [] := by
    rw [hus, h.heard, List.append_nil]
  rw [h'.heard]
  cases a with
  | operation o =>
      rw [h.heard, List.append_assoc]
      exact congrArg (l.taken ++ ·) (o.updates_perform l.session.keeper)
  | outside disk | tick clock => exact hquiet rfl
  | delivery => exact hquiet ((List.append_nil _).trans h.heard)

theorem heard_run (h : l.Throughout KeepsUp as) : (l.run as).heard = l.heard ++ l.published as := by
  induction as generalizing l with
  | nil => exact (List.append_nil _).symm
  | cons a as ih =>
      rw [published, ← List.append_assoc, ← heard_after h.1 h.2.start]
      exact ih h.2

theorem replay_cons {seed : String} (htext : (l.after a).session.keeper.texts p = some text)
    (hstep : (l.after a).session.keeper.texts p =
      Update.replay l.session.keeper.options.unit p seed (a.published l.session.keeper)) :
    Update.replay l.session.keeper.options.unit p seed (l.published (a :: as)) =
      Update.replay (l.after a).session.keeper.options.unit p text ((l.after a).published as) := by
  have hoptions : (l.after a).session.keeper.options = l.session.keeper.options := l.session.options_after a
  rw [published, Update.replay_append, ← hstep, htext, Option.bind_some, hoptions]

/-- The updates lead the text of a path through a run in which it stays tracked. -/
theorem text_run (htext : l.session.keeper.texts p = some text) (h : l.Throughout (Tracks p) as) :
    (l.run as).session.keeper.texts p =
      Update.replay l.session.keeper.options.unit p text (l.published as) := by
  induction as generalizing l text with
  | nil => exact htext
  | cons a as ih =>
      have hthere := tracks_iff.1 h.2.start
      obtain ⟨text', htext'⟩ := Option.ne_none_iff_exists'.1 hthere
      rw [replay_cons htext' (Session.text_step htext hthere)]
      exact ih htext' h.2

theorem Period.text_eq (h : l.Period p opening during) : ∃ seed, l.session.keeper.workspace.text? p = some seed ∧
    (l.run (opening :: during)).session.keeper.texts p =
      Update.replay l.session.keeper.options.unit p seed (l.published (opening :: during)) := by
  have hfree : l.session.keeper.texts p = none := by
    rw [← not_ne_iff, ← tracks_iff]
    exact h.free
  have hthere := tracks_iff.1 h.tracked.start
  obtain ⟨seed, hseed, hopened⟩ := Session.text_opened h.opens hfree hthere
  obtain ⟨text, htext⟩ := Option.ne_none_iff_exists'.1 hthere
  refine ⟨seed, hseed, ?_⟩
  rw [replay_cons htext hopened]
  exact text_run htext h.tracked

/-- A subscriber that keeps up hears of every edit that changes a draft, once, in order and as it was made, and
of nothing else. What it hears while a path stays tracked, from when tracking began with the text of the file,
leads from that text to the one that is shown for the path. -/
theorem replica_log (h : l.Throughout KeepsUp as) : (l.run as).heard = l.heard ++ l.published as ∧
    ∀ p before opening during, as = before ++ opening :: during →
      (l.run before).Period p opening during → ∃ seed news text,
        (l.run before).session.keeper.workspace.text? p = some seed ∧
        (l.run as).heard = (l.run before).heard ++ news ∧
        Update.replay l.session.keeper.options.unit p seed news = some text ∧
        ∀ path, Path.normalize path = .ok p →
          Keeper.content path (l.run as).session.keeper = .ok text (l.run as).session.keeper := by
  refine ⟨heard_run h, ?_⟩
  rintro p before opening during rfl hperiod
  obtain ⟨seed, hseed, hreplay⟩ := hperiod.text_eq
  rw [← run_append, options_run] at hreplay
  have hthere := tracks_iff.1 hperiod.tracked.finish
  obtain ⟨text, htext⟩ := Option.ne_none_iff_exists'.1 hthere
  refine ⟨seed, (l.run before).published (opening :: during), text, hseed, ?_, ?_, fun path hp => ?_⟩
  · rw [run_append]
    exact heard_run h.run
  · rw [← hreplay, run_append]
    exact htext
  · rw [run_append]
    exact Keeper.content_of_text hp htext

def sample : Listening := ⟨.sample, []⟩

/-- A file is tracked and edited, its draft is written, the updates are taken, and it is edited once more. -/
def sampleEdits : List Action :=
  [.operation (.edit "e" ⟨"/p/a", .insert 2 "!"⟩), .operation .sweep, .delivery,
    .operation (.edit "f" ⟨"p//a", .remove 0 1⟩)]

theorem replica_log_sample : ∃ news,
    (sample.run (.operation (.track "e" (.start "/p/a")) :: sampleEdits)).heard = sample.heard ++ news ∧
      Update.replay .char "/p/a" "hi" news = some "i!" := by
  have hp : Path.normalize "/p/a" = .ok "/p/a" := Path.normalize_eq_ok_iff.2 (by decide)
  have hkeeps : sample.Throughout KeepsUp (.operation (.track "e" (.start "/p/a")) :: sampleEdits) := by
    decide +kernel
  have hperiod : sample.Period "/p/a" (.operation (.track "e" (.start "/p/a"))) sampleEdits :=
    ⟨hp, by decide, by decide +kernel⟩
  obtain ⟨seed, news, text, hseed, hheard, hreplay, hcontent⟩ :=
    (replica_log hkeeps).2 "/p/a" [] _ _ rfl hperiod
  obtain rfl : "hi" = seed := Option.some.inj (.trans (by decide) hseed)
  have htext : (sample.run (.operation (.track "e" (.start "/p/a")) :: sampleEdits)).session.keeper.texts
      "/p/a" = some "i!" := by decide +kernel
  have hsame := (hcontent "/p/a" hp).symm.trans (Keeper.content_of_text hp htext)
  simp only [EStateM.Result.ok.injEq, and_true] at hsame
  exact ⟨news, hheard, hsame ▸ hreplay⟩

end Listening

end DraftKeeper
