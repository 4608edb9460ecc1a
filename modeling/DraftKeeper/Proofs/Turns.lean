import DraftKeeper.Proofs.DeltaRuns
import DraftKeeper.Proofs.Durability
import DraftKeeper.Proofs.PathLocks
import Mathlib.Logic.Function.Iterate

namespace DraftKeeper

/-- An edit, a question for the draft file, or what a sweep does at one path. -/
inductive Call
  | edit (endpoint : String) (e : Edit)
  | locate (path : String)
  | visit
deriving DecidableEq

inductive Answer
  | changed (b : Bool)
  | located (location : Option String)
  | visited (report : SweepReport)
  | failed (f : Failure)
deriving DecidableEq

/-- How far a call has come that has been given the guard. -/
inductive Phase
  | holding
  | read (d : Draft)
  | written (d : Draft) (location : String)
  | stored
  | ended (a : Answer)
  | finished (a : Answer)
deriving DecidableEq

structure Turn where
  call : Call
  guard : Guard
  phase : Phase
deriving DecidableEq

namespace Call

def On (p : String) : Call → Prop
  | .edit _ e => Path.normalize e.location = .ok p
  | .locate path => Path.normalize path = .ok p
  | .visit => True

def perform (p : String) : Call → Keeper → Answer × Keeper
  | .edit endpoint e, k =>
    match Keeper.edit endpoint e k with
    | .ok b k => (.changed b, k)
    | .error f k => (.failed f, k)
  | .locate path, k =>
    match Keeper.persistentLocation? path k with
    | .ok location k => (.located location, k)
    | .error f k => (.failed f, k)
  | .visit, k =>
    let s := Keeper.sweepOne (⟨0, 0⟩, k) p
    (.visited s.1, s.2)

def act (p : String) : Call → Phase → Keeper → Phase × Keeper
  | .edit .., .holding, k =>
    match Keeper.opened p k with
    | .ok d k => (.read d, k)
    | .error f k => (.ended (.failed f), k)
  | .edit _ e, .read d, k =>
    match d.apply e.delta k.options.unit with
    | .error cause => (.ended (.failed (.outOfRange cause)), k)
    | .ok none => (.ended (.changed false), k)
    | .ok (some changed) => (.stored, k.withDrafts (k.drafts.put p changed))
  | .edit endpoint e, .stored, k =>
    (.ended (.changed true), { k with updates := k.updates ++ [⟨endpoint, e, k.clock⟩] })
  | .locate path, .holding, k =>
    match k.drafts.get? p with
    | some d => (.read d, k)
    | none =>
      match Keeper.persistentLocation? path k with
      | .ok location k => (.ended (.located location), k)
      | .error f k => (.ended (.failed f), k)
  | .locate _, .read d, k =>
    match Keeper.write d k with
    | .ok location k => (.written d location, k)
    | .error f k => (.ended (.failed f), k)
  | .locate _, .written d location, k =>
    (.ended (.located (some location)), k.withDrafts (k.drafts.put p d.clean))
  | .visit, .holding, k =>
    match k.drafts.get? p with
    | some d => if d.dirty then (.read d, k) else (.ended (.visited ⟨0, 0⟩), k)
    | none => (.ended (.visited ⟨0, 0⟩), k)
  | .visit, .read d, k =>
    match Keeper.write d k with
    | .ok location k => (.written d location, k)
    | .error _ k => (.ended (.visited ⟨0, 1⟩), k)
  | .visit, .written d _, k =>
    (.ended (.visited ⟨1, 0⟩), k.withDrafts (k.drafts.put p d.clean))
  | _, phase, k => (phase, k)

section Alone

variable {p : String} {k k' : Keeper} {d : Draft} {f : Failure}

theorem save_of_ok {location : String} (h : Keeper.write d k = .ok location k') :
    Keeper.save p d k = .ok location (k'.withDrafts (k'.drafts.put p d.clean)) := by
  rw [Keeper.save, bind_of_ok _ h]
  rfl

theorem save_of_error (h : Keeper.write d k = .error f k') : Keeper.save p d k = .error f k' := by
  rw [Keeper.save]
  exact bind_eq_error.2 (.inl h)

theorem persistentLocation?_of_tracked {path : String} (hp : Path.normalize path = .ok p)
    (hd : k.drafts.get? p = some d) : Keeper.persistentLocation? path k =
      (do return some (← Keeper.save p d) : Keeping _) k := by
  rw [Keeper.persistentLocation?, bind_of_ok _ (Keeper.normalized_eq_ok.2 ⟨hp, rfl⟩),
    bind_of_ok _ (Keeper.draft?_eq p k), hd]

/-- Some number of steps, one right after the other, takes a call from holding the guard to its end. -/
def Alone (p : String) (c : Call) (k : Keeper) : Prop :=
  ∃ n, (fun s : Phase × Keeper => c.act p s.1 s.2)^[n] (.holding, k) =
    (.ended (c.perform p k).1, (c.perform p k).2)

theorem alone_edit {endpoint : String} {e : Edit} (hp : Path.normalize e.location = .ok p) (k : Keeper) :
    Alone p (.edit endpoint e) k := by
  cases ho : Keeper.opened p k with
  | error f k₁ =>
      have hedit : Keeper.edit endpoint e k = .error f k₁ := by
        rw [Keeper.edit_eq, bind_of_ok _ (Keeper.normalized_eq_ok.2 ⟨hp, rfl⟩)]
        exact bind_eq_error.2 (.inl ho)
      exact ⟨1, by simp only [Function.iterate_one, act, ho, perform, hedit]⟩
  | ok d k₁ =>
      have hedit : Keeper.edit endpoint e k = _ := Keeper.edit_of_opened hp ho
      rw [Keeper.applied, bind_of_ok _ (Keeper.get_eq k₁)] at hedit
      rcases ha : d.apply e.delta k₁.options.unit with cause | _ | changed
      · refine ⟨2, ?_⟩
        have herror : Keeper.edit endpoint e k = .error (.outOfRange cause) k₁ := by
          rw [hedit, ha]
          rfl
        simp only [Function.iterate_succ_apply, Function.iterate_zero_apply, act, ho, ha, perform,
          herror]
      · refine ⟨2, ?_⟩
        have hok : Keeper.edit endpoint e k = .ok false k₁ := by
          rw [hedit, ha]
          rfl
        simp only [Function.iterate_succ_apply, Function.iterate_zero_apply, act, ho, ha, perform, hok]
      · refine ⟨3, ?_⟩
        have hok : Keeper.edit endpoint e k = .ok true { k₁ with
            drafts := k₁.drafts.put p changed
            updates := k₁.updates ++ [⟨endpoint, e, k₁.clock⟩] } := by
          rw [hedit, ha]
          rfl
        simp only [Function.iterate_succ_apply, Function.iterate_zero_apply, act, ho, ha, perform, hok,
          Keeper.withDrafts]

theorem alone_locate {path : String} (hp : Path.normalize path = .ok p) (k : Keeper) :
    Alone p (.locate path) k := by
  cases hd : k.drafts.get? p with
  | none =>
      refine ⟨1, ?_⟩
      simp only [Function.iterate_one, act, hd, perform]
      cases Keeper.persistentLocation? path k <;> rfl
  | some d =>
      have hlocate := persistentLocation?_of_tracked hp hd
      cases hw : Keeper.write d k with
      | error f k₁ =>
          have herror : Keeper.persistentLocation? path k = .error f k₁ := by
            rw [hlocate]
            exact bind_eq_error.2 (.inl (save_of_error hw))
          exact ⟨2, by simp only [Function.iterate_succ_apply, Function.iterate_zero_apply, act, hd, hw,
            perform, herror]⟩
      | ok location k₁ =>
          have hok : Keeper.persistentLocation? path k =
              .ok (some location) (k₁.withDrafts (k₁.drafts.put p d.clean)) := by
            rw [hlocate, bind_of_ok _ (save_of_ok hw)]
            rfl
          exact ⟨3, by simp only [Function.iterate_succ_apply, Function.iterate_zero_apply, act, hd, hw,
            perform, hok]⟩

theorem alone_visit (k : Keeper) : Alone p .visit k := by
  cases hd : k.drafts.get? p with
  | none => exact ⟨1, by simp only [Function.iterate_one, act, hd, perform, Keeper.sweepOne]⟩
  | some d =>
      cases hdirty : d.dirty with
      | false =>
          refine ⟨1, ?_⟩
          simp only [Function.iterate_one, act, hd, hdirty, perform, Keeper.sweepOne,
            Bool.false_eq_true, if_false]
      | true =>
          cases hw : Keeper.write d k with
          | error f k₁ =>
              refine ⟨2, ?_⟩
              simp only [Function.iterate_succ_apply, Function.iterate_zero_apply, act, hd, hdirty, hw,
                perform, Keeper.sweepOne, save_of_error hw, if_true]
          | ok location k₁ =>
              refine ⟨3, ?_⟩
              simp only [Function.iterate_succ_apply, Function.iterate_zero_apply, act, hd, hdirty, hw,
                perform, Keeper.sweepOne, save_of_ok hw, if_true]

theorem act_alone {c : Call} (hc : c.On p) (k : Keeper) : ∃ n,
    (fun s : Phase × Keeper => c.act p s.1 s.2)^[n] (.holding, k) =
      (.ended (c.perform p k).1, (c.perform p k).2) := by
  cases c with
  | edit endpoint e => exact alone_edit hc k
  | locate path => exact alone_locate hc k
  | visit => exact alone_visit k

end Alone

/-- The answer of an edit is what comes of the edit on the draft; no other call answers like an edit. -/
def Agrees (u : TextUnit) (d : Draft) (a : Answer) : Call → Prop
  | .edit _ e =>
    match d.apply e.delta u with
    | .error cause => a = .failed (.outOfRange cause)
    | .ok changed? => a = .changed changed?.isSome
  | .locate _ | .visit => ∀ b, a ≠ .changed b

def effect (u : TextUnit) (d : Draft) : Call → Draft
  | .edit _ e => d.step u e.delta
  | .locate _ | .visit => d

end Call

namespace Phase

def answer? : Phase → Option Answer
  | .stored => some (.changed true)
  | .ended a | .finished a => some a
  | .holding | .read _ | .written .. => none

def isOver : Phase → Bool
  | .finished _ => true
  | _ => false

end Phase

namespace Turn

def isDecided (t : Turn) : Bool := t.phase.answer?.isSome

def isOver (t : Turn) : Bool := t.phase.isOver

theorem isOver_iff {t : Turn} : t.isOver = true ↔ ∃ a, t.phase = .finished a := by
  rw [isOver]
  constructor
  · intro h
    cases hphase : t.phase with
    | finished a => exact ⟨a, rfl⟩
    | holding | read | written | stored | ended =>
        rw [hphase] at h
        cases h
  · rintro ⟨a, ha⟩
    rw [ha]
    rfl

def HasChanged (t : Turn) : Prop := t.phase.answer? = some (.changed true)

instance (t : Turn) : Decidable t.HasChanged :=
  match h : t.phase.answer? with
  | some (.changed true) => isTrue h
  | some (.changed false) | some (.located _) | some (.visited _) | some (.failed _) | none =>
    isFalse (by rw [HasChanged, h]; simp)

def delta? (t : Turn) : Option Delta :=
  match t.call with
  | .edit _ e => some e.delta
  | .locate _ | .visit => none

def published? (t : Turn) : Option (String × Edit) :=
  match t.call, t.phase with
  | .edit endpoint e, .ended (.changed true) | .edit endpoint e, .finished (.changed true) => some (endpoint, e)
  | _, _ => none

theorem published?_over (c : Call) (g : Guard) (a : Answer) :
    published? ⟨c, g, .finished a⟩ = published? ⟨c, g, .ended a⟩ := by
  rcases c with ⟨endpoint, e⟩ | path | _ <;> rcases a with (_ | _) | _ | _ | _ <;> rfl

def replay (u : TextUnit) (d : Draft) (turns : List Turn) : Draft :=
  turns.foldl (fun d t => t.call.effect u d) d

def Linear (u : TextUnit) : Draft → List Turn → Prop
  | _, [] => True
  | d, t :: turns => (∃ a, t.phase.answer? = some a ∧ t.call.Agrees u d a) ∧
      Linear u (t.call.effect u d) turns

variable {u : TextUnit} {d d' : Draft} {t : Turn} {turns before after : List Turn}

theorem replay_append (u : TextUnit) (d : Draft) (before after : List Turn) :
    replay u d (before ++ after) = replay u (replay u d before) after := List.foldl_append

theorem linear_append : Linear u d (before ++ after) ↔
    Linear u d before ∧ Linear u (replay u d before) after := by
  induction before generalizing d with
  | nil => simp [Linear, replay]
  | cons t before ih => rw [List.cons_append, Linear, ih, Linear, and_assoc]; rfl

theorem linear_singleton : Linear u d [t] ↔ ∃ a, t.phase.answer? = some a ∧ t.call.Agrees u d a :=
  and_iff_left trivial

/-- The turns together apply the deltas of their edits, in their order. -/
theorem replay_eq_applyAll (u : TextUnit) (d : Draft) (turns : List Turn) :
    replay u d turns = d.applyAll u (turns.filterMap delta?) := by
  induction turns generalizing d with
  | nil => rfl
  | cons t turns ih =>
      rw [replay, List.foldl_cons, ← replay, ih]
      cases hc : t.call with
      | edit endpoint e =>
          have hdelta : t.delta? = some e.delta := by rw [delta?, hc]
          rw [List.filterMap_cons_some hdelta]
          rfl
      | locate _ | visit =>
          have hdelta : t.delta? = none := by rw [delta?, hc]
          rw [List.filterMap_cons_none hdelta]
          rfl

theorem effect_of_not_changed {a : Answer} (ha : t.phase.answer? = some a) (hagree : t.call.Agrees u d a)
    (hnot : ¬ t.HasChanged) : t.call.effect u d = d := by
  cases hc : t.call with
  | locate _ | visit => rfl
  | edit endpoint e =>
      rw [hc, Call.Agrees] at hagree
      rw [Call.effect, Draft.step]
      split at hagree
      · next cause happly => rw [happly]
      · next changed? happly =>
          rw [happly]
          cases changed? with
          | none => rfl
          | some changed =>
              subst hagree
              exact absurd ha hnot

theorem Linear.replay_changed (h : Linear u d turns) :
    replay u d turns = replay u d (turns.filter fun t => t.HasChanged) := by
  induction turns generalizing d with
  | nil => rfl
  | cons t turns ih =>
      obtain ⟨⟨a, ha, hagree⟩, h⟩ := h
      rw [replay, List.foldl_cons, ← replay, ih h]
      by_cases hc : t.HasChanged
      · rw [List.filter_cons_of_pos (by simpa using hc), replay, replay, List.foldl_cons]
      · rw [List.filter_cons_of_neg (by simpa using hc), effect_of_not_changed ha hagree hc]

end Turn

section Contents

variable {d d' : Draft} {u : TextUnit}

theorem Draft.apply_of_content (h : d.content = d'.content) (e : Delta) (u : TextUnit) :
    (d.apply e u).map (Option.map Draft.content) = (d'.apply e u).map (Option.map Draft.content) := by
  have htext : d.text = d'.text := congrArg Text.Utf8.decode h
  rw [apply, apply, htext]
  rcases e.splice u d'.text with cause | _ | text <;> rfl

theorem Call.agrees_of_content {c : Call} {a : Answer} (h : d.content = d'.content)
    (ha : c.Agrees u d a) : c.Agrees u d' a := by
  cases c with
  | locate _ | visit => exact ha
  | edit endpoint e =>
      have happly := Draft.apply_of_content h e.delta u
      rw [Agrees] at ha ⊢
      rcases hd : d.apply e.delta u with cause | _ | draft <;>
        rcases hd' : d'.apply e.delta u with cause' | _ | draft' <;>
        rw [hd] at ha happly <;> rw [hd'] at happly <;>
        simp_all [Except.map]

theorem Call.content_effect (c : Call) (h : d.content = d'.content) :
    (c.effect u d).content = (c.effect u d').content := by
  cases c with
  | locate _ | visit => exact h
  | edit endpoint e =>
      have happly := Draft.apply_of_content h e.delta u
      rw [effect, effect, Draft.step, Draft.step]
      rcases hd : d.apply e.delta u with cause | _ | draft <;>
        rcases hd' : d'.apply e.delta u with cause' | _ | draft' <;>
        rw [hd, hd'] at happly <;>
        simp_all [Except.map]

end Contents

def Phase.Sees (d : Draft) : Phase → Prop
  | .read d' | .written d' _ => d' = d
  | .holding | .stored | .ended _ | .finished _ => True

namespace Call

/-- What one step of a call can be while the path has a draft: it may come to its answer without having
changed anything, or it changes the draft, publishes the change, writes the draft or puts it back as clean. -/
inductive Acts (p : String) (c : Call) (d : Draft) (k : Keeper) : Phase → Phase → Keeper → Prop
  | idle (phase : Phase) : Acts p c d k phase phase k
  | read : Acts p c d k .holding (.read d) k
  | decided (phase : Phase) (a : Answer) (w : Workspace) (undecided : phase.answer? = none)
      (agrees : c.Agrees k.options.unit d a) (unchanged : a ≠ .changed true)
      (workspace : k.workspace.Changes [] w) : Acts p c d k phase (.ended a) (k.withWorkspace w)
  | stored (endpoint : String) (e : Edit) (d' : Draft) (call : c = .edit endpoint e)
      (change : d.apply e.delta k.options.unit = .ok (some d')) :
      Acts p c d k (.read d) .stored (k.withDrafts (k.drafts.put p d'))
  | published (endpoint : String) (e : Edit) (call : c = .edit endpoint e) :
      Acts p c d k .stored (.ended (.changed true))
        { k with updates := k.updates ++ [⟨endpoint, e, k.clock⟩] }
  | written (location : String) (l : Place) (w : Workspace) (place : k.options.draftPlace? p = some l)
      (kept : w.disk.content? l = some d.content) :
      Acts p c d k (.read d) (.written d location) (k.withWorkspace w)
  | saved (location : String) (a : Answer) (agrees : c.Agrees k.options.unit d a)
      (unchanged : a ≠ .changed true) :
      Acts p c d k (.written d location) (.ended a) (k.withDrafts (k.drafts.put p d.clean))

variable {p : String} {c : Call} {d : Draft} {k k' : Keeper} {phase : Phase}

theorem Acts.quiet {a : Answer} (undecided : phase.answer? = none) (agrees : c.Agrees k.options.unit d a)
    (unchanged : a ≠ .changed true) : Acts p c d k phase (.ended a) k :=
  .decided phase a k.workspace undecided agrees unchanged (.refl [] _)

theorem acts_write {location : String} (hfor : d.IsFor p) (h : Keeper.write d k = .ok location k') :
    Acts p c d k (.read d) (.written d location) k' := by
  obtain ⟨w, l, -, rfl, hl, -, hkept, -⟩ := Keeper.write_eq_ok h
  exact .written location l w (by rwa [hfor.place] at hl) hkept

theorem acts_write_error {a : Answer} {f : Failure} (h : Keeper.write d k = .error f k')
    (agrees : c.Agrees k.options.unit d a) (unchanged : a ≠ .changed true) :
    Acts p c d k (.read d) (.ended a) k' := by
  obtain ⟨w, -, rfl, -, hw⟩ := Keeper.write_eq_error h
  exact .decided (.read d) a w rfl agrees unchanged hw

theorem act_cases (hd : k.drafts.get? p = some d) (hfor : d.IsFor p) (hsees : phase.Sees d) :
    Acts p c d k phase (c.act p phase k).1 (c.act p phase k).2 := by
  cases c with
  | edit endpoint e =>
      cases phase with
      | holding =>
          simp only [act, Keeper.opened_of_some hd]
          exact .read
      | read d' =>
          obtain rfl : d' = d := hsees
          simp only [act]
          have hagrees {a : Answer} (ha : match d'.apply e.delta k.options.unit with
              | .error cause => a = .failed (.outOfRange cause)
              | .ok changed? => a = .changed changed?.isSome) :
              (Call.edit endpoint e).Agrees k.options.unit d' a := ha
          rcases ha : d'.apply e.delta k.options.unit with cause | _ | changed
          · exact .quiet rfl (hagrees (by rw [ha])) nofun
          · exact .quiet rfl (hagrees (by rw [ha]; rfl)) nofun
          · exact .stored endpoint e changed rfl ha
      | stored => exact .published endpoint e rfl
      | written | ended | finished => exact .idle _
  | locate path =>
      cases phase with
      | holding =>
          simp only [act, hd]
          exact .read
      | read d' =>
          obtain rfl : d' = d := hsees
          simp only [act]
          cases hw : Keeper.write d' k with
          | ok location k' => exact acts_write hfor hw
          | error f k' => exact acts_write_error hw nofun nofun
      | written d' location =>
          obtain rfl : d' = d := hsees
          exact .saved location (.located (some location)) nofun nofun
      | stored | ended | finished => exact .idle _
  | visit =>
      cases phase with
      | holding =>
          simp only [act, hd]
          split
          · exact .read
          · exact .quiet rfl nofun nofun
      | read d' =>
          obtain rfl : d' = d := hsees
          simp only [act]
          cases hw : Keeper.write d' k with
          | ok location k' => exact acts_write hfor hw
          | error f k' => exact acts_write_error hw nofun nofun
      | written d' location =>
          obtain rfl : d' = d := hsees
          exact .saved location (.visited ⟨1, 0⟩) nofun nofun
      | stored | ended | finished => exact .idle _

end Call

end DraftKeeper
