import DraftKeeper.Proofs.KeeperSteps

namespace DraftKeeper.Keeper

variable {k k' : Keeper} {path endpoint : String} {e : Edit} {f : Failure}

section Editing

def applied (endpoint : String) (e : Edit) (p : String) (draft : Draft) : Keeping Bool := do
  match draft.apply e.delta (← get).options.unit with
  | .error cause => throw (.outOfRange cause)
  | .ok none => return false
  | .ok (some changed) =>
    keep p changed
    publish endpoint e
    return true

theorem edit_eq (endpoint : String) (e : Edit) : edit endpoint e = (do
    let p ← normalized e.location
    let draft ← opened p
    applied endpoint e p draft) := by
  funext k
  cases hp : normalized e.location k with
  | error f k₁ => simp only [edit, bind, EStateM.bind, hp]
  | ok p k₁ =>
      rw [edit, bind_of_ok _ hp, bind_of_ok _ hp, bind_of_ok _ (draft?_eq p k₁)]
      cases hd : k₁.drafts.get? p with
      | some draft =>
          rw [bind_of_ok _ (opened_of_some hd)]
          rfl
      | none =>
          simp only [bind, EStateM.bind, opened_of_none hd]
          rfl

theorem edit_of_opened {p : String} {draft : Draft} (hp : Path.normalize e.location = .ok p)
    (h : opened p k = .ok draft k') : edit endpoint e k = applied endpoint e p draft k' := by
  rw [edit_eq, bind_of_ok _ (normalized_eq_ok.2 ⟨hp, rfl⟩), bind_of_ok _ h]

theorem start_eq (path : String) : start path = (do
    let p ← normalized path
    let _ ← opened p
    return ()) := by
  funext k
  cases hp : normalized path k with
  | error f k₁ => simp only [start, bind, EStateM.bind, hp]
  | ok p k₁ =>
      rw [start, bind_of_ok _ hp, bind_of_ok _ hp, bind_of_ok _ (draft?_eq p k₁)]
      cases hd : k₁.drafts.get? p with
      | some draft =>
          rw [bind_of_ok _ (opened_of_some hd)]
          rfl
      | none =>
          simp only [bind, EStateM.bind, opened_of_none hd]
          rfl

theorem applied_eq_ok {p : String} {draft : Draft} {changed : Bool}
    (h : applied endpoint e p draft k = .ok changed k') :
    (changed = false ∧ draft.apply e.delta k.options.unit = .ok none ∧ k' = k) ∨
      ∃ draft', changed = true ∧ draft.apply e.delta k.options.unit = .ok (some draft') ∧
        k' = { k with
          drafts := k.drafts.put p draft'
          updates := k.updates ++ [⟨endpoint, e, k.clock⟩] } := by
  rw [applied, bind_of_ok _ (get_eq k)] at h
  rcases ha : draft.apply e.delta k.options.unit with cause | _ | draft'
  · rw [ha] at h
    exact absurd h throw_ne_ok
  · rw [ha] at h
    obtain ⟨rfl, rfl⟩ := pure_eq_ok.1 h
    exact .inl ⟨rfl, rfl, rfl⟩
  · rw [ha] at h
    cases h
    exact .inr ⟨draft', rfl, rfl, rfl⟩

theorem applied_eq_error {p : String} {draft : Draft}
    (h : applied endpoint e p draft k = .error f k') : k' = k := by
  rw [applied, bind_of_ok _ (get_eq k)] at h
  rcases ha : draft.apply e.delta k.options.unit with cause | _ | draft'
  · rw [ha] at h
    exact (throw_eq_error.1 h).2.symm
  · rw [ha] at h
    exact absurd h pure_ne_error
  · rw [ha] at h
    exact absurd h nofun

theorem edit_eq_ok {changed : Bool} (h : edit endpoint e k = .ok changed k') :
    ∃ p draft k₁, Path.normalize e.location = .ok p ∧ opened p k = .ok draft k₁ ∧
      applied endpoint e p draft k₁ = .ok changed k' := by
  rw [edit_eq] at h
  obtain ⟨p, k₁, hp, h⟩ := bind_eq_ok.1 h
  obtain ⟨hnorm, rfl⟩ := normalized_eq_ok.1 hp
  obtain ⟨draft, k₁, ho, h⟩ := bind_eq_ok.1 h
  exact ⟨p, draft, k₁, hnorm, ho, h⟩

theorem edit_eq_error (h : edit endpoint e k = .error f k') : k' = k ∨
    ∃ p, Path.normalize e.location = .ok p ∧
      (opened p k = .error f k' ∨ ∃ draft, opened p k = .ok draft k') := by
  rw [edit_eq] at h
  rcases bind_eq_error.1 h with h | ⟨p, k₁, hp, h⟩
  · exact .inl (normalized_eq_error.1 h).2.symm
  · obtain ⟨hnorm, rfl⟩ := normalized_eq_ok.1 hp
    refine .inr ⟨p, hnorm, ?_⟩
    rcases bind_eq_error.1 h with ho | ⟨draft, k₁, ho, h⟩
    · exact .inl ho
    · obtain rfl := applied_eq_error h
      exact .inr ⟨draft, ho⟩

theorem start_eq_ok {u : Unit} (h : start path k = .ok u k') :
    ∃ p draft, Path.normalize path = .ok p ∧ opened p k = .ok draft k' := by
  rw [start_eq] at h
  obtain ⟨p, k₁, hp, h⟩ := bind_eq_ok.1 h
  obtain ⟨hnorm, rfl⟩ := normalized_eq_ok.1 hp
  obtain ⟨draft, k₁, ho, h⟩ := bind_eq_ok.1 h
  obtain ⟨-, rfl⟩ := pure_eq_ok.1 h
  exact ⟨p, draft, hnorm, ho⟩

theorem start_eq_error (h : start path k = .error f k') : k' = k ∨
    ∃ p, Path.normalize path = .ok p ∧ opened p k = .error f k' := by
  rw [start_eq] at h
  rcases bind_eq_error.1 h with h | ⟨p, k₁, hp, h⟩
  · exact .inl (normalized_eq_error.1 h).2.symm
  · obtain ⟨hnorm, rfl⟩ := normalized_eq_ok.1 hp
    rcases bind_eq_error.1 h with ho | ⟨draft, k₁, ho, h⟩
    · exact .inr ⟨p, hnorm, ho⟩
    · exact absurd h pure_ne_error

end Editing

section Stopping

variable {p : String} {draft : Draft}

/-- Writes the draft of a path that holds what the file lacks, and discards any other. -/
def settled (p : String) (draft : Draft) : Keeping Unit := do
  let k ← get
  if Comparison.isAhead k.workspace k.drafts p then
    let _ ← write draft
  else discard draft.project draft.flat

theorem stop_of_invalid {cause : PathFault} (hp : Path.normalize path = .error cause) :
    stop path k = .error (.invalidPath cause) k := by
  simp only [stop, bind, EStateM.bind, normalized, hp]

theorem stop_of_none (hp : Path.normalize path = .ok p) (hd : k.drafts.get? p = none) :
    stop path k = .ok () k := by
  rw [stop, bind_of_ok _ (normalized_eq_ok.2 ⟨hp, rfl⟩), bind_of_ok _ (draft?_eq p k), hd]
  rfl

theorem stop_of_some (hp : Path.normalize path = .ok p) (hd : k.drafts.get? p = some draft) :
    stop path k = (do settled p draft; forget p : Keeping Unit) k := by
  rw [stop, bind_of_ok _ (normalized_eq_ok.2 ⟨hp, rfl⟩), bind_of_ok _ (draft?_eq p k), hd]
  simp only [settled, bind, EStateM.bind, get_eq]
  split
  · simp only [EStateM.bind]
    cases write draft k <;> rfl
  · rfl

theorem settled_eq_ok {u : Unit} (h : settled p draft k = .ok u k') :
    (Comparison.isAhead k.workspace k.drafts p = true ∧
        ∃ location, write draft k = .ok location k') ∨
      (Comparison.isAhead k.workspace k.drafts p = false ∧
        discard draft.project draft.flat k = .ok () k') := by
  rw [settled, bind_of_ok _ (get_eq k)] at h
  split at h
  · next ha =>
      obtain ⟨location, k₁, hw, h⟩ := bind_eq_ok.1 h
      obtain ⟨-, rfl⟩ := pure_eq_ok.1 h
      exact .inl ⟨ha, location, hw⟩
  · next ha => exact .inr ⟨by simpa using ha, h⟩

theorem settled_changes {u : Unit} (h : settled p draft k = .ok u k') :
    ∃ w, k' = k.withWorkspace w ∧ k.workspace.Changes
      (DraftFolder.place? k.options.folder draft.project draft.flat).toList w := by
  rcases settled_eq_ok h with ⟨-, location, hw⟩ | ⟨-, hd⟩
  · obtain ⟨w, l, -, rfl, hl, hc, -⟩ := write_eq_ok hw
    exact ⟨w, rfl, by rwa [hl]⟩
  · exact discard_changes hd

theorem settled_eq_error (h : settled p draft k = .error f k') :
    ∃ w cause, k' = k.withWorkspace w ∧ f = .storage cause ∧ k.workspace.Changes [] w := by
  rw [settled, bind_of_ok _ (get_eq k)] at h
  split at h
  · rcases bind_eq_error.1 h with hw | ⟨location, k₁, hw, h⟩
    · exact write_eq_error hw
    · exact absurd h pure_ne_error
  · obtain ⟨rfl, cause, rfl⟩ := discard_eq_error h
    exact ⟨_, cause, rfl, rfl, .refl [] _⟩

theorem stop_eq_ok_of_some {u : Unit} (hp : Path.normalize path = .ok p)
    (hd : k.drafts.get? p = some draft) (h : stop path k = .ok u k') :
    ∃ k₁, settled p draft k = .ok () k₁ ∧ k' = k₁.withDrafts (k₁.drafts.erase p) := by
  rw [stop_of_some hp hd] at h
  obtain ⟨u, k₁, hs, h⟩ := bind_eq_ok.1 h
  cases h
  exact ⟨k₁, hs, rfl⟩

theorem stop_eq_ok {u : Unit} (h : stop path k = .ok u k') : ∃ p, Path.normalize path = .ok p ∧
    ((k.drafts.get? p = none ∧ k' = k) ∨ ∃ draft k₁, k.drafts.get? p = some draft ∧
      settled p draft k = .ok () k₁ ∧ k' = k₁.withDrafts (k₁.drafts.erase p)) := by
  cases hp : Path.normalize path with
  | error cause =>
      rw [stop] at h
      obtain ⟨p, k₁, hn, -⟩ := bind_eq_ok.1 h
      obtain ⟨hn, -⟩ := normalized_eq_ok.1 hn
      rw [hp] at hn
      cases hn
  | ok p =>
      refine ⟨p, rfl, ?_⟩
      cases hd : k.drafts.get? p with
      | none =>
          rw [stop_of_none hp hd] at h
          cases h
          exact .inl ⟨rfl, rfl⟩
      | some draft =>
          obtain ⟨k₁, hs, hk⟩ := stop_eq_ok_of_some hp hd h
          exact .inr ⟨draft, k₁, rfl, hs, hk⟩

theorem stop_eq_error (h : stop path k = .error f k') : k' = k ∨
    ∃ p draft, Path.normalize path = .ok p ∧ k.drafts.get? p = some draft ∧
      settled p draft k = .error f k' := by
  cases hp : Path.normalize path with
  | error cause =>
      rw [stop] at h
      rcases bind_eq_error.1 h with h | ⟨p, k₁, hn, -⟩
      · exact .inl (normalized_eq_error.1 h).2.symm
      · obtain ⟨hn, -⟩ := normalized_eq_ok.1 hn
        rw [hp] at hn
        cases hn
  | ok p =>
      cases hd : k.drafts.get? p with
      | none => rw [stop_of_none hp hd] at h; cases h
      | some draft =>
          rw [stop_of_some hp hd] at h
          rcases bind_eq_error.1 h with h | ⟨u, k₁, hs, h⟩
          · exact .inr ⟨p, draft, rfl, hd, h⟩
          · exact absurd h nofun

end Stopping

section Moving

variable {old new source target : String} {draft : Draft}

def rekeyed (k : Keeper) (source target : String) (draft : Draft) : Keeper :=
  k.withDrafts ((k.drafts.erase source).put target (draft.movedTo target))

/-- Moves the draft file of a draft that is tracked under its new path already. -/
def relocated (target : String) (draft : Draft) : Keeping Unit := do
  discard draft.project draft.flat
  let _ ← save target (draft.movedTo target)

theorem move_of_invalid_source {cause : PathFault} (hs : Path.normalize old = .error cause) :
    move old new k = .error (.invalidPath cause) k := by
  simp only [move, bind, EStateM.bind, normalized, hs]

theorem move_of_invalid_target {cause : PathFault} (hs : Path.normalize old = .ok source)
    (ht : Path.normalize new = .error cause) :
    move old new k = .error (.invalidPath cause) k := by
  simp only [move, bind, EStateM.bind, normalized, hs, ht]

theorem move_onto_itself (hs : Path.normalize old = .ok source)
    (ht : Path.normalize new = .ok source) : move old new k = .ok () k := by
  rw [move, bind_of_ok _ (normalized_eq_ok.2 ⟨hs, rfl⟩), bind_of_ok _ (normalized_eq_ok.2 ⟨ht, rfl⟩),
    if_pos rfl]
  rfl

theorem move_of_none (hs : Path.normalize old = .ok source) (ht : Path.normalize new = .ok target)
    (hd : k.drafts.get? source = none) : move old new k = .ok () k := by
  rw [move, bind_of_ok _ (normalized_eq_ok.2 ⟨hs, rfl⟩), bind_of_ok _ (normalized_eq_ok.2 ⟨ht, rfl⟩)]
  split
  · rfl
  · rw [bind_of_ok _ (draft?_eq source k), hd]
    rfl

theorem move_of_conflict {there : Draft} (hs : Path.normalize old = .ok source)
    (ht : Path.normalize new = .ok target) (hne : source ≠ target)
    (hd : k.drafts.get? source = some draft) (hthere : k.drafts.get? target = some there) :
    move old new k = .error (.alreadyTracked target) k := by
  rw [move, bind_of_ok _ (normalized_eq_ok.2 ⟨hs, rfl⟩), bind_of_ok _ (normalized_eq_ok.2 ⟨ht, rfl⟩),
    if_neg hne, bind_of_ok _ (draft?_eq source k), hd]
  simp only [bind_of_ok _ (draft?_eq target k), hthere]
  rfl

theorem move_of_some (hs : Path.normalize old = .ok source) (ht : Path.normalize new = .ok target)
    (hne : source ≠ target) (hd : k.drafts.get? source = some draft)
    (hfree : k.drafts.get? target = none) :
    move old new k = relocated target draft (k.rekeyed source target draft) := by
  rw [move, bind_of_ok _ (normalized_eq_ok.2 ⟨hs, rfl⟩), bind_of_ok _ (normalized_eq_ok.2 ⟨ht, rfl⟩),
    if_neg hne, bind_of_ok _ (draft?_eq source k), hd]
  simp only [bind_of_ok _ (draft?_eq target k), hfree]
  rfl

theorem relocated_eq_ok {u : Unit} (h : relocated target draft k = .ok u k') :
    ∃ k₁ location, discard draft.project draft.flat k = .ok () k₁ ∧
      save target (draft.movedTo target) k₁ = .ok location k' := by
  unfold relocated at h
  obtain ⟨u, k₁, hd, h⟩ := bind_eq_ok.1 h
  obtain ⟨location, k₂, hs, h⟩ := bind_eq_ok.1 h
  obtain ⟨-, rfl⟩ := pure_eq_ok.1 h
  exact ⟨k₁, location, hd, hs⟩

theorem relocated_eq_error (h : relocated target draft k = .error f k') :
    discard draft.project draft.flat k = .error f k' ∨
      ∃ k₁, discard draft.project draft.flat k = .ok () k₁ ∧
        write (draft.movedTo target) k₁ = .error f k' := by
  rw [relocated] at h
  rcases bind_eq_error.1 h with hd | ⟨u, k₁, hd, h⟩
  · exact .inl hd
  · rcases bind_eq_error.1 h with hs | ⟨location, k₂, hs, h⟩
    · exact .inr ⟨k₁, hd, save_eq_error hs⟩
    · exact absurd h pure_ne_error

theorem relocated_error_changes (h : relocated target draft k = .error f k') :
    ∃ w cause, k' = k.withWorkspace w ∧ f = .storage cause ∧ k.workspace.Changes
      (DraftFolder.place? k.options.folder draft.project draft.flat).toList w := by
  rcases relocated_eq_error h with hd | ⟨k₁, hd, hw⟩
  · obtain ⟨rfl, cause, rfl⟩ := discard_eq_error hd
    exact ⟨_, cause, rfl, rfl, .refl _ _⟩
  · obtain ⟨w₁, rfl, hw₁⟩ := discard_changes hd
    obtain ⟨w₂, cause, rfl, rfl, hw₂⟩ := write_eq_error hw
    exact ⟨w₂, cause, rfl, rfl, hw₁.trans (hw₂.mono (List.nil_subset _))⟩

/-- Every outcome of a move: it is refused before anything has changed, it has nothing to do, or the
draft is tracked under its new path and its draft file is moved after it. -/
theorem move_cases (old new : String) (k : Keeper) :
    (∃ f, move old new k = .error f k ∧ ∀ cause, f ≠ .storage cause) ∨
      (∃ source target, Path.normalize old = .ok source ∧ Path.normalize new = .ok target ∧
        (source = target ∨ k.drafts.get? source = none) ∧ move old new k = .ok () k) ∨
      ∃ source target draft, Path.normalize old = .ok source ∧ Path.normalize new = .ok target ∧
        source ≠ target ∧ k.drafts.get? source = some draft ∧ k.drafts.get? target = none ∧
        move old new k = relocated target draft (k.rekeyed source target draft) := by
  cases hs : Path.normalize old with
  | error cause => exact .inl ⟨_, move_of_invalid_source hs, nofun⟩
  | ok source =>
      cases ht : Path.normalize new with
      | error cause => exact .inl ⟨_, move_of_invalid_target hs ht, nofun⟩
      | ok target =>
          by_cases hne : source = target
          · subst hne
            exact .inr (.inl ⟨source, source, rfl, rfl, .inl rfl, move_onto_itself hs ht⟩)
          cases hd : k.drafts.get? source with
          | none => exact .inr (.inl ⟨source, target, rfl, rfl, .inr hd, move_of_none hs ht hd⟩)
          | some draft =>
              cases hfree : k.drafts.get? target with
              | some there => exact .inl ⟨_, move_of_conflict hs ht hne hd hfree, nofun⟩
              | none =>
                  exact .inr (.inr ⟨source, target, draft, rfl, rfl, hne, hd, hfree,
                    move_of_some hs ht hne hd hfree⟩)

/-- A move that fails was refused before anything had changed, or the storage failed it after the draft
had come under its new path. -/
theorem move_eq_error (h : move old new k = .error f k') :
    (k' = k ∧ ∀ cause, f ≠ .storage cause) ∨
      ∃ source target draft w cause, Path.normalize old = .ok source ∧
        Path.normalize new = .ok target ∧ source ≠ target ∧ k.drafts.get? source = some draft ∧
        k' = (k.rekeyed source target draft).withWorkspace w ∧ f = .storage cause ∧
        k.workspace.Changes
          (DraftFolder.place? k.options.folder draft.project draft.flat).toList w := by
  rcases move_cases old new k with ⟨f', h', hf⟩ | ⟨_, _, -, -, -, h'⟩ |
    ⟨source, target, draft, hs, ht, hne, hd, -, h'⟩
  · cases h.symm.trans h'
    exact .inl ⟨rfl, hf⟩
  · cases h.symm.trans h'
  · obtain ⟨w, cause, rfl, rfl, hw⟩ := relocated_error_changes (h'.symm.trans h)
    exact .inr ⟨source, target, draft, w, cause, hs, ht, hne, hd, rfl, rfl, hw⟩

end Moving

section Queries

def ReadOnly {α : Type} (work : Keeping α) : Prop :=
  ∀ k, (∃ a, work k = .ok a k) ∨ ∃ f, work k = .error f k

namespace ReadOnly

variable {α β : Type}

theorem pure (a : α) : ReadOnly (pure a) := fun _ => .inl ⟨a, rfl⟩

theorem throw (f : Failure) : ReadOnly (throw f : Keeping α) := fun _ => .inr ⟨f, rfl⟩

theorem get : ReadOnly (get : Keeping Keeper) := fun k => .inl ⟨k, rfl⟩

theorem bind {work : Keeping α} {next : α → Keeping β} (h : ReadOnly work)
    (hn : ∀ a, ReadOnly (next a)) : ReadOnly (work >>= next) := by
  intro k
  rcases h k with ⟨a, ha⟩ | ⟨f, hf⟩
  · rw [bind_of_ok _ ha]
    exact hn a k
  · exact .inr ⟨f, bind_eq_error.2 (.inl hf)⟩

theorem normalized (path : String) : ReadOnly (normalized path) := by
  intro k
  rw [Keeper.normalized]
  split
  · exact .inl ⟨_, rfl⟩
  · exact .inr ⟨_, rfl⟩

theorem draft? (p : String) : ReadOnly (draft? p) := fun k => .inl ⟨_, draft?_eq p k⟩

theorem ask (g : Workspace → Except ItemError α) : ReadOnly (ask g) := by
  intro k
  cases h : Keeper.ask g k with
  | ok a k' =>
      obtain ⟨-, rfl⟩ := ask_eq_ok.1 h
      exact .inl ⟨a, rfl⟩
  | error f k' =>
      obtain rfl := ask_eq_error h
      exact .inr ⟨f, rfl⟩

theorem findFolder? (project : String) : ReadOnly (findFolder? project) := by
  intro k
  cases h : Keeper.findFolder? project k with
  | ok found k' =>
      obtain ⟨rfl, -⟩ := findFolder?_eq_ok h
      exact .inl ⟨found, rfl⟩
  | error f k' =>
      obtain ⟨rfl, -⟩ := findFolder?_eq_error h
      exact .inr ⟨f, rfl⟩

theorem contains (folder : DraftFolder) (flat : String) :
    ReadOnly (storing (folder.contains flat)) := by
  intro k
  cases h : folder.contains flat k.workspace with
  | ok found w =>
      obtain ⟨rfl, -⟩ := DraftFolder.contains_eq_ok h
      exact .inl ⟨found, storing_eq_ok.2 ⟨_, h, rfl⟩⟩
  | error e w =>
      obtain rfl := DraftFolder.contains_eq_error h
      exact .inr ⟨_, storing_eq_error.2 ⟨e, _, h, rfl, rfl⟩⟩

theorem read? (folder : DraftFolder) (flat : String) : ReadOnly (storing (folder.read? flat)) := by
  intro k
  rcases folder.read?_keeps flat k.workspace with ⟨kept, h⟩ | ⟨e, h⟩
  · exact .inl ⟨kept, storing_eq_ok.2 ⟨_, h, rfl⟩⟩
  · exact .inr ⟨_, storing_eq_error.2 ⟨e, _, h, rfl, rfl⟩⟩

theorem content (path : String) : ReadOnly (content path) := by
  refine bind (normalized path) fun p => bind (draft? p) fun draft => ?_
  cases draft with
  | some draft => exact pure _
  | none =>
      refine bind (ask _) fun item => ?_
      cases item with
      | none => exact throw _
      | some item => exact bind (ask _) fun bytes => pure _

theorem recoverable? (path : String) : ReadOnly (recoverable? path) := by
  refine bind (normalized path) fun p => bind (draft? p) fun draft => ?_
  cases draft with
  | some draft => exact pure none
  | none =>
      refine bind (ask _) fun item => ?_
      cases item with
      | none => exact pure none
      | some item =>
          refine bind (findFolder? _) fun found => ?_
          cases found with
          | none => exact pure none
          | some folder =>
              refine bind (read? folder _) fun kept => ?_
              cases kept with
              | none => exact pure none
              | some kept => exact bind (ask _) fun current => pure _

end ReadOnly

theorem persistentLocation?_cases (path : String) (k : Keeper) :
    (∃ location, persistentLocation? path k = .ok location k) ∨
      (∃ f, persistentLocation? path k = .error f k) ∨
      ∃ p draft, Path.normalize path = .ok p ∧ k.drafts.get? p = some draft ∧
        persistentLocation? path k = (do return some (← save p draft) : Keeping _) k := by
  rw [persistentLocation?]
  cases hp : Path.normalize path with
  | error cause =>
      refine .inr (.inl ⟨.invalidPath cause, bind_eq_error.2 (.inl ?_)⟩)
      exact normalized_eq_error.2 ⟨⟨cause, hp, rfl⟩, rfl⟩
  | ok p =>
      rw [bind_of_ok _ (normalized_eq_ok.2 ⟨hp, rfl⟩), bind_of_ok _ (draft?_eq p k)]
      cases hd : k.drafts.get? p with
      | some draft => exact .inr (.inr ⟨p, draft, rfl, hd, rfl⟩)
      | none =>
          rw [← or_assoc]
          refine .inl (ReadOnly.bind (.ask _) (fun item => ?_) k)
          cases item with
          | none => exact .pure none
          | some item =>
              refine .bind (.findFolder? _) fun found => ?_
              cases found with
              | none => exact .pure none
              | some folder =>
                  refine .bind (.contains folder _) fun found => ?_
                  split
                  · exact .bind .get fun k => .pure _
                  · exact .pure none

end Queries

section Sweeping

theorem sweepOne_cases (s : SweepReport × Keeper) (path : String) :
    (sweepOne s path = s ∧ ∀ draft ∈ s.2.drafts.get? path, draft.dirty = false) ∨
      ∃ draft, s.2.drafts.get? path = some draft ∧ draft.dirty = true ∧
        ((∃ location k, save path draft s.2 = .ok location k ∧
            sweepOne s path = ({ s.1 with persisted := s.1.persisted + 1 }, k)) ∨
          ∃ f k, save path draft s.2 = .error f k ∧
            sweepOne s path = ({ s.1 with failed := s.1.failed + 1 }, k)) := by
  rw [sweepOne]
  cases hd : s.2.drafts.get? path with
  | none => exact .inl ⟨rfl, nofun⟩
  | some draft =>
      cases hdirty : draft.dirty with
      | false =>
          refine .inl ⟨by simp [hdirty], ?_⟩
          rintro d ⟨⟩
          exact hdirty
      | true =>
          refine .inr ⟨draft, rfl, hdirty, ?_⟩
          simp only [hdirty, if_true]
          cases hs : save path draft s.2 with
          | ok location k => exact .inl ⟨location, k, rfl, rfl⟩
          | error f k => exact .inr ⟨f, k, rfl, rfl⟩

theorem sweep_keeps {P : Keeper → Prop} (hk : P k)
    (hvisit : ∀ s path, path ∈ k.tracked → P s.2 → P (sweepOne s path).2) : P k.sweep.2 := by
  have hfold : ∀ (ps : List String) (s : SweepReport × Keeper), (∀ path ∈ ps, path ∈ k.tracked) → P s.2 →
      P (ps.foldl sweepOne s).2 := by
    intro ps
    induction ps with
    | nil => exact fun s _ hs => hs
    | cons path ps ih =>
        intro s hps hs
        exact ih _ (fun q hq => hps q (List.mem_cons_of_mem path hq))
          (hvisit s path (hps path List.mem_cons_self) hs)
  exact hfold k.tracked (⟨0, 0⟩, k) (fun _ => id) hk

end Sweeping

end DraftKeeper.Keeper
