import DraftKeeper.Proofs.TextMaps

namespace DraftKeeper

def Workspace.text (w : Workspace) (p : String) : Except Failure String :=
  match w.disk.locate (Path.slashComponents p) with
  | .ok (.file _ content) => .ok (Text.Utf8.decode content)
  | .ok (.folder _) => .error (.storage (.item (.wrongKind p .file)))
  | .error .missing => .error (.missing p)
  | .error fault => .error (.storage (.item (system p fault)))

namespace Keeper

variable {k : Keeper} {path p : String}

theorem ask_of_error {α : Type} {g : Workspace → Except ItemError α} {cause : ItemError}
    (h : g k.workspace = .error cause) : ask g k = .error (.storage (.item cause)) k :=
  storing_eq_error.2 ⟨_, _, Storing.ask_eq_error.2 ⟨⟨_, h, rfl⟩, rfl⟩, rfl, rfl⟩

theorem content_eq (k : Keeper) (hp : Path.normalize path = .ok p) : content path k =
    match k.texts p with
    | some text => .ok text k
    | none =>
      match k.workspace.text p with
      | .ok text => .ok text k
      | .error f => .error f k := by
  rw [content, bind_of_ok _ (normalized_eq_ok.2 ⟨hp, rfl⟩), bind_of_ok _ (draft?_eq p k), texts]
  cases hd : k.drafts.get? p with
  | some draft => rfl
  | none =>
      have hnorm := Path.normalize_of_normalize hp
      have hfile := Workspace.file?_eq (w := k.workspace)
        (Workspace.resolve_eq_ok_iff.2 ⟨hnorm, rfl⟩)
      simp only [Option.map_none, Workspace.text]
      cases hl : k.workspace.disk.locate (Path.slashComponents p) with
      | ok entry =>
          cases entry with
          | file mode content =>
              rw [hl] at hfile
              have hread : k.workspace.read p = .ok content :=
                (Workspace.read_eq_ok_iff_content? hnorm).2
                  (Disk.content?_eq_some_iff.2 ⟨mode, Disk.locate_eq_ok_iff.1 hl⟩)
              rw [bind_of_ok _ (ask_eq_ok.2 ⟨hfile, rfl⟩)]
              exact bind_of_ok _ (ask_eq_ok.2 ⟨hread, rfl⟩)
          | folder mode =>
              rw [hl] at hfile
              exact bind_eq_error.2 (.inl (ask_of_error hfile))
      | error fault =>
          rw [hl] at hfile
          cases fault with
          | missing =>
              rw [bind_of_ok _ (ask_eq_ok.2 ⟨hfile, rfl⟩)]
              rfl
          | _ => exact bind_eq_error.2 (.inl (ask_of_error hfile))

end Keeper

namespace Session

variable {start s : Session} {m : TextMap} {o : Options} {w : Workspace} {capacity : Nat}
  {clock : Time.Instant}

def mapAfter (s : Session) (m : TextMap) : Action → TextMap
  | .operation o => m.after s.keeper.options.unit s.keeper.workspace o (o.failure? s.keeper)
  | .outside _ | .tick _ | .delivery => m

def FailsNoMove (s : Session) : Action → Prop
  | .operation o => ¬ o.FailsToMove s.keeper
  | .outside _ | .tick _ | .delivery => True

instance (s : Session) (a : Action) : Decidable (s.FailsNoMove a) :=
  match a with
  | .operation o => inferInstanceAs (Decidable (¬ o.FailsToMove s.keeper))
  | .outside _ | .tick _ | .delivery => isTrue trivial

/-- The sessions that come of a start, each with the map that its run defines. -/
inductive Follows (start : Session) : Session → TextMap → Prop
  | start : Follows start start .empty
  | step {s : Session} {m : TextMap} (a : Action) :
      Follows start s m → s.FailsNoMove a → Follows start (s.after a) (s.mapAfter m a)

theorem texts_after (a : Action) (ha : s.FailsNoMove a) :
    (s.after a).keeper.texts = s.mapAfter s.keeper.texts a := by
  cases a with
  | operation o => exact o.mapsTexts ha
  | outside disk | tick clock | delivery => rfl

theorem Follows.texts (h : Follows (.new o w capacity clock) s m) : s.keeper.texts = m := by
  induction h with
  | start => rfl
  | step a _ ha ih => rw [texts_after a ha, ih]

/-- In every session the tracked paths are those with a text in the map, each once and in order,
and the content of a path, however it is spelled, is its text in the map, or else what its file
holds. -/
theorem Follows.shows_map (h : Follows (.new o w capacity clock) s m) :
    s.keeper.tracked.Pairwise (· < ·) ∧ (∀ p, p ∈ s.keeper.tracked ↔ (m p).isSome = true) ∧
      ∀ path p, Path.normalize path = .ok p → Keeper.content path s.keeper =
        match m p with
        | some text => .ok text s.keeper
        | none =>
          match s.keeper.workspace.text p with
          | .ok text => .ok text s.keeper
          | .error f => .error f s.keeper := by
  obtain rfl := h.texts
  refine ⟨s.keeper.drafts.ordered, fun p => ?_, fun path p hp => Keeper.content_eq _ hp⟩
  rw [Keeper.texts, Option.isSome_map]
  exact s.keeper.drafts.mem_paths_iff p

theorem insertion_is_shown :
    "/p/a" ∈ sampleEdited.keeper.tracked ∧
      Keeper.content "p//a" sampleEdited.keeper = .ok "hi!" sampleEdited.keeper ∧
      Keeper.content "/p/b" sampleEdited.keeper =
        .error (.missing "/p/b") sampleEdited.keeper := by
  obtain ⟨m, h, ha, hb⟩ : ∃ m, Follows sample sampleEdited m ∧ m "/p/a" = some "hi!" ∧
      m "/p/b" = none := by
    refine ⟨_, .step (.operation (.edit "e" ⟨"/p/a", .insert 2 "!"⟩))
      (.step (.operation (.track "e" (.start "/p/a"))) .start ?_) ?_, ?_, ?_⟩ <;> decide +kernel
  obtain ⟨-, hdomain, hcontent⟩ := h.shows_map
  have hp : Path.normalize "p//a" = .ok "/p/a" := Path.normalize_eq_ok_iff.2 (by decide +kernel)
  have hq : Path.normalize "/p/b" = .ok "/p/b" := Path.normalize_eq_ok_iff.2 (by decide +kernel)
  have hmissing : sampleEdited.keeper.workspace.text "/p/b" = .error (.missing "/p/b") := by
    decide +kernel
  refine ⟨(hdomain "/p/a").2 (by rw [ha]; rfl), (hcontent _ _ hp).trans ?_,
    (hcontent _ _ hq).trans ?_⟩
  · rw [ha]
  · rw [hb, hmissing]

end Session

end DraftKeeper
