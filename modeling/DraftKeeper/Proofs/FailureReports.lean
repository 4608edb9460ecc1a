import DraftKeeper.Proofs.EventResults
import DraftKeeper.Proofs.StorageFailures
import DraftKeeper.Service.Connection

namespace DraftKeeper

def Failure.OfServer (f : Failure) : Prop := f.status = 500

/-- The report of the failure blames the client if something is so, and else the server. -/
def Failure.BlamesIf (so : Prop) (f : Failure) : Prop := (f.status = 400 ∧ so) ∨ (f.OfServer ∧ ¬ so)

theorem Failure.OfServer.blamesIf {so : Prop} {f : Failure} (h : f.OfServer) (hnot : ¬ so) :
    f.BlamesIf so := .inr ⟨h, hnot⟩

theorem DraftFolderError.NotMissing.ofServer {cause : DraftFolderError} (h : cause.NotMissing) :
    (Failure.storage cause).OfServer := by
  cases cause with
  | projectUnavailable project => rfl
  | item e =>
      cases e with
      | notFound path => exact absurd rfl (h path)
      | _ => rfl

namespace Keeper

variable {k : Keeper} {p path : String} {draft : Draft}

theorem failsAt_storing {α : Type} {work : Storing α}
    (h : FailsAt DraftFolderError.NotMissing work k.workspace) :
    FailsAt Failure.OfServer (storing work) k := by
  intro f k' hf
  obtain ⟨cause, w, hw, rfl, -⟩ := storing_eq_error.1 hf
  exact (h cause w hw).ofServer

section Saving

theorem failsAt_ensureFolder (project : String) (k : Keeper) :
    FailsAt Failure.OfServer (ensureFolder project) k :=
  .of_eq (ensureFolder_eq project k) (failsAt_storing (DraftFolder.failsAt_ensure _ project))

theorem failsAt_findFolder? (project : String) (k : Keeper) :
    FailsAt Failure.OfServer (findFolder? project) k :=
  .of_eq (findFolder?_eq project k) (failsAt_storing (DraftFolder.failsAt_find? _ project))

/-- The draft file of a draft that is one for its path lies right in the draft folder, which is there
by the time of the write. -/
theorem failsAt_storing_write {k₁ : Keeper} {folder : DraftFolder} (h : draft.IsFor p)
    (he : ensureFolder draft.project k = .ok folder k₁) (content : Bytes) :
    FailsAt Failure.OfServer (storing (folder.write draft.flat content)) k₁ := by
  rw [ensureFolder_eq] at he
  obtain ⟨w, hens, rfl⟩ := storing_eq_ok.1 he
  obtain ⟨-, -, hpath, hfolder⟩ := DraftFolder.ensure_eq_ok hens
  rw [h.project] at hpath
  rw [h.flat]
  exact failsAt_storing (DraftFolder.failsAt_write h.normal hpath hfolder content)

theorem failsAt_write (h : draft.IsFor p) : FailsAt Failure.OfServer (write draft) k := by
  rw [write]
  refine .bind (failsAt_ensureFolder draft.project k) fun folder k₁ he => ?_
  exact .bind (failsAt_storing_write h he draft.content) fun u k₂ _ => .of_ok rfl

theorem failsAt_discard (project flat : String) (k : Keeper) :
    FailsAt Failure.OfServer (discard project flat) k := by
  rw [discard]
  refine .bind (failsAt_findFolder? project k) fun found k₁ _ => ?_
  cases found with
  | none => exact .pure ()
  | some folder => exact failsAt_storing (DraftFolder.failsAt_delete flat)

end Saving

section Tracking

theorem failsAt_settled (h : draft.IsFor p) : FailsAt Failure.OfServer (settled p draft) k := by
  rw [settled]
  refine .bind (.of_ok (get_eq k)) fun k₁ k₂ _ => ?_
  split
  · exact .bind (failsAt_write h) fun location k₃ _ => .pure ()
  · exact failsAt_discard _ _ k₂

theorem failsAt_stop (hk : k.Filed) (path : String) : FailsAt Failure.OfServer (stop path) k := by
  cases hp : Path.normalize path with
  | error cause => exact .of_error (stop_of_invalid hp) rfl
  | ok p =>
      cases hd : k.drafts.get? p with
      | none => exact .of_ok (stop_of_none hp hd)
      | some draft =>
          refine .of_eq (stop_of_some hp hd) ?_
          exact .bind (failsAt_settled (hk p draft hd)) fun u k₁ _ => .of_ok rfl

theorem failsAt_relocated {target : String} (ht : Path.normalize target = .ok target) :
    FailsAt Failure.OfServer (relocated target draft) k := by
  intro f k' hf
  rcases relocated_eq_error hf with hd | ⟨k₁, -, hw⟩
  · exact failsAt_discard _ _ k f k' hd
  · exact failsAt_write (.movedTo draft ht) f k' hw

theorem failsAt_move (old new : String) (k : Keeper) : FailsAt Failure.OfServer (move old new) k := by
  cases hs : Path.normalize old with
  | error cause => exact .of_error (move_of_invalid_source hs) rfl
  | ok source =>
      cases ht : Path.normalize new with
      | error cause => exact .of_error (move_of_invalid_target hs ht) rfl
      | ok target =>
          by_cases hne : source = target
          · subst hne
            exact .of_ok (move_onto_itself hs ht)
          cases hd : k.drafts.get? source with
          | none => exact .of_ok (move_of_none hs ht hd)
          | some draft =>
              cases hthere : k.drafts.get? target with
              | some there => exact .of_error (move_of_conflict hs ht hne hd hthere) rfl
              | none =>
                  refine .of_eq (move_of_some hs ht hne hd hthere) ?_
                  exact failsAt_relocated (Path.normalize_of_normalize ht)

end Tracking

section Opening

def Vacant (k : Keeper) (path : String) : Prop :=
  ∃ p, Path.normalize path = .ok p ∧ k.drafts.get? p = none ∧ k.workspace.file? p = .ok none

theorem create_of_none (h : k.workspace.file? p = .ok none) : create p k = .error (.missing p) k := by
  rw [create, bind_of_ok _ (ask_eq_ok.2 ⟨h, rfl⟩)]
  rfl

theorem failsAt_create_of_error {e : ItemError} (h : k.workspace.file? p = .error e) :
    FailsAt Failure.OfServer (create p) k := by
  have hask : ask (fun w => w.file? p) k = .error (.storage (.item e)) k :=
    storing_eq_error.2 ⟨_, _, Storing.ask_eq_error.2 ⟨⟨e, h, rfl⟩, rfl⟩, rfl, rfl⟩
  rw [create]
  exact .of_error (bind_eq_error.2 (.inl hask)) (Workspace.notMissing_file? h).item.ofServer

theorem failsAt_create_of_some {item : FileItem} (hp : Path.normalize p = .ok p)
    (h : k.workspace.file? p = .ok (some item)) : FailsAt Failure.OfServer (create p) k := by
  obtain ⟨place, content, hr, hproject, hcontent⟩ := Workspace.file?_eq_some h
  rw [Except.ok.inj (hp.symm.trans (Workspace.resolve_eq_ok_iff.1 hr).1).symm] at hproject
  have hread : k.workspace.read p = .ok content :=
    Workspace.read_eq_ok_iff.2 ⟨place, Workspace.ofName?_eq_some_iff.2 ⟨_, hr⟩, hcontent⟩
  refine .of_eq (bind_of_ok _ (ask_eq_ok.2 ⟨h, rfl⟩)) ?_
  refine .of_eq (bind_of_ok _ (ask_eq_ok.2 ⟨hread, rfl⟩)) ?_
  refine .bind (failsAt_ensureFolder _ k) fun folder k₁ he => ?_
  refine .bind (failsAt_storing (DraftFolder.failsAt_contains _)) fun found k₂ hf => ?_
  obtain ⟨w, hcont, rfl⟩ := storing_eq_ok.1 hf
  obtain ⟨rfl, -⟩ := DraftFolder.contains_eq_ok hcont
  cases found with
  | true => exact .of_ok rfl
  | false =>
      refine .bind ?_ fun u k₃ _ => .of_ok rfl
      have hfor := Draft.IsFor.new hp content
      rw [← hproject] at hfor
      exact failsAt_storing_write hfor he content

theorem failsAt_create (hp : Path.normalize p = .ok p) :
    FailsAt (Failure.BlamesIf (k.workspace.file? p = .ok none)) (create p) k := by
  rcases hf : k.workspace.file? p with e | _ | item
  · exact (failsAt_create_of_error hf).mono fun f hserver => .inr ⟨hserver, by simp⟩
  · exact .of_error (create_of_none hf) (.inl ⟨rfl, rfl⟩)
  · exact (failsAt_create_of_some hp hf).mono fun f hserver => .inr ⟨hserver, by simp⟩

theorem failsAt_opened (hp : Path.normalize p = .ok p) :
    FailsAt (Failure.BlamesIf (k.drafts.get? p = none ∧ k.workspace.file? p = .ok none)) (opened p) k := by
  intro f k' hf
  obtain ⟨hd, hc⟩ := opened_eq_error.1 hf
  rcases failsAt_create hp f k' hc with ⟨hstatus, hnone⟩ | ⟨hserver, hthere⟩
  · exact .inl ⟨hstatus, hd, hnone⟩
  · exact hserver.blamesIf fun hvacant => hthere hvacant.2

theorem not_vacant_of_opened {k' : Keeper} (hp : Path.normalize path = .ok p)
    (ho : opened p k = .ok draft k') : ¬ k.Vacant path := by
  rintro ⟨p', hp', hd, hnone⟩
  obtain rfl := Except.ok.inj (hp.symm.trans hp')
  rcases opened_eq_ok.1 ho with ⟨hsome, -⟩ | ⟨-, hc⟩
  · cases hd.symm.trans hsome
  · cases (create_of_none hnone).symm.trans hc

/-- Work on the draft of a path blames the client if there is none and can be none. -/
theorem failsAt_on_draft {α : Type} {next : String → Draft → Keeping α}
    (hn : ∀ p draft k₁, FailsAt Failure.OfServer (next p draft) k₁) (path : String) (k : Keeper) :
    FailsAt (Failure.BlamesIf (k.Vacant path))
      (normalized path >>= fun p => opened p >>= fun draft => next p draft) k := by
  refine .bind (fun f k' hf => ?_) fun p k₁ hnorm => ?_
  · obtain ⟨⟨cause, hc, rfl⟩, -⟩ := normalized_eq_error.1 hf
    refine Failure.OfServer.blamesIf rfl ?_
    rintro ⟨p, hp, -⟩
    cases hc.symm.trans hp
  · obtain ⟨hp, rfl⟩ := normalized_eq_ok.1 hnorm
    refine .bind ((failsAt_opened (Path.normalize_of_normalize hp)).mono fun f hf => ?_) fun draft k₁ ho => ?_
    · rcases hf with ⟨hstatus, hd, hnone⟩ | ⟨hserver, hnot⟩
      · exact .inl ⟨hstatus, p, hp, hd, hnone⟩
      · refine hserver.blamesIf ?_
        rintro ⟨p', hp', hvacant⟩
        obtain rfl := Except.ok.inj (hp.symm.trans hp')
        exact hnot hvacant
    · exact (hn p draft k₁).mono fun f hf => hf.blamesIf (not_vacant_of_opened hp ho)

theorem fails_on_draft {α : Type} (next : String → Draft → Keeping α) (h : k.Vacant path) :
    ∃ p, (normalized path >>= fun p => opened p >>= fun draft => next p draft) k = .error (.missing p) k := by
  obtain ⟨p, hp, hd, hnone⟩ := h
  have hopen : opened p k = .error (.missing p) k := (opened_of_none hd).trans (create_of_none hnone)
  refine ⟨p, (bind_of_ok _ (normalized_eq_ok.2 ⟨hp, rfl⟩)).trans ?_⟩
  exact bind_eq_error.2 (.inl hopen)

theorem start_of_vacant (h : k.Vacant path) : ∃ p, start path k = .error (.missing p) k := by
  rw [start_eq]
  exact fails_on_draft _ h

theorem edit_of_vacant {e : Edit} (endpoint : String) (h : k.Vacant e.location) :
    ∃ p, edit endpoint e k = .error (.missing p) k := by
  rw [edit_eq]
  exact fails_on_draft _ h

theorem failsAt_start (path : String) (k : Keeper) :
    FailsAt (Failure.BlamesIf (k.Vacant path)) (start path) k := by
  rw [start_eq]
  exact failsAt_on_draft (fun _ _ _ => .pure ()) path k

theorem failsAt_edit (endpoint : String) (e : Edit) (k : Keeper) :
    FailsAt (Failure.BlamesIf (k.Vacant e.location)) (edit endpoint e) k := by
  rw [edit_eq]
  refine failsAt_on_draft (fun p draft k₁ => ?_) e.location k
  rw [applied]
  refine .bind (.of_ok (get_eq k₁)) fun k₂ _ _ => ?_
  cases ha : draft.apply e.delta k₂.options.unit with
  | error cause => exact .throw rfl
  | ok changed =>
      cases changed with
      | none => exact .pure false
      | some draft' => exact .of_ok rfl

end Opening

/-- The keepers that come of a new one by events, by operations of others and by what happens outside. -/
inductive Reachable (o : Options) (w : Workspace) (capacity : Nat) (clock : Time.Instant) : Keeper → Prop
  | new : Reachable o w capacity clock (.new o w capacity clock)
  | event {k : Keeper} (e : Event) : Reachable o w capacity clock k → Reachable o w capacity clock (e.handle k)
  | action {k : Keeper} (a : Action) :
      Reachable o w capacity clock k → Reachable o w capacity clock ((⟨k, []⟩ : Session).after a).keeper

theorem Reachable.filed {o : Options} {w : Workspace} {capacity : Nat} {clock : Time.Instant}
    (h : k.Reachable o w capacity clock) : k.Filed := by
  induction h with
  | new => exact filed_new o w capacity clock
  | event e _ ih => exact e.filed_handle ih
  | action a _ ih => exact Session.filed_after ih a

end Keeper

structure Outbox.HasRoom (b : Outbox) : Prop where
  isOpen : b.closed = false
  room : b.notices.length < b.capacity

theorem Outbox.send_of_hasRoom {b : Outbox} (h : b.HasRoom) (n : Notice) :
    b.send n = { b with notices := b.notices ++ [n] } := by
  rw [send, if_neg]
  simp [h.isOpen, Nat.not_le.2 h.room]

namespace Event

variable {e : Event} {k : Keeper} {f : Failure}

def opens? : Event → Option String
  | .tracking _ (.start path) => some path
  | .edited _ edit => some edit.location
  | _ => none

/-- The event needs a file, which nobody tracks and which is not there. -/
def FindsNothing (e : Event) (k : Keeper) : Prop := ∃ path, e.opens? = some path ∧ k.Vacant path

theorem findsNothing_iff {path : String} (h : e.opens? = some path) : e.FindsNothing k ↔ k.Vacant path := by
  simp [FindsNothing, h]

theorem not_findsNothing (h : e.opens? = none) : ¬ e.FindsNothing k := by
  simp [FindsNothing, h]

theorem result_eq_error (h : e.result k = .error f) :
    (∃ endpoint signal k', e = .tracking endpoint signal ∧ Keeper.track signal k = .error f k') ∨
      ∃ endpoint edit k', e = .edited endpoint edit ∧ Keeper.edit endpoint edit k = .error f k' := by
  cases e with
  | tracking endpoint signal =>
      rw [result] at h
      cases ht : Keeper.track signal k with
      | ok u k' => rw [ht] at h; cases h
      | error f' k' => rw [ht] at h; cases h; exact .inl ⟨endpoint, signal, k', rfl, ht⟩
  | edited endpoint edit =>
      rw [result] at h
      cases ht : Keeper.edit endpoint edit k with
      | ok changed k' => rw [ht] at h; cases h
      | error f' k' => rw [ht] at h; cases h; exact .inr ⟨endpoint, edit, k', rfl, ht⟩

theorem blamesIf_findsNothing (hk : k.Filed) (h : e.result k = .error f) :
    f.BlamesIf (e.FindsNothing k) := by
  rcases result_eq_error h with ⟨endpoint, signal, k', rfl, ht⟩ | ⟨endpoint, edit, k', rfl, ht⟩
  · cases signal with
    | start path =>
        rw [findsNothing_iff (rfl : opens? (.tracking endpoint (.start path)) = some path)]
        exact Keeper.failsAt_start path k f k' ht
    | stop path => exact (Keeper.failsAt_stop hk path f k' ht).blamesIf (not_findsNothing rfl)
    | move old new => exact (Keeper.failsAt_move old new k f k' ht).blamesIf (not_findsNothing rfl)
    | suspend path | resume path => exact absurd ht nofun
  · rw [findsNothing_iff (rfl : opens? (.edited endpoint edit) = some edit.location)]
    exact Keeper.failsAt_edit endpoint edit k f k' ht

theorem fails_of_findsNothing (h : e.FindsNothing k) : ∃ p, e.result k = .error (.missing p) := by
  obtain ⟨path, hopens, hvacant⟩ := h
  cases e with
  | tracking endpoint signal =>
      cases signal with
      | start path' =>
          cases hopens
          obtain ⟨p, hp⟩ := Keeper.start_of_vacant hvacant
          refine ⟨p, ?_⟩
          rw [result, Keeper.track, hp]
      | stop | move | suspend | resume => cases hopens
  | edited endpoint edit =>
      cases hopens
      obtain ⟨p, hp⟩ := Keeper.edit_of_vacant endpoint hvacant
      refine ⟨p, ?_⟩
      rw [result, hp]

/-- An event that fails is reported by one notice to its endpoint, and one that succeeds by none. The notice
blames the client exactly if the event was to open a file that is not there, which always fails. -/
theorem failure_is_reported_once {o : Options} {w : Workspace} {capacity : Nat} {clock : Time.Instant}
    (hk : k.Reachable o w capacity clock) (hroom : k.outbox.HasRoom) (e : Event) :
    (∀ changed, e.result k = .ok changed → (e.handle k).outbox = k.outbox) ∧
      (e.FindsNothing k → ∃ f, e.result k = .error f) ∧ ∀ f, e.result k = .error f → ∃ n : Notice,
        (e.handle k).outbox = { k.outbox with notices := k.outbox.notices ++ [n] } ∧
        n.endpoint = e.endpoint ∧
        Message.noticeRequest n.report =
          .notification "track:editor-working-copy-error" (some n.report.toJson) ∧
        (∃ text, n.report.message = "Can not handle file operation: " ++ text) ∧
        (n.report.code = 400 ∨ n.report.code = 500) ∧ (n.report.code = 400 ↔ e.FindsNothing k) := by
  obtain ⟨-, hsent, -⟩ := e.sent_handle k
  refine ⟨fun changed h => ?_, fun h => ?_, fun f h => ?_⟩
  · rw [hsent, notice?, h]
    rfl
  · obtain ⟨p, hp⟩ := fails_of_findsNothing h
    exact ⟨_, hp⟩
  · rw [notice?, h, Option.elim_some, Outbox.send_of_hasRoom hroom] at hsent
    refine ⟨⟨e.endpoint, f.report⟩, hsent, rfl, rfl, ⟨f.message, rfl⟩, ?_⟩
    change (f.status = 400 ∨ f.status = 500) ∧ (f.status = 400 ↔ _)
    rcases blamesIf_findsNothing hk.filed h with ⟨hstatus, hvacant⟩ | ⟨hserver, hnot⟩
    · exact ⟨.inl hstatus, fun _ => hvacant, fun _ => hstatus⟩
    · have hstatus : f.status = 500 := hserver
      simp [hstatus, hnot]

/-- In the sample, where one file is tracked: an edit and a start of another one, which is not there, a stop of
what is no path, and a move to a project that is not there. -/
theorem failures_in_sample_are_reported :
    let k := (Event.tracking "e" (.start "/p/a")).handle (.new .sample .sample 4 ⟨0, 0, 0⟩)
    ∀ x ∈ [(Event.edited "f" ⟨"p//b", .insert 0 "!"⟩, 400), (.tracking "g" (.start "/p/b"), 400),
      (.tracking "h" (.stop "/p/../a"), 500), (.tracking "i" (.move "/p/a" "/q/a"), 500)],
      ∃ n : Notice, (x.1.handle k).outbox.notices = [n] ∧ n.endpoint = x.1.endpoint ∧ n.report.code = x.2 := by
  intro k
  have hroom : k.outbox.HasRoom := ⟨by decide +kernel, by decide +kernel⟩
  have hnone : k.outbox.notices = [] := by decide +kernel
  have hvacant {path : String} (hp : Path.normalize path = .ok "/p/b") : k.Vacant path :=
    ⟨"/p/b", hp, by decide +kernel, by decide +kernel⟩
  have hedit : (Event.edited "f" ⟨"p//b", .insert 0 "!"⟩).FindsNothing k := ⟨_, rfl, hvacant (by decide +kernel)⟩
  have hstart : (Event.tracking "g" (.start "/p/b")).FindsNothing k := ⟨_, rfl, hvacant (by decide +kernel)⟩
  have hstop : (Event.tracking "h" (.stop "/p/../a")).result k = .error (.invalidPath (.traversal "..")) := by
    decide +kernel
  have hmove : (Event.tracking "i" (.move "/p/a" "/q/a")).result k =
      .error (.storage (.projectUnavailable "/q")) := by
    decide +kernel
  have hk : k.Reachable .sample .sample 4 ⟨0, 0, 0⟩ := .event _ .new
  clear_value k
  have hreport {e : Event} {f : Failure} (hf : e.result k = .error f) : ∃ n : Notice,
      (e.handle k).outbox.notices = [n] ∧ n.endpoint = e.endpoint ∧
        (n.report.code = 400 ∨ n.report.code = 500) ∧ (n.report.code = 400 ↔ e.FindsNothing k) := by
    obtain ⟨n, hsent, hendpoint, -, -, hcodes⟩ := (failure_is_reported_once hk hroom e).2.2 f hf
    refine ⟨n, ?_, hendpoint, hcodes⟩
    rw [hsent, hnone]
    rfl
  have hclient {e : Event} (he : e.FindsNothing k) : ∃ n : Notice,
      (e.handle k).outbox.notices = [n] ∧ n.endpoint = e.endpoint ∧ n.report.code = 400 := by
    obtain ⟨f, hf⟩ := (failure_is_reported_once hk hroom e).2.1 he
    obtain ⟨n, hsent, hendpoint, -, hcode⟩ := hreport hf
    exact ⟨n, hsent, hendpoint, hcode.2 he⟩
  have hserver {e : Event} {f : Failure} (hf : e.result k = .error f) (hnone : e.opens? = none) : ∃ n : Notice,
      (e.handle k).outbox.notices = [n] ∧ n.endpoint = e.endpoint ∧ n.report.code = 500 := by
    obtain ⟨n, hsent, hendpoint, hcodes, hcode⟩ := hreport hf
    exact ⟨n, hsent, hendpoint, hcodes.resolve_left fun hc => not_findsNothing hnone (hcode.1 hc)⟩
  simp only [List.forall_mem_cons, List.not_mem_nil, false_imp_iff, implies_true, and_true]
  exact ⟨hclient hedit, hclient hstart, hserver hstop rfl, hserver hmove rfl⟩

end Event

end DraftKeeper
