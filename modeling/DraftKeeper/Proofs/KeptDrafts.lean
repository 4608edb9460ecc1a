import DraftKeeper.Proofs.Recovery

namespace DraftKeeper

open Text.Utf8 (decode encode)

/-- A path whose file can be read, and whose draft file no draft of another path is written over. -/
structure Keeper.Shelters (k : Keeper) (p : String) (l : Place) (file : Bytes) : Prop where
  normal : Path.normalize p = .ok p
  tree : k.workspace.disk.IsTree
  place : k.options.draftPlace? p = some l
  file : k.workspace.disk.content? (Path.slashComponents p) = some file
  others : ∀ q d, q ≠ p → k.drafts.get? q = some d →
    ∀ l', DraftFolder.place? k.options.folder d.project d.flat = some l' →
      l' ≠ l ∧ l' ≠ Path.slashComponents p

/-- The draft of a path, if there is one, is clean and no more than the file. -/
def Keeper.Untouched (k : Keeper) (p : String) (file : Bytes) : Prop :=
  ∀ d, k.drafts.get? p = some d → d.IsFor p ∧ d.content = file ∧ d.dirty = false

/-- The draft file still holds what was kept; or that is lost, and there is at most a copy of the
file in its place. -/
def Keeper.HoldsKept (k : Keeper) (l : Place) (file kept : Bytes) (lost : Bool) : Prop :=
  if lost then ∀ content, k.workspace.disk.content? l = some content → content = file
  else k.workspace.disk.content? l = some kept

/-- What goes on while a file is opened and closed but not edited. -/
structure Keeper.Idle (k : Keeper) (p : String) (l : Place) (file kept : Bytes) (lost : Bool) :
    Prop where
  shelters : k.Shelters p l file
  untouched : k.Untouched p file
  kept : k.HoldsKept l file kept lost

namespace Keeper

variable {k k' : Keeper} {path endpoint p : String} {l : Place} {file kept : Bytes} {lost : Bool}
  {draft : Draft} {f : Failure} {files : List Place}

section Frame

theorem Shelters.frame (h : k.Shelters p l file) (ho : k'.options = k.options)
    (hw : k.workspace.Changes files k'.workspace) (hp : Path.slashComponents p ∉ files)
    (hd : ∀ q d', q ≠ p → k'.drafts.get? q = some d' →
      ∃ d, k.drafts.get? q = some d ∧ d'.flat = d.flat ∧ d'.project = d.project) :
    k'.Shelters p l file where
  normal := h.normal
  tree := hw.2.tree h.tree
  place := by rw [ho, h.place]
  file := (hw.2.content _ hp).trans h.file
  others q d' hq hd' l' hl' := by
    obtain ⟨d, hget, hflat, hproject⟩ := hd q d' hq hd'
    rw [ho, hflat, hproject] at hl'
    exact h.others q d hq hget l' hl'

theorem Idle.frame (h : k.Idle p l file kept lost) (ho : k'.options = k.options)
    (hw : k.workspace.Changes files k'.workspace) (hl : l ∉ files)
    (hp : Path.slashComponents p ∉ files) (hget : k'.drafts.get? p = k.drafts.get? p)
    (hd : ∀ q d', q ≠ p → k'.drafts.get? q = some d' →
      ∃ d, k.drafts.get? q = some d ∧ d'.flat = d.flat ∧ d'.project = d.project) :
    k'.Idle p l file kept lost where
  shelters := h.shelters.frame ho hw hp hd
  untouched d hd' := h.untouched d (hget ▸ hd')
  kept := by
    rw [HoldsKept, hw.2.content l hl]
    exact h.kept

theorem Idle.quiet (h : k.Idle p l file kept lost) (ho : k'.options = k.options)
    (hw : k.workspace.Changes [] k'.workspace) (hd : k'.drafts = k.drafts) :
    k'.Idle p l file kept lost :=
  h.frame ho hw List.not_mem_nil List.not_mem_nil (by rw [hd])
    fun q d' _ hget => ⟨d', by rw [← hd, hget], rfl, rfl⟩

end Frame

section Steps

theorem Idle.read (h : k.Idle p l file kept lost) : k.workspace.read p = .ok file :=
  (Workspace.read_eq_ok_iff_content? h.shelters.normal).2 h.shelters.file

theorem Idle.of_opened (h : k.Idle p l file kept lost) (ho : opened p k = .ok draft k') :
    k'.Idle p l file kept lost ∧ k'.drafts.get? p = some draft := by
  rcases opened_eq_ok.1 ho with ⟨hd, rfl⟩ | ⟨-, hc⟩
  · exact ⟨h, hd⟩
  obtain ⟨w, l', content, hread, rfl, rfl, hl', hw, hcontent⟩ := create_eq_ok h.shelters.normal hc
  obtain rfl := Option.some.inj (h.shelters.place.symm.trans hl')
  obtain rfl := Except.ok.inj (h.read.symm.trans hread)
  have hne := Options.draftPlace?_ne h.shelters.normal hl'
  have hget : ((k.withWorkspace w).withDrafts (k.drafts.put p
      (.new (Path.flatten p) ((Path.project? p).getD "/") file))).drafts.get? p =
        some (.new (Path.flatten p) ((Path.project? p).getD "/") file) :=
    Drafts.get?_put_self ..
  refine ⟨⟨?_, ?_, ?_⟩, hget⟩
  · refine h.shelters.frame rfl hw (by simpa using hne.symm) fun q d' hq hd' => ⟨d', ?_, rfl, rfl⟩
    exact (Drafts.get?_put_of_ne hq).symm.trans hd'
  · intro d hd
    obtain rfl := Option.some.inj (hget.symm.trans hd)
    exact ⟨.new h.shelters.normal file, rfl, rfl⟩
  · -- what is there stays; where nothing was, the new draft file is a copy of the file
    have hkept := h.kept
    rw [HoldsKept] at hkept ⊢
    change if lost then ∀ c, w.disk.content? l = some c → c = file
      else w.disk.content? l = some kept
    rw [hcontent]
    cases lost with
    | false =>
        rw [if_neg Bool.false_ne_true] at hkept ⊢
        rw [hkept, Option.getD_some]
    | true =>
        rw [if_pos rfl] at hkept ⊢
        rintro c ⟨⟩
        cases hold : k.workspace.disk.content? l with
        | none => rfl
        | some old => exact hkept old hold

theorem Idle.of_opened_error (h : k.Idle p l file kept lost) (ho : opened p k = .error f k') :
    k'.Idle p l file kept lost ∧ k'.drafts = k.drafts := by
  obtain ⟨w, rfl, hw⟩ := create_eq_error (opened_eq_error.1 ho).2
  exact ⟨h.quiet rfl hw rfl, rfl⟩

theorem Idle.of_settled (h : k.Idle p l file kept lost) (hd : k.drafts.get? p = some draft)
    (hs : settled p draft k = .ok () k') :
    (k'.withDrafts (k'.drafts.erase p)).Idle p l file kept true := by
  obtain ⟨hfor, hcontent, -⟩ := h.untouched draft hd
  have hahead := Comparison.isAhead_of_read hd h.read
  rw [hcontent, Comparison.differ_of_decode_eq rfl] at hahead
  rcases settled_eq_ok hs with ⟨ha, -⟩ | ⟨-, hdiscard⟩
  · -- the draft is no more than the file, so the comparison finds nothing to keep
    rw [hahead] at ha
    cases ha
  · rw [hfor.flat, hfor.project] at hdiscard
    have hgone :=
      Options.gone_of_discard h.shelters.tree h.shelters.normal h.shelters.place hdiscard
    obtain ⟨w, rfl, hw⟩ := discard_changes hdiscard
    have hne := Options.draftPlace?_ne h.shelters.normal h.shelters.place
    have hplace : DraftFolder.place? k.options.folder ((Path.project? p).getD "/")
        (Path.flatten p) = some l := h.shelters.place
    rw [hplace, Option.toList_some] at hw
    refine ⟨?_, ?_, ?_⟩
    · refine h.shelters.frame rfl hw (by simpa using hne.symm) fun q d' hq hd' =>
        ⟨d', ?_, rfl, rfl⟩
      exact (Drafts.get?_erase_of_ne hq).symm.trans hd'
    · intro d hd'
      cases (Drafts.get?_erase_self ..).symm.trans hd'
    · rw [HoldsKept, if_pos rfl]
      intro c hc
      cases hgone.symm.trans hc

theorem Idle.of_sweepOne (s : SweepReport × Keeper) (h : s.2.Idle p l file kept lost) (q : String) :
    (sweepOne s q).2.Idle p l file kept lost ∧
      (sweepOne s q).2.drafts.get? p = s.2.drafts.get? p := by
  rcases sweepOne_cases s q with ⟨hs, -⟩ | ⟨d, hd, hdirty, hs⟩
  · rw [hs]
    exact ⟨h, rfl⟩
  -- the draft of the path is clean, so the sweep is at another
  have hq : q ≠ p := by
    rintro rfl
    obtain ⟨-, -, hclean⟩ := h.untouched d hd
    exact Bool.false_ne_true (hclean.symm.trans hdirty)
  rcases hs with ⟨location, k, hsave, hs⟩ | ⟨f, k, hsave, hs⟩
  · rw [hs]
    obtain ⟨k₁, hwrite, rfl⟩ := save_eq_ok hsave
    obtain ⟨w, l', -, rfl, hl', hw, -⟩ := write_eq_ok hwrite
    obtain ⟨hne, hnp⟩ := h.shelters.others q d hq hd l' hl'
    have hget : (s.2.drafts.put q d.clean).get? p = s.2.drafts.get? p :=
      Drafts.get?_put_of_ne (Ne.symm hq)
    refine ⟨h.frame rfl hw (by simpa using hne.symm) (by simpa using hnp.symm) hget ?_, hget⟩
    intro r d' _ hd'
    change (s.2.drafts.put q d.clean).get? r = some d' at hd'
    rw [Drafts.get?_put] at hd'
    split at hd'
    · next heq =>
        cases hd'
        exact ⟨d, heq ▸ hd, rfl, rfl⟩
    · exact ⟨d', hd', rfl, rfl⟩
  · rw [hs]
    obtain ⟨w, cause, rfl, -, hw⟩ := write_eq_error (save_eq_error hsave)
    exact ⟨h.quiet rfl hw rfl, rfl⟩

theorem Idle.of_sweep (h : k.Idle p l file kept lost) :
    k.sweep.2.Idle p l file kept lost ∧ k.sweep.2.drafts.get? p = k.drafts.get? p := by
  refine sweep_keeps (P := fun k' => k'.Idle p l file kept lost ∧ k'.drafts.get? p = k.drafts.get? p)
    ⟨h, rfl⟩ fun s q _ hs => ?_
  obtain ⟨hone, hget⟩ := Idle.of_sweepOne s hs.1 q
  exact ⟨hone, hget.trans hs.2⟩

theorem Idle.recoverable (h : k.Idle p l file kept false) (hp : Path.normalize path = .ok p)
    (hd : k.drafts.get? p = none) (hne : decode kept ≠ decode file)
    (hsha : Digest.Sha256.NoCollision (encode (decode kept)) (encode (decode file))) :
    recoverable? path k = .ok (some (decode kept)) k := by
  have hc : k.workspace.disk.content? l = some kept := h.kept
  obtain ⟨folder, hfind, hplace⟩ :=
    Options.find?_of_content? h.shelters.tree h.shelters.normal h.shelters.place hc
  rw [recoverable?_of_file hp hd h.read hfind (DraftFolder.read?_of_content? hplace hc),
    if_pos ((Comparison.differ_iff hsha).2 hne)]

end Steps

section Operations

def StillTracks (p : String) (k k' : Keeper) : Prop :=
  k.drafts.contains p = true → k'.drafts.contains p = true

theorem StillTracks.of_get? (h : k'.drafts.get? p = k.drafts.get? p) : StillTracks p k k' := by
  rw [StillTracks, Drafts.contains, Drafts.contains, h]
  exact id

theorem StillTracks.of_some (h : k'.drafts.get? p = some draft) : StillTracks p k k' := fun _ => by
  rw [Drafts.contains, h]
  rfl

theorem Idle.of_report (h : k.Idle p l file kept lost) (endpoint : String) (f : Failure) :
    (k.report endpoint f).Idle p l file kept lost := h.quiet rfl (.refl [] _) rfl

theorem Idle.of_start (h : k.Idle p l file kept lost) (hp : Path.normalize path = .ok p) :
    ((Operation.track endpoint (.start path)).perform k).Idle p l file kept lost ∧
      StillTracks p k ((Operation.track endpoint (.start path)).perform k) := by
  cases hs : start path k with
  | ok u k' =>
      rw [Operation.perform_of_ok (.start path) hs]
      obtain ⟨q, draft, hq, ho⟩ := start_eq_ok hs
      obtain rfl := Except.ok.inj (hp.symm.trans hq)
      obtain ⟨hidle, hd⟩ := h.of_opened ho
      exact ⟨hidle, .of_some hd⟩
  | error f k' =>
      rw [Operation.perform_of_error (.start path) hs]
      rcases start_eq_error hs with rfl | ⟨q, hq, ho⟩
      · exact ⟨h.of_report endpoint f, .of_get? rfl⟩
      · obtain rfl := Except.ok.inj (hp.symm.trans hq)
        obtain ⟨hidle, hd⟩ := h.of_opened_error ho
        exact ⟨hidle.of_report endpoint f, .of_get? (congrArg (Drafts.get? · p) hd)⟩

theorem Idle.of_stop (h : k.Idle p l file kept lost) (endpoint : String)
    (hp : Path.normalize path = .ok p) :
    let k' := (Operation.track endpoint (.stop path)).perform k
    (k'.Idle p l file kept lost ∧ StillTracks p k k') ∨
      (k'.Idle p l file kept true ∧ k.drafts.contains p = true ∧ k'.drafts.contains p = false) := by
  cases hs : stop path k with
  | ok u k' =>
      rw [Operation.perform_of_ok (.stop path) hs]
      obtain ⟨q, hq, hcases⟩ := stop_eq_ok hs
      obtain rfl := Except.ok.inj (hp.symm.trans hq)
      rcases hcases with ⟨-, rfl⟩ | ⟨draft, k₁, hd, hsettled, rfl⟩
      · exact .inl ⟨h, .of_get? rfl⟩
      · refine .inr ⟨h.of_settled hd hsettled, by rw [Drafts.contains, hd]; rfl, ?_⟩
        rw [withDrafts, Drafts.contains, Drafts.get?_erase, if_pos rfl]
        rfl
  | error f k' =>
      rw [Operation.perform_of_error (.stop path) hs]
      rcases stop_eq_error hs with rfl | ⟨q, draft, -, -, hsettled⟩
      · exact .inl ⟨h.of_report endpoint f, .of_get? rfl⟩
      · obtain ⟨w, cause, rfl, -, hw⟩ := settled_eq_error hsettled
        exact .inl ⟨(h.quiet rfl hw rfl : (k.withWorkspace w).Idle p l file kept lost).of_report
          endpoint f, .of_get? rfl⟩

def answer? {α : Type} (work : Keeping α) (k : Keeper) : Option α :=
  match work k with
  | .ok a _ => some a
  | .error .. => none

theorem Idle.of_edit {e : Edit} (h : k.Idle p l file kept lost)
    (hp : Path.normalize e.location = .ok p) (ha : answer? (edit endpoint e) k ≠ some true) :
    ((Operation.edit endpoint e).perform k).Idle p l file kept lost ∧
      StillTracks p k ((Operation.edit endpoint e).perform k) := by
  rw [Operation.perform]
  cases he : edit endpoint e k with
  | ok changed k' =>
      rw [answer?, he] at ha
      rw [after_of_ok he]
      obtain ⟨q, draft, k₁, hq, ho, happlied⟩ := edit_eq_ok he
      obtain rfl := Except.ok.inj (hp.symm.trans hq)
      rcases applied_eq_ok happlied with ⟨-, -, rfl⟩ | ⟨draft', rfl, -⟩
      · obtain ⟨hidle, hd⟩ := h.of_opened ho
        exact ⟨hidle, .of_some hd⟩
      · exact absurd rfl ha
  | error f k' =>
      rw [after_of_error he]
      rcases edit_eq_error he with rfl | ⟨q, hq, ho | ⟨draft, ho⟩⟩
      · exact ⟨h, .of_get? rfl⟩
      · obtain rfl := Except.ok.inj (hp.symm.trans hq)
        obtain ⟨hidle, hd⟩ := h.of_opened_error ho
        exact ⟨hidle, .of_get? (by rw [hd])⟩
      · obtain rfl := Except.ok.inj (hp.symm.trans hq)
        obtain ⟨hidle, hd⟩ := h.of_opened ho
        exact ⟨hidle, .of_some hd⟩

end Operations

end Keeper

namespace Session

variable {start s : Session} {p : String} {l : Place} {file kept : Bytes} {lost ended : Bool}

/-- The action changes no file itself, and opens, closes and edits no other path than this one; its
edits fail or have no effect. -/
def LeavesAlone (s : Session) (p : String) : Action → Prop
  | .operation (.track _ (.start path)) | .operation (.track _ (.stop path)) =>
    Path.normalize path = .ok p
  | .operation (.edit endpoint e) =>
    Path.normalize e.location = .ok p ∧
      Keeper.answer? (Keeper.edit endpoint e) s.keeper ≠ some true
  | .operation (.track _ (.suspend _)) | .operation (.track _ (.resume _)) => True
  | .operation .sweep | .operation (.content _) | .operation (.recoverable _) => True
  | .tick _ | .delivery => True
  | .operation (.track _ (.move ..)) | .operation (.persistentLocation _) | .outside _ => False

def untracks (s : Session) (p : String) (a : Action) : Bool :=
  s.keeper.drafts.contains p && !(s.after a).keeper.drafts.contains p

/-- The sessions that come of a start while a path is left alone, and whether tracking of it has
ended on the way. -/
inductive Idles (p : String) (start : Session) : Session → Bool → Prop
  | start : Idles p start start false
  | step {s : Session} {ended : Bool} (a : Action) : Idles p start s ended → s.LeavesAlone p a →
      Idles p start (s.after a) (ended || s.untracks p a)

theorem untracks_eq_false {a : Action}
    (h : Keeper.StillTracks p s.keeper (s.after a).keeper) : s.untracks p a = false := by
  rw [untracks]
  cases hc : s.keeper.drafts.contains p with
  | false => rfl
  | true => rw [h hc]; rfl

theorem idle_after (h : s.keeper.Idle p l file kept lost) {a : Action} (ha : s.LeavesAlone p a) :
    (s.after a).keeper.Idle p l file kept (lost || s.untracks p a) := by
  have hstill (hs : (s.after a).keeper.Idle p l file kept lost ∧
      Keeper.StillTracks p s.keeper (s.after a).keeper) :
      (s.after a).keeper.Idle p l file kept (lost || s.untracks p a) := by
    rw [untracks_eq_false hs.2, Bool.or_false]
    exact hs.1
  have hquiet (hs : (s.after a).keeper.options = s.keeper.options ∧
      (s.after a).keeper.workspace = s.keeper.workspace ∧
      (s.after a).keeper.drafts = s.keeper.drafts) :
      (s.after a).keeper.Idle p l file kept (lost || s.untracks p a) := by
    refine hstill ⟨h.quiet hs.1 ?_ hs.2.2, .of_get? (by rw [hs.2.2])⟩
    rw [hs.2.1]
    exact .refl [] _
  cases a with
  | outside disk => cases ha
  | tick clock | delivery => exact hquiet ⟨rfl, rfl, rfl⟩
  | operation o =>
      cases o with
      | edit endpoint e => exact hstill (h.of_edit ha.1 ha.2)
      | persistentLocation path => cases ha
      | sweep => exact hstill ⟨h.of_sweep.1, .of_get? h.of_sweep.2⟩
      | content path =>
          have hk : (s.after (.operation (.content path))).keeper = s.keeper :=
            (Keeper.ReadOnly.content path).after s.keeper
          exact hquiet (by rw [hk]; exact ⟨rfl, rfl, rfl⟩)
      | recoverable path =>
          have hk : (s.after (.operation (.recoverable path))).keeper = s.keeper :=
            (Keeper.ReadOnly.recoverable? path).after s.keeper
          exact hquiet (by rw [hk]; exact ⟨rfl, rfl, rfl⟩)
      | track endpoint signal =>
          cases signal with
          | start path => exact hstill (h.of_start ha)
          | suspend path | resume path => exact hquiet ⟨rfl, rfl, rfl⟩
          | move old new => cases ha
          | stop path =>
              rcases h.of_stop endpoint ha with hs | ⟨hs, hthere, hgone⟩
              · exact hstill hs
              · have hu : s.untracks p (.operation (.track endpoint (.stop path))) = true := by
                  rw [untracks, hthere, Bool.true_and]
                  exact congrArg not hgone
                rw [hu, Bool.or_true]
                exact hs

theorem Idles.idle (h : Idles p start s ended) (hstart : start.keeper.Idle p l file kept false) :
    s.keeper.Idle p l file kept ended := by
  induction h with
  | start => exact hstart
  | step a _ ha ih => exact idle_after ih ha

/-- While a file is not edited, the draft file that was kept for it is there with its bytes exactly
as long as no stop has ended tracking, and until then it can be recovered whenever the file is not
tracked. -/
theorem kept_draft_survives_iff (h : Idles p start s ended)
    (hshelter : start.keeper.Shelters p l file) (hfree : start.keeper.drafts.get? p = none)
    (hkept : start.keeper.workspace.disk.content? l = some kept)
    (hne : decode kept ≠ decode file)
    (hsha : Digest.Sha256.NoCollision (encode (decode kept)) (encode (decode file))) :
    (s.keeper.workspace.disk.content? l = some kept ↔ ended = false) ∧
      (ended = false → s.keeper.drafts.get? p = none → ∀ path, Path.normalize path = .ok p →
        Keeper.recoverable? path s.keeper = .ok (some (decode kept)) s.keeper) := by
  have huntouched : start.keeper.Untouched p file := by
    intro d hd
    cases hfree.symm.trans hd
  have hidle := h.idle ⟨hshelter, huntouched, hkept⟩
  refine ⟨?_, ?_⟩
  · cases ended with
    | false => exact iff_of_true hidle.kept rfl
    | true =>
        refine iff_of_false (fun hc => ?_) nofun
        obtain rfl := hidle.kept kept hc
        exact hne rfl
  · rintro rfl hd path hp
    exact hidle.recoverable hp hd hne hsha

def sampleKept : Session :=
  .new .sample ⟨"/w", ⟨[([], .folder 0o755), (["p"], .folder 0o755),
    (["p", "a"], .file 0o644 [104, 105]), (["p", ".d"], .folder 0o700),
    (["p", ".d", "p.a"], .file 0o600 [104, 105, 33])]⟩⟩ 4 ⟨0, 0, 0⟩

def sampleOpened : Session :=
  (sampleKept.after (.operation (.track "e" (.start "/p/a")))).after
    (.operation (.edit "e" ⟨"/p/a", .remove 7 1⟩))

def sampleClosed : Session := sampleOpened.after (.operation (.track "e" (.stop "/p/a")))

theorem Idles.next {ended' : Bool} (h : Idles p start s ended) (a : Action)
    (ha : s.LeavesAlone p a) (hended : (ended || s.untracks p a) = ended') :
    Idles p start (s.after a) ended' := hended ▸ .step a h ha

theorem idles_sampleOpened : Idles "/p/a" sampleKept sampleOpened false := by
  have hp : Path.normalize "/p/a" = .ok "/p/a" := Path.normalize_eq_ok_iff.2 (by decide)
  have hstart : Idles "/p/a" sampleKept _ false :=
    Idles.start.next (.operation (.track "e" (.start "/p/a"))) hp (by decide)
  exact hstart.next (.operation (.edit "e" ⟨"/p/a", .remove 7 1⟩)) ⟨hp, by decide⟩
    (by decide)

theorem idles_sampleClosed : Idles "/p/a" sampleKept sampleClosed true := by
  have hp : Path.normalize "/p/a" = .ok "/p/a" := Path.normalize_eq_ok_iff.2 (by decide +kernel)
  exact idles_sampleOpened.next (.operation (.track "e" (.stop "/p/a"))) hp (by decide +kernel)

theorem kept_draft_is_there_until_stop :
    sampleOpened.keeper.workspace.disk.content? ["p", ".d", "p.a"] = some [104, 105, 33] ∧
      sampleClosed.keeper.workspace.disk.content? ["p", ".d", "p.a"] ≠ some [104, 105, 33] := by
  have hp : Path.normalize "/p/a" = .ok "/p/a" := Path.normalize_eq_ok_iff.2 (by decide +kernel)
  have hshelter : sampleKept.keeper.Shelters "/p/a" ["p", ".d", "p.a"] [104, 105] :=
    ⟨hp, by decide +kernel, by decide +kernel, by decide +kernel, nofun⟩
  have hne : decode [104, 105, 33] ≠ decode [104, 105] := by decide +kernel
  have hsha : Digest.Sha256.NoCollision (encode (decode [104, 105, 33]))
      (encode (decode [104, 105])) := by decide +kernel
  obtain ⟨hopened, -⟩ :=
    kept_draft_survives_iff idles_sampleOpened hshelter rfl (by decide +kernel) hne hsha
  obtain ⟨hclosed, -⟩ :=
    kept_draft_survives_iff idles_sampleClosed hshelter rfl (by decide +kernel) hne hsha
  exact ⟨hopened.2 rfl, fun hc => Bool.false_ne_true (hclosed.1 hc).symm⟩

/-- A file is opened, an edit of it fails, and it is closed: the draft file that was kept for it,
and could be recovered, is gone. -/
theorem stop_of_unedited_file_deletes_kept_draft :
    ∃ s ended, Idles "/p/a" sampleKept s ended ∧
      sampleKept.keeper.drafts.get? "/p/a" = none ∧
      sampleKept.keeper.options.draftPlace? "/p/a" = some ["p", ".d", "p.a"] ∧
      sampleKept.keeper.workspace.disk.content? ["p", "a"] = some [104, 105] ∧
      sampleKept.keeper.workspace.disk.content? ["p", ".d", "p.a"] = some [104, 105, 33] ∧
      Keeper.answer? (Keeper.recoverable? "/p/a") sampleKept.keeper = some (some "hi!") ∧
      s.keeper.drafts.get? "/p/a" = none ∧
      s.keeper.workspace.disk.content? ["p", ".d", "p.a"] = none ∧
      Keeper.answer? (Keeper.recoverable? "/p/a") s.keeper = some none := by
  refine ⟨sampleClosed, true, idles_sampleClosed, ?_⟩
  decide +kernel

end Session

end DraftKeeper
