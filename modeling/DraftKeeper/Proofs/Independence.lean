import DraftKeeper.Proofs.ApartEvents
import DraftKeeper.Proofs.LongNames

namespace DraftKeeper

section Drafts

theorem DraftList.get?_of_lt {l : DraftList} {p : String} (h : ∀ e ∈ l, p < e.1) : l.get? p = none := by
  induction l with
  | nil => rfl
  | cons e r ih =>
      rw [get?, if_neg, ih fun e he => h e (List.mem_cons_of_mem _ he)]
      intro heq
      have hlt := h e List.mem_cons_self
      rw [heq] at hlt
      exact String.lt_irrefl _ hlt

theorem DraftList.Ordered.lt_of_mem {p : String} {d : Draft} {r : DraftList} (h : Ordered ((p, d) :: r)) :
    ∀ e ∈ r, p < e.1 := fun e he => (List.pairwise_cons.1 h).1 e.1 (List.mem_map_of_mem he)

theorem DraftList.not_lt_first {p p' : String} {d d' : Draft} {r r' : DraftList}
    (h' : Ordered ((p', d') :: r')) (hg : get? p ((p, d) :: r) = get? p ((p', d') :: r')) : ¬ p < p' := by
  intro hlt
  rw [get?, if_pos rfl, get?_of_lt] at hg
  · cases hg
  · intro e he
    rcases List.mem_cons.1 he with rfl | he
    · exact hlt
    · exact String.lt_trans hlt (h'.lt_of_mem e he)

theorem DraftList.get?_tail {p : String} {d d' : Draft} {r r' : DraftList} (h : Ordered ((p, d) :: r))
    (h' : Ordered ((p, d') :: r')) (hg : ∀ q, get? q ((p, d) :: r) = get? q ((p, d') :: r')) (q : String) :
    r.get? q = r'.get? q := by
  have hrest := hg q
  rw [get?, get?] at hrest
  by_cases hq : p = q
  · subst hq
    rw [get?_of_lt h.lt_of_mem, get?_of_lt h'.lt_of_mem]
  · rwa [if_neg hq, if_neg hq] at hrest

/-- Drafts in order are determined by what is found under each path. -/
theorem DraftList.eq_of_get? {l l' : DraftList} (h : l.Ordered) (h' : l'.Ordered)
    (hg : ∀ p, l.get? p = l'.get? p) : l = l' := by
  induction l generalizing l' with
  | nil =>
      cases l' with
      | nil => rfl
      | cons e r' =>
          have hfirst := hg e.1
          rw [get?, get?, if_pos rfl] at hfirst
          cases hfirst
  | cons e r ih =>
      obtain ⟨p, d⟩ := e
      cases l' with
      | nil =>
          have hfirst := hg p
          rw [get?, get?, if_pos rfl] at hfirst
          cases hfirst
      | cons e' r' =>
          obtain ⟨p', d'⟩ := e'
          have hkey : p = p' := by
            rcases Std.lt_trichotomy p p' with hlt | heq | hlt
            · exact absurd hlt (not_lt_first h' (hg p))
            · exact heq
            · exact absurd hlt (not_lt_first h (hg p').symm)
          subst hkey
          have hfirst := hg p
          rw [get?, get?, if_pos rfl, if_pos rfl] at hfirst
          obtain rfl := Option.some.inj hfirst
          rw [ih (List.pairwise_cons.1 h).2 (List.pairwise_cons.1 h').2 (get?_tail h h' hg)]

theorem Drafts.ext_get? {o o' : Drafts} (h : ∀ p, o.get? p = o'.get? p) : o = o' := by
  obtain ⟨l, hl⟩ := o
  obtain ⟨l', hl'⟩ := o'
  obtain rfl := DraftList.eq_of_get? hl hl' h
  rfl

end Drafts

namespace Workspace

variable {o : Options} {F G : Place → Prop} {w a b u v : Workspace} {p q : Option String}

theorem AgreeOff.inl (h : a.AgreeOff F b) : a.AgreeOff (fun x => F x ∨ G x) b := h.mono fun _ => .inl

theorem AgreeOff.inr (h : a.AgreeOff G b) : a.AgreeOff (fun x => F x ∨ G x) b := h.mono fun _ => .inr

theorem Settles.get?_filePlace {r : String} (h : Settles o G q w b)
    (hq : ∀ p ∈ q, Path.normalize p = .ok p) (hr : Path.normalize r = .ok r) (hG : ¬ G (o.filePlace r)) :
    b.disk.get? (o.filePlace r) = w.disk.get? (o.filePlace r) := by
  cases q with
  | none => exact h.2 _ hG
  | some p =>
      obtain ⟨folder, v, hens, hv⟩ := h
      rw [hv.2 _ hG, (ensure_changes hens (hq p rfl)).2 _ (Options.not_onWay_filePlace (hq p rfl) hr)]

theorem settles_agreeOff (hq : ∀ p ∈ q, Path.normalize p = .ok p ∧ Place.Avoids F (o.filePlace p))
    (ha : w.AgreeOff F a) (hb : Settles o G q w b) (hv : Settles o G q a v) :
    b.AgreeOff (fun x => F x ∨ G x) v := by
  cases q with
  | none => exact hb.inr.symm.trans (ha.inl.trans hv.inr)
  | some p =>
      obtain ⟨hnorm, hplace⟩ := hq p rfl
      obtain ⟨folder, s, hs, hsb⟩ := hb
      obtain ⟨folder', t, ht, htv⟩ := hv
      obtain ⟨t', ht', hst⟩ := ((DraftFolder.localWork_ensure hnorm o).respects F hplace w a ha).of_ok hs
      obtain ⟨-, rfl⟩ : folder' = folder ∧ t = t' := by simpa using ht.symm.trans ht'
      exact hsb.inr.symm.trans (hst.inl.trans htv.inr)

/-- Two events that settle one after the other, in either order, meet off their draft files. -/
theorem settles_meet (ht : w.disk.IsTree)
    (hp : ∀ q ∈ p, Path.normalize q = .ok q ∧ Place.Avoids G (o.filePlace q))
    (hq : ∀ p ∈ q, Path.normalize p = .ok p ∧ Place.Avoids F (o.filePlace p))
    (ha : Settles o F p w a) (hb : Settles o G q w b) (hu : Settles o F p b u) (hv : Settles o G q a v) :
    u.AgreeOff (fun x => F x ∨ G x) v := by
  cases p with
  | none => exact hu.inl.symm.trans (settles_agreeOff hq ha hb hv)
  | some r =>
      cases q with
      | none =>
          have hmeet : a.AgreeOff (fun x => F x ∨ G x) u := (settles_agreeOff hp hb ha hu).mono fun _ => Or.symm
          exact hmeet.symm.trans hv.inr
      | some p =>
          obtain ⟨hr, hrG⟩ := hp r rfl
          obtain ⟨hp, hpF⟩ := hq p rfl
          obtain ⟨f, s, hs, hsa⟩ := ha
          obtain ⟨g, t, ht', htb⟩ := hb
          obtain ⟨f', s', hs', hsu⟩ := hu
          obtain ⟨g', t', ht'', htv⟩ := hv
          -- each folder is made the same before and after the other
          have hprepared : Prepared o r w s := ⟨ht, f, s, hs, .refl s⟩
          obtain ⟨x, hx, hmade⟩ := (DraftFolder.respects_prepared_ensure hp hr w s hprepared).of_ok ht'
          obtain ⟨h, y, hy, hyx⟩ := hmade.made
          obtain ⟨y', hy', hsame⟩ := ((DraftFolder.localWork_ensure hr o).respects G hrG t b htb).of_ok hy
          obtain ⟨x', hx', hsame'⟩ := ((DraftFolder.localWork_ensure hp o).respects F hpF s a hsa).of_ok hx
          obtain ⟨-, rfl⟩ : f' = h ∧ s' = y' := by simpa using hs'.symm.trans hy'
          obtain ⟨-, rfl⟩ : g' = g ∧ t' = x' := by simpa using ht''.symm.trans hx'
          exact hsu.inl.symm.trans (hsame.inr.symm.trans (hyx.agreeOff.trans (hsame'.inl.trans htv.inr)))

end Workspace

namespace Event

open Keeper

variable {a b : Event} {k : Keeper}

theorem published_congr {e : Event} {k' : Keeper} (hresult : e.result k' = e.result k)
    (hclock : k'.clock = k.clock) : e.published k' = e.published k := by
  cases e with
  | tracking endpoint signal => rfl
  | edited endpoint edit => simp only [published, hresult, hclock]

theorem drafts_either (h : Apart k a b)
    (hab : ∀ p, Path.Named b.paths p → (b.handle (a.handle k)).drafts.get? p = (b.handle k).drafts.get? p)
    (hba : ∀ p, Path.Named a.paths p → (a.handle (b.handle k)).drafts.get? p = (a.handle k).drafts.get? p) :
    (b.handle (a.handle k)).drafts = (a.handle (b.handle k)).drafts := by
  have hleaves {e : Event} {p : String} (hp : ¬ Path.Named e.paths p) (k : Keeper) :
      (e.handle k).drafts.get? p = k.drafts.get? p := get?_handle (fun hlocks => hp (named_of_mem_locks hlocks)) k
  refine Drafts.ext_get? fun p => ?_
  by_cases hb : Path.Named b.paths p
  · have ha : ¬ Path.Named a.paths p := fun ha => h.places p ha p hb rfl
    rw [hab p hb, hleaves ha]
  · rw [hleaves hb]
    by_cases ha : Path.Named a.paths p
    · rw [hba p ha]
    · rw [hleaves ha, hleaves ha, hleaves hb]

theorem get?_filePlace_either (h : Apart k a b) (hk : k.Filed) {p : String} (hp : Path.Named a.paths p)
    {q? : Option String} (hq : ∀ q ∈ q?, Path.Named b.paths q)
    (hs : Workspace.Settles k.options (k.options.FilePlaces (Path.Named b.paths)) q? (a.handle k).workspace
      (a.handle (b.handle k)).workspace) :
    (b.handle (a.handle k)).workspace.disk.get? (k.options.filePlace p) =
      (a.handle (b.handle k)).workspace.disk.get? (k.options.filePlace p) := by
  have hn := normalize_of_named hp
  have hother : ¬ k.options.FilePlaces (Path.Named b.paths) (k.options.filePlace p) := by
    rintro ⟨q, hq, heq⟩
    exact h.places p hp q hq heq
  have hafter := get?_filePlace_handle (e := b) (a.filed_handle hk) hn
  rw [(a.confined_handle hk).1] at hafter
  rw [hafter fun q hq => (h.places p hp q hq).symm,
    hs.get?_filePlace (fun q hmem => normalize_of_named (hq q hmem)) hn hother]

end Event

namespace Session

open Keeper Event

variable {allowed : Session → Action → Prop} {o : Options} {w : Workspace} {capacity : Nat}
  {clock : Time.Instant} {s : Session} {a b : Event}

/-- Two events whose paths are apart may be handled in either order: the drafts come out the same, and so do
all entries of the disk with their bytes and modes; and each event has the same result, publishes the same
update and has the same notice sent. -/
theorem order_does_not_matter (hr : Reached allowed (.new o w capacity clock) s) (ht : w.disk.IsTree)
    (hallowed : ∀ s a, allowed s a → a.LeavesTree) (h : Event.Apart s.keeper a b) :
    (b.handle (a.handle s.keeper)).drafts = (a.handle (b.handle s.keeper)).drafts ∧
      (∀ x, (b.handle (a.handle s.keeper)).workspace.disk.get? x =
        (a.handle (b.handle s.keeper)).workspace.disk.get? x) ∧
      (a.result (b.handle s.keeper) = a.result s.keeper ∧
        b.result (a.handle s.keeper) = b.result s.keeper) ∧
      (a.published (b.handle s.keeper) = a.published s.keeper ∧
        b.published (a.handle s.keeper) = b.published s.keeper) ∧
      a.notice? (b.handle s.keeper) = a.notice? s.keeper ∧
        b.notice? (a.handle s.keeper) = b.notice? s.keeper := by
  have hk := hr.filed
  have htree := hr.tree ht hallowed
  generalize s.keeper = k at *
  obtain ⟨p?, hp, hsa⟩ := a.settles hk fun p hp => h.opens p (named_append.2 (.inl hp))
  obtain ⟨q?, hq, hsb⟩ := b.settles hk fun p hp => h.opens p (named_append.2 (.inr hp))
  obtain ⟨hbresult, hbdrafts, hsa'⟩ := after_other h hk htree hp hsa
  obtain ⟨haresult, hadrafts, hsb'⟩ := after_other h.symm hk htree hq hsb
  have hplaces {a b : Event} (h : Event.Apart k a b) {p : String} (hp : Path.Named a.paths p) :
      Place.Avoids (k.options.FilePlaces (Path.Named b.paths)) (k.options.filePlace p) :=
    Options.avoids_filePlace (fun q hq => normalize_of_named hq) (normalize_of_named hp) fun q hq =>
      (h.places p hp q hq).symm
  have hmeet := Workspace.settles_meet htree
    (fun q hmem => ⟨normalize_of_named (hp q hmem), hplaces h (hp q hmem)⟩)
    (fun q hmem => ⟨normalize_of_named (hq q hmem), hplaces h.symm (hq q hmem)⟩) hsa hsb hsa' hsb'
  refine ⟨drafts_either h hbdrafts hadrafts, fun x => ?_, ⟨haresult, hbresult⟩,
    ⟨published_congr haresult (b.sent_handle k).2.2, published_congr hbresult (a.sent_handle k).2.2⟩, ?_, ?_⟩
  · by_cases ha : k.options.FilePlaces (Path.Named a.paths) x
    · obtain ⟨p, hp, rfl⟩ := ha
      exact get?_filePlace_either h hk hp hq hsb'
    by_cases hb : k.options.FilePlaces (Path.Named b.paths) x
    · obtain ⟨p, hp', rfl⟩ := hb
      exact (get?_filePlace_either h.symm hk hp' hp hsa').symm
    · exact (hmeet.2 x (not_or.2 ⟨ha, hb⟩)).symm
  · rw [notice?, notice?, haresult]
  · rw [notice?, notice?, hbresult]

/-- Two files of one project, the draft folder of which is still missing. -/
def samplePair : Session :=
  .new .sample ⟨"/w", ⟨[([], .folder 0o755), (["p"], .folder 0o755), (["p", "a"], .file 0o644 [104, 105]),
    (["p", "b"], .file 0o644 [104])]⟩⟩ 4 ⟨0, 0, 0⟩

def sampleStart : Event := .tracking "e" (.start "/p/a")

def sampleEdit : Event := .edited "f" ⟨"p\\b", .insert 1 "!"⟩

theorem apart_samplePair : Event.Apart samplePair.keeper sampleStart sampleEdit where
  places := by decide
  clear := by decide
  opens := by decide
  names p hp := .of_short ((by decide : ∀ p, Path.Named (sampleStart.paths ++ sampleEdit.paths) p →
    ∀ name ∈ Path.components p, Disk.isTooLong name = false) p hp)
  files _ _ d hd := by cases hd

theorem start_and_edit_in_either_order :
    Event.Apart samplePair.keeper sampleStart sampleEdit ∧
      (sampleEdit.handle (sampleStart.handle samplePair.keeper)).drafts =
        (sampleStart.handle (sampleEdit.handle samplePair.keeper)).drafts ∧
      (∀ x, (sampleEdit.handle (sampleStart.handle samplePair.keeper)).workspace.disk.get? x =
        (sampleStart.handle (sampleEdit.handle samplePair.keeper)).workspace.disk.get? x) ∧
      samplePair.keeper.workspace.disk.get? ["p", ".d"] = none ∧
      (sampleStart.handle samplePair.keeper).workspace.disk.get? ["p", ".d"] = some (.folder 0o700) ∧
      sampleStart.result (sampleEdit.handle samplePair.keeper) = .ok none ∧
      sampleEdit.result (sampleStart.handle samplePair.keeper) = .ok (some true) := by
  have hr : Reached (fun _ a => a.LeavesTree) samplePair samplePair := .start
  have ht : samplePair.keeper.workspace.disk.IsTree := by decide
  obtain ⟨hdrafts, hdisk, ⟨ha, hb⟩, -⟩ := order_does_not_matter hr ht (fun _ _ h => h) apart_samplePair
  have hstart : sampleStart.result samplePair.keeper = .ok none := by decide +kernel
  have hedit : sampleEdit.result samplePair.keeper = .ok (some true) := by decide +kernel
  exact ⟨apart_samplePair, hdrafts, hdisk, by decide +kernel, by decide +kernel, ha.trans hstart,
    hb.trans hedit⟩

end Session

namespace Path

theorem named_singleton {a p q : String} (ha : normalize a = .ok p) : Named [a] q ↔ q = p := by
  constructor
  · rintro ⟨b, hb, hq⟩
    rw [List.mem_singleton.1 hb, ha] at hq
    exact (Except.ok.inj hq).symm
  · rintro rfl
    exact ⟨a, List.mem_singleton_self a, ha⟩

end Path

namespace Options

theorem filePlace_ne {o : Options} {p q : String} (hp : Path.normalize p = .ok p)
    (hq : Path.normalize q = .ok q) (hne : p.length ≠ q.length) : o.filePlace p ≠ o.filePlace q := by
  intro h
  obtain ⟨-, hflat⟩ := List.append_inj' h rfl
  have hlength := congrArg String.length (List.singleton_inj.1 hflat)
  have hp := Path.length_flatten hp
  have hq := Path.length_flatten hq
  omega

end Options

namespace Event

theorem not_mem_locks_of_single {e : Event} {x p q : String} (he : e.paths = [x]) (hx : Path.normalize x = .ok p)
    (hq : q ≠ p) : q ∉ e.locks := by
  intro hlocks
  have hnamed := named_of_mem_locks hlocks
  rw [he] at hnamed
  exact hq ((Path.named_singleton hx).1 hnamed)

theorem Far.of_single {k : Keeper} {a b : Event} {x y p q : String} (ha : a.paths = [x]) (hb : b.paths = [y])
    (hx : Path.normalize x = .ok p) (hy : Path.normalize y = .ok q) (hne : p.length ≠ q.length)
    (hclear : k.options.Clear p ∧ k.options.Clear q)
    (hopens : k.workspace.Opens k.options p ∧ k.workspace.Opens k.options q) : Far k a b := by
  have hname {r : String} (hr : Path.Named (a.paths ++ b.paths) r) : r = p ∨ r = q := by
    rwa [named_append, ha, hb, Path.named_singleton hx, Path.named_singleton hy] at hr
  refine ⟨fun r hr s hs => ?_, fun r hr => ?_, fun r hr => ?_⟩
  · rw [ha, Path.named_singleton hx] at hr
    rw [hb, Path.named_singleton hy] at hs
    rw [hr, hs]
    exact Options.filePlace_ne (Path.normalize_of_normalize hx) (Path.normalize_of_normalize hy) hne
  · rcases hname hr with rfl | rfl
    · exact hclear.1
    · exact hclear.2
  · rcases hname hr with rfl | rfl
    · exact hopens.1
    · exact hopens.2

end Event

def longName : String := String.ofList (List.replicate 256 'x')

theorem length_longName : longName.length = 256 := String.length_ofList.trans List.length_replicate

theorem isTooLong_longName : Disk.isTooLong longName = true := by
  have hsize := length_le_utf8ByteSize longName
  rw [length_longName] at hsize
  exact decide_eq_true hsize

theorem longName_ne {c : String} (hc : c.length < 256) : longName ≠ c := by
  rintro rfl
  rw [length_longName] at hc
  omega

theorem isName_longName : Path.IsName longName := Path.isName_replicate (by decide)

def longPath (front : List String) : String := Path.ofComponents (front ++ [longName])

section LongPath

variable {front : List String}

theorem length_longPath (front : List String) :
    (longPath front).length = (Path.ofComponents front).length + 257 := by
  rw [longPath, Path.ofComponents_append, String.length_append, Path.length_ofComponents_cons, length_longName]
  rfl

theorem isName_of_longPath (h : ∀ c ∈ front, Path.IsName c) : ∀ c ∈ front ++ [longName], Path.IsName c := by
  intro c hc
  rcases List.mem_append.1 hc with hc | hc
  · exact h c hc
  · obtain rfl := List.mem_singleton.1 hc
    exact isName_longName

theorem components_longPath (h : ∀ c ∈ front, Path.IsName c) :
    Path.components (longPath front) = front ++ [longName] :=
  Path.components_of_names (isName_of_longPath h)

theorem normalize_longPath (h : ∀ c ∈ front, Path.IsName c) (hl : (Path.ofComponents front).length ≤ 255) :
    Path.normalize (longPath front) = .ok (longPath front) := by
  refine Path.normalize_of_names (by simp) (isName_of_longPath h) ?_
  rw [← longPath, length_longPath]
  exact Nat.add_le_add_right hl 257

end LongPath

namespace Session

open Keeper Event

/-- What is done to the disk from outside leaves a tree, and all that is in the draft folders. -/
def LeavesFolders (s : Session) : Action → Prop
  | .outside disk => disk.IsTree ∧ ∀ c x, c :: Path.components s.keeper.options.folder <+: x →
      disk.get? x = s.keeper.workspace.disk.get? x
  | _ => True

theorem keeper_after_track (s : Session) (endpoint : String) (signal : Tracking) :
    (s.after (.operation (.track endpoint signal))).keeper =
      (Event.tracking endpoint signal).handle s.keeper := rfl

section Hidden

/-- A name that is too long lies beside the way to a draft folder that is still missing. -/
def sampleNested : Session := .new ⟨".d/f", .char, 4⟩ .sample 4 ⟨0, 0, 0⟩

def hiddenPath : String := longPath ["p", ".d"]

def startHidden : Event := .tracking "e" (.start hiddenPath)

def startOther : Event := .tracking "e" (.start "/p/a")

theorem isName_of_hidden : ∀ c ∈ ["p", ".d"], Path.IsName c := by decide

theorem normalize_hiddenPath : Path.normalize hiddenPath = .ok hiddenPath :=
  normalize_longPath isName_of_hidden (by decide)

theorem components_hiddenPath : Path.components hiddenPath = ["p", ".d", longName] :=
  components_longPath isName_of_hidden

theorem runs_of_sampleNested :
    sampleNested.keeper.workspace.Opens sampleNested.keeper.options "/p/a" ∧
      (startOther.handle sampleNested.keeper).workspace.disk.locate ["p", ".d", longName] =
        .error .nameTooLong := by
  decide +kernel

theorem far_hidden : Far sampleNested.keeper startHidden startOther := by
  have hproject := Path.project?_of_components normalize_hiddenPath components_hiddenPath
  have hbase : Path.basePlace hiddenPath = ["p"] := by
    rw [Path.basePlace, hproject]
    decide
  have hother : Path.normalize "/p/a" = .ok "/p/a" := by decide
  have hopens := runs_of_sampleNested.1
  refine .of_single rfl rfl normalize_hiddenPath hother ?_ ⟨?_, by decide⟩ ⟨?_, hopens⟩
  · rw [hiddenPath, length_longPath]
    decide
  · have hfolder : Path.components sampleNested.keeper.options.folder = [".d", "f"] := by decide
    have hne : "f" ≠ longName := (longName_ne (by decide)).symm
    rw [Options.Clear, Options.folderPlace, hbase, components_hiddenPath, hfolder]
    simp [hne, hne.symm]
  · rw [Workspace.Opens, hbase, hproject]
    intro hfolder
    exact hopens hfolder

theorem result_startHidden : startHidden.result sampleNested.keeper = .error (.missing hiddenPath) ∧
    startHidden.result (startOther.handle sampleNested.keeper) =
      .error (.storage (.item (Workspace.system hiddenPath .nameTooLong))) := by
  constructor
  · rw [startHidden, Event.result, track, start_of_fault (f := .missing) normalize_hiddenPath rfl]
    · rfl
    · rw [components_hiddenPath]
      decide
  · have hfree : hiddenPath ∉ startOther.locks := by decide
    rw [startHidden, Event.result, track,
      start_of_fault (f := .nameTooLong) normalize_hiddenPath (get?_handle hfree _)]
    · rfl
    · rw [components_hiddenPath, runs_of_sampleNested.2]

end Hidden

section Stray

def strayPath : String := longPath ["q"]

theorem isName_of_stray : ∀ c ∈ ["q"], Path.IsName c := by decide

theorem length_strayPath : strayPath.length = 259 := length_longPath ["q"]

theorem strayPath_ne {p : String} (hp : p.length < 259) : strayPath ≠ p := by
  rintro rfl
  rw [length_strayPath] at hp
  omega

theorem normalize_strayPath : Path.normalize strayPath = .ok strayPath :=
  normalize_longPath isName_of_stray (by decide)

theorem components_strayPath : Path.components strayPath = ["q", longName] :=
  components_longPath isName_of_stray

theorem project?_strayPath : Path.project? strayPath = some "/q" :=
  Path.project?_of_components normalize_strayPath components_strayPath

theorem basePlace_strayPath : Path.basePlace strayPath = ["q"] := by
  rw [Path.basePlace, project?_strayPath]
  decide

def sampleStarted : Session := sample.after (.operation (.track "e" (.start "/p/a")))

/-- A file is moved to a project that has no base, and so to no draft file. -/
def sampleStray : Session := sampleStarted.after (.operation (.track "e" (.move "/p/a" strayPath)))

def strayDisk : Disk := ⟨[([], .folder 0o755), (["p"], .folder 0o755), (["p", "a"], .file 0o644 [104, 105]),
  (["p", ".d"], .folder 0o700)]⟩

def strayBaseDisk : Disk := (strayDisk.put ["q"] (.folder 0o755)).put ["q", "b"] (.file 0o644 [104])

def startBeside : Event := .tracking "e" (.start "/q/b")

theorem runs_of_sampleStarted :
    sampleStarted.keeper.drafts.get? "/p/a" = some (.new "p.a" "/p" [104, 105]) ∧
      left (DraftFolder.drop sampleStarted.keeper.options.folder "/p" "p.a") sampleStarted.keeper.workspace =
        ⟨"/w", strayDisk⟩ ∧
      (startBeside.handle (.new .sample ⟨"/w", strayBaseDisk⟩ 4 ⟨0, 0, 0⟩)).workspace.disk.get? ["q", ".d"] =
        some (.folder 0o700) := by
  decide +kernel

theorem keeper_sampleStray : sampleStray.keeper.workspace = ⟨"/w", strayDisk⟩ ∧
    (∃ d, sampleStray.keeper.drafts.get? strayPath = some d) ∧
    sampleStray.keeper.drafts.get? "/q/b" = none := by
  have hsource : Path.normalize "/p/a" = .ok "/p/a" := by decide
  have hnew {p : String} (hp : p ≠ "/p/a") : sampleStarted.keeper.drafts.get? p = none :=
    get?_handle (e := .tracking "e" (.start "/p/a")) (not_mem_locks_of_single rfl hsource hp) sample.keeper
  obtain ⟨draft, hd, hdrop⟩ : ∃ draft, sampleStarted.keeper.drafts.get? "/p/a" = some draft ∧
      left (DraftFolder.drop sampleStarted.keeper.options.folder draft.project draft.flat)
        sampleStarted.keeper.workspace = ⟨"/w", strayDisk⟩ :=
    ⟨_, runs_of_sampleStarted.1, runs_of_sampleStarted.2.1⟩
  have hbase : (left (DraftFolder.drop sampleStarted.keeper.options.folder draft.project draft.flat)
      sampleStarted.keeper.workspace).disk.isFolder
        (Path.components (draft.movedTo strayPath).project) = false := by
    rw [hdrop, (Draft.IsFor.movedTo draft normalize_strayPath).project, project?_strayPath]
    decide
  obtain ⟨f, hmove⟩ := move_of_no_base hsource normalize_strayPath (strayPath_ne (by decide)).symm hd
    (hnew (strayPath_ne (by decide))) hbase
  rw [hdrop] at hmove
  have hkeeper : sampleStray.keeper = ((sampleStarted.keeper.rekeyed "/p/a" strayPath draft).withWorkspace
      ⟨"/w", strayDisk⟩).report "e" f := by
    rw [sampleStray, keeper_after_track, Event.handle, Keeper.track, Keeper.attempt, hmove]
  have hdrafts : sampleStray.keeper.drafts =
      (sampleStarted.keeper.drafts.erase "/p/a").put strayPath (draft.movedTo strayPath) := by
    rw [hkeeper]
    rfl
  refine ⟨?_, ⟨draft.movedTo strayPath, ?_⟩, ?_⟩
  · rw [hkeeper]
    rfl
  · rw [hdrafts, Drafts.get?_put, if_pos rfl]
  · rw [hdrafts, Drafts.get?_put, if_neg (strayPath_ne (by decide)), Drafts.get?_erase, hnew (by decide)]
    split <;> rfl

def sampleStrayBase : Session := sampleStray.after (.outside strayBaseDisk)

def stopStray : Event := .tracking "e" (.stop strayPath)

theorem reached_sampleStrayBase : Reached LeavesFolders sample sampleStrayBase := by
  refine .step (.step (.step .start trivial) trivial) ⟨by decide, fun c x hx => ?_⟩
  obtain ⟨below, rfl⟩ := hx
  have hname : Path.components sampleStray.keeper.options.folder = [".d"] := by
    have hr : Reached LeavesFolders sample sampleStray := .step (.step .start trivial) trivial
    rw [hr.options]
    decide
  change _ = sampleStray.keeper.workspace.disk.get? _
  rw [keeper_sampleStray.1, hname, strayBaseDisk, Disk.get?_put, Disk.get?_put, if_neg, if_neg]
  · simp
  · simp

theorem workspace_sampleStrayBase : sampleStrayBase.keeper.workspace = ⟨"/w", strayBaseDisk⟩ := by
  have hafter (s : Session) (disk : Disk) : (s.after (.outside disk)).keeper.workspace =
      { s.keeper.workspace with disk } := rfl
  rw [sampleStrayBase, hafter, keeper_sampleStray.1]

theorem far_stray : Far sampleStrayBase.keeper stopStray startBeside := by
  have hother : Path.normalize "/q/b" = .ok "/q/b" := by decide
  have hopens : Workspace.Opens .sample "/q/b" ⟨"/w", strayBaseDisk⟩ := by decide
  refine .of_single rfl rfl normalize_strayPath hother ?_ ?_ ?_
  · rw [length_strayPath]
    decide
  · rw [reached_sampleStrayBase.options]
    refine ⟨?_, by decide⟩
    have hfolder : Path.components Options.sample.folder = [".d"] := by decide
    have hne : ".d" ≠ longName := (longName_ne (by decide)).symm
    rw [Options.Clear, Options.folderPlace, basePlace_strayPath, components_strayPath, hfolder]
    simp [hne, hne.symm]
  · rw [reached_sampleStrayBase.options, workspace_sampleStrayBase]
    refine ⟨?_, hopens⟩
    rw [Workspace.Opens, basePlace_strayPath, project?_strayPath]
    intro hfolder
    exact hopens hfolder

theorem namesFit_stray {p : String} (hp : Path.Named (stopStray.paths ++ startBeside.paths) p) :
    sampleStrayBase.keeper.workspace.NamesFit sampleStrayBase.keeper.options p := by
  rcases named_append.1 hp with hp | hp
  · obtain rfl := (Path.named_singleton normalize_strayPath).1 hp
    intro _ x name hx _ hno
    rw [workspace_sampleStrayBase] at hno
    rw [components_strayPath] at hx
    -- the name lies in the root or in the base of the project, and both are there
    obtain ⟨below, hbelow⟩ := hx
    rcases x with _ | ⟨c, _ | ⟨c', x⟩⟩
    · cases hno
    · obtain rfl := (List.cons.inj hbelow).1
      cases hno
    · have hlength := congrArg List.length hbelow
      simp at hlength
  · exact .of_short ((by decide : ∀ p, Path.Named startBeside.paths p →
      ∀ name ∈ Path.components p, Disk.isTooLong name = false) p hp)

theorem after_startBeside : startBeside.handle sampleStrayBase.keeper =
    (sampleStrayBase.after (.operation (.track "e" (.start "/q/b")))).keeper := by
  rw [keeper_after_track, startBeside]

theorem disk_after_startBeside (x : Place) :
    (startBeside.handle sampleStrayBase.keeper).workspace.disk.get? x =
      (startBeside.handle (.new .sample ⟨"/w", strayBaseDisk⟩ 4 ⟨0, 0, 0⟩)).workspace.disk.get? x := by
  have hp : Path.normalize "/q/b" = .ok "/q/b" := by decide
  have hnone : sampleStrayBase.keeper.drafts.get? "/q/b" = none := by
    rw [sampleStrayBase, drafts_after_outside, keeper_sampleStray.2.2]
  have halong : Alongside (Workspace.AgreeOff fun _ => False) (· = "/q/b")
      (.new .sample ⟨"/w", strayBaseDisk⟩ 4 ⟨0, 0, 0⟩) sampleStrayBase.keeper := by
    refine ⟨reached_sampleStrayBase.options, ?_, fun p hp => ?_⟩
    · rw [workspace_sampleStrayBase]
      exact ⟨rfl, fun _ _ => rfl⟩
    · rw [hp, hnone]
      rfl
  have hend := handle_alike (e := startBeside) halong (Keeper.filed_new _ _ _ _) fun p hnamed => by
    obtain rfl := (Path.named_singleton hp).1 hnamed
    exact ⟨rfl, pathAlike_agreeOff hp (fun _ _ => id) (fun _ _ => id) halong.workspace⟩
  exact hend.2.workspace.2 x id

theorem tree_of_leavesFolders {s : Session} (hr : Reached LeavesFolders sample s) :
    s.keeper.workspace.disk.IsTree := by
  refine hr.tree (by decide) fun s a h => ?_
  cases a with
  | outside disk => exact h.1
  | _ => trivial

theorem read_strayPath {w : Workspace} (ht : w.disk.IsTree) (hbase : w.disk.isFolder ["q"] = true) :
    ∀ content, w.read strayPath ≠ .ok content :=
  read_of_tooLong normalize_strayPath ht components_strayPath hbase isTooLong_longName

theorem draft_sampleStrayBase : ∃ d, sampleStrayBase.keeper.drafts.get? strayPath = some d := by
  rw [sampleStrayBase, drafts_after_outside]
  exact keeper_sampleStray.2.1

theorem result_stopStray : stopStray.result sampleStrayBase.keeper = .ok none := by
  obtain ⟨draft, hd⟩ := draft_sampleStrayBase
  have hr := reached_sampleStrayBase
  have hbase : sampleStrayBase.keeper.workspace.disk.isFolder ["q"] = true := by
    rw [workspace_sampleStrayBase]
    rfl
  have hstop := stop_of_unread normalize_strayPath hd (read_strayPath (tree_of_leavesFolders hr) hbase)
  have hproject : Workspace.projectBase? ⟨"/w", strayBaseDisk⟩ "/q" = .ok (some "/q") := by decide
  have hfind : DraftFolder.find? ".d" "/q" ⟨"/w", strayBaseDisk⟩ = .ok none ⟨"/w", strayBaseDisk⟩ :=
    DraftFolder.find?_of_missing hproject (by decide)
  have hdrop : DraftFolder.drop sampleStrayBase.keeper.options.folder draft.project draft.flat
      sampleStrayBase.keeper.workspace = .ok () ⟨"/w", strayBaseDisk⟩ := by
    rw [hr.options, workspace_sampleStrayBase, (hr.filed _ _ hd).project, project?_strayPath]
    exact bind_of_ok _ hfind
  have hdiscard := (discard_eq draft.project draft.flat sampleStrayBase.keeper).trans
    (storing_eq_ok.2 ⟨_, hdrop, rfl⟩)
  rw [stopStray, Event.result, track, hstop, bind_of_ok _ hdiscard]
  rfl

theorem result_stopStray_after :
    ∃ f, stopStray.result (startBeside.handle sampleStrayBase.keeper) = .error f := by
  obtain ⟨draft, hd⟩ := draft_sampleStrayBase
  have hr := reached_sampleStrayBase.step (a := .operation (.track "e" (.start "/q/b"))) trivial
  have ht := tree_of_leavesFolders hr
  have hoptions := hr.options
  rw [← after_startBeside] at ht hoptions
  have hp : Path.normalize "/q/b" = .ok "/q/b" := by decide
  have hfree : strayPath ∉ startBeside.locks := not_mem_locks_of_single rfl hp (strayPath_ne (by decide))
  have hd' := (get?_handle hfree sampleStrayBase.keeper).trans hd
  have hfolder : (startBeside.handle sampleStrayBase.keeper).workspace.disk.isFolder ["q", ".d"] = true := by
    refine Disk.isFolder_iff.2 ⟨0o700, ?_⟩
    rw [disk_after_startBeside, runs_of_sampleStarted.2.2]
  have hbase : (startBeside.handle sampleStrayBase.keeper).workspace.disk.isFolder ["q"] = true :=
    ht.isFolder_prefix [".d"] hfolder
  have hstop := stop_of_unread normalize_strayPath hd' (read_strayPath ht hbase)
  have hpath : DraftFolder.path? (startBeside.handle sampleStrayBase.keeper).options.folder
      ((Path.project? strayPath).getD "/") = some "/q/.d" := by
    rw [hoptions, project?_strayPath]
    decide
  have hplace : (startBeside.handle sampleStrayBase.keeper).options.folderPlace strayPath = ["q", ".d"] := by
    rw [hoptions, Options.folderPlace, basePlace_strayPath]
    decide
  rw [← hplace] at hfolder
  obtain ⟨f, k, hdiscard⟩ := discard_of_tooLong (reached_sampleStrayBase.filed _ _ hd) ht hpath hfolder
    (Path.isTooLong_flatten normalize_strayPath (by rw [length_strayPath]; decide))
  refine ⟨f, ?_⟩
  rw [stopStray, Event.result, track, hstop, bind_eq_error.2 (.inl hdiscard)]

end Stray

/-- Neither of the conditions on long names can be left out: events that are far from each other may come to
something else when the other one is handled first, be it that a name is too long below the missing folders or
that the name of a draft file is. -/
theorem order_matters_for_long_names :
    (Far sampleNested.keeper startHidden startOther ∧
      (∀ p d, sampleNested.keeper.drafts.get? p = some d →
        sampleNested.keeper.workspace.FileFits sampleNested.keeper.options p) ∧
      startHidden.result (startOther.handle sampleNested.keeper) ≠ startHidden.result sampleNested.keeper) ∧
    Reached LeavesFolders sample sampleStrayBase ∧ Far sampleStrayBase.keeper stopStray startBeside ∧
      (∀ p, Path.Named (stopStray.paths ++ startBeside.paths) p →
        sampleStrayBase.keeper.workspace.NamesFit sampleStrayBase.keeper.options p) ∧
      stopStray.result (startBeside.handle sampleStrayBase.keeper) ≠ stopStray.result sampleStrayBase.keeper := by
  refine ⟨⟨far_hidden, fun p d hd => ?_, ?_⟩, reached_sampleStrayBase, far_stray,
    fun p hp => namesFit_stray hp, ?_⟩
  · cases hd
  · rw [result_startHidden.1, result_startHidden.2]
    nofun
  · obtain ⟨f, hf⟩ := result_stopStray_after
    rw [result_stopStray, hf]
    nofun

end Session

end DraftKeeper
