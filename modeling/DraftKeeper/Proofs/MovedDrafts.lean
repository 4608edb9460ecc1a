import DraftKeeper.Proofs.DraftFiles

namespace DraftKeeper

namespace Keeper

variable {k k' : Keeper} {old new source target : String} {d : Draft} {u : Unit}

theorem move_eq_ok_of_some (hs : Path.normalize old = .ok source) (ht : Path.normalize new = .ok target)
    (hne : source ≠ target) (hd : k.drafts.get? source = some d) (h : move old new k = .ok u k') :
    ∃ k₁ k₂ location, discard d.project d.flat (k.rekeyed source target d) = .ok () k₁ ∧
      write (d.movedTo target) k₁ = .ok location k₂ ∧
      k'.drafts = (k.drafts.erase source).put target (d.movedTo target).clean ∧
      k'.workspace = k₂.workspace := by
  cases hfree : k.drafts.get? target with
  | some there => cases h.symm.trans (move_of_conflict hs ht hne hd hfree)
  | none =>
      rw [move_of_some hs ht hne hd hfree] at h
      obtain ⟨k₁, location, hdiscard, hsave⟩ := relocated_eq_ok h
      obtain ⟨k₂, hwrite, rfl⟩ := save_eq_ok hsave
      refine ⟨k₁, k₂, location, hdiscard, hwrite, ?_, rfl⟩
      obtain ⟨w₁, rfl, -⟩ := discard_eq_ok hdiscard
      obtain ⟨w₂, l, path, rfl, -⟩ := write_eq_ok hwrite
      exact Drafts.put_put ..

theorem filesKept_of_move (hk : k.Filed) (hs : Path.normalize old = .ok source)
    (ht : Path.normalize new = .ok target) (h : move old new k = .ok u k') :
    k.workspace.FilesKept (fun x => x = k.options.filePlace source ∨ x = k.options.filePlace target)
      k'.workspace := by
  have hframed := framed_move (k := k) (frame k.options (Path.Named [old, new])) hk fun _ => id
  rw [left_of_ok h] at hframed
  refine (Workspace.Within.mono (hframed rfl).2 ?_ fun _ hx => hx).filesKept
  rintro x ⟨q, ⟨a, ha, hq⟩, rfl⟩
  rcases List.mem_cons.1 ha with rfl | ha
  · exact .inl (by rw [Except.ok.inj (hs.symm.trans hq)])
  · rw [List.mem_singleton.1 ha] at hq
    exact .inr (by rw [Except.ok.inj (ht.symm.trans hq)])

end Keeper

namespace Session

open Keeper (move)

variable {s : Session} {o : Options} {w : Workspace} {capacity : Nat} {clock : Time.Instant} {k : Keeper}
  {old new source target : String} {d : Draft}

/-- In every session a move that succeeds takes a draft from a path to another one. It is clean there and has
the content it had; its draft file holds this content for its owner alone, and no draft file is left at the
place of the old path, unless that is the same place. No other draft and no other file changes. -/
theorem move_carries_draft (ht : w.disk.IsTree)
    (h : Reached (fun _ a => a.LeavesTree) (.new o w capacity clock) s)
    (hsource : Path.normalize old = .ok source) (htarget : Path.normalize new = .ok target)
    (hne : source ≠ target) (hd : s.keeper.drafts.get? source = some d)
    (hmove : move old new s.keeper = .ok () k) :
    (k.drafts.get? source = none ∧
      (∃ d', k.drafts.get? target = some d' ∧ d'.IsFor target ∧ d'.content = d.content ∧ d'.dirty = false) ∧
      ∀ q, q ≠ source → q ≠ target → k.drafts.get? q = s.keeper.drafts.get? q) ∧
    k.workspace.disk.get? (o.filePlace target) = some (.file 0o600 d.content) ∧
    (o.filePlace source ≠ o.filePlace target → k.workspace.disk.content? (o.filePlace source) = none) ∧
    s.keeper.workspace.FilesKept (fun x => x = o.filePlace source ∨ x = o.filePlace target) k.workspace := by
  have hfiled := h.filed
  have htree := h.tree ht fun _ _ ha => ha
  have hkept := Keeper.filesKept_of_move hfiled hsource htarget hmove
  obtain ⟨k₁, k₂, location, hdiscard, hwrite, hdrafts, hworkspace⟩ :=
    Keeper.move_eq_ok_of_some hsource htarget hne hd hmove
  have hfor : (d.movedTo target).IsFor target := .movedTo d (Path.normalize_of_normalize htarget)
  have hgone : k₁.workspace.disk.content? (s.keeper.options.filePlace source) = none :=
    Keeper.content?_of_discard (k := s.keeper.rekeyed source target d) htree (hfiled source d hd) hdiscard
  have hoptions : k₁.options = s.keeper.options := by
    obtain ⟨w₁, rfl, -⟩ := Keeper.discard_eq_ok hdiscard
    rfl
  have hthere := Keeper.get?_of_write hfor hwrite
  have hothers := Keeper.filesKept_of_write hfor hwrite
  rw [hoptions, h.options] at hthere hothers
  rw [h.options] at hgone hkept
  refine ⟨⟨?_, ⟨(d.movedTo target).clean, ?_, hfor.clean, rfl, rfl⟩, fun q hqs hqt => ?_⟩, ?_,
    fun hplaces => ?_, hkept⟩
  · rw [hdrafts, Drafts.get?_put_of_ne hne, Drafts.get?_erase_self]
  · rw [hdrafts, Drafts.get?_put_self]
  · rw [hdrafts, Drafts.get?_put_of_ne hqt, Drafts.get?_erase_of_ne hqs]
  · rw [hworkspace]
    exact hthere
  · rw [hworkspace, hothers.content? hplaces, hgone]

theorem move_to_same_place_keeps_draft :
    let s := (Session.new .sample ⟨"/w", ⟨[([], .folder 0o755), (["p"], .folder 0o755),
      (["p", "a.b"], .file 0o644 [104, 105]), (["p", ".d"], .folder 0o700)]⟩⟩ 4 ⟨0, 0, 0⟩).after
        (.operation (.edit "e" ⟨"/p/a.b", .insert 2 "!"⟩))
    ∃ k d, move "/p/a.b" "/p/a/b" s.keeper = .ok () k ∧
      Options.sample.filePlace "/p/a.b" = Options.sample.filePlace "/p/a/b" ∧
      k.drafts.get? "/p/a.b" = none ∧ k.drafts.get? "/p/a/b" = some d ∧ d.text = "hi!" ∧
      k.workspace.disk.get? ["p", ".d", "p.a.b"] = some (.file 0o600 [104, 105, 33]) := by
  intro s
  have hr : Reached (fun _ a => a.LeavesTree) _ s := .step .start trivial
  have hsource : Path.normalize "/p/a.b" = .ok "/p/a.b" := Path.normalize_eq_ok_iff.2 (by decide)
  have htarget : Path.normalize "/p/a/b" = .ok "/p/a/b" := Path.normalize_eq_ok_iff.2 (by decide)
  have hplace : Options.sample.filePlace "/p/a.b" = ["p", ".d", "p.a.b"] := by decide
  have hplace' : Options.sample.filePlace "/p/a/b" = ["p", ".d", "p.a.b"] := by decide
  obtain ⟨hd, hok⟩ : s.keeper.drafts.get? "/p/a.b" = some ⟨"p.a.b", "/p", [104, 105, 33], true⟩ ∧
      Keeper.failure? (move "/p/a.b" "/p/a/b") s.keeper = none := by decide
  obtain ⟨u, hmove⟩ := Keeper.eq_ok_of_failure? _ s.keeper hok
  obtain ⟨⟨hgone, ⟨d, hthere, -, hcontent, -⟩, -⟩, hfile, -⟩ :=
    move_carries_draft (by decide) hr hsource htarget (by decide) hd hmove
  rw [hplace'] at hfile
  refine ⟨_, d, hmove, by rw [hplace, hplace'], hgone, hthere, ?_, hfile⟩
  rw [Draft.text, hcontent]
  decide

end Session

end DraftKeeper
