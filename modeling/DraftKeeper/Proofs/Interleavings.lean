import DraftKeeper.Proofs.Turns
import Mathlib.Logic.Relation

namespace DraftKeeper

/-- The calls on one path and what they share. The calls that have not had the guard yet wait in order; those
that have had it stand in the order in which they got it. -/
structure Scene where
  keeper : Keeper
  locks : LockTable
  live : List (String × Guard)
  arrived : List (Call × Guard)
  waiting : List (Call × Guard)
  turns : List Turn
  alone : Bool

def Keeper.updatesOf (k : Keeper) (p : String) : List (String × Edit) :=
  (k.updates.filter fun u => (Path.normalize u.edit.location).toOption = some p).map
    fun u => (u.endpoint, u.edit)

namespace Scene

def start (k : Keeper) (locks : LockTable) (live : List (String × Guard)) : Scene :=
  ⟨k, locks, live, [], [], [], true⟩

/-- One step of one call on the path, or of other work. Other work asks for and gives back guards of other
paths, and it leaves the draft and the updates of this path. It may do anything to the disk, but we are no
longer alone if it changes the draft file. -/
inductive Step (p : String) (s : Scene) : Scene → Prop
  | enter (c : Call) (on : c.On p) : Step p s { s with
      locks := (s.locks.request p).2
      live := s.live ++ [(p, (s.locks.request p).1)]
      arrived := s.arrived ++ [(c, (s.locks.request p).1)]
      waiting := s.waiting ++ [(c, (s.locks.request p).1)] }
  | take (before after : List (Call × Guard)) (c : Call) (g : Guard)
      (waiting : s.waiting = before ++ (c, g) :: after) (holds : s.locks.holds g = true) :
      Step p s { s with waiting := before ++ after, turns := s.turns ++ [⟨c, g, .holding⟩] }
  | act (before after : List Turn) (t : Turn) (turns : s.turns = before ++ t :: after)
      (under : t.isOver = false) : Step p s { s with
        keeper := (t.call.act p t.phase s.keeper).2
        turns := before ++ { t with phase := (t.call.act p t.phase s.keeper).1 } :: after }
  | giveBack (before after : List Turn) (c : Call) (g : Guard) (a : Answer)
      (turns : s.turns = before ++ ⟨c, g, .ended a⟩ :: after) : Step p s { s with
        locks := s.locks.release g
        live := s.live.filter (· ≠ (p, g))
        turns := before ++ ⟨c, g, .finished a⟩ :: after }
  | request (q : String) (other : q ≠ p) : Step p s { s with
      locks := (s.locks.request q).2
      live := s.live ++ [(q, (s.locks.request q).1)] }
  | release (e : String × Guard) (there : e ∈ s.live) (other : e.1 ≠ p) : Step p s { s with
      locks := s.locks.release e.2
      live := s.live.filter (· ≠ e) }
  | elsewhere (k : Keeper) (alone : Bool) (options : k.options = s.keeper.options)
      (draft : k.drafts.get? p = s.keeper.drafts.get? p) (updates : k.updatesOf p = s.keeper.updatesOf p)
      (file : alone = true → s.alone = true ∧ ∀ l, s.keeper.options.draftPlace? p = some l →
        k.workspace.disk.content? l = s.keeper.workspace.disk.content? l) :
      Step p s { s with keeper := k, alone := alone }

abbrev Steps (p : String) : Scene → Scene → Prop := Relation.ReflTransGen (Step p)

section Guards

/-- The guards of the turns that are not over and of the calls that wait, in this order. -/
def claims (s : Scene) : List Guard :=
  (s.turns.filter fun t => !t.isOver).map Turn.guard ++ s.waiting.map Prod.snd

/-- The guards of the path that are out are those of the calls that need them, in the order of the calls; and
only the last turn may not be over. -/
structure Guarded (p : String) (s : Scene) : Prop where
  table : LockTable.Reached s.locks s.live
  out : (s.live.filter fun e => e.1 = p).map Prod.snd = s.claims
  holder : ∀ t ∈ s.turns, t.isOver = false → s.locks.holds t.guard = true
  last : ∀ t ∈ s.turns.dropLast, t.isOver = true
  arrived : s.turns.map (fun t => (t.call, t.guard)) ++ s.waiting = s.arrived
  named : ∀ e ∈ s.arrived, e.1.On p

variable {p : String} {s s' : Scene} {t t' : Turn} {g : Guard} {before after : List Turn}

namespace Guarded

theorem mem_live_iff (h : Guarded p s) : (p, g) ∈ s.live ↔ g ∈ s.claims := by
  rw [← h.out, List.mem_map]
  constructor
  · exact fun hg => ⟨(p, g), List.mem_filter.2 ⟨hg, by simp⟩, rfl⟩
  · rintro ⟨e, he, rfl⟩
    obtain ⟨hlive, hp⟩ := List.mem_filter.1 he
    obtain rfl : e.1 = p := by simpa using hp
    exact hlive

theorem nodup_tickets (h : Guarded p s) : (s.claims.map Guard.ticket).Nodup := by
  rw [← h.out, List.map_map]
  exact h.table.faithful.distinct.sublist (List.filter_sublist.map _)

theorem nodup (h : Guarded p s) : s.claims.Nodup := h.nodup_tickets.of_map

theorem head_of_holds (h : Guarded p s) (hg : g ∈ s.claims) (hh : s.locks.holds g = true) :
    ∃ rest, s.claims = g :: rest := by
  rw [LockTable.holds, decide_eq_true_eq, h.table.faithful.queue_eq (h.mem_live_iff.2 hg), h.out,
    List.head?_map, Option.map_eq_some_iff] at hh
  obtain ⟨g', hg', hticket⟩ := hh
  obtain ⟨rest, hrest⟩ := List.head?_eq_some_iff.1 hg'
  have hmem : g' ∈ s.claims := by simp [hrest]
  exact ⟨rest, by rw [hrest, List.inj_on_of_nodup_map h.nodup_tickets hmem hg hticket]⟩

theorem mem_claims (ht : t ∈ s.turns) (hunder : t.isOver = false) : t.guard ∈ s.claims :=
  List.mem_append_left _ (List.mem_map_of_mem (List.mem_filter.2 ⟨ht, by simp [hunder]⟩))

theorem at_end (h : Guarded p s) (ht : s.turns = before ++ t :: after) (hunder : t.isOver = false) :
    after = [] ∧ ∀ b ∈ before, b.isOver = true := by
  have hlast := h.last
  rw [ht] at hlast
  cases after with
  | nil =>
      rw [List.dropLast_concat] at hlast
      exact ⟨rfl, hlast⟩
  | cons a after =>
      rw [List.dropLast_append_of_ne_nil (by simp), List.dropLast_cons_of_ne_nil (by simp)] at hlast
      rw [hlast t (by simp)] at hunder
      cases hunder

theorem filter_over (h : ∀ b ∈ before, b.isOver = true) :
    (before.filter fun b => !b.isOver) = [] :=
  List.filter_eq_nil_iff.2 fun b hb => by simp [h b hb]

theorem free_of_holds (h : Guarded p s) {ahead behind : List (Call × Guard)} {c : Call}
    (hw : s.waiting = ahead ++ (c, g) :: behind) (hh : s.locks.holds g = true) :
    ahead = [] ∧ ∀ t ∈ s.turns, t.isOver = true := by
  have hnodup := h.nodup
  have hg : g ∈ s.waiting.map Prod.snd := by simp [hw]
  obtain ⟨rest, hrest⟩ := h.head_of_holds (List.mem_append_right _ hg) hh
  rw [claims] at hrest hnodup
  cases hturns : s.turns.filter fun t => !t.isOver with
  | cons t ts =>
      rw [hturns] at hrest hnodup
      obtain rfl : t.guard = g := (List.cons.inj hrest).1
      rw [List.map_cons, List.cons_append, List.nodup_cons] at hnodup
      exact absurd (List.mem_append_right _ hg) hnodup.1
  | nil =>
      refine ⟨?_, fun t ht => ?_⟩
      · rw [hturns, hw] at hrest hnodup
        cases ahead with
        | nil => rfl
        | cons b ahead =>
            obtain hb : b.2 = g := (List.cons.inj hrest).1
            rw [List.map_nil, List.nil_append, List.cons_append, List.map_cons, List.nodup_cons] at hnodup
            exact absurd (by simp [hb]) hnodup.1
      · simpa using List.filter_eq_nil_iff.1 hturns t ht

theorem start {k : Keeper} {l : LockTable} {live : List (String × Guard)} (hl : LockTable.Reached l live)
    (hfree : ∀ e ∈ live, e.1 ≠ p) : Guarded p (.start k l live) := by
  refine ⟨hl, ?_, fun t ht => absurd ht List.not_mem_nil, fun t ht => absurd ht List.not_mem_nil, rfl,
    fun e he => absurd he List.not_mem_nil⟩
  change (live.filter fun e => e.1 = p).map Prod.snd = []
  rw [List.filter_eq_nil_iff.2 fun e he => by simpa using hfree e he]
  rfl

theorem go_on (h : Guarded p s) (k : Keeper) (ht : s.turns = before ++ t :: after)
    (hunder : t.isOver = false) (hcall : t'.call = t.call) (hguard : t'.guard = t.guard)
    (hunder' : t'.isOver = false) :
    Guarded p { s with keeper := k, turns := before ++ t' :: after } := by
  obtain ⟨rfl, hbefore⟩ := h.at_end ht hunder
  have hout := h.out
  have harrived := h.arrived
  refine ⟨h.table, ?_, ?_, ?_, ?_, h.named⟩
  · rw [hout, claims, claims, ht]
    simp [hunder, hunder', hguard]
  · intro b hb hb'
    rcases List.mem_append.1 hb with hb | hb
    · rw [hbefore b hb] at hb'
      cases hb'
    · rw [List.mem_singleton.1 hb, hguard]
      exact h.holder t (by simp [ht]) hunder
  · rw [List.dropLast_concat]
    exact hbefore
  · rw [← harrived, ht]
    simp [hcall, hguard]

theorem out_without (h : Guarded p s) (g : Guard) :
    ((s.live.filter (· ≠ (p, g))).filter fun e => e.1 = p).map Prod.snd = s.claims.filter (· ≠ g) := by
  have hfilter : (s.live.filter (· ≠ (p, g))).filter (fun e => e.1 = p) =
      (s.live.filter fun e => e.1 = p).filter fun e => e.2 ≠ g := by
    rw [List.filter_filter, List.filter_filter]
    refine List.filter_congr fun e _ => ?_
    obtain ⟨q, g'⟩ := e
    by_cases hq : q = p <;> simp [hq]
  rw [hfilter, ← h.out, List.filter_map]
  rfl

theorem give_back (h : Guarded p s) (ht : s.turns = before ++ t :: after) (hunder : t.isOver = false)
    (hcall : t'.call = t.call) (hguard : t'.guard = t.guard) (hover : t'.isOver = true) :
    Guarded p { s with
      locks := s.locks.release t.guard
      live := s.live.filter (· ≠ (p, t.guard))
      turns := before ++ t' :: after } := by
  obtain ⟨rfl, hbefore⟩ := h.at_end ht hunder
  have hmem : t.guard ∈ s.claims := mem_claims (by simp [ht]) hunder
  have hclaims : s.claims = t.guard :: s.waiting.map Prod.snd := by
    rw [claims, ht, List.filter_append, filter_over hbefore]
    simp [hunder]
  have hother : t.guard ∉ s.waiting.map Prod.snd := by
    have hnodup := h.nodup
    rw [hclaims, List.nodup_cons] at hnodup
    exact hnodup.1
  refine ⟨h.table.release (h.mem_live_iff.2 hmem), ?_, ?_, ?_, ?_, h.named⟩
  · change ((s.live.filter (· ≠ (p, t.guard))).filter fun e => e.1 = p).map Prod.snd = _
    rw [h.out_without, hclaims, List.filter_cons_of_neg (by simp), List.filter_eq_self.2]
    · rw [claims, List.filter_append, filter_over hbefore]
      simp [hover]
    · intro g hg
      rw [decide_eq_true_iff]
      rintro rfl
      exact hother hg
  · intro b hb hb'
    rcases List.mem_append.1 hb with hb | hb
    · rw [hbefore b hb] at hb'
      cases hb'
    · rw [List.mem_singleton.1 hb, hover] at hb'
      cases hb'
  · rw [List.dropLast_concat]
    exact hbefore
  · rw [← h.arrived, ht]
    simp [hcall, hguard]

/-- No step of a call makes its turn over: the guard is still to be given back. -/
theorem isOver_act (c : Call) (phase : Phase) (k : Keeper) (h : phase.isOver = false) :
    (c.act p phase k).1.isOver = false := by
  cases phase with
  | finished a => cases h
  | holding | read d | written d location | stored | ended a =>
      cases c <;> simp only [Call.act] <;> (repeat' split) <;> rfl

theorem enter (h : Guarded p s) {c : Call} (on : c.On p) : Guarded p { s with
    locks := (s.locks.request p).2
    live := s.live ++ [(p, (s.locks.request p).1)]
    arrived := s.arrived ++ [(c, (s.locks.request p).1)]
    waiting := s.waiting ++ [(c, (s.locks.request p).1)] } := by
  refine ⟨h.table.request p, ?_, fun t ht hunder => LockTable.holds_request (h.holder t ht hunder) p, h.last,
    ?_, ?_⟩
  · change ((s.live ++ [_]).filter fun e : String × Guard => e.1 = p).map Prod.snd = _
    rw [List.filter_append, List.map_append, h.out, claims, claims, List.map_append, List.append_assoc]
    simp
  · change _ ++ (s.waiting ++ _) = s.arrived ++ _
    rw [← List.append_assoc, h.arrived]
  · intro e he
    rcases List.mem_append.1 he with he | he
    · exact h.named e he
    · rw [List.mem_singleton.1 he]
      exact on

theorem take (h : Guarded p s) {ahead behind : List (Call × Guard)} {c : Call}
    (waiting : s.waiting = ahead ++ (c, g) :: behind) (holds : s.locks.holds g = true) :
    Guarded p { s with waiting := ahead ++ behind, turns := s.turns ++ [⟨c, g, .holding⟩] } := by
  obtain ⟨rfl, hover⟩ := h.free_of_holds waiting holds
  refine ⟨h.table, ?_, ?_, ?_, ?_, h.named⟩
  · rw [h.out, claims, claims, List.filter_append, filter_over hover, waiting]
    simp [Turn.isOver, Phase.isOver]
  · intro t ht hunder
    rcases List.mem_append.1 ht with ht | ht
    · rw [hover t ht] at hunder
      cases hunder
    · rw [List.mem_singleton.1 ht]
      exact holds
  · rw [List.dropLast_concat]
    exact hover
  · rw [← h.arrived, waiting]
    simp

theorem request (h : Guarded p s) {q : String} (other : q ≠ p) : Guarded p { s with
    locks := (s.locks.request q).2
    live := s.live ++ [(q, (s.locks.request q).1)] } := by
  refine ⟨h.table.request q, ?_, fun t ht hunder => LockTable.holds_request (h.holder t ht hunder) q, h.last,
    h.arrived, h.named⟩
  change ((s.live ++ [_]).filter fun e : String × Guard => e.1 = p).map Prod.snd = _
  rw [List.filter_append, List.map_append, h.out, List.filter_cons_of_neg (by simpa using other)]
  exact List.append_nil _

theorem release (h : Guarded p s) {e : String × Guard} (there : e ∈ s.live) (other : e.1 ≠ p) :
    Guarded p { s with locks := s.locks.release e.2, live := s.live.filter (· ≠ e) } := by
  refine ⟨h.table.release there, ?_, fun t ht hunder => ?_, h.last, h.arrived, h.named⟩
  · change ((s.live.filter (· ≠ e)).filter fun e => e.1 = p).map Prod.snd = s.claims
    rw [← h.out, List.filter_filter]
    refine congrArg _ (List.filter_congr fun a _ => ?_)
    by_cases ha : a.1 = p
    · have hne : a ≠ e := by
        rintro rfl
        exact other ha
      simp [ha, hne]
    · simp [ha]
  · refine LockTable.holds_release (fun hticket => ?_) (h.holder t ht hunder)
    have hg := h.mem_live_iff.2 (mem_claims ht hunder)
    have heq := h.table.faithful.eq_of_ticket hg there hticket
    rw [← heq] at other
    exact other rfl

theorem step (h : Guarded p s) (hs : Step p s s') : Guarded p s' := by
  cases hs with
  | enter c on => exact h.enter on
  | take ahead behind c g waiting holds => exact h.take waiting holds
  | act before after t turns under => exact h.go_on _ turns under rfl rfl (isOver_act _ _ _ under)
  | giveBack before after c g a turns => exact h.give_back turns rfl rfl rfl rfl
  | request q other => exact h.request other
  | release e there other => exact h.release there other
  | elsewhere k alone options draft updates file =>
      exact ⟨h.table, h.out, h.holder, h.last, h.arrived, h.named⟩

end Guarded

/-- A call that has the guard and is left alone does what the call does. -/
theorem Steps.perform (h : Steps p s s') (before : List Turn) (c : Call) (on : c.On p)
    (turns : s'.turns = before ++ [⟨c, g, .holding⟩]) : Steps p s { s' with
      keeper := (c.perform p s'.keeper).2
      turns := before ++ [⟨c, g, .ended (c.perform p s'.keeper).1⟩] } := by
  have hrun (n : Nat) (phase : Phase) (k : Keeper) (hunder : phase.isOver = false) :
      Steps p { s' with keeper := k, turns := before ++ [⟨c, g, phase⟩] } { s' with
        keeper := ((fun x : Phase × Keeper => c.act p x.1 x.2)^[n] (phase, k)).2
        turns := before ++ [⟨c, g, ((fun x : Phase × Keeper => c.act p x.1 x.2)^[n] (phase, k)).1⟩] } := by
    induction n generalizing phase k with
    | zero => exact .refl
    | succ n ih =>
        refine .head (.act before [] ⟨c, g, phase⟩ rfl hunder) ?_
        exact ih _ _ (Guarded.isOver_act c phase k hunder)
  obtain ⟨n, hn⟩ := Call.act_alone on s'.keeper
  have hsteps := hrun n .holding s'.keeper rfl
  rw [hn, ← turns] at hsteps
  exact h.trans hsteps

end Guards

section Drafts

variable {p : String} {k₀ k k' : Keeper} {d₀ d d' : Draft} {s s' : Scene} {t t' : Turn}
  {before turns : List Turn} {alone : Bool} {u : TextUnit} {a : Answer}

/-- The turns that have decided make the draft what it is. -/
structure Sound (p : String) (k₀ : Keeper) (d₀ : Draft) (k : Keeper) (turns : List Turn) (alone : Bool)
    (d : Draft) : Prop where
  options : k.options = k₀.options
  tracked : k.drafts.get? p = some d
  isFor : d.IsFor p
  linear : Turn.Linear k₀.options.unit d₀ (turns.filter Turn.isDecided)
  content : d.content = (Turn.replay k₀.options.unit d₀ (turns.filter Turn.isDecided)).content
  updates : k.updatesOf p = k₀.updatesOf p ++ turns.filterMap Turn.published?
  sees : ∀ t ∈ turns, t.phase.Sees d
  written : alone = true → ∀ t ∈ turns, ∀ d' location, t.phase = .written d' location → k.Keeps p d
  kept : alone = true → (∃ t ∈ turns, t.HasChanged) → d.dirty = false → k.Keeps p d

theorem keeps_of_content (h : k.Keeps p d) (ho : k'.options = k.options) (hd : d'.content = d.content)
    (hfile : ∀ l, k.options.draftPlace? p = some l →
      k'.workspace.disk.content? l = k.workspace.disk.content? l) : k'.Keeps p d' := by
  obtain ⟨l, hl, hc⟩ := h
  exact ⟨l, by rw [ho, hl], by rw [hfile l hl, hc, hd]⟩

theorem updatesOf_append (k : Keeper) (us : List Update) (p : String) :
    Keeper.updatesOf { k with updates := k.updates ++ us } p =
      k.updatesOf p ++ (us.filter fun u => (Path.normalize u.edit.location).toOption = some p).map
        fun u => (u.endpoint, u.edit) := by
  rw [Keeper.updatesOf, Keeper.updatesOf, List.filter_append, List.map_append]

theorem filter_decided (h : t.phase.answer? = some a) :
    (before ++ [t]).filter Turn.isDecided = before.filter Turn.isDecided ++ [t] := by
  rw [List.filter_append, List.filter_cons_of_pos (by rw [Turn.isDecided, h]; rfl), List.filter_nil]

theorem filter_undecided (h : t.phase.answer? = none) :
    (before ++ [t]).filter Turn.isDecided = before.filter Turn.isDecided := by
  rw [List.filter_append, List.filter_cons_of_neg (by rw [Turn.isDecided, h]; simp), List.filter_nil,
    List.append_nil]

theorem linear_concat : Turn.Linear u d (turns ++ [t]) ↔ Turn.Linear u d turns ∧
    ∃ a, t.phase.answer? = some a ∧ t.call.Agrees u (Turn.replay u d turns) a :=
  Turn.linear_append.trans (and_congr_right fun _ => Turn.linear_singleton)

theorem replay_concat :
    Turn.replay u d (turns ++ [t]) = t.call.effect u (Turn.replay u d turns) :=
  Turn.replay_append u d turns [t]

theorem sees_of_over (h : t.isOver = true) (d : Draft) : t.phase.Sees d := by
  obtain ⟨a, ha⟩ := Turn.isOver_iff.1 h
  rw [ha]
  trivial

theorem published?_of_answer (h : t.phase.answer? ≠ some (.changed true)) : t.published? = none := by
  rw [Turn.published?]
  split
  · next hphase => exact absurd (congrArg Phase.answer? hphase) h
  · next hphase => exact absurd (congrArg Phase.answer? hphase) h
  · rfl

namespace Sound

theorem start (hd : k₀.drafts.get? p = some d₀) (hfor : d₀.IsFor p) :
    Sound p k₀ d₀ k₀ [] alone d₀ := by
  refine ⟨rfl, hd, hfor, trivial, rfl, (List.append_nil _).symm, fun t ht => absurd ht List.not_mem_nil,
    fun _ t ht => absurd ht List.not_mem_nil, ?_⟩
  rintro - ⟨t, ht, -⟩
  cases ht

theorem elsewhere {alone' : Bool} (h : Sound p k₀ d₀ k turns alone d) (ho : k'.options = k.options)
    (hd : k'.drafts.get? p = k.drafts.get? p) (hu : k'.updatesOf p = k.updatesOf p)
    (hfile : alone' = true → alone = true ∧ ∀ l, k.options.draftPlace? p = some l →
      k'.workspace.disk.content? l = k.workspace.disk.content? l) :
    Sound p k₀ d₀ k' turns alone' d := by
  refine ⟨ho.trans h.options, hd.trans h.tracked, h.isFor, h.linear, h.content, hu.trans h.updates,
    h.sees, fun halone t ht d' location hphase => ?_, fun halone hchanged hclean => ?_⟩
  · obtain ⟨halone, hfile⟩ := hfile halone
    exact keeps_of_content (h.written halone t ht d' location hphase) ho rfl hfile
  · obtain ⟨halone, hfile⟩ := hfile halone
    exact keeps_of_content (h.kept halone hchanged hclean) ho rfl hfile

theorem take (h : Sound p k₀ d₀ k turns alone d) (c : Call) (g : Guard) :
    Sound p k₀ d₀ k (turns ++ [⟨c, g, .holding⟩]) alone d := by
  have hnew {x : Turn} {P : Turn → Prop} (hx : x ∈ turns ++ [⟨c, g, .holding⟩])
      (hold : ∀ t ∈ turns, P t) (hlast : P ⟨c, g, .holding⟩) : P x := by
    rcases List.mem_append.1 hx with hx | hx
    · exact hold x hx
    · rwa [List.mem_singleton.1 hx]
  refine ⟨h.options, h.tracked, h.isFor, ?_, ?_, ?_, fun t ht => hnew ht h.sees trivial, ?_, ?_⟩
  · rw [filter_undecided rfl]
    exact h.linear
  · rw [filter_undecided rfl]
    exact h.content
  · rw [h.updates, List.filterMap_append, List.filterMap_cons_none (published?_of_answer (by simp [Phase.answer?])),
      List.filterMap_nil, List.append_nil]
  · exact fun halone t ht => hnew ht (h.written halone) nofun
  · rintro halone ⟨t, ht, hchanged⟩
    refine h.kept halone ?_
    exact hnew (P := fun x => x.HasChanged → ∃ t ∈ turns, t.HasChanged) ht
      (fun t ht hchanged => ⟨t, ht, hchanged⟩) nofun hchanged

section Last

variable (h : Sound p k₀ d₀ k (before ++ [t]) alone d) (hover : ∀ b ∈ before, b.isOver = true)

include h hover

theorem last (ho : k'.options = k.options) (hd : k'.drafts.get? p = some d') (hfor : d'.IsFor p)
    (hlinear : Turn.Linear k₀.options.unit d₀ ((before ++ [t']).filter Turn.isDecided))
    (hcontent : d'.content =
      (Turn.replay k₀.options.unit d₀ ((before ++ [t']).filter Turn.isDecided)).content)
    (hupdates : k'.updatesOf p = k.updatesOf p ++ v)
    (hpublished : t'.published?.toList = t.published?.toList ++ v)
    (hsees : t'.phase.Sees d')
    (hwritten : alone = true → ∀ d'' location, t'.phase = .written d'' location → k'.Keeps p d')
    (hkept : alone = true → (∃ t ∈ before ++ [t'], t.HasChanged) → d'.dirty = false →
      k'.Keeps p d') : Sound p k₀ d₀ k' (before ++ [t']) alone d' := by
  have hlast (t : Turn) : (before ++ [t]).filterMap Turn.published? =
      before.filterMap Turn.published? ++ t.published?.toList := by
    rw [List.filterMap_append]
    cases hp : t.published? <;> simp [hp]
  refine ⟨ho.trans h.options, hd, hfor, hlinear, hcontent, ?_, ?_, ?_, hkept⟩
  · have hold := h.updates
    rw [hlast] at hold
    rw [hlast, hupdates, hold, hpublished, List.append_assoc, List.append_assoc]
  · intro b hb
    rcases List.mem_append.1 hb with hb | hb
    · exact sees_of_over (hover b hb) d'
    · rwa [List.mem_singleton.1 hb]
  · intro halone b hb d'' location hphase
    rcases List.mem_append.1 hb with hb | hb
    · have hb := hover b hb
      rw [Turn.isOver, hphase] at hb
      cases hb
    · rw [List.mem_singleton.1 hb] at hphase
      exact hwritten halone d'' location hphase

omit hover in
theorem before_decided (hnone : t.phase.answer? = none) :
    Turn.Linear k₀.options.unit d₀ (before.filter Turn.isDecided) ∧
      d.content = (Turn.replay k₀.options.unit d₀ (before.filter Turn.isDecided)).content := by
  have hlinear := h.linear
  have hcontent := h.content
  rw [filter_undecided hnone] at hlinear hcontent
  exact ⟨hlinear, hcontent⟩

omit h hover in
theorem changed_of_last (hchanged : ∃ x ∈ before ++ [t'], x.HasChanged)
    (hlast : t'.HasChanged → t.HasChanged) : ∃ x ∈ before ++ [t], x.HasChanged := by
  obtain ⟨x, hx, hchanged⟩ := hchanged
  rcases List.mem_append.1 hx with hx | hx
  · exact ⟨x, by simp [hx], hchanged⟩
  · rw [List.mem_singleton.1 hx] at hchanged
    exact ⟨t, by simp, hlast hchanged⟩

theorem approach (hnone : t.phase.answer? = none) (hnone' : t'.phase.answer? = none)
    (ho : k'.options = k.options) (hd : k'.drafts = k.drafts) (hu : k'.updates = k.updates)
    (hsees : t'.phase.Sees d) (hkeeps : k.Keeps p d → k'.Keeps p d)
    (hwritten : ∀ d' location, t'.phase = .written d' location → k'.Keeps p d) :
    Sound p k₀ d₀ k' (before ++ [t']) alone d := by
  obtain ⟨hlinear, hcontent⟩ := h.before_decided hnone
  have hunpublished {t : Turn} (hnone : t.phase.answer? = none) : t.published? = none :=
    published?_of_answer (by rw [hnone]; nofun)
  have hupdates : k'.updatesOf p = k.updatesOf p ++ [] := by
    rw [Keeper.updatesOf, hu, List.append_nil]
    rfl
  refine h.last hover ho (by rw [hd, h.tracked]) h.isFor ?_ ?_ hupdates ?_ hsees
    (fun _ => hwritten) fun halone hchanged hclean => hkeeps (h.kept halone ?_ hclean)
  · rwa [filter_undecided hnone']
  · rwa [filter_undecided hnone']
  · rw [hunpublished hnone, hunpublished hnone']
    rfl
  · refine changed_of_last hchanged fun hlast => ?_
    rw [Turn.HasChanged, hnone'] at hlast
    cases hlast

theorem decide (hnone : t.phase.answer? = none) (hanswer : t'.phase.answer? = some a)
    (hcall : t'.call = t.call) (ho : k'.options = k.options) (hd : k'.drafts.get? p = some d')
    (hfor : d'.IsFor p) (hu : k'.updates = k.updates) (hunpublished : t'.published? = none)
    (hsees : t'.phase.Sees d') (hundone : ∀ d'' location, t'.phase ≠ .written d'' location)
    (hagrees : t.call.Agrees k₀.options.unit d a)
    (hcontent : d'.content = (t.call.effect k₀.options.unit d).content)
    (hkept : alone = true → (∃ x ∈ before ++ [t'], x.HasChanged) → d'.dirty = false →
      k'.Keeps p d') : Sound p k₀ d₀ k' (before ++ [t']) alone d' := by
  obtain ⟨hlinear, hbefore⟩ := h.before_decided hnone
  have hupdates : k'.updatesOf p = k.updatesOf p ++ [] := by
    rw [Keeper.updatesOf, hu, List.append_nil]
    rfl
  refine h.last hover ho hd hfor ?_ ?_ hupdates ?_ hsees
    (fun _ d'' location hphase => absurd hphase (hundone d'' location)) hkept
  · rw [filter_decided hanswer]
    refine linear_concat.2 ⟨hlinear, a, hanswer, ?_⟩
    rw [hcall]
    exact Call.agrees_of_content hbefore hagrees
  · rw [filter_decided hanswer, replay_concat, hcontent, hcall]
    exact t.call.content_effect hbefore
  · rw [hunpublished, published?_of_answer (by rw [hnone]; nofun)]
    rfl

theorem again (hanswer : t.phase.answer? = some a) (hanswer' : t'.phase.answer? = some a)
    (hcall : t'.call = t.call) (ho : k'.options = k.options) (hd : k'.drafts = k.drafts)
    (hw : k'.workspace = k.workspace) {v : List (String × Edit)}
    (hupdates : k'.updatesOf p = k.updatesOf p ++ v)
    (hpublished : t'.published?.toList = t.published?.toList ++ v) (hsees : t'.phase.Sees d)
    (hundone : ∀ d'' location, t'.phase ≠ .written d'' location) :
    Sound p k₀ d₀ k' (before ++ [t']) alone d := by
  have hlinear := h.linear
  have hcontent := h.content
  rw [filter_decided hanswer] at hlinear hcontent
  refine h.last hover ho (by rw [hd, h.tracked]) h.isFor ?_ ?_ hupdates hpublished hsees
    (fun _ d'' location hphase => absurd hphase (hundone d'' location))
    fun halone hchanged hclean => ?_
  · rw [filter_decided hanswer']
    rw [linear_concat] at hlinear ⊢
    rwa [hanswer', ← hanswer, hcall]
  · rw [filter_decided hanswer', replay_concat, hcall, ← replay_concat]
    exact hcontent
  · refine keeps_of_content (h.kept halone (changed_of_last hchanged ?_) hclean) ho rfl fun l _ => by rw [hw]
    rw [Turn.HasChanged, Turn.HasChanged, hanswer, hanswer']
    exact id

theorem act {phase : Phase} (hon : t.call.On p) (hacts : t.call.Acts p d k t.phase phase k') :
    ∃ d', Sound p k₀ d₀ k' (before ++ [{ t with phase }]) alone d' := by
  obtain ⟨c, g, phase₀⟩ := t
  have hunit : k.options.unit = k₀.options.unit := by rw [h.options]
  cases hacts with
  | idle => exact ⟨d, h⟩
  | read => exact ⟨d, h.approach hover rfl rfl rfl rfl rfl rfl id fun _ _ h => by cases h⟩
  | decided _ a w undecided agrees unchanged workspace =>
      rw [hunit] at agrees
      have hkeeps (hk : k.Keeps p d) : (k.withWorkspace w).Keeps p d :=
        keeps_of_content hk rfl rfl fun l _ => workspace.2.content l (by simp)
      have hunchanged : ¬ (⟨c, g, .ended a⟩ : Turn).HasChanged := fun hc => unchanged (Option.some.inj hc)
      refine ⟨d, h.decide hover undecided rfl rfl rfl h.tracked h.isFor rfl ?_ trivial (fun _ _ h => by cases h)
        agrees ?_ ?_⟩
      · exact published?_of_answer hunchanged
      · rw [Turn.effect_of_not_changed (t := ⟨c, g, .ended a⟩) rfl agrees hunchanged]
      · refine fun halone hchanged hclean => hkeeps (h.kept halone ?_ hclean)
        exact changed_of_last hchanged fun hc => absurd hc hunchanged
  | stored endpoint e d' call change =>
      obtain rfl : c = .edit endpoint e := call
      rw [hunit] at change
      refine ⟨d', h.decide hover (a := .changed true) rfl rfl rfl rfl (Drafts.get?_put_self ..)
        (h.isFor.apply change) rfl rfl trivial (fun _ _ h => by cases h) ?_ ?_ ?_⟩
      · simp only [Call.Agrees, change]
        rfl
      · simp only [Call.effect, Draft.step, change]
      · obtain ⟨text, -, rfl⟩ := Draft.apply_eq_some change
        intro _ _ hclean
        cases (show true = false from hclean)
  | published endpoint e call =>
      obtain rfl : c = .edit endpoint e := call
      have hpath : (Path.normalize e.location).toOption = some p := by
        rw [show Path.normalize e.location = .ok p from hon]
        rfl
      refine ⟨d, h.again hover (a := .changed true) rfl rfl rfl rfl rfl rfl
        (v := [(endpoint, e)]) ?_ rfl trivial fun _ _ h => by cases h⟩
      rw [updatesOf_append, List.filter_cons_of_pos (by simp [hpath])]
      rfl
  | written location l w place kept =>
      have hkeeps : (k.withWorkspace w).Keeps p d := ⟨l, place, kept⟩
      exact ⟨d, h.approach hover rfl rfl rfl rfl rfl rfl (fun _ => hkeeps) fun _ _ _ => hkeeps⟩
  | saved location a agrees unchanged =>
      rw [hunit] at agrees
      have hunchanged : ¬ (⟨c, g, .ended a⟩ : Turn).HasChanged := fun hc => unchanged (Option.some.inj hc)
      refine ⟨d.clean, h.decide hover rfl rfl rfl rfl (Drafts.get?_put_self ..) h.isFor.clean rfl ?_ trivial
        (fun _ _ h => by cases h) agrees ?_ fun halone _ _ => ?_⟩
      · exact published?_of_answer hunchanged
      · rw [Turn.effect_of_not_changed (t := ⟨c, g, .ended a⟩) rfl agrees hunchanged]
        rfl
      · have hk : k.Keeps p d := h.written halone ⟨c, g, .written d location⟩ (by simp) d location rfl
        exact keeps_of_content hk rfl rfl fun _ _ => rfl

end Last

end Sound

theorem Sound.step (h : Sound p k₀ d₀ s.keeper s.turns s.alone d) (hg : Guarded p s) (hs : Step p s s') :
    ∃ d', Sound p k₀ d₀ s'.keeper s'.turns s'.alone d' := by
  cases hs with
  | enter | request | release => exact ⟨d, h⟩
  | take ahead behind c g waiting holds => exact ⟨d, h.take c g⟩
  | act before after t turns under =>
      obtain ⟨rfl, hover⟩ := hg.at_end turns under
      have hon : t.call.On p := by
        refine hg.named (t.call, t.guard) ?_
        rw [← hg.arrived, turns]
        simp
      rw [turns] at h
      exact h.act hover hon (Call.act_cases h.tracked h.isFor (h.sees t (by simp)))
  | giveBack before after c g a turns =>
      obtain ⟨rfl, hover⟩ := hg.at_end turns rfl
      rw [turns] at h
      refine ⟨d, h.again hover (a := a) rfl rfl rfl rfl rfl rfl (v := []) (List.append_nil _).symm ?_ trivial
        fun _ _ h => by cases h⟩
      rw [List.append_nil, Turn.published?_over]
  | elsewhere k alone options draft updates file => exact ⟨d, h.elsewhere options draft updates file⟩

theorem Steps.sound {l : LockTable} {live : List (String × Guard)} (hl : LockTable.Reached l live)
    (hfree : ∀ e ∈ live, e.1 ≠ p) (hd : k₀.drafts.get? p = some d₀) (hfor : d₀.IsFor p)
    (h : Steps p (.start k₀ l live) s) :
    Guarded p s ∧ ∃ d, Sound p k₀ d₀ s.keeper s.turns s.alone d := by
  induction h with
  | refl => exact ⟨.start hl hfree, d₀, .start hd hfor⟩
  | tail _ hs ih =>
      obtain ⟨hg, d, hd⟩ := ih
      exact ⟨hg.step hs, hd.step hg hs⟩

theorem filter_isDecided (h : ∀ t ∈ turns, t.isOver = true) : turns.filter Turn.isDecided = turns := by
  refine List.filter_eq_self.2 fun t ht => ?_
  obtain ⟨a, ha⟩ := Turn.isOver_iff.1 (h t ht)
  rw [Turn.isDecided, ha]
  rfl

/-- However the calls on a tracked path are interleaved with each other and with other work: when they are all
over, each of them has had its turn, in the order in which they asked; the draft has the content that the edits
make of it one after another in this order, those that have answered with a change and no others; every edit
has answered as it does on the draft that those before it make; the changes are published in the same order;
and if the draft has been put back as clean, its file has what they make. -/
theorem no_update_is_lost {allowed : Session → Action → Prop} {o : Options} {w : Workspace} {capacity : Nat}
    {clock : Time.Instant} {before : Session} {l : LockTable} {live : List (String × Guard)}
    (hr : Session.Reached allowed (.new o w capacity clock) before)
    (hd : before.keeper.drafts.get? p = some d₀) (hl : LockTable.Reached l live)
    (hfree : ∀ e ∈ live, e.1 ≠ p) (hs : Steps p (.start before.keeper l live) s)
    (hdone : s.waiting = [] ∧ ∀ t ∈ s.turns, t.isOver = true) :
    s.turns.map (fun t => (t.call, t.guard)) = s.arrived ∧
      ∃ d, s.keeper.drafts.get? p = some d ∧
        d.content = (d₀.applyAll o.unit (s.turns.filterMap Turn.delta?)).content ∧
        d.content =
          (d₀.applyAll o.unit ((s.turns.filter fun t => t.HasChanged).filterMap Turn.delta?)).content ∧
        (∀ earlier t later, s.turns = earlier ++ t :: later → ∃ a, t.phase = .finished a ∧
          t.call.Agrees o.unit (d₀.applyAll o.unit (earlier.filterMap Turn.delta?)) a) ∧
        s.keeper.updatesOf p = before.keeper.updatesOf p ++ s.turns.filterMap Turn.published? ∧
        (s.alone = true → (∃ t ∈ s.turns, t.HasChanged) → d.dirty = false → s.keeper.Keeps p d) := by
  obtain ⟨hwaiting, hover⟩ := hdone
  obtain ⟨hg, d, h⟩ := hs.sound hl hfree hd (hr.filed p d₀ hd)
  have hlinear := h.linear
  have hcontent := h.content
  rw [filter_isDecided hover, hr.options] at hlinear hcontent
  have harrived := hg.arrived
  rw [hwaiting, List.append_nil] at harrived
  refine ⟨harrived, d, h.tracked, ?_, ?_, ?_, h.updates, h.kept⟩
  · rw [hcontent, Turn.replay_eq_applyAll]
  · rw [hcontent, hlinear.replay_changed, Turn.replay_eq_applyAll]
  · intro earlier t later hturns
    rw [hturns, Turn.linear_append] at hlinear
    obtain ⟨-, ⟨a, ha, hagrees⟩, -⟩ := hlinear
    obtain ⟨a', ha'⟩ := Turn.isOver_iff.1 (hover t (by simp [hturns]))
    rw [ha'] at ha
    obtain rfl : a' = a := Option.some.inj ha
    rw [Turn.replay_eq_applyAll] at hagrees
    exact ⟨a', ha', hagrees⟩

theorem edits_and_visit_all_count :
    let before := Session.sample.after (.operation (.track "e" (.start "/p/a")))
    let first : Call := .edit "e" ⟨"/p/a", .insert 2 "!"⟩
    let second : Call := .edit "f" ⟨"p\\a", .remove 0 1⟩
    ∃ s d, Steps "/p/a" (.start before.keeper .empty []) s ∧
      s.turns.map (fun t => (t.call, t.guard)) =
        [(first, ⟨0, 0⟩), (second, ⟨0, 1⟩), (.visit, ⟨0, 2⟩)] ∧
      s.keeper.drafts.get? "/p/a" = some d ∧ d.content = [105, 33] ∧
      s.keeper.updatesOf "/p/a" =
        [("e", ⟨"/p/a", .insert 2 "!"⟩), ("f", ⟨"p\\a", .remove 0 1⟩)] ∧
      d.dirty = false ∧ s.keeper.Keeps "/p/a" d := by
  intro before first second
  have hfirst : first.On "/p/a" := Path.normalize_eq_ok_iff.2 (by decide +kernel)
  have hsecond : second.On "/p/a" := Path.normalize_eq_ok_iff.2 (by decide +kernel)
  let t : Turn := ⟨first, ⟨0, 0⟩, .finished (.changed true)⟩
  let t' : Turn := ⟨second, ⟨0, 1⟩, .finished (.changed true)⟩
  -- the first edit reads the draft, and the others ask before it puts its own back
  have h : Steps "/p/a" (.start before.keeper .empty []) _ := .refl
  have h := h.tail (.enter first hfirst)
  have h := h.tail (.take [] [] first ⟨0, 0⟩ rfl (by decide +kernel))
  have h := h.tail (.act [] [] _ rfl rfl)
  have h := h.tail (.enter second hsecond)
  have h := h.tail (.enter .visit trivial)
  have h := h.tail (.act [] [] _ rfl (by decide +kernel))
  have h := h.tail (.act [] [] _ rfl (by decide +kernel))
  have h := h.tail (.giveBack [] [] first ⟨0, 0⟩ (.changed true) (by decide +kernel))
  have h := h.tail (.take [] [(.visit, ⟨0, 2⟩)] second ⟨0, 1⟩ rfl (by decide +kernel))
  have h := Steps.perform h [t] second hsecond rfl
  have h := h.tail (.giveBack [t] [] second ⟨0, 1⟩ (.changed true) (by decide +kernel))
  have h := h.tail (.take [] [] .visit ⟨0, 2⟩ rfl (by decide +kernel))
  have h := Steps.perform h [t, t'] .visit trivial rfl
  have h := h.tail (.giveBack [t, t'] [] .visit ⟨0, 2⟩ (.visited ⟨1, 0⟩) (by decide +kernel))
  have htracked : before.keeper.drafts.get? "/p/a" = some ⟨"p.a", "/p", [104, 105], false⟩ := by
    decide +kernel
  have hreached : Session.Reached (fun _ _ => True) .sample before := .step .start trivial
  obtain ⟨-, d, hd, hcontent, -, -, hupdates, hkept⟩ :=
    no_update_is_lost hreached htracked .empty (by simp) h ⟨rfl, by decide +kernel⟩
  have hclean : d.dirty = false := by
    rw [← Option.some.inj ((by decide +kernel : _ = some ⟨"p.a", "/p", [105, 33], false⟩).symm.trans hd)]
  refine ⟨_, d, h, rfl, hd, hcontent.trans (by decide +kernel), hupdates.trans (by decide +kernel), hclean,
    hkept rfl ⟨t, ?_, by decide +kernel⟩ hclean⟩
  exact List.mem_cons_self

end Drafts

end Scene

end DraftKeeper
