import DraftKeeper.Draft

namespace DraftKeeper

abbrev DraftList := List (String × Draft)

namespace DraftList

def get? (path : String) : DraftList → Option Draft
  | [] => none
  | (p, d) :: r => if p = path then some d else get? path r

def put (path : String) (draft : Draft) : DraftList → DraftList
  | [] => [(path, draft)]
  | (p, d) :: r =>
    if path < p then (path, draft) :: (p, d) :: r
    else if path = p then (path, draft) :: r
    else (p, d) :: put path draft r

def erase (path : String) (l : DraftList) : DraftList := l.filter fun e => e.1 ≠ path

def Ordered (l : DraftList) : Prop := (l.map Prod.fst).Pairwise (· < ·)

theorem lt_or_gt_of_ne {a b : String} (h : a ≠ b) (hn : ¬ a < b) : b < a := by
  rcases Std.lt_trichotomy a b with h' | h' | h'
  · exact absurd h' hn
  · exact absurd h' h
  · exact h'

theorem mem_keys_put {path q : String} {draft : Draft} {l : DraftList}
    (h : q ∈ (put path draft l).map Prod.fst) : q = path ∨ q ∈ l.map Prod.fst := by
  induction l with
  | nil => simpa [put] using h
  | cons e r ih => grind [put]

theorem ordered_put {path : String} {draft : Draft} {l : DraftList} (h : l.Ordered) :
    (put path draft l).Ordered := by
  induction l with
  | nil => simp [put, Ordered]
  | cons e r ih =>
    obtain ⟨p, d⟩ := e
    obtain ⟨hp, hr⟩ := List.pairwise_cons.1 h
    unfold put
    split
    · next hlt =>
      refine List.pairwise_cons.2 ⟨fun q hq => ?_, h⟩
      rcases List.mem_cons.1 hq with rfl | hq
      · exact hlt
      · exact String.lt_trans hlt (hp q hq)
    · next hlt =>
      split
      · next heq => subst heq; exact h
      · next hne =>
        refine List.pairwise_cons.2 ⟨fun q hq => ?_, ih hr⟩
        rcases mem_keys_put hq with rfl | hq
        · exact lt_or_gt_of_ne hne hlt
        · exact hp q hq

theorem ordered_erase {path : String} {l : DraftList} (h : l.Ordered) : (erase path l).Ordered :=
  h.sublist (List.filter_sublist.map _)

theorem get?_put (path q : String) (draft : Draft) (l : DraftList) :
    get? q (put path draft l) = if path = q then some draft else get? q l := by
  induction l with
  | nil => rfl
  | cons e r ih => grind [put, get?]

theorem get?_erase (path q : String) (l : DraftList) :
    get? q (erase path l) = if path = q then none else get? q l := by
  induction l with
  | nil => simp [erase, get?]
  | cons e r ih => grind [erase, get?]

theorem put_put (path : String) (draft draft' : Draft) (l : DraftList) :
    put path draft (put path draft' l) = put path draft l := by
  induction l with
  | nil => simp [put]
  | cons e r ih => grind [put, String.lt_irrefl]

end DraftList

structure Drafts where
  drafts : DraftList
  ordered : drafts.Ordered

namespace Drafts

def empty : Drafts := ⟨[], .nil⟩

def get? (o : Drafts) (path : String) : Option Draft := o.drafts.get? path

def put (o : Drafts) (path : String) (draft : Draft) : Drafts :=
  ⟨o.drafts.put path draft, DraftList.ordered_put o.ordered⟩

def erase (o : Drafts) (path : String) : Drafts :=
  ⟨o.drafts.erase path, DraftList.ordered_erase o.ordered⟩

def contains (o : Drafts) (path : String) : Bool := (o.get? path).isSome

def paths (o : Drafts) : List String := o.drafts.map Prod.fst

def size (o : Drafts) : Nat := o.drafts.length

@[simp] theorem get?_empty (q : String) : empty.get? q = none := rfl

@[simp] theorem get?_put (o : Drafts) (path q : String) (draft : Draft) :
    (o.put path draft).get? q = if path = q then some draft else o.get? q := DraftList.get?_put ..

@[simp] theorem get?_erase (o : Drafts) (path q : String) :
    (o.erase path).get? q = if path = q then none else o.get? q := DraftList.get?_erase ..

theorem get?_put_self (o : Drafts) (path : String) (draft : Draft) :
    (o.put path draft).get? path = some draft := (get?_put ..).trans (if_pos rfl)

theorem get?_put_of_ne {o : Drafts} {path q : String} {draft : Draft} (h : q ≠ path) :
    (o.put path draft).get? q = o.get? q := (get?_put ..).trans (if_neg h.symm)

theorem get?_erase_self (o : Drafts) (path : String) : (o.erase path).get? path = none :=
  (get?_erase ..).trans (if_pos rfl)

theorem get?_erase_of_ne {o : Drafts} {path q : String} (h : q ≠ path) :
    (o.erase path).get? q = o.get? q := (get?_erase ..).trans (if_neg h.symm)

theorem put_put (o : Drafts) (path : String) (draft draft' : Draft) :
    (o.put path draft').put path draft = o.put path draft := by
  unfold put
  congr 1
  exact DraftList.put_put ..

theorem mem_paths_iff (o : Drafts) (path : String) : path ∈ o.paths ↔ o.contains path = true := by
  unfold paths contains get?
  induction o.drafts with
  | nil => simp [DraftList.get?]
  | cons e r ih => grind [DraftList.get?]

end Drafts

end DraftKeeper
