namespace DraftKeeper.Assoc

variable {κ α : Type} [DecidableEq κ]

def get? (k : κ) : List (κ × α) → Option α
  | [] => none
  | (k', v) :: r => if k' = k then some v else get? k r

def put (k : κ) (v : α) : List (κ × α) → List (κ × α)
  | [] => [(k, v)]
  | (k', v') :: r => if k' = k then (k, v) :: r else (k', v') :: put k v r

def erase (k : κ) (l : List (κ × α)) : List (κ × α) := l.filter fun e => e.1 ≠ k

theorem get?_put (k j : κ) (v : α) (l : List (κ × α)) :
    get? j (put k v l) = if k = j then some v else get? j l := by
  induction l with
  | nil => rfl
  | cons e r ih => grind [put, get?]

theorem get?_erase (k j : κ) (l : List (κ × α)) :
    get? j (erase k l) = if k = j then none else get? j l := by
  induction l with
  | nil => simp [erase, get?]
  | cons e r ih => grind [erase, get?]

end DraftKeeper.Assoc
