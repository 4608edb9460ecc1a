import DraftKeeper.Proofs.WrittenStrings

namespace DraftKeeper.Toml

variable {c m : Char} {cs ds rest more : List Char} {d n fuel depth : Nat}

theorem ne_of_class {f : Char → Bool} (hc : f c = true) (hm : f m = false) : c ≠ m := by
  rintro rfl
  rw [hc] at hm
  cases hm

theorem isSpace_eq_false (hspace : c ≠ ' ') (htab : c ≠ '\t') : isSpace c = false := by
  simp [isSpace, hspace, htab]

section Digits

theorem digit?_of_isDigit (hc : c.isDigit = true) : digit? 10 c = some (c.toNat - 48) := by
  have hrange : 48 ≤ c.toNat ∧ c.toNat ≤ 57 := Char.isDigit_iff_toNat.1 hc
  rw [digit?, hexDigit?, if_pos hc]
  refine Option.filter_eq_some_iff.2 ⟨rfl, decide_eq_true ?_⟩
  omega

theorem digits_cons (hc : digit? 10 c = some d) (hmark : cs.head? ≠ some '_') :
    digits 10 (c :: cs) = (d :: (digits 10 cs).1, (digits 10 cs).2) := by
  rw [digits.eq_2, hc]
  cases cs with
  | nil => rfl
  | cons x cs =>
      have hx : x ≠ '_' := by simpa using hmark
      simp [hx]

theorem digits_append (hds : ∀ c ∈ ds, c.isDigit = true) (rest : List Char) :
    digits 10 (ds ++ '\n' :: rest) = (ds.map fun c => c.toNat - 48, '\n' :: rest) := by
  induction ds with
  | nil => rfl
  | cons c ds ih =>
      obtain ⟨hc, hrest⟩ := List.forall_mem_cons.1 hds
      have hmark : (ds ++ '\n' :: rest).head? ≠ some '_' := by
        cases ds with
        | nil => simp
        | cons x ds => simpa using ne_of_class (m := '_') (hrest x List.mem_cons_self) rfl
      rw [List.cons_append, digits_cons (digit?_of_isDigit hc) hmark, ih hrest, List.map_cons]

theorem value_map (ds : List Char) : value 10 (ds.map fun c => c.toNat - 48) = Nat.ofDigitChars 10 ds 0 := by
  rw [value, List.foldl_map]
  rfl

theorem isDigit_toDigits : ∀ c ∈ Nat.toDigits 10 n, c.isDigit = true :=
  fun _ hc => Nat.isDigit_of_mem_toDigits (by decide) (by decide) hc

theorem exists_toDigits_eq_cons (hn : 0 < n) : ∃ c ds, Nat.toDigits 10 n = c :: ds ∧ c ≠ '0' := by
  induction n using Nat.strongRecOn with
  | _ n ih =>
      by_cases hsmall : n < 10
      · have hdigit : ∀ m < 10, 0 < m → m.digitChar ≠ '0' := by decide
        exact ⟨n.digitChar, [], Nat.toDigits_of_lt_base hsmall, hdigit n hsmall hn⟩
      · obtain ⟨c, ds, hds, hc⟩ := ih (n / 10) (by omega) (by omega)
        refine ⟨c, ds ++ [(n % 10).digitChar], ?_, hc⟩
        rw [Nat.toDigits_of_base_le (by decide) (Nat.le_of_not_lt hsmall), hds, List.cons_append]

end Digits

section Numbers

theorem sign_of_isDigit (hc : c.isDigit = true) : sign (c :: cs) = (false, c :: cs) :=
  sign.eq_3 _ (fun _ h => ne_of_class hc rfl (List.cons.inj h).1)
    fun _ h => ne_of_class hc rfl (List.cons.inj h).1

theorem special_of_isDigit (hc : c.isDigit = true) : special (c :: cs) = none := by
  have hi : c ≠ 'i' := ne_of_class hc rfl
  have hn : c ≠ 'n' := ne_of_class hc rfl
  simp [special, sign_of_isDigit hc, hi, hn]

theorem decimal_toDigits (n : Nat) (rest : List Char) :
    decimal (Nat.toDigits 10 n ++ '\n' :: rest) = some ((false, n), '\n' :: rest) := by
  have hall : ∀ c ∈ Nat.toDigits 10 n, c.isDigit = true := isDigit_toDigits
  rcases Nat.eq_zero_or_pos n with rfl | hn
  · rfl
  · obtain ⟨c, ds, hds, hc⟩ := exists_toDigits_eq_cons hn
    have hvalue : value 10 ((c :: ds).map fun c => c.toNat - 48) = n := by
      rw [value_map, ← hds, Nat.ofDigitChars_ten_toDigits]
    have hread := digits_append hall rest
    rw [hds] at hall hread ⊢
    have hdigit := hall c List.mem_cons_self
    have hhead : c.toNat - 48 ≠ 0 := by
      have hrange := Char.isDigit_iff_toNat.1 hdigit
      have hzero : c.toNat ≠ 48 := fun h => hc (Char.toNat_inj.1 h)
      change 48 ≤ c.toNat ∧ c.toNat ≤ 57 at hrange
      omega
    rw [List.map_cons] at hvalue
    rw [decimal, List.cons_append, sign_of_isDigit hdigit, ← List.cons_append]
    dsimp only
    rw [hread, List.map_cons]
    simp [hhead, hvalue]

theorem float_toDigits (n : Nat) (rest : List Char) : float (Nat.toDigits 10 n ++ '\n' :: rest) = none := by
  rw [float, decimal_toDigits]
  rfl

theorem fits_of_le (hn : n ≤ 0x7FFFFFFFFFFFFFFF) : fits n = true := by
  refine Bool.and_eq_true_iff.2 ⟨decide_eq_true ?_, decide_eq_true ?_⟩
  · omega
  · omega

theorem integer_toDigits (hn : n ≤ 0x7FFFFFFFFFFFFFFF) :
    integer (Nat.toDigits 10 n ++ '\n' :: rest) = some ((n : Int), '\n' :: rest) := by
  have hbase (m : Char) (hm : m.isDigit = false) (hline : m ≠ '\n') (more : List Char) :
      Nat.toDigits 10 n ++ '\n' :: rest = '0' :: m :: more → False := by
    have hall : ∀ c ∈ Nat.toDigits 10 n, c.isDigit = true := isDigit_toDigits
    intro heq
    cases hds : Nat.toDigits 10 n with
    | nil => exact Nat.toDigits_ne_nil hds
    | cons c ds =>
        rw [hds] at heq hall
        cases ds with
        | nil => exact hline (List.cons.inj (List.cons.inj heq).2).1.symm
        | cons x ds =>
            have hx := hall x (by simp)
            exact ne_of_class hx hm (List.cons.inj (List.cons.inj heq).2).1
  rw [integer.eq_4 _ (hbase 'x' rfl (by decide)) (hbase 'o' rfl (by decide)) (hbase 'b' rfl (by decide)),
    decimal_toDigits, Option.bind_eq_bind, Option.bind_some]
  dsimp only
  rw [if_neg Bool.false_ne_true, if_pos (fits_of_le hn), Option.pure_def]

theorem field_append {w least greatest v : Nat} (h : field w least greatest (ds ++ '\n' :: rest) = some (v, more)) :
    more = ds.drop w ++ '\n' :: rest := by
  obtain ⟨⟨hwidth, -⟩, heq⟩ := Option.ite_none_right_eq_some.1 h
  have hmore : (ds ++ '\n' :: rest).drop w = more := (Prod.mk.inj (Option.some.inj heq)).2
  have hle : w ≤ ds.length := Nat.le_of_not_lt fun hlt => by
    -- the end of the line would be among the digits taken
    have htake : ((ds ++ '\n' :: rest).take w).length ≤ w := List.length_take_le ..
    have hfilter := List.length_filterMap_le (digit? 10) ((ds ++ '\n' :: rest).take w)
    have hdigits := List.filterMap_length_eq_length.1 (Nat.le_antisymm hfilter (hwidth.symm ▸ htake))
    have hmem : '\n' ∈ (ds ++ '\n' :: rest).take w := by
      obtain ⟨k, hk⟩ := Nat.exists_eq_add_of_lt hlt
      rw [List.take_append, hk, Nat.add_assoc, Nat.add_sub_cancel_left, List.take_succ_cons]
      exact List.mem_append_right _ List.mem_cons_self
    cases hdigits _ hmem
  rw [← hmore, List.drop_append_of_le_length hle]

theorem mark_append (hds : ∀ c ∈ ds, c.isDigit = true) (hm : m.isDigit = false) (hline : m ≠ '\n')
    (rest : List Char) : mark m (ds ++ '\n' :: rest) = none := by
  cases ds with
  | nil => exact if_neg hline.symm
  | cons c ds => exact if_neg (ne_of_class (hds c List.mem_cons_self) hm)

theorem dateTime_of_isDigit (hds : ∀ c ∈ ds, c.isDigit = true) : dateTime (ds ++ '\n' :: rest) = none := by
  have hdrop (w : Nat) : ∀ c ∈ ds.drop w, c.isDigit = true := fun c hc => hds c (List.mem_of_mem_drop hc)
  have hdate : date (ds ++ '\n' :: rest) = none := by
    rw [date]
    cases hfield : field 4 0 9999 (ds ++ '\n' :: rest) with
    | none => rfl
    | some p =>
        have hmark := mark_append (hdrop 4) (m := '-') rfl (by decide) rest
        simp [field_append hfield, hmark]
  have htime : time (ds ++ '\n' :: rest) = none := by
    rw [time]
    cases hfield : field 2 0 23 (ds ++ '\n' :: rest) with
    | none => rfl
    | some p =>
        have hmark := mark_append (hdrop 2) (m := ':') rfl (by decide) rest
        simp [field_append hfield, hmark]
  rw [dateTime, hdate, htime]

theorem numeric_toDigits (hn : n ≤ 0x7FFFFFFFFFFFFFFF) : numeric (Nat.toDigits 10 n ++ '\n' :: rest) =
    some (.scalar (.integer n), '\n' :: rest) := by
  have hspecial : special (Nat.toDigits 10 n ++ '\n' :: rest) = none := by
    cases hds : Nat.toDigits 10 n with
    | nil => exact absurd hds Nat.toDigits_ne_nil
    | cons c ds => exact special_of_isDigit (isDigit_toDigits c (hds ▸ List.mem_cons_self))
  rw [numeric, dateTime_of_isDigit isDigit_toDigits, float_toDigits, hspecial, integer_toDigits hn]
  rfl

end Numbers

section Values

/-- A text that is read as a value if the line ends after it. -/
structure IsValue (text : List Char) (v : Node) : Prop where
  starts (rest : List Char) : skipSpace (text ++ '\n' :: rest) = text ++ '\n' :: rest
  reads (fuel depth : Nat) (rest : List Char) :
    readNode (fuel + 1) depth (text ++ '\n' :: rest) = some (v, '\n' :: rest)

theorem string_head {s : String} (h : string cs = some (s, rest)) : ∃ x, cs = '"' :: x ∨ cs = '\'' :: x := by
  cases cs with
  | nil => cases h
  | cons c cs =>
      by_cases hdouble : c = '"'
      · exact ⟨cs, .inl (hdouble ▸ rfl)⟩
      by_cases hsingle : c = '\''
      · exact ⟨cs, .inr (hsingle ▸ rfl)⟩
      rw [string.eq_5] at h
      · cases h
      all_goals
        intro x hx
        simp_all

theorem isValue_stringText (s : String) : IsValue (stringText s).toList (.scalar (.string s)) := by
  have hread (rest : List Char) : string ((stringText s).toList ++ '\n' :: rest) = some (s, '\n' :: rest) :=
    string_stringText s (by simp) (by simp)
  constructor
  case starts =>
    intro rest
    obtain ⟨x, hx | hx⟩ := string_head (hread rest)
    · rw [hx]
      rfl
    · rw [hx]
      rfl
  case reads =>
    intro fuel depth rest
    have h := hread rest
    obtain ⟨x, hx | hx⟩ := string_head h
    · rw [hx] at h ⊢
      rw [readNode.eq_2, h, Option.map_some]
    · rw [hx] at h ⊢
      rw [readNode.eq_3, h, Option.map_some]

theorem isValue_toDigits (hn : n ≤ 0x7FFFFFFFFFFFFFFF) : IsValue (Nat.toDigits 10 n) (.scalar (.integer n)) := by
  obtain ⟨c, ds, hds⟩ := List.exists_cons_of_ne_nil (Nat.toDigits_ne_nil (b := 10) (n := n))
  have hc : c.isDigit = true := isDigit_toDigits c (hds ▸ List.mem_cons_self)
  constructor
  case starts =>
    intro rest
    have hspace : isSpace c = false := isSpace_eq_false (ne_of_class hc rfl) (ne_of_class hc rfl)
    rw [hds, List.cons_append, skipSpace_cons hspace]
  case reads =>
    intro fuel depth rest
    have hhead (m : Char) (hm : m.isDigit = false) (x : List Char) :
        Nat.toDigits 10 n ++ '\n' :: rest = m :: x → False := by
      rw [hds]
      exact fun h => ne_of_class hc hm (List.cons.inj h).1
    rw [readNode.eq_10 _ _ _ (hhead '"' rfl) (hhead '\'' rfl) (fun _ => hhead 't' rfl _) (fun _ => hhead 'f' rfl _)
      (hhead '[' rfl) (hhead '{' rfl), numeric_toDigits hn]

end Values

section Keys

def IsBare (name : String) : Prop := name.toList ≠ [] ∧ ∀ c ∈ name.toList, isBareKey c = true

variable {name : String}

theorem isBare_of_all (hne : name.toList.isEmpty = false) (h : name.toList.all isBareKey = true) : IsBare name :=
  ⟨List.isEmpty_eq_false_iff.1 hne, List.all_eq_true.1 h⟩

theorem IsBare.exists_cons (h : IsBare name) : ∃ c x, name.toList = c :: x ∧ isBareKey c = true := by
  obtain ⟨c, x, hx⟩ := List.exists_cons_of_ne_nil h.1
  exact ⟨c, x, hx, h.2 c (hx ▸ List.mem_cons_self)⟩

theorem IsBare.head_ne (h : IsBare name) (hm : isBareKey m = false) : name.toList ++ cs ≠ m :: more := by
  obtain ⟨c, x, hx, hc⟩ := h.exists_cons
  rw [hx]
  exact fun heq => ne_of_class hc hm (List.cons.inj heq).1

theorem IsBare.starts (h : IsBare name) : skipSpace (name.toList ++ cs) = name.toList ++ cs := by
  obtain ⟨c, x, hx, hc⟩ := h.exists_cons
  have hspace : isSpace c = false := isSpace_eq_false (ne_of_class hc rfl) (ne_of_class hc rfl)
  rw [hx, List.cons_append, skipSpace_cons hspace]

theorem IsBare.simpleKey_append (h : IsBare name) (hc : isBareKey c = false) :
    simpleKey (name.toList ++ c :: rest) = some (name, c :: rest) := by
  have htake : (name.toList ++ c :: rest).takeWhile isBareKey = name.toList := by
    rw [List.takeWhile_append_of_pos h.2, List.takeWhile_cons_of_neg (by simp [hc]), List.append_nil]
  have hdrop : (name.toList ++ c :: rest).dropWhile isBareKey = c :: rest := by
    rw [List.dropWhile_append_of_pos h.2, List.dropWhile_cons_of_neg (by simp [hc])]
  rw [simpleKey.eq_3 _ (fun _ => h.head_ne rfl) (fun _ => h.head_ne rfl), htake, hdrop,
    if_neg (by simpa using h.1), String.ofList_toList]

theorem IsBare.key_append (h : IsBare name) (hc : isBareKey c = false)
    (hdot : (skipSpace (c :: rest)).head? ≠ some '.') :
    key (name.toList ++ c :: rest) = some (([], name), skipSpace (c :: rest)) := by
  have hparts : keyParts maxDepth (name.toList ++ c :: rest) = some ([name], skipSpace (c :: rest)) := by
    rw [maxDepth, keyParts.eq_2, h.starts, h.simpleKey_append hc, Option.bind_eq_bind, Option.bind_some]
    dsimp only
    split
    · next heq => exact absurd (congrArg List.head? heq) hdot
    · rfl
  rw [key, hparts]
  rfl

end Keys

section Lines

variable {name : String} {s t : Reading} {root : Table} {v : Node} {text : List Char}

def headerLine (name : String) (rest : List Char) : List Char := '[' :: (name.toList ++ ']' :: '\n' :: rest)

def entryLine (name : String) (text rest : List Char) : List Char :=
  name.toList ++ ' ' :: '=' :: ' ' :: (text ++ '\n' :: rest)

def ReadsOn (s t : Reading) (x : List Char) : Prop := ∀ fuel, x.length < fuel → readLines fuel s x = some t

theorem ReadsOn.of_step {s' : Reading} {x y : List Char} (h : ReadsOn s' t x) (hlen : x.length < y.length)
    (hstep : ∀ fuel, readLines (fuel + 1) s y = readLines fuel s' x) : ReadsOn s t y := by
  intro fuel hfuel
  obtain ⟨fuel, rfl⟩ := Nat.exists_eq_add_one.2 (by omega : 0 < fuel)
  rw [hstep, h fuel (by omega)]

theorem readsOn_nil (s : Reading) : ReadsOn s s [] := by
  intro fuel hfuel
  obtain ⟨fuel, rfl⟩ := Nat.exists_eq_add_one.2 (by omega : 0 < fuel)
  rfl

theorem ReadsOn.blank (h : ReadsOn s t rest) : ReadsOn s t ('\n' :: rest) :=
  h.of_step (Nat.lt_succ_self _) fun _ => rfl

theorem ReadsOn.header (h : ReadsOn ⟨root, [name]⟩ t rest) (hname : IsBare name)
    (hroot : defineTable [] name s.root = some root) :
    ReadsOn s t (headerLine name rest) := by
  refine h.of_step (by simp only [headerLine, List.length_cons, List.length_append]; omega) fun fuel => ?_
  have hkey : key (name.toList ++ ']' :: '\n' :: rest) = some (([], name), ']' :: '\n' :: rest) :=
    hname.key_append rfl (by simp [skipSpace, isSpace])
  have hread : readHeader s (headerLine name rest) = some (⟨root, [name]⟩, rest) := by
    have hmark : mark ']' (']' :: '\n' :: rest) = some ('\n' :: rest) := rfl
    have hend : endLine ('\n' :: rest) = some rest := rfl
    rw [headerLine, readHeader.eq_2 _ _ fun _ => hname.head_ne rfl, hkey]
    simp [hmark, hroot, hend]
  rw [headerLine] at hread ⊢
  rw [readLines.eq_2, skipSpace_cons rfl]
  simp [hread]

theorem ReadsOn.entry (h : ReadsOn { s with root } t rest) (hname : IsBare name) (hvalue : IsValue text v)
    (hroot : within .implied s.header (addEntry [] name v) s.root = some root) :
    ReadsOn s t (entryLine name text rest) := by
  refine h.of_step (by simp only [entryLine, List.length_cons, List.length_append]; omega) fun fuel => ?_
  have hkey : key (name.toList ++ ' ' :: '=' :: ' ' :: (text ++ '\n' :: rest)) =
      some (([], name), '=' :: ' ' :: (text ++ '\n' :: rest)) :=
    hname.key_append rfl (by simp [skipSpace, isSpace])
  have hspace : skipSpace (' ' :: (text ++ '\n' :: rest)) = text ++ '\n' :: rest := hvalue.starts rest
  have hread : readEntry s (entryLine name text rest) = some ({ s with root }, rest) := by
    have hend : endLine ('\n' :: rest) = some rest := rfl
    rw [entryLine, readEntry, hkey]
    simp [hspace, hvalue.reads, hroot, hend]
  obtain ⟨c, x, hx, hc⟩ := hname.exists_cons
  have hopen : c ≠ '[' := ne_of_class hc rfl
  have hcomment : c ≠ '#' := ne_of_class hc rfl
  have hline (y : List Char) : newline? (c :: y) = none :=
    newline?_of_ne (ne_of_class hc rfl) (ne_of_class hc rfl)
  rw [entryLine] at hread ⊢
  rw [readLines.eq_2, hname.starts]
  rw [hx, List.cons_append] at hread ⊢
  simp [hopen, hcomment, hline, hread]

theorem within_addEntry {header : String} {before es : Entries}
    (hheader : Assoc.get? header before = some (.table .defined es)) (hnew : Assoc.get? name es = none) :
    within .implied [header] (addEntry [] name v) (.defined, before) =
      some (.defined, Assoc.put header (.table .defined (Assoc.put name v es)) before) := by
  simp [within, addEntry, hheader, hnew]

theorem read?_of_header {document : String} (htext : document.toList = headerLine name rest)
    (h : ReadsOn ⟨(.defined, []), []⟩ t (headerLine name rest)) : read? document = some t.root.2 := by
  have hmark : skipMark (headerLine name rest) = headerLine name rest := by
    rw [headerLine, skipMark, if_neg (by decide)]
  simp only [read?, htext, hmark]
  rw [h _ (Nat.lt_succ_self _), Option.map_some]

end Lines

end DraftKeeper.Toml
