import DraftKeeper.Toml.Reader
import DraftKeeper.Toml.Writer

namespace DraftKeeper.Toml

variable {c q : Char} {cs rest x : List Char} {fuel r best : Nat} {long : Bool}

section Characters

theorem skipSpace_cons (hc : isSpace c = false) : skipSpace (c :: cs) = c :: cs :=
  List.dropWhile_cons_of_neg (by simp [hc])

theorem isPlain_of_not_needsCode (hcode : needsCode c = false) (hline : c ≠ '\n') : isPlain c = true := by
  by_cases htab : c = '\t'
  · rw [htab]
    rfl
  · simp only [needsCode, htab, hline, ne_eq, not_false_eq_true, decide_true, Bool.true_and,
      Bool.or_eq_false_iff, decide_eq_false_iff_not] at hcode
    simp only [isPlain, htab, decide_false, Bool.false_or, Bool.and_eq_true, decide_eq_true_eq]
    omega

theorem newline?_of_ne (hline : c ≠ '\n') (hreturn : c ≠ '\r') : newline? (c :: x) = none :=
  newline?.eq_3 _ (fun _ h => hline (List.cons.inj h).1) fun _ h => hreturn (List.cons.inj h).1

theorem newline?_of_isPlain (hplain : isPlain c = true) : newline? (c :: x) = none := by
  apply newline?_of_ne
  · rintro rfl
    exact absurd hplain (by decide)
  · rintro rfl
    exact absurd hplain (by decide)

theorem codePoint_append {ds : List Char} (hlen : ds.length = 4) (h : escape.codePoint 4 ds = some (c, [])) :
    escape.codePoint 4 (ds ++ rest) = some (c, rest) := by
  have htake : (ds ++ rest).take 4 = ds.take 4 := List.take_append_of_le_length (by omega)
  have hdrop : (ds ++ rest).drop 4 = rest := by rw [← hlen, List.drop_left]
  simp only [escape.codePoint, htake, hdrop] at h ⊢
  obtain ⟨hvalid, heq⟩ := Option.ite_none_right_eq_some.1 h
  obtain ⟨rfl, -⟩ := Prod.mk.inj (Option.some.inj heq)
  exact if_pos hvalid

theorem codePoint_digits : ∀ n < 128, needsCode (Char.ofNat n) = true →
    (unicodeEscape (Char.ofNat n)).take 2 = ['\\', 'u'] ∧
      ((unicodeEscape (Char.ofNat n)).drop 2).length = 4 ∧
      escape.codePoint 4 ((unicodeEscape (Char.ofNat n)).drop 2) = some (Char.ofNat n, []) := by decide

theorem escape_unicodeEscape (hcode : needsCode c = true) : ∃ ds, unicodeEscape c = '\\' :: 'u' :: ds ∧
    ∀ rest, escape ('u' :: (ds ++ rest)) = some (c, rest) := by
  have hsmall : c.toNat < 128 := by
    simp only [needsCode, Bool.and_eq_true, Bool.or_eq_true, decide_eq_true_eq] at hcode
    omega
  obtain ⟨hhead, hlen, hread⟩ := codePoint_digits c.toNat hsmall (by rwa [Char.ofNat_toNat])
  rw [Char.ofNat_toNat] at hhead hlen hread
  refine ⟨(unicodeEscape c).drop 2, ?_, fun rest => codePoint_append hlen hread⟩
  have hparts := List.take_append_drop 2 (unicodeEscape c)
  rw [hhead] at hparts
  exact hparts.symm

/-- A text that is read as one character between double quotes. -/
inductive StandsFor (long : Bool) (c : Char) : List Char → Prop
  | plain (hplain : isPlain c = true) (hquote : c ≠ '"') (hback : c ≠ '\\') : StandsFor long c [c]
  | line (hlong : long = true) (hline : c = '\n') : StandsFor long c ['\n']
  | escape {x ds} (hspace : isSpace x = false) (hline : x ≠ '\n') (hreturn : x ≠ '\r')
      (hread : ∀ rest, Toml.escape (x :: (ds ++ rest)) = some (c, rest)) : StandsFor long c ('\\' :: x :: ds)

theorem StandsFor.of_letter (x : Char) (hspace : isSpace x = false) (hline : x ≠ '\n') (hreturn : x ≠ '\r')
    (hread : ∀ rest, Toml.escape (x :: rest) = some (c, rest)) : StandsFor long c ['\\', x] :=
  .escape hspace hline hreturn hread

theorem escaped_of_ne_quote (long : Bool) (r : Nat) (cs : List Char) (hquote : c ≠ '"') :
    ∃ text, escaped long r (c :: cs) = text ++ escaped long 0 cs ∧ StandsFor long c text := by
  rw [escaped, if_neg hquote]
  refine ⟨_, rfl, ?_⟩
  by_cases hback : c = '\\'
  · rw [if_pos hback]
    exact .of_letter '\\' rfl (by decide) (by decide) fun rest => by rw [hback]; rfl
  by_cases htab : c = '\t'
  · rw [if_neg hback, if_pos htab]
    exact .of_letter 't' rfl (by decide) (by decide) fun rest => by rw [htab]; rfl
  by_cases hline : c = '\n'
  · rw [if_neg hback, if_neg htab, if_pos hline]
    cases long with
    | true => exact .line rfl hline
    | false => exact .of_letter 'n' rfl (by decide) (by decide) fun rest => by rw [hline]; rfl
  by_cases hreturn : c = '\r'
  · rw [if_neg hback, if_neg htab, if_neg hline, if_pos hreturn]
    exact .of_letter 'r' rfl (by decide) (by decide) fun rest => by rw [hreturn]; rfl
  rw [if_neg hback, if_neg htab, if_neg hline, if_neg hreturn]
  by_cases height : c.toNat = 8
  · rw [if_pos height]
    refine .of_letter 'b' rfl (by decide) (by decide) fun rest => ?_
    rw [← Char.ofNat_toNat c, height]
    rfl
  by_cases htwelve : c.toNat = 12
  · rw [if_neg height, if_pos htwelve]
    refine .of_letter 'f' rfl (by decide) (by decide) fun rest => ?_
    rw [← Char.ofNat_toNat c, htwelve]
    rfl
  rw [if_neg height, if_neg htwelve]
  cases hcode : needsCode c with
  | true =>
      obtain ⟨ds, hds, hread⟩ := escape_unicodeEscape hcode
      rw [if_pos rfl, hds]
      exact .escape rfl (by decide) (by decide) hread
  | false =>
      rw [if_neg Bool.false_ne_true]
      exact .plain (isPlain_of_not_needsCode hcode hline) hquote hback

theorem StandsFor.head_ne_quote {text : List Char} (h : StandsFor long c text) :
    (text ++ x).head? ≠ some '"' := by
  cases h with
  | plain hplain hquote hback => simpa using hquote
  | line hlong hline => simp
  | escape hspace hline hreturn hread => simp

theorem StandsFor.newline?_eq_none {text : List Char} (h : StandsFor long c text) (hline : c ≠ '\n') :
    newline? (text ++ x) = none := by
  cases h with
  | plain hplain hquote hback => exact newline?_of_isPlain hplain
  | line hlong hline' => exact absurd hline' hline
  | escape hspace hline hreturn hread => exact newline?_of_ne (by decide) (by decide)

theorem standsFor_quote (long : Bool) : StandsFor long '"' ['\\', '"'] :=
  .of_letter '"' rfl (by decide) (by decide) fun _ => rfl

end Characters

/-- A reader finds the characters `s` in a text and stops before `rest`, given a step for each character. -/
def Reads (read : Nat → Reader (List Char)) (x s rest : List Char) : Prop :=
  ∀ fuel, x.length < fuel → read fuel x = some (s, rest)

theorem Reads.of_step {read : Nat → Reader (List Char)} {y s t : List Char} (h : Reads read x s rest)
    (hlen : x.length < y.length) (hstep : ∀ fuel, read fuel x = some (s, rest) →
      read (fuel + 1) y = some (t, rest)) : Reads read y t rest := by
  intro fuel hfuel
  obtain ⟨fuel, rfl⟩ := Nat.exists_eq_add_one.2 (by omega : 0 < fuel)
  exact hstep fuel (h fuel (by omega))

section OneLine

theorem Reads.basic_standsFor {text s : List Char} (htext : StandsFor false c text)
    (h : Reads basic x s rest) : Reads basic (text ++ x) (c :: s) rest := by
  cases htext with
  | plain hplain hquote hback =>
      refine h.of_step (by simp) fun fuel hread => ?_
      rw [List.singleton_append, basic.eq_5 _ _ _ hquote hback, if_pos hplain, hread]
      rfl
  | line hlong hline => cases hlong
  | escape hspace hline hreturn hescape =>
      refine h.of_step (by simp only [List.length_append, List.length_cons]; omega) fun fuel hread => ?_
      rw [List.cons_append, List.cons_append, basic.eq_4, hescape]
      simp [hread]

theorem escaped_false_cons (r : Nat) (c : Char) (cs : List Char) :
    ∃ text, escaped false r (c :: cs) = text ++ escaped false 0 cs ∧ StandsFor false c text := by
  by_cases hquote : c = '"'
  · refine ⟨['\\', '"'], ?_, hquote ▸ standsFor_quote false⟩
    rw [escaped, if_pos hquote, if_neg (by simp)]
    rfl
  · exact escaped_of_ne_quote false r cs hquote

theorem reads_basic (r : Nat) (cs rest : List Char) :
    Reads basic (escaped false r cs ++ '"' :: rest) cs rest := by
  induction cs generalizing r with
  | nil =>
      intro fuel hfuel
      obtain ⟨fuel, rfl⟩ := Nat.exists_eq_add_one.2 (by omega : 0 < fuel)
      rfl
  | cons c cs ih =>
      obtain ⟨text, htext, hstands⟩ := escaped_false_cons r c cs
      rw [htext, List.append_assoc]
      exact (ih 0).basic_standsFor hstands

theorem string_basic (cs rest : List Char) (hrest : rest.head? ≠ some '"') :
    string ('"' :: escaped false 0 cs ++ '"' :: rest) = some (String.ofList cs, rest) := by
  have hread := reads_basic 0 cs rest _ (Nat.lt_succ_self _)
  rw [List.cons_append, string.eq_3, hread]
  · rfl
  · intro more hmore
    cases cs with
    | nil =>
        obtain rfl : rest = '"' :: more := (List.cons.inj hmore).2
        exact hrest rfl
    | cons c cs =>
        obtain ⟨text, htext, hstands⟩ := escaped_false_cons 0 c cs
        rw [htext, List.append_assoc] at hmore
        exact hstands.head_ne_quote (congrArg List.head? hmore)

theorem literal_of_plain (hplain : ∀ c ∈ cs, isPlain c = true ∧ c ≠ '\'') :
    literal (cs ++ '\'' :: rest) = some (cs, rest) := by
  induction cs with
  | nil => rfl
  | cons c cs ih =>
      obtain ⟨⟨hc, hquote⟩, hcs⟩ := List.forall_mem_cons.1 hplain
      rw [List.cons_append, literal.eq_3 _ _ hquote, if_pos hc, ih hcs]
      rfl

theorem string_literal (hplain : ∀ c ∈ cs, isPlain c = true ∧ c ≠ '\'') (hrest : rest.head? ≠ some '\'') :
    string ('\'' :: cs ++ '\'' :: rest) = some (String.ofList cs, rest) := by
  rw [List.cons_append, string.eq_4, literal_of_plain hplain]
  · rfl
  · intro more hmore
    cases cs with
    | nil =>
        obtain rfl : rest = '\'' :: more := (List.cons.inj hmore).2
        exact hrest rfl
    | cons c cs => exact (hplain c List.mem_cons_self).2 (List.cons.inj hmore).1

end OneLine

section ManyLines

theorem quotes_replicate (r : Nat) (hx : x.head? ≠ some q) : quotes q (List.replicate r q ++ x) = (r, x) := by
  have hnone : x.takeWhile (· = q) = [] ∧ x.dropWhile (· = q) = x := by
    cases x with
    | nil => exact ⟨rfl, rfl⟩
    | cons c x => simp_all
  rw [quotes, List.takeWhile_append_of_pos (by simp), List.dropWhile_append_of_pos (by simp), hnone.1, hnone.2,
    List.append_nil, List.length_replicate]

theorem Reads.quotes {escapes : Bool} {s : List Char} (h : Reads (multiline q escapes) x s rest) (hr : r ≤ 2)
    (hx : x.head? ≠ some q) :
    Reads (multiline q escapes) (List.replicate r q ++ x) (List.replicate r q ++ s) rest := by
  cases r with
  | zero => exact h
  | succ r =>
      refine h.of_step (by simp) fun fuel hread => ?_
      rw [List.replicate_succ, List.cons_append, multiline.eq_3, if_pos rfl, ← List.cons_append,
        ← List.replicate_succ, quotes_replicate (r + 1) hx]
      dsimp only
      rw [if_neg (by omega), if_neg (by omega), hread]
      rfl

theorem reads_end {escapes : Bool} (hr : r ≤ 2) (hrest : rest.head? ≠ some q) :
    Reads (multiline q escapes) (List.replicate r q ++ (threeOf q ++ rest)) (List.replicate r q) rest := by
  have htext : List.replicate r q ++ (threeOf q ++ rest) = List.replicate (r + 3) q ++ rest := by
    rw [← List.append_assoc]
    exact congrArg (· ++ rest) (List.replicate_append_replicate (n := r) (m := 3))
  intro fuel hfuel
  obtain ⟨fuel, rfl⟩ := Nat.exists_eq_add_one.2 (by omega : 0 < fuel)
  rw [htext, List.replicate_succ, List.cons_append, multiline.eq_3, if_pos rfl, ← List.cons_append,
    ← List.replicate_succ, quotes_replicate (r + 3) hrest]
  dsimp only
  rw [if_neg (by omega), if_pos (by omega), Nat.add_sub_cancel]

theorem Reads.standsFor {text s : List Char} (htext : StandsFor true c text)
    (h : Reads (multiline '"' true) x s rest) : Reads (multiline '"' true) (text ++ x) (c :: s) rest := by
  cases htext with
  | plain hplain hquote hback =>
      refine h.of_step (by simp) fun fuel hread => ?_
      rw [List.singleton_append, multiline.eq_3, if_neg hquote, if_neg (by simp [hback]),
        newline?_of_isPlain hplain]
      dsimp only
      rw [if_pos hplain, hread]
      rfl
  | line hlong hline =>
      refine h.of_step (by simp) fun fuel hread => ?_
      rw [List.singleton_append, multiline.eq_3, if_neg (by decide), if_neg (by decide), hline]
      simp [newline?, hread]
  | escape hspace hline hreturn hescape =>
      refine h.of_step (by simp only [List.length_append, List.length_cons]; omega) fun fuel hread => ?_
      rw [List.cons_append, List.cons_append, multiline.eq_3, if_neg (by decide), if_pos ⟨rfl, rfl⟩,
        skipSpace_cons hspace, newline?_of_ne hline hreturn, hescape]
      simp [hread]

/-- Quotes stand as they are until two have come in a row; the third one is escaped. -/
theorem reads_escaped (hr : r ≤ 2) (hrest : rest.head? ≠ some '"') : Reads (multiline '"' true)
    (List.replicate r '"' ++ (escaped true r cs ++ (threeOf '"' ++ rest))) (List.replicate r '"' ++ cs) rest := by
  induction cs generalizing r with
  | nil =>
      rw [escaped, List.nil_append, List.append_nil]
      exact reads_end hr hrest
  | cons c cs ih =>
      have hfresh : Reads (multiline '"' true) (escaped true 0 cs ++ (threeOf '"' ++ rest)) cs rest :=
        ih (Nat.zero_le 2)
      by_cases hquote : c = '"'
      · rw [escaped, if_pos hquote, if_pos rfl, hquote]
        by_cases hroom : r < 2
        · have hnext := ih (r := r + 1) (by omega)
          rw [List.replicate_succ', List.append_assoc, List.append_assoc] at hnext
          rw [if_pos hroom]
          exact hnext
        · rw [if_neg hroom]
          exact (hfresh.standsFor (standsFor_quote true)).quotes hr (standsFor_quote true).head_ne_quote
      · obtain ⟨text, htext, hstands⟩ := escaped_of_ne_quote true r cs hquote
        rw [htext, List.append_assoc]
        exact (hfresh.standsFor hstands).quotes hr hstands.head_ne_quote

/-- The longest run so far and the one that is going on, after one more character. -/
def runStep (q : Char) (runs : Nat × Nat) (c : Char) : Nat × Nat :=
  if c = q then (max runs.1 (runs.2 + 1), runs.2 + 1) else (runs.1, 0)

theorem longestRun_eq (q : Char) (cs : List Char) : longestRun q cs = (cs.foldl (runStep q) (0, 0)).1 := rfl

theorem le_foldl_runStep (q : Char) (cs : List Char) (runs : Nat × Nat) : runs.1 ≤ (cs.foldl (runStep q) runs).1 := by
  induction cs generalizing runs with
  | nil => exact Nat.le_refl _
  | cons c cs ih =>
      refine Nat.le_trans ?_ (ih (runStep q runs c))
      rw [runStep]
      split
      · exact Nat.le_max_left ..
      · exact Nat.le_refl _

theorem Reads.verbatim {s : List Char} (h : Reads (multiline '\'' false) x s rest) (hquote : c ≠ '\'')
    (hcode : needsCode c = false) : Reads (multiline '\'' false) (c :: x) (c :: s) rest := by
  refine h.of_step (Nat.lt_succ_self _) fun fuel hread => ?_
  rw [multiline.eq_3, if_neg hquote, if_neg (by simp)]
  by_cases hline : c = '\n'
  · simp [hline, newline?, hread]
  · have hplain := isPlain_of_not_needsCode hcode hline
    rw [newline?_of_isPlain hplain]
    dsimp only
    rw [if_pos hplain, hread]
    rfl

theorem reads_verbatim (hcode : ∀ c ∈ cs, needsCode c = false) (hrest : rest.head? ≠ some '\'')
    (hruns : (cs.foldl (runStep '\'') (best, r)).1 ≤ 2) (hr : r ≤ 2) : Reads (multiline '\'' false)
      (List.replicate r '\'' ++ (cs ++ (threeOf '\'' ++ rest))) (List.replicate r '\'' ++ cs) rest := by
  induction cs generalizing r best with
  | nil =>
      rw [List.nil_append, List.append_nil]
      exact reads_end hr hrest
  | cons c cs ih =>
      obtain ⟨hc, hcs⟩ := List.forall_mem_cons.1 hcode
      rw [List.foldl_cons, runStep] at hruns
      by_cases hquote : c = '\''
      · rw [if_pos hquote] at hruns
        have hlast := le_foldl_runStep '\'' cs (max best (r + 1), r + 1)
        dsimp only at hruns hlast
        have hnext := ih hcs hruns (by omega)
        rw [List.replicate_succ', List.append_assoc, List.append_assoc] at hnext
        rw [hquote]
        exact hnext
      · rw [if_neg hquote] at hruns
        have hfresh : Reads (multiline '\'' false) (cs ++ (threeOf '\'' ++ rest)) cs rest :=
          ih hcs hruns (Nat.zero_le 2)
        exact (hfresh.verbatim hquote hc).quotes hr (by simpa using hquote)

theorem skipFirst_of_newline? (h : newline? x = none) : skipFirst x = x := by
  rw [skipFirst, h, Option.getD_none]

theorem string_threeOf (hq : q = '"' ∨ q = '\'') (x : List Char) : string (threeOf q ++ x) =
    (multiline q (q = '"') (x.length + 1) (skipFirst x)).map fun (s, r) => (String.ofList s, r) := by
  rcases hq with rfl | rfl <;> rfl

/-- A line end after the opening quotes is written if there are others, and does not count. -/
theorem string_opening {s : List Char} {hasLine : Bool} (hq : q = '"' ∨ q = '\'')
    (h : Reads (multiline q (q = '"')) x s rest) (hline : hasLine = false → newline? x = none) :
    string (opening hasLine q ++ x) = some (String.ofList s, rest) := by
  cases hasLine with
  | true =>
      have hread := h (('\n' :: x).length + 1) (Nat.lt_succ_of_lt (Nat.lt_succ_self _))
      have hskip : skipFirst ('\n' :: x) = x := rfl
      rw [opening, if_pos rfl, List.append_assoc, string_threeOf hq, List.singleton_append, hskip, hread]
      rfl
  | false =>
      have hread := h (x.length + 1) (Nat.lt_succ_self _)
      rw [opening, if_neg Bool.false_ne_true, List.append_nil, string_threeOf hq,
        skipFirst_of_newline? (hline rfl), hread]
      rfl

theorem newline?_escaped (hline : '\n' ∉ cs) : newline? (escaped true 0 cs ++ (threeOf '"' ++ rest)) = none := by
  cases cs with
  | nil => rfl
  | cons c cs =>
      by_cases hquote : c = '"'
      · rw [escaped, if_pos hquote, if_pos rfl, if_pos Nat.two_pos]
        rfl
      · obtain ⟨text, htext, hstands⟩ := escaped_of_ne_quote true 0 cs hquote
        rw [htext, List.append_assoc]
        exact hstands.newline?_eq_none fun hc => hline (hc ▸ List.mem_cons_self)

theorem newline?_verbatim (hcode : ∀ c ∈ cs, needsCode c = false) (hline : '\n' ∉ cs) :
    newline? (cs ++ (threeOf '\'' ++ rest)) = none := by
  cases cs with
  | nil => rfl
  | cons c cs =>
      have hc : c ≠ '\n' := fun hc => hline (hc ▸ List.mem_cons_self)
      exact newline?_of_isPlain (isPlain_of_not_needsCode (hcode c List.mem_cons_self) hc)

end ManyLines

section Forms

variable {s : String} {hasLine : Bool}

theorem string_escaped (hline : hasLine = false → '\n' ∉ s.toList) (hrest : rest.head? ≠ some '"') :
    string (opening hasLine '"' ++ escaped true 0 s.toList ++ threeOf '"' ++ rest) = some (s, rest) := by
  have hread : Reads (multiline '"' true) (escaped true 0 s.toList ++ (threeOf '"' ++ rest)) s.toList rest :=
    reads_escaped (Nat.zero_le 2) hrest
  have h := string_opening (.inl rfl) hread fun h => newline?_escaped (hline h)
  rwa [String.ofList_toList, ← List.append_assoc, ← List.append_assoc] at h

theorem string_verbatim (hcode : ∀ c ∈ s.toList, needsCode c = false) (hruns : longestRun '\'' s.toList ≤ 2)
    (hline : hasLine = false → '\n' ∉ s.toList) (hrest : rest.head? ≠ some '\'') :
    string (opening hasLine '\'' ++ s.toList ++ threeOf '\'' ++ rest) = some (s, rest) := by
  have hread : Reads (multiline '\'' false) (s.toList ++ (threeOf '\'' ++ rest)) s.toList rest :=
    reads_verbatim hcode hrest hruns (Nat.zero_le 2)
  have h := string_opening (.inr rfl) hread fun h => newline?_verbatim hcode (hline h)
  rwa [String.ofList_toList, ← List.append_assoc, ← List.append_assoc] at h

theorem ne_of_longestRun_eq_zero (h : longestRun q cs = 0) : ∀ c ∈ cs, c ≠ q := by
  rintro c hc rfl
  obtain ⟨before, after, rfl⟩ := List.append_of_mem hc
  rw [longestRun_eq, List.foldl_append, List.foldl_cons, runStep, if_pos rfl] at h
  generalize List.foldl (runStep c) (0, 0) before = runs at h
  have hone := le_foldl_runStep c after (max runs.1 (runs.2 + 1), runs.2 + 1)
  dsimp only at hone
  omega

theorem string_stringText (s : String) (hdouble : rest.head? ≠ some '"') (hsingle : rest.head? ≠ some '\'') :
    string ((stringText s).toList ++ rest) = some (s, rest) := by
  have hbasic : string ('"' :: escaped false 0 s.toList ++ ['"'] ++ rest) = some (s, rest) := by
    have h := string_basic s.toList rest hdouble
    rwa [String.ofList_toList, List.append_cons] at h
  have hcodes (h : (!s.toList.any needsCode) = true) : ∀ c ∈ s.toList, needsCode c = false := by
    simpa [List.any_eq_false] using h
  simp only [stringText, String.toList_ofList]
  -- one goal for each form, in the order in which the forms are tried
  split
  · exact hbasic
  split
  · next h =>
      simp only [Bool.and_eq_true, decide_eq_true_eq] at h
      obtain ⟨⟨hcode, hruns⟩, hline⟩ := h
      have hplain : ∀ c ∈ s.toList, isPlain c = true ∧ c ≠ '\'' := fun c hc => by
        refine ⟨isPlain_of_not_needsCode (hcodes hcode c hc) ?_, ne_of_longestRun_eq_zero hruns c hc⟩
        rintro rfl
        simp [hc] at hline
      have hread := string_literal hplain hsingle
      rwa [String.ofList_toList, List.append_cons] at hread
  split
  · exact string_escaped (by simp) hdouble
  split
  · next h =>
      simp only [Bool.and_eq_true, decide_eq_true_eq] at h
      exact string_verbatim (hcodes h.1) h.2 (by simp) hsingle
  split
  · exact string_escaped (by simp) hdouble
  · exact hbasic

end Forms

end DraftKeeper.Toml
