import DraftKeeper.Proofs.Records
import DraftKeeper.Wire.Events

namespace DraftKeeper

open Json

namespace Delta

def InRange : Delta → Prop
  | .insert offset _ => offset ≤ 0xFFFFFFFFFFFFFFFF
  | .remove offset count =>
    offset ≤ 0xFFFFFFFFFFFFFFFF ∧ -0x8000000000000000 ≤ count ∧ count ≤ 0x7FFFFFFFFFFFFFFF

def tag : Delta → String
  | .insert .. => "INSERT"
  | .remove .. => "REMOVE"

def layout : Delta → Layout
  | .insert .. => insertLayout
  | .remove .. => removeLayout

def declared (d : Delta) : List String := "type" :: d.layout.names

def body : Delta → List (String × Json)
  | .insert offset text => [("offset", .integer offset), ("text", .string text)]
  | .remove offset count => [("offset", .integer offset), ("removedCharCount", .integer count)]

theorem toFields_eq (d : Delta) : d.toFields = ("type", .string d.tag) :: d.body := by cases d <;> rfl

theorem toJson_injective : Function.Injective toJson := by
  rintro (⟨offset, text⟩ | ⟨offset, count⟩) (⟨offset', text'⟩ | ⟨offset', count'⟩) h
  · simpa [toJson, toFields, Int.natCast_inj] using h
  · simp [toJson, toFields] at h
  · simp [toJson, toFields] at h
  · simpa [toJson, toFields, Int.natCast_inj] using h

theorem lookup_tag (d : Delta) : variants.lookup d.tag = some d.layout := by cases d <;> rfl

theorem nodup_declared (d : Delta) : d.declared.Nodup := by
  cases d with
  | insert => exact (by decide : ["type", "offset", "text"].Nodup)
  | remove => exact (by decide : ["type", "offset", "removedCharCount"].Nodup)

theorem names_toFields (d : Delta) : d.toFields.map (·.1) = d.declared := by cases d <;> rfl

theorem InRange.offset {d : Delta} (h : d.InRange) : asNatural .size (.integer d.offset) = .ok d.offset := by
  have hle : d.offset ≤ 0xFFFFFFFFFFFFFFFF := by
    cases d with
    | insert => exact h
    | remove => exact h.1
  refine asNatural_eq (Range.holds_iff.2 ?_)
  simp only [Range.size]
  omega

theorem InRange.count {offset : Nat} {count : Int} (h : (remove offset count).InRange) :
    asInteger .signed64 (.integer count) = .ok count := by
  obtain ⟨-, hleast, hgreatest⟩ := h
  refine asInteger_eq (Range.holds_iff.2 ?_)
  simp only [Range.signed64]
  omega

theorem fits_body {d : Delta} (h : d.InRange) : d.layout.Fits d.body := by
  cases d with
  | insert offset text =>
      refine List.forall_mem_cons.2 ⟨.inr ⟨_, rfl, check_of _ _ h.offset⟩, ?_⟩
      exact List.forall_mem_singleton.2 (.inr ⟨_, rfl, check_of (a := text) _ _ rfl⟩)
  | remove offset count =>
      refine List.forall_mem_cons.2 ⟨.inr ⟨_, rfl, check_of _ _ h.offset⟩, ?_⟩
      exact List.forall_mem_singleton.2 (.inr ⟨_, rfl, check_of _ _ h.count⟩)

theorem decode_eq {d : Delta} {fields : List (String × Json)} (form : TagForm) (h : d.InRange)
    (hagree : Agree d.declared d.toFields fields) : decode form (.object fields) = .ok d := by
  rw [toFields_eq] at hagree
  obtain ⟨rest, htagged, hrest⟩ := taggedFields_eq variants "EditDelta" form
    d.lookup_tag (fits_body h) d.nodup_declared (by cases d <;> rfl) hagree
  cases d with
  | insert offset text =>
      change Agree insertLayout.names _ rest at hrest
      have hoffset : need rest "offset" (asNatural .size) = .ok offset :=
        (hrest.need (by decide) _).trans h.offset
      have htext : getOr rest "text" "" asText = .ok text := hrest.getOr (by decide) _ _
      simp [decode, htagged, hoffset, htext, tag, bind, Except.bind, pure, Except.pure]
  | remove offset count =>
      change Agree removeLayout.names _ rest at hrest
      have hoffset : need rest "offset" (asNatural .size) = .ok offset :=
        (hrest.need (by decide) _).trans h.offset
      have hcount : getOr rest "removedCharCount" 0 (asInteger .signed64) = .ok count :=
        (hrest.getOr (by decide) _ _).trans h.count
      simp [decode, htagged, hoffset, hcount, tag, bind, Except.bind, pure, Except.pure]

end Delta

namespace Edit

/-- The names that an edit's form declares, those of its delta included. -/
def declared (e : Edit) : List String := "fileLocation" :: e.delta.declared

theorem nodup_declared (e : Edit) : e.declared.Nodup := by
  cases hd : e.delta with
  | insert => rw [declared, hd]; exact (by decide : ["fileLocation", "type", "offset", "text"].Nodup)
  | remove => rw [declared, hd]; exact (by decide : ["fileLocation", "type", "offset", "removedCharCount"].Nodup)

theorem toJson_injective : Function.Injective toJson := by
  rintro ⟨location, d⟩ ⟨location', d'⟩ h
  simp only [toJson, Json.object.injEq, List.cons.injEq, Prod.mk.injEq, Json.string.injEq, true_and] at h
  rw [h.1, Delta.toJson_injective (congrArg Json.object h.2)]

theorem ofJson_eq {e : Edit} {fields : List (String × Json)} (h : e.delta.InRange)
    (hagree : Agree e.declared (("fileLocation", .string e.location) :: e.delta.toFields) fields) :
    ofJson (.object fields) = .ok e := by
  have hcolumn : column "fileLocation" (("fileLocation", .string e.location) :: e.delta.toFields) =
      [("fileLocation", .string e.location)] := by
    cases hd : e.delta <;> rfl
  have hcheck : checkFields [required "fileLocation" asText] [] fields = .ok () :=
    checkFields_eq_ok (List.forall_mem_singleton.2 (.inr ⟨List.not_mem_nil, _,
      (hagree "fileLocation" List.mem_cons_self).trans hcolumn, check_of (a := e.location) _ _ rfl⟩))
  have hlocation : need fields "fileLocation" asText = .ok e.location := by
    rw [hagree.need List.mem_cons_self]
    rfl
  have hdelta := Delta.decode_eq .nameOrIndex h (hagree.without (List.nodup_cons.1 e.nodup_declared).1)
  simp only [ofJson, hcheck, hlocation, hdelta, bind, Except.bind, pure, Except.pure]

end Edit

namespace Tracking

def tag : Tracking → String
  | .start _ => "START"
  | .stop _ => "STOP"
  | .suspend _ => "SUSPEND"
  | .resume _ => "RESUME"
  | .move .. => "MOVE"

def layout : Tracking → Layout
  | .start _ => pathLayout "Start"
  | .stop _ => pathLayout "Stop"
  | .suspend _ => optionalPathLayout "Suspend"
  | .resume _ => optionalPathLayout "Resume"
  | .move .. => moveLayout

def declared (t : Tracking) : List String := "type" :: t.layout.names

def body : Tracking → List (String × Json)
  | .start p | .stop p => [("path", .string p)]
  | .suspend p | .resume p => optionalPath p
  | .move old new => [("oldPath", .string old), ("path", .string new)]

theorem toJson_eq (t : Tracking) : t.toJson = .object (("type", .string t.tag) :: t.body) := by cases t <;> rfl

theorem lookup_tag (t : Tracking) : variants.lookup t.tag = some t.layout := by cases t <;> rfl

theorem fits_body (t : Tracking) : t.layout.Fits t.body := by
  cases t with
  | start p | stop p =>
      exact List.forall_mem_singleton.2 (.inr ⟨_, rfl, check_of (a := p) _ _ rfl⟩)
  | suspend p | resume p =>
      cases p with
      | none => exact List.forall_mem_singleton.2 (.inl rfl)
      | some p => exact List.forall_mem_singleton.2 (.inr ⟨_, rfl, check_of (a := some p) _ _ rfl⟩)
  | move old new =>
      refine List.forall_mem_cons.2 ⟨.inr ⟨_, rfl, check_of (a := old) _ _ rfl⟩, ?_⟩
      exact List.forall_mem_singleton.2 (.inr ⟨_, rfl, check_of (a := new) _ _ rfl⟩)

theorem nodup_declared (t : Tracking) : t.declared.Nodup := by
  cases t with
  | start | stop | suspend | resume => exact (by decide : ["type", "path"].Nodup)
  | move => exact (by decide : ["type", "oldPath", "path"].Nodup)

theorem names_body (t : Tracking) : (t.body.map (·.1)).Sublist t.layout.names := by
  rcases t with _ | _ | (_ | _) | (_ | _) | _
  all_goals first
    | exact List.Sublist.refl _
    | exact List.nil_sublist _

theorem ofJson_eq {t : Tracking} {fields : List (String × Json)}
    (hagree : Agree t.declared (("type", .string t.tag) :: t.body) fields) : ofJson (.object fields) = .ok t := by
  obtain ⟨rest, htagged, hrest⟩ := taggedFields_eq variants "FileTrackingOperation" .name
    t.lookup_tag t.fits_body t.nodup_declared (by rcases t with _ | _ | (_ | _) | (_ | _) | _ <;> rfl) hagree
  have hmem : "path" ∈ t.layout.names := by
    cases t with
    | start | stop | suspend | resume => exact List.mem_cons_self
    | move => exact List.mem_cons_of_mem _ List.mem_cons_self
  cases t with
  | start p | stop p =>
      have hpath : need rest "path" asText = .ok p := hrest.need hmem _
      simp [ofJson, htagged, hpath, tag, bind, Except.bind, pure, Except.pure]
  | suspend p | resume p =>
      have hpath : getOr rest "path" none (asOption asText) = .ok p := by
        rw [hrest.getOr hmem]
        cases p <;> rfl
      simp [ofJson, htagged, hpath, tag, bind, Except.bind, pure, Except.pure]
  | move old new =>
      have hold : need rest "oldPath" asText = .ok old := hrest.need List.mem_cons_self _
      have hnew : need rest "path" asText = .ok new := hrest.need hmem _
      simp [ofJson, htagged, hold, hnew, tag, bind, Except.bind, pure, Except.pure]

theorem toJson_injective : Function.Injective toJson := by
  have hdecode (t : Tracking) : ofJson t.toJson = .ok t := by
    rw [toJson_eq]
    exact ofJson_eq fun _ _ => rfl
  intro t t' h
  exact Except.ok.inj ((hdecode t).symm.trans (h ▸ hdecode t'))

end Tracking

namespace ErrorReport

theorem toJson_injective : Function.Injective toJson := by
  rintro ⟨code, message⟩ ⟨code', message'⟩ h
  simpa [toJson, Int.natCast_inj] using h

theorem ofJson_eq {e : ErrorReport} {fields : List (String × Json)} (h : e.code ≤ 0xFFFF)
    (hagree : Agree layout.names [("code", .integer e.code), ("message", .string e.message)] fields) :
    ofJson (.object fields) = .ok e := by
  have hdecode : asNatural .unsigned16 (.integer e.code) = .ok e.code := by
    refine asNatural_eq (Range.holds_iff.2 ?_)
    simp only [Range.unsigned16]
    omega
  have hfits : layout.Fits [("code", .integer e.code), ("message", .string e.message)] := by
    refine List.forall_mem_cons.2 ⟨.inr ⟨_, rfl, check_of _ _ hdecode⟩, ?_⟩
    exact List.forall_mem_singleton.2 (.inr ⟨_, rfl, check_of (a := e.message) _ _ rfl⟩)
  have hcode : need fields "code" (asNatural .unsigned16) = .ok e.code :=
    (hagree.need (by decide) _).trans hdecode
  have hmessage : need fields "message" asText = .ok e.message := hagree.need (by decide) _
  simp only [ofJson, Layout.fields, hfits.ofFields hagree, hcode, hmessage, bind, Except.bind, pure, Except.pure]

end ErrorReport

/-- Edits, deltas, signals and error reports are decoded from any object that extends their form by undeclared
fields. -/
theorem events_decoded_from_extensions :
    (∀ (d : Delta) (v : Json), d.InRange → Extends d.declared d.toJson v → Delta.ofJson v = .ok d) ∧
    (∀ (e : Edit) (v : Json), e.delta.InRange → Extends e.declared e.toJson v → Edit.ofJson v = .ok e) ∧
    (∀ (t : Tracking) (v : Json), Extends t.declared t.toJson v → Tracking.ofJson v = .ok t) ∧
    (∀ (e : ErrorReport) (v : Json), e.code ≤ 0xFFFF → Extends ErrorReport.layout.names e.toJson v →
      ErrorReport.ofJson v = .ok e) ∧
    Function.Injective Delta.toJson ∧ Function.Injective Edit.toJson ∧ Function.Injective Tracking.toJson ∧
      Function.Injective ErrorReport.toJson := by
  refine ⟨fun d v hrange h => ?_, fun e v hrange h => ?_, fun t v h => ?_, fun e v hrange h => ?_,
    Delta.toJson_injective, Edit.toJson_injective, Tracking.toJson_injective, ErrorReport.toJson_injective⟩
  · obtain ⟨fields, rfl, hagree⟩ := h.agree (d.names_toFields ▸ d.nodup_declared)
    exact Delta.decode_eq .name hrange hagree
  · have hnames : e.declared = (("fileLocation", Json.string e.location) :: e.delta.toFields).map (·.1) :=
      congrArg _ e.delta.names_toFields.symm
    obtain ⟨fields, rfl, hagree⟩ := h.agree (hnames ▸ e.nodup_declared)
    exact Edit.ofJson_eq hrange hagree
  · rw [t.toJson_eq] at h
    obtain ⟨fields, rfl, hagree⟩ := h.agree (t.nodup_declared.sublist (t.names_body.cons_cons _))
    exact Tracking.ofJson_eq hagree
  · obtain ⟨fields, rfl, hagree⟩ := h.agree (by decide : ["code", "message"].Nodup)
    exact ErrorReport.ofJson_eq hrange hagree

theorem insertion_decoded_beside_count :
    Extends (Edit.declared ⟨"/p/a", .insert 3 "x"⟩) (Edit.toJson ⟨"/p/a", .insert 3 "x"⟩)
      (.object [("removedCharCount", .null), ("text", .string "x"), ("offset", .integer 3),
        ("type", .string "INSERT"), ("fileLocation", .string "/p/a")]) ∧
    Edit.ofJson (.object [("removedCharCount", .null), ("text", .string "x"), ("offset", .integer 3),
        ("type", .string "INSERT"), ("fileLocation", .string "/p/a")]) = .ok ⟨"/p/a", .insert 3 "x"⟩ := by
  have hextra : ∀ f ∈ [("removedCharCount", Json.null)], f.1 ∉ Edit.declared ⟨"/p/a", .insert 3 "x"⟩ :=
    List.forall_mem_singleton.2 (by decide)
  have hextends := Extends.mk
    (List.reverse_perm ((("fileLocation", .string "/p/a") :: (Delta.insert 3 "x").toFields) ++ _)) hextra
  have hrange : (Delta.insert 3 "x").InRange := (by decide : 3 ≤ 0xFFFFFFFFFFFFFFFF)
  exact ⟨hextends, events_decoded_from_extensions.2.1 ⟨"/p/a", .insert 3 "x"⟩ _ hrange hextends⟩

end DraftKeeper
