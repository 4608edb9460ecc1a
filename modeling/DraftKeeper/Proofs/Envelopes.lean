import DraftKeeper.Proofs.Records
import DraftKeeper.Wire.Envelope

namespace DraftKeeper

open Json

/-- What is left of an optional value when a null stands for its absence. -/
def present : Option Json → Option Json
  | some .null => none
  | v => v

variable {n : String} {v : Option Json} {fields : List (String × Json)}

theorem present_eq_self : present v = v ↔ v ≠ some .null := by
  cases v with
  | none => simp [present]
  | some w => cases w <;> simp [present]

theorem asOption_asValue {w : Json} (h : v = some w) : asOption asValue w = .ok (present v) := by
  rw [h]
  cases w <;> rfl

@[simp]
theorem column_optionalField (n m : String) (v : Option Json) :
    column n (optionalField m v) = if m = n then optionalField m v else [] := by
  cases v <;> simp [optionalField, column, List.filter_cons]

theorem getOr_optionalField {α : Type} {a : Option α} {decode : Decoder α}
    (hcolumn : column n fields = optionalField n v) (habsent : v = none → a = none)
    (hdecode : ∀ w, v = some w → asOption decode w = .ok a) : getOr fields n none (asOption decode) = .ok a := by
  rw [getOr, field?_eq, hcolumn]
  cases v with
  | none => exact congrArg Except.ok (habsent rfl).symm
  | some w => exact hdecode w rfl

theorem getOr_optionalValue (hcolumn : column n fields = optionalField n v) :
    getOr fields n none (asOption asValue) = .ok (present v) :=
  getOr_optionalField hcolumn (fun h => by rw [h]; rfl) fun _ h => asOption_asValue h

theorem fits_optionalField {α : Type} {a : Option α} {decode : Decoder α} (absent : Bool)
    (hcolumn : column n fields = optionalField n v) (hdecode : ∀ w, v = some w → asOption decode w = .ok a) :
    column n fields = [] ∨
      ∃ w, column n fields = [(n, w)] ∧ (Member.of n (asOption decode) absent).check w = .ok () := by
  cases v with
  | none => exact .inl hcolumn
  | some w => exact .inr ⟨w, hcolumn, check_of _ _ (hdecode w rfl)⟩

namespace CallId

def InRange : CallId → Prop
  | .number n => Range.signed64.holds n
  | .string _ | .null => True

theorem ofJson_toJson {id : CallId} (h : id.InRange) : ofJson id.toJson = .ok id := by
  cases id with
  | number n => exact if_pos h
  | string s => rfl
  | null => rfl

end CallId

namespace Request

def InRange (r : Request) : Prop := ∀ id, r.id = some id → id.InRange

def received (r : Request) : Request :=
  { r with params := present r.params, id := r.id.filter (· ≠ .null) }

def form (r : Request) : List (String × Json) :=
  [("jsonrpc", .string r.jsonrpc), ("method", .string r.method)] ++ optionalField "params" r.params ++
    optionalField "id" (r.id.map CallId.toJson)

/-- The object has the request's fields, in any order and maybe among others. -/
def IsForm (r : Request) (v : Json) : Prop := Extends layout.names (.object r.form) v

theorem isForm_toJson (r : Request) : r.IsForm r.toJson := .refl _ _

theorem nodup_form (r : Request) : (r.form.map (·.1)).Nodup := by
  rcases r with ⟨_, _, _ | _, _ | _⟩ <;> simp [form, optionalField]

theorem column_params (r : Request) : column "params" r.form = optionalField "params" r.params := by
  simp [form]

theorem column_id (r : Request) : column "id" r.form = optionalField "id" (r.id.map CallId.toJson) := by
  simp [form]

theorem read_id {r : Request} (hrange : r.InRange) {w : Json} (h : r.id.map CallId.toJson = some w) :
    asOption CallId.ofJson w = .ok (r.id.filter (· ≠ .null)) := by
  obtain ⟨id, hid, rfl⟩ := Option.map_eq_some_iff.1 h
  have hread := CallId.ofJson_toJson (hrange id hid)
  rw [hid]
  cases id with
  | null => rfl
  | number n => exact congrArg (Except.map some) hread
  | string s => rfl

theorem fits_form {r : Request} (hrange : r.InRange) : layout.Fits r.form := by
  refine List.forall_mem_cons.2 ⟨.inr ⟨.string r.jsonrpc, ?_, check_of (a := r.jsonrpc) _ _ rfl⟩, ?_⟩
  · simp [form, required, Member.of]
  refine List.forall_mem_cons.2 ⟨.inr ⟨.string r.method, ?_, check_of (a := r.method) _ _ rfl⟩, ?_⟩
  · simp [form, required, Member.of]
  refine List.forall_mem_cons.2 ⟨fits_optionalField _ r.column_params fun _ h => asOption_asValue h, ?_⟩
  exact List.forall_mem_singleton.2 (fits_optionalField _ r.column_id fun _ h => read_id hrange h)

theorem ofJson_eq {r : Request} {v : Json} (hrange : r.InRange) (h : r.IsForm v) : ofJson v = .ok r.received := by
  obtain ⟨fields, rfl, hagree⟩ := h.agree r.nodup_form
  have hjsonrpc : need fields "jsonrpc" asText = .ok r.jsonrpc := hagree.need (by decide) _
  have hmethod : need fields "method" asText = .ok r.method := hagree.need (by decide) _
  have hparams : getOr fields "params" none (asOption asValue) = .ok (present r.params) :=
    getOr_optionalValue ((hagree _ (by decide)).trans r.column_params)
  have hid : getOr fields "id" none (asOption CallId.ofJson) = .ok (r.id.filter (· ≠ .null)) :=
    getOr_optionalField ((hagree _ (by decide)).trans r.column_id)
      (fun h => by rw [Option.map_eq_none_iff.1 h]; rfl) fun _ h => read_id hrange h
  simp only [ofJson, Layout.fields, (fits_form hrange).ofFields hagree, hjsonrpc, hmethod, hparams, hid, bind,
    Except.bind, pure, Except.pure, received]

theorem received_eq_self {r : Request} : r.received = r ↔ r.params ≠ some .null ∧ r.id ≠ some .null := by
  obtain ⟨jsonrpc, method, params, id⟩ := r
  rw [received, Request.mk.injEq, present_eq_self]
  rcases id with _ | (n | s | _) <;> simp [Option.filter]

theorem isNotification_received {r : Request} : r.received.isNotification ↔ r.id = none ∨ r.id = some .null := by
  rw [isNotification, received, Option.isNone_iff_eq_none, Option.filter_eq_none_iff]
  rcases r.id with _ | (n | s | _) <;> simp

end Request

namespace ErrorObject

def InRange (e : ErrorObject) : Prop := Range.signed32.holds e.code

def received (e : ErrorObject) : ErrorObject := { e with data := present e.data }

def form (e : ErrorObject) : List (String × Json) :=
  [("code", .integer e.code), ("message", .string e.message)] ++ optionalField "data" e.data

/-- The object has the error's fields, in any order and maybe among others. -/
def IsForm (e : ErrorObject) (v : Json) : Prop := Extends layout.names (.object e.form) v

theorem isForm_toJson (e : ErrorObject) : e.IsForm e.toJson := .refl _ _

theorem nodup_form (e : ErrorObject) : (e.form.map (·.1)).Nodup := by
  rcases e with ⟨_, _, _ | _⟩ <;> simp [form, optionalField]

theorem column_data (e : ErrorObject) : column "data" e.form = optionalField "data" e.data := by
  simp [form]

theorem fits_form {e : ErrorObject} (hrange : e.InRange) : layout.Fits e.form := by
  refine List.forall_mem_cons.2 ⟨.inr ⟨.integer e.code, ?_, check_of _ _ (asInteger_eq hrange)⟩, ?_⟩
  · simp [form, required, Member.of]
  refine List.forall_mem_cons.2 ⟨.inr ⟨.string e.message, ?_, check_of (a := e.message) _ _ rfl⟩, ?_⟩
  · simp [form, required, Member.of]
  exact List.forall_mem_singleton.2 (fits_optionalField _ e.column_data fun _ h => asOption_asValue h)

theorem ofJson_eq {e : ErrorObject} {v : Json} (hrange : e.InRange) (h : e.IsForm v) : ofJson v = .ok e.received := by
  obtain ⟨fields, rfl, hagree⟩ := h.agree e.nodup_form
  have hcode : need fields "code" (asInteger .signed32) = .ok e.code :=
    (hagree.need (by decide) _).trans (asInteger_eq hrange)
  have hmessage : need fields "message" asText = .ok e.message := hagree.need (by decide) _
  have hdata : getOr fields "data" none (asOption asValue) = .ok (present e.data) :=
    getOr_optionalValue ((hagree _ (by decide)).trans e.column_data)
  simp only [ofJson, Layout.fields, (fits_form hrange).ofFields hagree, hcode, hmessage, hdata, bind,
    Except.bind, pure, Except.pure, received]

theorem received_eq_self {e : ErrorObject} : e.received = e ↔ e.data ≠ some .null := by
  obtain ⟨code, message, data⟩ := e
  rw [received, ErrorObject.mk.injEq, present_eq_self]
  simp

end ErrorObject

namespace Response

def InRange (r : Response) : Prop := r.id.InRange ∧ ∀ e, r.error = some e → e.InRange

def received (r : Response) : Response :=
  { r with result := present r.result, error := r.error.map ErrorObject.received }

def form (r : Response) (error : Option Json) : List (String × Json) :=
  [("jsonrpc", .string r.jsonrpc)] ++ optionalField "result" r.result ++ optionalField "error" error ++
    [("id", r.id.toJson)]

/-- The object has the response's fields, and in its error the error's fields. -/
def IsForm (r : Response) (v : Json) : Prop :=
  ∃ error, Option.Rel ErrorObject.IsForm r.error error ∧ Extends layout.names (.object (r.form error)) v

theorem isForm_toJson (r : Response) : r.IsForm r.toJson := by
  refine ⟨r.error.map ErrorObject.toJson, ?_, .refl _ _⟩
  cases r.error with
  | none => exact .none
  | some e => exact .some e.isForm_toJson

variable {error : Option Json}

theorem nodup_form (r : Response) (error : Option Json) : ((r.form error).map (·.1)).Nodup := by
  rcases r with ⟨_, _ | _, _, _⟩ <;> cases error <;> simp [form, optionalField]

theorem column_result (r : Response) : column "result" (r.form error) = optionalField "result" r.result := by
  simp [form]

theorem column_error (r : Response) : column "error" (r.form error) = optionalField "error" error := by simp [form]

theorem column_id (r : Response) : column "id" (r.form error) = [("id", r.id.toJson)] := by simp [form]

theorem error_cases {found : Option ErrorObject} (h : Option.Rel ErrorObject.IsForm found error) :
    (found = none ∧ error = none) ∨ ∃ e w, found = some e ∧ error = some w ∧ e.IsForm w := by
  cases h with
  | none => exact .inl ⟨rfl, rfl⟩
  | some hform => exact .inr ⟨_, _, rfl, rfl, hform⟩

theorem read_error {r : Response} (hrange : r.InRange) (herror : Option.Rel ErrorObject.IsForm r.error error)
    {w : Json} (h : error = some w) :
    asOption ErrorObject.ofJson w = .ok (r.error.map ErrorObject.received) := by
  rcases error_cases herror with ⟨-, hnone⟩ | ⟨e, w', he, hw, hform⟩
  · rw [hnone] at h
    cases h
  · obtain rfl : w' = w := Option.some.inj (hw.symm.trans h)
    have hread := ErrorObject.ofJson_eq (hrange.2 e he) hform
    rw [he]
    cases hform
    exact congrArg (Except.map some) hread

theorem fits_form {r : Response} (hrange : r.InRange) (herror : Option.Rel ErrorObject.IsForm r.error error) :
    layout.Fits (r.form error) := by
  refine List.forall_mem_cons.2 ⟨.inr ⟨.string r.jsonrpc, ?_, check_of (a := r.jsonrpc) _ _ rfl⟩, ?_⟩
  · simp [form, required, Member.of]
  refine List.forall_mem_cons.2 ⟨fits_optionalField _ r.column_result fun _ h => asOption_asValue h, ?_⟩
  refine List.forall_mem_cons.2 ⟨fits_optionalField _ r.column_error fun _ h => read_error hrange herror h, ?_⟩
  exact List.forall_mem_singleton.2 (.inr ⟨_, r.column_id, check_of _ _ (CallId.ofJson_toJson hrange.1)⟩)

theorem ofJson_eq {r : Response} {v : Json} (hrange : r.InRange) (h : r.IsForm v) : ofJson v = .ok r.received := by
  obtain ⟨error, herror, hextends⟩ := h
  obtain ⟨fields, rfl, hagree⟩ := hextends.agree (r.nodup_form error)
  have hjsonrpc : need fields "jsonrpc" asText = .ok r.jsonrpc := hagree.need (by decide) _
  have hresult : getOr fields "result" none (asOption asValue) = .ok (present r.result) :=
    getOr_optionalValue ((hagree _ (by decide)).trans r.column_result)
  have herr : getOr fields "error" none (asOption ErrorObject.ofJson) = .ok (r.error.map .received) := by
    refine getOr_optionalField ((hagree _ (by decide)).trans r.column_error) (fun h => ?_)
      fun _ h => read_error hrange herror h
    rcases error_cases herror with ⟨hnone, -⟩ | ⟨e, w, -, hw, -⟩
    · rw [hnone]
      rfl
    · cases hw.symm.trans h
  have hid : need fields "id" CallId.ofJson = .ok r.id := by
    rw [need, field?_eq, hagree _ (by decide), column_id]
    exact CallId.ofJson_toJson hrange.1
  simp only [ofJson, Layout.fields, (fits_form hrange herror).ofFields hagree, hjsonrpc, hresult, herr, hid, bind,
    Except.bind, pure, Except.pure, received]

theorem received_eq_self {r : Response} :
    r.received = r ↔ r.result ≠ some .null ∧ ∀ e, r.error = some e → e.data ≠ some .null := by
  obtain ⟨jsonrpc, result, error, id⟩ := r
  rw [received, Response.mk.injEq, present_eq_self]
  cases error with
  | none => simp
  | some e => simp [ErrorObject.received_eq_self]

end Response

/-- Envelopes come back from their forms, a null in an optional field apart: with it a request loses its params, or
its id and so the response, and a response its result. -/
theorem envelope_comes_back_iff (r : Request) (s : Response) (e : ErrorObject) (hr : r.InRange) (hs : s.InRange)
    (he : e.InRange) :
    ((∀ v, r.IsForm v → Request.ofJson v = .ok r.received) ∧
      (Request.ofJson r.toJson = .ok r ↔ r.params ≠ some .null ∧ r.id ≠ some .null) ∧
      ∃ r', Request.ofJson r.toJson = .ok r' ∧ (r'.isNotification ↔ r.id = none ∨ r.id = some .null)) ∧
    ((∀ v, s.IsForm v → Response.ofJson v = .ok s.received) ∧
      (Response.ofJson s.toJson = .ok s ↔
        s.result ≠ some .null ∧ ∀ e, s.error = some e → e.data ≠ some .null) ∧
      ∃ s', Response.ofJson s.toJson = .ok s' ∧ (s'.result = s.result ↔ s.result ≠ some .null)) ∧
    (∀ v, e.IsForm v → ErrorObject.ofJson v = .ok e.received) ∧
      (ErrorObject.ofJson e.toJson = .ok e ↔ e.data ≠ some .null) := by
  have hrequest := Request.ofJson_eq hr r.isForm_toJson
  have hresponse := Response.ofJson_eq hs s.isForm_toJson
  have herror := ErrorObject.ofJson_eq he e.isForm_toJson
  refine ⟨⟨fun v => Request.ofJson_eq hr, ?_, _, hrequest, ?_⟩, ⟨fun v => Response.ofJson_eq hs, ?_, _, hresponse, ?_⟩,
    fun v => ErrorObject.ofJson_eq he, ?_⟩
  · rw [hrequest, Except.ok.injEq, Request.received_eq_self]
  · exact Request.isNotification_received
  · rw [hresponse, Except.ok.injEq, Response.received_eq_self]
  · exact present_eq_self
  · rw [herror, Except.ok.injEq, ErrorObject.received_eq_self]

theorem numbered_envelopes_come_back :
    let r := Request.new "m" (some (.array [.null])) (.number 7)
    let s := Response.success (.number 7) (.bool true)
    let e : ErrorObject := ⟨-32700, "Parse error", some (.array [.null])⟩
    Request.ofJson r.toJson = .ok r ∧ Response.ofJson s.toJson = .ok s ∧ ErrorObject.ofJson e.toJson = .ok e := by
  intro r s e
  have hseven : (CallId.number 7).InRange := (by decide : Range.signed64.holds 7 = true)
  have hr : r.InRange := fun id hid => Option.some.inj hid ▸ hseven
  have hs : s.InRange := ⟨hseven, fun e he => by cases he⟩
  have he : e.InRange := (by decide : Range.signed32.holds (-32700) = true)
  obtain ⟨⟨-, hrequest, -⟩, ⟨-, hresponse, -⟩, -, herror⟩ := envelope_comes_back_iff r s e hr hs he
  refine ⟨hrequest.2 ⟨?_, ?_⟩, hresponse.2 ⟨?_, fun e he => ?_⟩, herror.2 ?_⟩
  · simp [r, Request.new]
  · simp [r, Request.new]
  · simp [s, Response.success]
  · cases he
  · simp [e]

/-- A request with a null id becomes a notification, and a null result is lost. -/
theorem null_does_not_come_back :
    Request.ofJson (Request.new "m" none .null).toJson = .ok (Request.notification "m" none) ∧
      Request.ofJson (Request.new "m" none .null).toJson ≠ .ok (Request.new "m" none .null) ∧
      Response.ofJson (Response.success (.number 1) .null).toJson ≠ .ok (Response.success (.number 1) .null) := by
  have hrequest : (Request.new "m" none .null).InRange := fun id hid => Option.some.inj hid ▸ trivial
  have hresponse : (Response.success (.number 1) .null).InRange :=
    ⟨(by decide : Range.signed64.holds 1 = true), fun e he => by cases he⟩
  have hback := Request.ofJson_eq hrequest (Request.isForm_toJson _)
  refine ⟨hback, ?_, ?_⟩
  · rw [hback, ne_eq, Except.ok.injEq, Request.received_eq_self]
    simp [Request.new]
  · rw [Response.ofJson_eq hresponse (Response.isForm_toJson _), ne_eq, Except.ok.injEq, Response.received_eq_self]
    simp [Response.success]

end DraftKeeper
