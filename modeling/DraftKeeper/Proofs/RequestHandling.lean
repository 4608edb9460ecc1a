import DraftKeeper.Proofs.KeeperSteps
import DraftKeeper.Service.Handler

namespace DraftKeeper

open Json

theorem ok_of_bind {α β : Type} {x : Except DecodeError α} {f : α → Except DecodeError β} {b : β}
    (h : x >>= f = .ok b) : ∃ a, x = .ok a ∧ f a = .ok b := by
  cases x with
  | error e => cases h
  | ok a => exact ⟨a, rfl, h⟩

namespace Request

variable {line : Bytes} {r : Request} {v : Json}

theorem ofJson_of_ofText (h : ofText line = .ok r) : ∃ v, ofJson v = .ok r := by
  rw [ofText, decodeText] at h
  cases hread : Document.read? line with
  | none => simp [hread] at h
  | some d =>
      cases hbuild : d.build? selection maxDepth with
      | none => simp [hread, hbuild] at h
      | some v =>
          cases hv : ofJson v with
          | ok r' =>
              simp only [hread, hbuild, hv, Except.ok.injEq] at h
              exact ⟨v, h ▸ hv⟩
          | error e =>
              simp only [hread, hbuild, hv] at h
              cases hwhole : (d.build? .whole maxDepth).isNone with
              | true => simp [hwhole] at h
              | false => cases e <;> simp [hwhole] at h

theorem id_ne_null (h : ofText line = .ok r) : r.id ≠ some .null := by
  obtain ⟨v, hv⟩ := ofJson_of_ofText h
  obtain ⟨fields, -, hv⟩ := ok_of_bind hv
  obtain ⟨jsonrpc, -, hv⟩ := ok_of_bind hv
  obtain ⟨method, -, hv⟩ := ok_of_bind hv
  obtain ⟨params, -, hv⟩ := ok_of_bind hv
  obtain ⟨id, hid, hv⟩ := ok_of_bind hv
  obtain rfl := Except.ok.inj hv
  rintro rfl
  rw [getOr] at hid
  cases hfield : field? "id" fields with
  | none => simp [hfield] at hid
  | some w =>
      simp only [hfield] at hid
      cases w with
      | integer n => by_cases hn : Range.signed64.holds n <;> simp [asOption, CallId.ofJson, Except.map, hn] at hid
      | _ => simp [asOption, CallId.ofJson, Except.map] at hid

end Request

namespace Method

theorem ofName?_name (m : Method) : ofName? m.name = some m := by cases m <;> rfl

theorem ofName?_eq_some {n : String} {m : Method} : ofName? n = some m ↔ n = m.name := by
  constructor
  · intro h
    simpa [eq_comm] using List.find?_some h
  · rintro rfl
    exact ofName?_name m

end Method

/-- The event that a request has the daemon queue: a tracking request's decoded params, and whose they are. -/
inductive Announces (endpoint : String) (r : Request) : Event → Prop
  | tracking {v : Json} {t : Tracking} (hmethod : r.method = "track:editor-file") (hparams : r.params = some v)
      (hdecode : Tracking.ofJson v.sorted = .ok t) : Announces endpoint r (.tracking endpoint t)
  | edited {v : Json} {e : Edit} (hmethod : r.method = "track:editor-content-changes") (hparams : r.params = some v)
      (hdecode : Edit.ofJson v.sorted = .ok e) : Announces endpoint r (.edited endpoint e)

namespace Handler

variable {endpoint : String} {r : Request} {w : Worker} {e : Event}

theorem params_eq_ok {α : Type} {decode : Decoder α} {a : α} :
    params decode r = .ok a ↔ ∃ v, r.params = some v ∧ decode v.sorted = .ok a := by
  rw [params]
  cases r.params with
  | none => simp
  | some v => cases hv : decode v.sorted <;> simp [Except.mapError, hv]

theorem announces_iff : Announces endpoint r e ↔
    (Method.ofName? r.method = some .trackFile ∧ ∃ t, params Tracking.ofJson r = .ok t ∧ e = .tracking endpoint t) ∨
    (Method.ofName? r.method = some .trackChanges ∧ ∃ c, params Edit.ofJson r = .ok c ∧ e = .edited endpoint c) := by
  simp only [Method.ofName?_eq_some, params_eq_ok]
  constructor
  · rintro (⟨hmethod, hparams, hdecode⟩ | ⟨hmethod, hparams, hdecode⟩)
    · exact .inl ⟨hmethod, _, ⟨_, hparams, hdecode⟩, rfl⟩
    · exact .inr ⟨hmethod, _, ⟨_, hparams, hdecode⟩, rfl⟩
  · rintro (⟨hmethod, t, ⟨v, hparams, hdecode⟩, rfl⟩ | ⟨hmethod, c, ⟨v, hparams, hdecode⟩, rfl⟩)
    · exact .tracking hmethod hparams hdecode
    · exact .edited hmethod hparams hdecode

theorem announces_unique {e' : Event} (h : Announces endpoint r e) (h' : Announces endpoint r e') : e = e' := by
  rcases announces_iff.1 h with ⟨hmethod, t, ht, rfl⟩ | ⟨hmethod, c, hc, rfl⟩ <;>
    rcases announces_iff.1 h' with ⟨hmethod', t', ht', rfl⟩ | ⟨hmethod', c', hc', rfl⟩
  · rw [Except.ok.inj (ht.symm.trans ht')]
  · cases hmethod.symm.trans hmethod'
  · cases hmethod.symm.trans hmethod'
  · rw [Except.ok.inj (hc.symm.trans hc')]

variable {ask : String → Keeping Json}

theorem query_worker (ask : String → Keeping Json) (r : Request) (w : Worker) :
    (query ask r w).2 = { w with keeper := (query ask r w).2.keeper } := by
  rw [query]
  cases params PathQuery.ofJson r with
  | error e => rfl
  | ok p => cases h : ask p.path w.keeper <;> simp only [h]

theorem query_ne_accepted (hask : ∀ p k v k', ask p k = .ok v k' → v ≠ okay "accepted") :
    (query ask r w).1 ≠ .ok (okay "accepted") := by
  rw [query]
  cases params PathQuery.ofJson r with
  | error e => simp
  | ok p =>
      cases h : ask p.path w.keeper with
      | ok v k =>
          simp only [h]
          exact fun heq => hask _ _ _ _ h (Except.ok.inj heq)
      | error f k => simp [h]

theorem answer_ne_accepted {α : Type} {name : String} {work : String → Keeping α} {value : α → Json}
    (hname : name ≠ "accepted") : ∀ p k v k',
      (do return .object [(name, value (← work p))] : Keeping Json) k = .ok v k' → v ≠ okay "accepted" := by
  intro p k v k' h
  obtain ⟨a, k₁, -, hpure⟩ := bind_eq_ok.1 h
  cases hpure
  simp [okay, hname]

theorem enqueue_cases {α : Type} {decode : Decoder α} {event : α → Event} {done : Except Refusal Json × Worker}
    (herror : ∀ e, params decode r = .error e → done = (.error e, w))
    (hok : ∀ a, params decode r = .ok a → done = enqueue (event a) w) :
    (∃ a, params decode r = .ok a ∧ w.closed = false ∧
      done = (.ok (okay "accepted"), { w with queue := w.queue ++ [event a] })) ∨
    ((∀ a, params decode r = .ok a → w.closed = true) ∧ done.1 ≠ .ok (okay "accepted") ∧ done.2 = w) := by
  cases hparams : params decode r with
  | error e => exact .inr ⟨by simp, by simp [herror e hparams], by rw [herror e hparams]⟩
  | ok a =>
      rw [hok a hparams, enqueue, Worker.send]
      cases hclosed : w.closed with
      | false => exact .inl ⟨a, rfl, rfl, rfl⟩
      | true => exact .inr ⟨fun _ _ => rfl, by simp, rfl⟩

/-- A request queues the event it announces, and is told so; or it leaves everything but the keeper as it is. -/
theorem serve_cases (endpoint : String) (r : Request) (w : Worker) :
    (∃ e, Announces endpoint r e ∧ w.closed = false ∧
      serve endpoint r w = (.ok (okay "accepted"), { w with queue := w.queue ++ [e] })) ∨
    ((∀ e, Announces endpoint r e → w.closed = true) ∧ (serve endpoint r w).1 ≠ .ok (okay "accepted") ∧
      (serve endpoint r w).2 = { w with keeper := (serve endpoint r w).2.keeper }) := by
  simp only [announces_iff]
  cases hm : Method.ofName? r.method with
  | none => simp [serve, hm]
  | some m =>
      simp only [serve, hm]
      cases m with
      | ping | shutdown => simp [perform, okay]
      | trackFile =>
          have herror (e) (h : params Tracking.ofJson r = .error e) :
              perform endpoint r w .trackFile = (.error e, w) := by
            simp only [perform, h]
          have hok (a) (h : params Tracking.ofJson r = .ok a) :
              perform endpoint r w .trackFile = enqueue (.tracking endpoint a) w := by
            simp only [perform, h]
          rcases enqueue_cases herror hok with ⟨t, ht, hopen, hdone⟩ | ⟨hclosed, hne, hsame⟩
          · exact .inl ⟨_, .inl ⟨rfl, t, ht, rfl⟩, hopen, hdone⟩
          · refine .inr ⟨?_, hne, by rw [hsame]⟩
            rintro e (⟨-, t, ht, -⟩ | ⟨hother, -⟩)
            · exact hclosed t ht
            · cases hother
      | trackChanges =>
          have herror (e) (h : params Edit.ofJson r = .error e) :
              perform endpoint r w .trackChanges = (.error e, w) := by
            simp only [perform, h]
          have hok (a) (h : params Edit.ofJson r = .ok a) :
              perform endpoint r w .trackChanges = enqueue (.edited endpoint a) w := by
            simp only [perform, h]
          rcases enqueue_cases herror hok with ⟨c, hc, hopen, hdone⟩ | ⟨hclosed, hne, hsame⟩
          · exact .inl ⟨_, .inr ⟨rfl, c, hc, rfl⟩, hopen, hdone⟩
          · refine .inr ⟨?_, hne, by rw [hsame]⟩
            rintro e (⟨hother, -⟩ | ⟨-, c, hc, -⟩)
            · cases hother
            · exact hclosed c hc
      | content | persistentPath | recoverable =>
          exact .inr ⟨by simp, query_ne_accepted (answer_ne_accepted (by decide)), query_worker _ _ _⟩

theorem serve_queue (h : Announces endpoint r e) (hopen : w.closed = false) :
    (serve endpoint r w).2.queue = w.queue ++ [e] := by
  rcases serve_cases endpoint r w with ⟨e', he', -, hserve⟩ | ⟨hclosed, -⟩
  · rw [hserve, announces_unique h he']
  · exact absurd (hclosed e h) (by simp [hopen])

theorem serve_keeps_queue (h : ∀ e, Announces endpoint r e → w.closed = true) :
    (serve endpoint r w).2.queue = w.queue := by
  rcases serve_cases endpoint r w with ⟨e, he, hopen, -⟩ | ⟨-, -, hsame⟩
  · exact absurd (h e he) (by simp [hopen])
  · rw [hsame]

theorem accepted_iff (id : CallId) : (toResponse id (serve endpoint r w).1).result = some (okay "accepted") ↔
    ∃ e, Announces endpoint r e ∧ w.closed = false := by
  rcases serve_cases endpoint r w with ⟨e, he, hopen, hserve⟩ | ⟨hclosed, hne, -⟩
  · rw [hserve]
    exact iff_of_true rfl ⟨e, he, hopen⟩
  · refine iff_of_false (fun h => hne ?_) fun ⟨e, he, hopen⟩ => by simp [hclosed e he] at hopen
    cases hserve : (serve endpoint r w).1 with
    | ok v => rw [hserve] at h; exact congrArg Except.ok (Option.some.inj h)
    | error e => rw [hserve] at h; cases h

theorem handleLine_of_error {line : Bytes} {cause : TextError} (h : Request.ofText line = .error cause) :
    handleLine endpoint line w = (⟨some (.failure .null (Refusal.unreadable cause).toError), false⟩, w) := by
  rw [handleLine, h]
  rfl

theorem handleLine_of_version {line : Bytes} (h : Request.ofText line = .ok r)
    (hversion : r.jsonrpc ≠ protocolVersion) :
    handleLine endpoint line w =
      (⟨some (.failure (r.id.getD .null) Refusal.invalidRequest.toError), false⟩, w) := by
  simp only [handleLine, h, handle, if_pos hversion]
  rfl

theorem handleLine_of_ok {line : Bytes} (h : Request.ofText line = .ok r) (hversion : r.jsonrpc = protocolVersion) :
    handleLine endpoint line w =
      (⟨r.id.map fun id => toResponse id (serve endpoint r w).1, Method.ofName? r.method = some .shutdown⟩,
        (serve endpoint r w).2) := by
  simp only [handleLine, h, handle, hversion, ne_eq, not_true_eq_false, if_false]

theorem serve_congr {r' : Request} (hmethod : r'.method = r.method) (hparams : r'.params = r.params) :
    serve endpoint r' w = serve endpoint r w := by
  obtain ⟨jsonrpc, method, args, id⟩ := r
  obtain ⟨jsonrpc', method', args', id'⟩ := r'
  obtain rfl : method' = method := hmethod
  obtain rfl : args' = args := hparams
  rfl

/-- What is done with a line, whatever it holds. -/
theorem handleLine_contract (endpoint : String) (line : Bytes) (w : Worker) :
    (∀ cause, Request.ofText line = .error cause → ∃ error : ErrorObject, error.code = Refusal.parseError ∧
      handleLine endpoint line w = (⟨some (.failure .null error), false⟩, w)) ∧
    ∀ r, Request.ofText line = .ok r →
      (r.jsonrpc ≠ protocolVersion → ∃ error : ErrorObject, error.code = Refusal.invalidRequestError ∧
        handleLine endpoint line w = (⟨some (.failure (r.id.getD .null) error), false⟩, w)) ∧
      (r.jsonrpc = protocolVersion →
        ((handleLine endpoint line w).1.response.isSome ↔ ∃ id, r.id = some id ∧ id ≠ .null) ∧
        (∀ response, (handleLine endpoint line w).1.response = some response →
          r.id = some response.id ∧ response.jsonrpc = protocolVersion ∧
          (response.result.isSome ↔ response.error = none) ∧
          (response.result = some (okay "accepted") ↔ ∃ e, Announces endpoint r e ∧ w.closed = false)) ∧
        (∀ e, Announces endpoint r e → w.closed = false → (handleLine endpoint line w).2.queue = w.queue ++ [e]) ∧
        ((∀ e, Announces endpoint r e → w.closed = true) → (handleLine endpoint line w).2.queue = w.queue) ∧
        ∀ line' r', Request.ofText line' = .ok r' → r'.jsonrpc = protocolVersion → r'.method = r.method →
          r'.params = r.params → (handleLine endpoint line' w).2 = (handleLine endpoint line w).2 ∧
            (handleLine endpoint line' w).1.shutdown = (handleLine endpoint line w).1.shutdown) := by
  refine ⟨fun cause h => ⟨_, rfl, handleLine_of_error h⟩,
    fun r h => ⟨fun hversion => ⟨_, rfl, handleLine_of_version h hversion⟩, fun hversion => ?_⟩⟩
  rw [handleLine_of_ok h hversion]
  refine ⟨?_, fun response hresponse => ?_, fun e he hopen => ?_, fun hclosed => ?_,
    fun line' r' h' hversion' hmethod hparams => ?_⟩
  · have hnull := Request.id_ne_null h
    cases hid : r.id with
    | none => simp
    | some id =>
        have hne : id ≠ .null := by
          rintro rfl
          exact hnull hid
        simpa using hne
  · obtain ⟨id, hid, rfl⟩ := Option.map_eq_some_iff.1 hresponse
    refine ⟨?_, ?_, ?_, accepted_iff id⟩ <;> cases (serve endpoint r w).1 <;>
      simp [toResponse, Response.success, Response.failure, hid]
  · exact serve_queue he hopen
  · exact serve_keeps_queue hclosed
  · rw [handleLine_of_ok h' hversion', serve_congr hmethod hparams, hmethod]
    exact ⟨rfl, rfl⟩

def sampleLine : Bytes := Text.Utf8.encode
  ("\x7b\"jsonrpc\":\"2.0\",\"method\":\"track:editor-file\"," ++
    "\"params\":\x7b\"type\":\"START\",\"path\":\"/p/a\"\x7d,\"id\":1\x7d")

def sampleWorker : Worker := .new (.new ⟨".d", .char, 4⟩ ⟨"/w", ⟨[([], .folder 0o755)]⟩⟩ 4 ⟨0, 0, 0⟩) none

/-- The request starts tracking of the sample's file, and has its id. -/
def startsSample (r : Request) : Bool :=
  r.jsonrpc = protocolVersion && r.method = "track:editor-file" && r.id = some (.number 1) &&
    match r.params with
    | none => false
    | some v => (Tracking.ofJson v.sorted).toOption = some (.start "/p/a")

theorem sampleLine_starts : ((Request.ofText sampleLine).toOption.map startsSample) = some true := by decide +kernel

theorem sampleLine_announces : ∃ r, Request.ofText sampleLine = .ok r ∧ r.jsonrpc = protocolVersion ∧
    r.id = some (.number 1) ∧ Announces "e" r (.tracking "e" (.start "/p/a")) := by
  have hstarts := sampleLine_starts
  cases hr : Request.ofText sampleLine with
  | error e => simp [hr, Except.toOption] at hstarts
  | ok r =>
      replace hstarts : startsSample r = true := by simpa [hr, Except.toOption] using hstarts
      simp only [startsSample, Bool.and_eq_true, decide_eq_true_eq] at hstarts
      obtain ⟨⟨⟨hversion, hmethod⟩, hid⟩, hstart⟩ := hstarts
      cases hparams : r.params with
      | none => simp [hparams] at hstart
      | some v =>
          simp only [hparams, decide_eq_true_eq] at hstart
          cases hdecode : Tracking.ofJson v.sorted with
          | error e => simp [hdecode, Except.toOption] at hstart
          | ok t =>
              obtain rfl : t = .start "/p/a" := by simpa [hdecode, Except.toOption] using hstart
              exact ⟨r, rfl, hversion, hid, .tracking hmethod hparams hdecode⟩

theorem tracking_request_accepted : ∃ r, Request.ofText sampleLine = .ok r ∧ r.jsonrpc = protocolVersion ∧
    Announces "e" r (.tracking "e" (.start "/p/a")) ∧ sampleWorker.closed = false ∧
    (handleLine "e" sampleLine sampleWorker).2.queue = [.tracking "e" (.start "/p/a")] ∧
    (handleLine "e" sampleLine sampleWorker).1.response.isSome := by
  obtain ⟨r, hr, hversion, hid, hannounces⟩ := sampleLine_announces
  obtain ⟨-, hserved⟩ := (handleLine_contract "e" sampleLine sampleWorker).2 r hr
  obtain ⟨hanswered, -, hqueued, -⟩ := hserved hversion
  exact ⟨r, hr, hversion, hannounces, rfl, hqueued _ hannounces rfl,
    hanswered.2 ⟨.number 1, hid, by simp⟩⟩

end Handler

end DraftKeeper
