import DraftKeeper.Service.Connection
import Mathlib.Data.List.DropRight

namespace DraftKeeper

namespace Framing

/-- The lines of a stream. The last one is unfinished, and empty if the stream ends with a line feed. -/
def lines (stream : Bytes) : List Bytes := stream.splitOn lineFeed

/-- The requests that lines hold, without the carriage returns and line feeds at their ends. A blank line holds
none. -/
def requests (lines : List Bytes) : List Bytes :=
  (lines.map (List.rdropWhile fun b => b = lineFeed || b = carriageReturn)).filter fun l => !l.all isSpace

/-- The reader of a stream that has come in so far, `cut` if it was interrupted after the last byte. -/
def LineReader.after (stream : Bytes) (cut : Bool) : LineReader where
  begun := (split stream).2
  heard := !(split stream).2.isEmpty && !cut

variable {stream bs : Bytes} {ls : List Bytes} {cut : Bool}

theorem requests_eq (ls : List Bytes) : requests ls = ls.filterMap request? := by
  induction ls with
  | nil => rfl
  | cons l ls ih =>
      rw [requests] at ih
      rw [requests, List.map_cons, List.filter_cons, List.filterMap_cons, ih, request?]
      change (if !(trimEnd l).all isSpace then trimEnd l :: _ else _) = _
      cases (trimEnd l).all isSpace <;> rfl

theorem requests_append (ls ls' : List Bytes) : requests (ls ++ ls') = requests ls ++ requests ls' := by
  rw [requests_eq, List.filterMap_append, requests_eq, requests_eq]

theorem split_lineFeed (bs : Bytes) : split (lineFeed :: bs) = ([] :: (split bs).1, (split bs).2) := by
  simp only [split, if_pos]

theorem split_cons {b : UInt8} (hb : b ≠ lineFeed) (bs : Bytes) : split (b :: bs) =
    match (split bs).1 with
    | [] => ([], b :: (split bs).2)
    | l :: ls => ((b :: l) :: ls, (split bs).2) := by
  rcases hsplit : split bs with ⟨_ | ⟨l, ls⟩, begun⟩ <;> simp only [split, hsplit, if_neg hb]

theorem lines_eq (bs : Bytes) : lines bs = (split bs).1 ++ [(split bs).2] := by
  induction bs with
  | nil => rfl
  | cons b bs ih =>
      rw [lines, List.splitOn] at ih ⊢
      rw [List.splitOnP_cons_eq_if_modifyHead, ih]
      by_cases hb : b = lineFeed
      · subst hb
        rw [split_lineFeed]
        rfl
      · rw [split_cons hb, if_neg (by simpa using hb)]
        cases (split bs).1 <;> rfl

theorem split_append (bs bs' : Bytes) : split (bs ++ bs') =
    ((split bs).1 ++ (split ((split bs).2 ++ bs')).1, (split ((split bs).2 ++ bs')).2) := by
  induction bs with
  | nil => rfl
  | cons b bs ih =>
      rw [List.cons_append]
      by_cases hb : b = lineFeed
      · subst hb
        rw [split_lineFeed, split_lineFeed, ih]
        rfl
      · rw [split_cons hb, split_cons hb, ih]
        cases (split bs).1 with
        | nil => rw [List.nil_append, List.cons_append, split_cons hb]; rfl
        | cons l ls => rfl

theorem begun_of_unbroken (h : (split bs).1 = []) : (split bs).2 = bs := by
  induction bs with
  | nil => rfl
  | cons b bs ih =>
      by_cases hb : b = lineFeed
      · subst hb
        rw [split_lineFeed] at h
        cases h
      · rw [split_cons hb] at h ⊢
        cases hl : (split bs).1 with
        | nil => exact congrArg (b :: ·) (ih hl)
        | cons l ls =>
            rw [hl] at h
            cases h

theorem split_begun (bs : Bytes) : (split (split bs).2).1 = [] := by
  have h := congrArg Prod.fst (split_append bs [])
  rw [List.append_nil, List.append_nil] at h
  exact List.self_eq_append_right.1 h

namespace LineReader

theorem interrupt_after : (after stream cut).interrupt = after stream true := by
  rw [interrupt, after, after, Bool.not_true, Bool.and_false]

theorem feed_eq (r : LineReader) (bs : Bytes) : r.feed bs = ((split (r.begun ++ bs)).1, {
    begun := (split (r.begun ++ bs)).2
    heard := if (split (r.begun ++ bs)).1 = [] then r.heard || !bs.isEmpty
      else !(split (r.begun ++ bs)).2.isEmpty }) := by
  rw [feed]
  rcases split (r.begun ++ bs) with ⟨_ | ⟨l, ls⟩, begun⟩ <;> rfl

/-- The reader goes on to the lines that are complete now, and forgets an interruption if anything has come. -/
theorem feed_after (stream bs : Bytes) (cut : Bool) :
    (split stream).1 ++ ((after stream cut).feed bs).1 = (split (stream ++ bs)).1 ∧
      ((after stream cut).feed bs).2 = after (stream ++ bs) (cut && bs.isEmpty) := by
  rw [feed_eq, after, after, split_append stream bs]
  refine ⟨rfl, congrArg (LineReader.mk _) ?_⟩
  split
  · next hnone =>
      rw [begun_of_unbroken hnone]
      cases bs <;> simp
  · next hsome =>
      have hbs : bs ≠ [] := by
        rintro rfl
        rw [List.append_nil] at hsome
        exact hsome (split_begun stream)
      rw [List.isEmpty_eq_false_iff.2 hbs, Bool.and_false, Bool.not_false, Bool.and_true]

theorem requests_last?_after (stream : Bytes) (cut : Bool) :
    requests (after stream cut).last?.toList = if cut then [] else requests [(split stream).2] := by
  rw [last?, after]
  cases cut with
  | true => rw [Bool.not_true, Bool.and_false]; rfl
  | false =>
      cases (split stream).2 with
      | nil => rfl
      | cons b begun => rfl

end LineReader

end Framing

/-- What happens to a connection before its input ends: bytes arrive, something goes out, the connection falls
behind the updates, or others do something to the worker. -/
inductive Happening
  | arrival (bs : Bytes)
  | update (u : Update)
  | notice (n : Notice)
  | lag
  | elsewhere (worker : Worker)

namespace Happening

def bytes : Happening → Bytes
  | .arrival bs => bs
  | .update _ | .notice _ | .lag | .elsewhere _ => []

/-- The reader is interrupted after the last byte, if it was `cut` before. -/
def cuts (cut : Bool) : Happening → Bool
  | .arrival bs => cut && bs.isEmpty
  | .update _ | .notice _ | .lag => true
  | .elsewhere _ => cut

def stream (hs : List Happening) : Bytes := hs.flatMap bytes

/-- Something has gone out, or has been lost, since the last byte arrived. -/
def cutOff (hs : List Happening) : Bool := hs.foldl cuts false

end Happening

namespace Handler

def asksShutdown (request : Bytes) : Bool :=
  match Request.ofText request with
  | .error _ => false
  | .ok r => r.jsonrpc = protocolVersion && Method.ofName? r.method = some .shutdown

theorem shutdown_handleLine (endpoint : String) (request : Bytes) (w : Worker) :
    (handleLine endpoint request w).1.shutdown = asksShutdown request := by
  rw [handleLine, asksShutdown]
  cases Request.ofText request with
  | error e => rfl
  | ok r =>
      simp only [handle]
      split
      · next hversion => simp [hversion]
      · next hversion => simp [not_not.1 hversion]

end Handler

namespace Serving

/-- Has the handler do what a request asks, and sends the response. -/
def answer (s : Serving) (request : Bytes) : Serving :=
  let (reply, worker) := Handler.handleLine s.connection.endpoint request s.worker
  let s := { s with worker }
  let s := match reply.response with
    | some r => s.write (.response r)
    | none => s
  if reply.shutdown && s.isOpen then s.close .finished else s

def handedFor (s : Serving) (l : Bytes) : List Bytes :=
  if s.isOpen then (Framing.request? l).toList else []

/-- The requests that are handed to the handler for lines, one after another. -/
def handed (s : Serving) : List Bytes → List Bytes
  | [] => []
  | l :: ls => s.handedFor l ++ (s.handleLine l).handed ls

def meet (s : Serving) : Happening → Serving
  | .arrival bs => s.receive bs
  | .update u => s.deliver (.update u)
  | .notice n => s.deliverNotice n
  | .lag => s.interrupt
  | .elsewhere worker => { s with worker }

def handedBy (s : Serving) : Happening → List Bytes
  | .arrival bs => if s.isOpen then s.handed (s.connection.reader.feed bs).1 else []
  | .update _ | .notice _ | .lag | .elsewhere _ => []

def meetAll (s : Serving) (hs : List Happening) : Serving := hs.foldl meet s

/-- The requests that are handed to the handler while things happen and then the input ends. -/
def handedToEnd (s : Serving) : List Happening → List Bytes
  | [] => if s.isOpen then s.handed s.connection.reader.last?.toList else []
  | h :: hs => s.handedBy h ++ (s.meet h).handedToEnd hs

/-- The connection is open, and the client reads what it is sent. -/
structure Lasting (s : Serving) : Prop where
  isOpen : s.isOpen = true
  clientReads : s.connection.clientReads = true

variable {s : Serving} {l request : Bytes} {ls : List Bytes} {m : Message}

theorem handleLine_eq (s : Serving) (l : Bytes) : s.handleLine l = (s.handedFor l).foldl answer s := by
  rw [handleLine, handedFor]
  cases s.isOpen with
  | false => rfl
  | true => cases Framing.request? l <;> rfl

theorem foldl_handleLine_eq (s : Serving) (ls : List Bytes) :
    ls.foldl handleLine s = (s.handed ls).foldl answer s := by
  induction ls generalizing s with
  | nil => rfl
  | cons l ls ih => rw [List.foldl_cons, ih, handed, List.foldl_append, ← handleLine_eq]

theorem Lasting.write (h : s.Lasting) (m : Message) : (s.write m).Lasting := by
  rw [Serving.write, if_pos h.clientReads]
  exact ⟨h.isOpen, h.clientReads⟩

theorem Lasting.answer (h : s.Lasting) (hquiet : Handler.asksShutdown request = false) :
    (s.answer request).Lasting := by
  rw [Serving.answer]
  simp only [Handler.shutdown_handleLine, hquiet, Bool.false_and, Bool.false_eq_true, if_false]
  have hworker (worker : Worker) : Lasting { s with worker } := ⟨h.isOpen, h.clientReads⟩
  split
  · exact (hworker _).write _
  · exact hworker _

theorem Lasting.answers {rs : List Bytes} (h : s.Lasting)
    (hquiet : ∀ request ∈ rs, Handler.asksShutdown request = false) : (rs.foldl Serving.answer s).Lasting := by
  induction rs generalizing s with
  | nil => exact h
  | cons r rs ih =>
      exact ih (h.answer (hquiet r List.mem_cons_self)) fun r' hr => hquiet r' (List.mem_cons_of_mem r hr)

theorem Lasting.handed_eq (h : s.Lasting)
    (hquiet : ∀ request ∈ Framing.requests ls, Handler.asksShutdown request = false) :
    s.handed ls = Framing.requests ls := by
  induction ls generalizing s with
  | nil => rfl
  | cons l ls ih =>
      have hfor : s.handedFor l = Framing.requests [l] := by
        rw [handedFor, if_pos h.isOpen, Framing.requests_eq]
        cases hl : Framing.request? l <;> simp [hl]
      rw [← List.singleton_append, Framing.requests_append] at hquiet ⊢
      have hlasting : (s.handleLine l).Lasting := by
        rw [handleLine_eq, hfor]
        exact h.answers fun request hr => hquiet request (List.mem_append_left _ hr)
      rw [List.singleton_append, handed, hfor,
        ih hlasting fun request hr => hquiet request (List.mem_append_right _ hr)]

theorem Lasting.handleLines (h : s.Lasting)
    (hquiet : ∀ request ∈ Framing.requests ls, Handler.asksShutdown request = false) :
    (ls.foldl handleLine s).Lasting := by
  rw [foldl_handleLine_eq, h.handed_eq hquiet]
  exact h.answers hquiet

theorem Lasting.interrupt (h : s.Lasting) : s.interrupt.Lasting := ⟨h.isOpen, h.clientReads⟩

theorem Lasting.deliver (h : s.Lasting) (m : Message) :
    (s.deliver m).Lasting ∧ (s.deliver m).connection.reader = s.connection.reader.interrupt := by
  rw [Serving.deliver, if_pos h.isOpen]
  refine ⟨h.interrupt.write m, ?_⟩
  rw [Serving.write, if_pos h.interrupt.clientReads]
  rfl

/-- What a connection that goes on has made of the stream so far: the requests of the finished lines are with the
handler, and the reader has the rest. -/
theorem Lasting.meet {stream : Bytes} {cut : Bool} {e : Happening} (h : s.Lasting)
    (hreader : s.connection.reader = .after stream cut)
    (hquiet : ∀ request ∈ Framing.requests (Framing.split (stream ++ e.bytes)).1,
      Handler.asksShutdown request = false) :
    ((s.meet e).Lasting ∧ (s.meet e).connection.reader = .after (stream ++ e.bytes) (e.cuts cut)) ∧
      Framing.requests (Framing.split stream).1 ++ s.handedBy e =
        Framing.requests (Framing.split (stream ++ e.bytes)).1 := by
  have hcut (hbytes : e.bytes = []) (hhanded : s.handedBy e = []) :
      Framing.requests (Framing.split stream).1 ++ s.handedBy e =
        Framing.requests (Framing.split (stream ++ e.bytes)).1 := by
    rw [hbytes, hhanded, List.append_nil, List.append_nil]
  have hinterrupt : s.connection.reader.interrupt = .after (stream ++ []) true := by
    rw [hreader, Framing.LineReader.interrupt_after, List.append_nil]
  cases e with
  | arrival bs =>
      obtain ⟨hlines, hfed⟩ := Framing.LineReader.feed_after stream bs cut
      rw [Happening.bytes, ← hlines, Framing.requests_append] at hquiet ⊢
      have hnew : ∀ request ∈ Framing.requests ((Framing.LineReader.after stream cut).feed bs).1,
          Handler.asksShutdown request = false := fun request hr =>
        hquiet request (List.mem_append_right _ hr)
      have hlast := h.handleLines hnew
      rw [Serving.meet, receive, handedBy, h.isOpen, hreader, if_pos rfl, h.handed_eq hnew]
      exact ⟨⟨⟨hlast.isOpen, hlast.clientReads⟩, hfed⟩, rfl⟩
  | update u =>
      obtain ⟨hlast, hread⟩ := h.deliver (.update u)
      exact ⟨⟨hlast, hread.trans hinterrupt⟩, hcut rfl rfl⟩
  | notice n =>
      refine ⟨?_, hcut rfl rfl⟩
      rw [Serving.meet, deliverNotice]
      split
      · obtain ⟨hlast, hread⟩ := h.deliver (.notice n.report)
        exact ⟨hlast, hread.trans hinterrupt⟩
      · exact ⟨h.interrupt, hinterrupt⟩
  | lag => exact ⟨⟨h.interrupt, hinterrupt⟩, hcut rfl rfl⟩
  | elsewhere worker =>
      refine ⟨⟨⟨h.isOpen, h.clientReads⟩, ?_⟩, hcut rfl rfl⟩
      rw [Happening.bytes, List.append_nil]
      exact hreader

theorem stream_cons (e : Happening) (hs : List Happening) :
    Happening.stream (e :: hs) = e.bytes ++ Happening.stream hs := List.flatMap_cons

theorem requests_split_of_lines {bs bs' : Bytes}
    (hquiet : ∀ request ∈ Framing.requests (Framing.lines (bs ++ bs')), Handler.asksShutdown request = false) :
    ∀ request ∈ Framing.requests (Framing.split bs).1, Handler.asksShutdown request = false := by
  intro request hr
  refine hquiet request ?_
  rw [Framing.lines_eq, Framing.split_append, List.append_assoc, Framing.requests_append]
  exact List.mem_append_left _ hr

theorem finish_eq (h : s.isOpen = true) : s.finish =
    if (s.connection.reader.last?.toList.foldl handleLine s).isOpen then
      (s.connection.reader.last?.toList.foldl handleLine s).close .finished
    else s.connection.reader.last?.toList.foldl handleLine s := by
  rw [finish, h]
  cases s.connection.reader.last? <;> rfl

/-- The end of the input hands over the line begun, unless the reader has been cut off from it. -/
theorem Lasting.finish {stream : Bytes} {cut : Bool} (h : s.Lasting)
    (hreader : s.connection.reader = .after stream cut)
    (hquiet : ∀ request ∈ Framing.requests (Framing.lines stream), Handler.asksShutdown request = false) :
    s.finish.connection.exit = some .finished ∧ Framing.requests (Framing.split stream).1 ++ s.handedToEnd [] =
      Framing.requests (if cut then (Framing.lines stream).dropLast else Framing.lines stream) := by
  have hlast := Framing.LineReader.requests_last?_after stream cut
  rw [Framing.lines_eq, Framing.requests_append] at hquiet
  have hlastQuiet : ∀ request ∈ Framing.requests s.connection.reader.last?.toList,
      Handler.asksShutdown request = false := by
    intro request hr
    rw [hreader, hlast] at hr
    split at hr
    · cases hr
    · exact hquiet request (List.mem_append_right _ hr)
  refine ⟨?_, ?_⟩
  · rw [finish_eq h.isOpen, if_pos (h.handleLines hlastQuiet).isOpen]
    rfl
  · rw [handedToEnd, if_pos h.isOpen, h.handed_eq hlastQuiet, hreader, hlast, Framing.lines_eq, List.dropLast_concat]
    split
    · rw [List.append_nil]
    · rw [Framing.requests_append]

theorem Lasting.handedToEnd {stream : Bytes} {cut : Bool} (h : s.Lasting) (hs : List Happening)
    (hreader : s.connection.reader = .after stream cut)
    (hquiet : ∀ request ∈ Framing.requests (Framing.lines (stream ++ Happening.stream hs)),
      Handler.asksShutdown request = false) :
    (s.meetAll hs).finish.connection.exit = some .finished ∧
      Framing.requests (Framing.split stream).1 ++ s.handedToEnd hs =
        Framing.requests (if hs.foldl Happening.cuts cut then
          (Framing.lines (stream ++ Happening.stream hs)).dropLast
        else Framing.lines (stream ++ Happening.stream hs)) := by
  induction hs generalizing s stream cut with
  | nil =>
      have hnil : stream ++ Happening.stream [] = stream := List.append_nil _
      rw [hnil] at hquiet ⊢
      exact h.finish hreader hquiet
  | cons e hs ih =>
      -- the requests of the lines that are finished by then count as handed over before
      rw [stream_cons, ← List.append_assoc] at hquiet ⊢
      obtain ⟨⟨hlast, hread⟩, hhanded⟩ := h.meet hreader (requests_split_of_lines hquiet)
      rw [Serving.handedToEnd, ← List.append_assoc, hhanded]
      exact ih hlast hread hquiet

theorem settle_eq_meetAll (s : Serving) : ∃ hs, s.settle = s.meetAll hs ∧ Happening.stream hs = [] := by
  have hquiet {α : Type} (f : α → Happening) (hf : ∀ a, (f a).bytes = []) (as : List α) :
      Happening.stream (as.map f) = [] := by
    rw [Happening.stream, List.flatMap_eq_nil_iff]
    simpa using fun a _ => hf a
  let k := s.worker.settle.keeper
  refine ⟨[.elsewhere s.worker.settle, .elsewhere { s.worker.settle with
    keeper := { k with updates := [], outbox := { k.outbox with notices := [] } } }] ++
      k.outbox.notices.map .notice ++ k.updates.map .update, ?_, ?_⟩
  · rw [meetAll, List.foldl_append, List.foldl_append, List.foldl_map, List.foldl_map]
    rfl
  · rw [Happening.stream, List.flatMap_append, List.flatMap_append]
    exact congrArg₂ (· ++ ·) (hquiet .notice (fun _ => rfl) _) (hquiet .update (fun _ => rfl) _)

/-- Up to the end of the input the requests of all lines are handed over, each once and in their order, and the
connection ends. If something has gone out after the last byte, then the line begun there is left out: a request
is lost exactly if that line holds one. -/
theorem requests_handed {endpoint : String} (hs : List Happening) (hnew : s.connection = .new endpoint)
    (hquiet : ∀ request ∈ Framing.requests (Framing.lines (Happening.stream hs)),
      Handler.asksShutdown request = false) :
    (s.meetAll hs).finish.connection.exit = some .finished ∧
      s.handedToEnd hs = Framing.requests (if Happening.cutOff hs
        then (Framing.lines (Happening.stream hs)).dropLast else Framing.lines (Happening.stream hs)) ∧
      (s.handedToEnd hs = Framing.requests (Framing.lines (Happening.stream hs)) ↔
        (Happening.cutOff hs = true →
          Framing.requests (Framing.lines (Happening.stream hs)).getLast?.toList = [])) := by
  have hlasting : s.Lasting := ⟨by rw [isOpen, hnew]; rfl, by rw [hnew]; rfl⟩
  have hreader : s.connection.reader = .after [] false := by rw [hnew]; rfl
  obtain ⟨hexit, hhanded⟩ := hlasting.handedToEnd hs hreader hquiet
  refine ⟨hexit, hhanded, ?_⟩
  change s.handedToEnd hs = Framing.requests (if Happening.cutOff hs
    then (Framing.lines (Happening.stream hs)).dropLast else Framing.lines (Happening.stream hs)) at hhanded
  rw [hhanded]
  cases Happening.cutOff hs with
  | false => simp
  | true =>
      rw [if_pos rfl, Framing.lines_eq, List.dropLast_concat, List.getLast?_concat, Framing.requests_append,
        List.self_eq_append_right]
      simp

def samplePing : Bytes := Text.Utf8.encode "\x7b\"jsonrpc\":\"2.0\",\"method\":\"rpc.ping\",\"id\":1\x7d"

def sample : Serving :=
  ⟨.new "e", .new (.new ⟨".d", .char, 4⟩ ⟨"/w", ⟨[([], .folder 0o755)]⟩⟩ 4 ⟨0, 0, 0⟩) none, []⟩

def sampleUpdate : Update := ⟨"f", ⟨"/p/a", .insert 0 "y"⟩, ⟨0, 0, 0⟩⟩

theorem samplePing_is_quiet : Framing.requests (Framing.lines samplePing) = [samplePing] ∧
    Handler.asksShutdown samplePing = false := by
  decide +kernel

theorem requests_handed_in_pieces :
    sample.handedToEnd [.arrival (samplePing.take 9), .update sampleUpdate, .arrival (samplePing.drop 9)] =
      [samplePing] := by
  obtain ⟨hping, hquiet⟩ := samplePing_is_quiet
  have hstream : Happening.stream
      [.arrival (samplePing.take 9), .update sampleUpdate, .arrival (samplePing.drop 9)] = samplePing := by
    simp [Happening.stream, Happening.bytes]
  obtain ⟨-, -, hall⟩ := requests_handed (s := sample)
    [.arrival (samplePing.take 9), .update sampleUpdate, .arrival (samplePing.drop 9)] rfl (by
      rw [hstream, hping]
      rintro request hr
      rw [List.mem_singleton.1 hr, hquiet])
  rw [hstream, hping] at hall
  exact hall.2 fun hcut => absurd hcut (by decide)

/-- An update that goes out between the last byte and the end of the input takes the request away. -/
theorem last_request_lost : ∃ hs : List Happening,
    Framing.requests (Framing.lines (Happening.stream hs)) = [samplePing] ∧
      Handler.asksShutdown samplePing = false ∧ sample.handedToEnd hs = [] := by
  obtain ⟨hping, hquiet⟩ := samplePing_is_quiet
  refine ⟨[.arrival samplePing, .update sampleUpdate], ?_, hquiet, by decide⟩
  simpa [Happening.stream, Happening.bytes] using hping

end Serving

end DraftKeeper
