import DraftKeeper.Proofs.ClearWays
import DraftKeeper.Proofs.TextEncoding
import DraftKeeper.Proofs.WrittenDocuments
import DraftKeeper.Settings.File

namespace DraftKeeper

open Toml

theorem Text.Utf8.decode?_encode (text : String) : decode? (encode text) = some text := by
  have hbytes : encodeChars (decodeChars (encode text)) = encode text := by
    rw [encode, decodeChars_encodeChars]
  rw [decode?, if_pos hbytes, decode_encode]

theorem TextUnit.ofName?_name (u : TextUnit) : ofName? u.name = some u := by cases u <;> decide

namespace Settings

variable {s : Settings} {text : String} {d d' : Disk} {p : Place} {location : Place → String}

section Text

def document (s : Settings) : List Char :=
  headerLine "working_copies" <|
    entryLine "dir" (stringText s.drafts.folder).toList <|
    entryLine "offset_unit" (stringText s.drafts.unit.name).toList <|
    entryLine "persist_interval_sec" (Nat.toDigits 10 s.drafts.sweepSeconds) <|
  '\n' :: (headerLine "events" <|
    entryLine "channel_capacity" (Nat.toDigits 10 s.events.capacity) [])

theorem toText_eq_ok (h : s.toText = .ok text) : text.toList = s.document := by
  rw [toText] at h
  split at h
  · cases h
    simp only [String.toList_append, document, headerLine, entryLine]
    simp [Nat.toList_repr]
  · cases h

def draftsEntries (s : Settings) : Entries :=
  [("dir", .scalar (.string s.drafts.folder)), ("offset_unit", .scalar (.string s.drafts.unit.name)),
    ("persist_interval_sec", .scalar (.integer s.drafts.sweepSeconds))]

def eventsEntries (s : Settings) : Entries := [("channel_capacity", .scalar (.integer s.events.capacity))]

def entries (s : Settings) : Entries :=
  [("working_copies", .table .defined s.draftsEntries), ("events", .table .defined s.eventsEntries)]

theorem readsOn_document (hs : s.drafts.sweepSeconds ≤ greatest ∧ s.events.capacity ≤ greatest) :
    ReadsOn ⟨(.defined, []), []⟩ ⟨(.defined, s.entries), ["events"]⟩ s.document := by
  refine .header ?_ (isBare_of_all rfl rfl) rfl
  refine .entry ?_ (isBare_of_all rfl rfl) (isValue_stringText _) (within_addEntry rfl rfl)
  refine .entry ?_ (isBare_of_all rfl rfl) (isValue_stringText _) (within_addEntry rfl rfl)
  refine .entry ?_ (isBare_of_all rfl rfl) (isValue_toDigits hs.1) (within_addEntry rfl rfl)
  refine .blank (.header ?_ (isBare_of_all rfl rfl) rfl)
  refine .entry ?_ (isBare_of_all rfl rfl) (isValue_toDigits hs.2) (within_addEntry rfl rfl)
  exact readsOn_nil _

theorem entryOr_of_get? {α : Type} {es : Entries} {name : String} {v : Node} (h : Assoc.get? name es = some v)
    (absent : α) (read : Node → Option α) : entryOr es name absent read = read v := by
  rw [entryOr, h]

theorem asUnit?_name (u : TextUnit) : asUnit? (.scalar (.string u.name)) = some u := TextUnit.ofName?_name u

theorem asNatural?_natCast (n : Nat) : asNatural? (.scalar (.integer n)) = some n := by
  rw [asNatural?, if_pos (Int.natCast_nonneg n), Int.toNat_natCast]

theorem draftsOf?_draftsEntries (s : Settings) : draftsOf? (.table .defined s.draftsEntries) = some s.drafts := by
  have hfolder : entryOr s.draftsEntries "dir" defaultDrafts.folder asString? = some s.drafts.folder :=
    (entryOr_of_get? rfl _ _).trans rfl
  have hunit : entryOr s.draftsEntries "offset_unit" defaultDrafts.unit asUnit? = some s.drafts.unit :=
    (entryOr_of_get? rfl _ _).trans (asUnit?_name _)
  have hsweep : entryOr s.draftsEntries "persist_interval_sec" defaultDrafts.sweepSeconds asNatural? =
      some s.drafts.sweepSeconds := (entryOr_of_get? rfl _ _).trans (asNatural?_natCast _)
  simp only [draftsOf?, entriesOf?, hfolder, hunit, hsweep, Option.bind_eq_bind, Option.bind_some, Option.pure_def]

theorem eventsOf?_eventsEntries (s : Settings) : eventsOf? (.table .defined s.eventsEntries) = some s.events := by
  have hcapacity : entryOr s.eventsEntries "channel_capacity" defaultEvents.capacity asNatural? =
      some s.events.capacity := (entryOr_of_get? rfl _ _).trans (asNatural?_natCast _)
  simp only [eventsOf?, entriesOf?, hcapacity, Option.bind_eq_bind, Option.bind_some, Option.pure_def]

theorem ofEntries?_entries (s : Settings) : ofEntries? s.entries = some s := by
  have hdrafts : entryOr s.entries "working_copies" defaultDrafts draftsOf? = some s.drafts :=
    (entryOr_of_get? rfl _ _).trans s.draftsOf?_draftsEntries
  have hevents : entryOr s.entries "events" defaultEvents eventsOf? = some s.events :=
    (entryOr_of_get? rfl _ _).trans s.eventsOf?_eventsEntries
  simp only [ofEntries?, hdrafts, hevents, Option.bind_eq_bind, Option.bind_some, Option.pure_def]

theorem exists_toText (hs : s.drafts.sweepSeconds ≤ greatest ∧ s.events.capacity ≤ greatest) :
    ∃ text, s.toText = .ok text := ⟨_, if_pos hs⟩

theorem toText_of_greater (hs : ¬ (s.drafts.sweepSeconds ≤ greatest ∧ s.events.capacity ≤ greatest)) :
    s.toText = .error .unwritable := if_neg hs

theorem fits_of_toText (h : s.toText = .ok text) :
    s.drafts.sweepSeconds ≤ greatest ∧ s.events.capacity ≤ greatest := by
  by_contra hs
  rw [toText_of_greater hs] at h
  cases h

/-- What is written for settings is read as the same settings. -/
theorem ofText_of_toText (h : s.toText = .ok text) : ofText text = .ok s := by
  have hread : read? text = some s.entries :=
    read?_of_header (toText_eq_ok h) (readsOn_document (fits_of_toText h))
  rw [ofText, hread, Option.bind_some, ofEntries?_entries]

theorem load_of_content? (h : s.toText = .ok text) (hfile : d.content? p = some (Text.Utf8.encode text)) :
    load d p = .ok s := by
  rw [load, Disk.read_eq_ok_iff.2 hfile]
  change ofBytes (Text.Utf8.encode text) = .ok s
  rw [ofBytes, Text.Utf8.decode?_encode]
  exact ofText_of_toText h

end Text

section Saving

theorem load_of_save (ht : d.IsTree) (hp : d.Takes p) (h : s.toText = .ok text) :
    ∃ d', s.save p location d = .ok () d' ∧ load d' p = .ok s := by
  obtain ⟨made, hmade⟩ := hp.makeFolders ht
  obtain ⟨prepared, hrestrict, hchanges, hfolder, hfree⟩ := ht.exists_restrict hmade .folder (location p.dropLast)
  obtain ⟨written, hwrite⟩ : ∃ written, prepared.write p (Text.Utf8.encode text) = .ok written :=
    (hchanges.tree ht).exists_write_iff.2 ⟨hp.named, hp.short, hfolder, hfree.trans hp.free⟩
  obtain ⟨-, hcontent⟩ := Disk.write_eq_ok hwrite
  obtain ⟨d', hd'⟩ := Disk.restrict_of_content? .file (location p) hcontent
  refine ⟨d', by simp only [save, hmade, hrestrict, h, hwrite, hd'], load_of_content? h ?_⟩
  rw [(Disk.restrict_changes hd').content p List.not_mem_nil, hcontent]

theorem save_of_unwritable (ht : d.IsTree) (hp : d.Takes p) (h : s.toText = .error .unwritable) :
    ∃ d', s.save p location d = .error .unwritable d' ∧ ∀ q, d'.content? q = d.content? q := by
  obtain ⟨made, hmade⟩ := hp.makeFolders ht
  obtain ⟨prepared, hrestrict, hchanges, -, -⟩ := ht.exists_restrict hmade .folder (location p.dropLast)
  exact ⟨prepared, by simp only [save, hmade, hrestrict, h], fun q => hchanges.content q List.not_mem_nil⟩

theorem takes_of_save (ht : d.IsTree) (h : s.save p location d = .ok () d') : d.Takes p := by
  rcases hmade : d.makeFolders p.dropLast with ⟨_ | u, made⟩
  · simp only [save, hmade] at h
    cases h
  obtain ⟨prepared, hrestrict, hchanges, -, hfree⟩ := ht.exists_restrict hmade .folder (location p.dropLast)
  cases htext : s.toText with
  | error e =>
      simp only [save, hmade, hrestrict, htext] at h
      cases h
  | ok text =>
      cases hwrite : prepared.write p (Text.Utf8.encode text) with
      | error f =>
          simp only [save, hmade, hrestrict, htext, hwrite] at h
          cases h
      | ok written =>
          obtain ⟨-, hclear⟩ := ht.makeFolders_eq_ok_iff.1 (congrArg Prod.fst hmade)
          obtain ⟨hne, hshort, -, hopen⟩ := (hchanges.tree ht).exists_write_iff.1 ⟨written, hwrite⟩
          exact ⟨hne, hshort, hclear, hfree.symm.trans hopen⟩

theorem exists_save_iff (ht : d.IsTree) (hs : s.drafts.sweepSeconds ≤ greatest ∧ s.events.capacity ≤ greatest) :
    (∃ d', s.save p location d = .ok () d') ↔ d.Takes p := by
  obtain ⟨text, htext⟩ := exists_toText hs
  constructor
  · rintro ⟨d', hsave⟩
    exact takes_of_save ht hsave
  · intro hp
    obtain ⟨d', hsave, -⟩ := load_of_save ht hp htext
    exact ⟨d', hsave⟩

/-- Where there is room for the file, settings that it can hold are saved and loaded again as they were. With a
greater integer nothing is written, and every file keeps its bytes. -/
theorem saved_settings_are_loaded (s : Settings) (p : Place) (location : Place → String) (d : Disk)
    (ht : d.IsTree) (hp : d.Takes p) :
    (s.drafts.sweepSeconds ≤ greatest ∧ s.events.capacity ≤ greatest →
      ∃ d', s.save p location d = .ok () d' ∧ load d' p = .ok s) ∧
    (greatest < s.drafts.sweepSeconds ∨ greatest < s.events.capacity →
      ∃ d', s.save p location d = .error .unwritable d' ∧ ∀ q, d'.content? q = d.content? q) := by
  constructor
  · intro hfits
    obtain ⟨text, htext⟩ := exists_toText hfits
    exact load_of_save ht hp htext
  · intro hgreater
    exact save_of_unwritable ht hp (toText_of_greater fun hfits => by omega)

def keptHome : Disk :=
  ⟨[([], .folder 0o755), ([".draftsync"], .folder 0o755), (homePlace, .file 0o644 [35])]⟩

/-- A folder whose name has quotes of both kinds, a backslash, a line end and a control character. -/
def oddlyNamed : Settings := ⟨⟨"'''\"\"\"\\\r\n\x01", .utf16, 0⟩, ⟨1⟩⟩

def tooSlow : Settings := ⟨⟨"drafts", .char, 0x8000000000000000⟩, ⟨1⟩⟩

theorem oddly_named_is_loaded_and_too_slow_is_refused :
    (∃ d', oddlyNamed.save homePlace (fun _ => "") keptHome = .ok () d' ∧ load d' homePlace = .ok oddlyNamed) ∧
    ∃ d', tooSlow.save homePlace (fun _ => "") keptHome = .error .unwritable d' ∧
      ∀ q, d'.content? q = keptHome.content? q := by
  have ht : keptHome.IsTree := by decide
  have hp : keptHome.Takes homePlace := by
    refine ⟨by decide, by decide, fun way hway => ?_, by decide⟩
    have hinits : ∀ way ∈ homePlace.dropLast.inits, keptHome.content? way = none := by decide
    exact hinits way ((List.mem_inits ..).2 hway)
  exact ⟨(saved_settings_are_loaded oddlyNamed homePlace (fun _ => "") keptHome ht hp).1 (by decide),
    (saved_settings_are_loaded tooSlow homePlace (fun _ => "") keptHome ht hp).2 (by decide)⟩

end Saving

end Settings

end DraftKeeper
