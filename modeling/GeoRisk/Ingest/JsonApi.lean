import Mathlib.Data.Char
import Mathlib.Data.List.Lex
import GeoRisk.Ingest.Runner
import GeoRisk.Kit.Query
import GeoRisk.Text.Number

/-!
# A JSON endpoint

`decode_payload` and the adapter that maps a JSON document by dotted paths.  The parser and the
printer of JSON, `urljoin` and `dateutil` are parameters.

* `decodePayload`        the first encoding that decodes the payload;
* `dig`                  `_dig`: a dotted path through objects and lists;
* `JsonApiAdapter.parse` `JsonApiAdapter.parse`, with the exceptions that it lets through;
* `decodePayload_mark`   a byte-order mark stays in the text, since plain UTF-8 decodes it too;
* `Itemless`             a document without an item;
* `parse_mark_iff`       the payloads that a byte-order mark makes no difference to.
-/

namespace GeoRisk
open Kit

/-! ## decoding -/

/-- `bytes.decode` with one codec; `none` is the `UnicodeDecodeError` or the `LookupError` -/
abbrev Codec := ByteArray → Option Text

def decodeUtf8 : Codec := fun payload => payload.utf8Decode?.map Array.toList

/-- U+FEFF in UTF-8 -/
def byteOrderMark : ByteArray := ⟨#[0xEF, 0xBB, 0xBF]⟩

def decodeUtf8Sig : Codec := fun payload =>
  decodeUtf8 (if (payload.extract 0 3).data = byteOrderMark.data then payload.extract 3 payload.size
    else payload)

/-- the characters of cp1252 between 0x80 and 0x9F; 0 where there is none -/
def cp1252Middle : List Nat :=
  [0x20AC, 0, 0x201A, 0x192, 0x201E, 0x2026, 0x2020, 0x2021, 0x2C6, 0x2030, 0x160, 0x2039, 0x152, 0,
    0x17D, 0, 0, 0x2018, 0x2019, 0x201C, 0x201D, 0x2022, 0x2013, 0x2014, 0x2DC, 0x2122, 0x161,
    0x203A, 0x153, 0, 0x17E, 0x178]

def cp1252Char (b : UInt8) : Option Char :=
  if b.toNat < 0x80 ∨ 0xA0 ≤ b.toNat then some (Char.ofNat b.toNat)
  else ((cp1252Middle[b.toNat - 0x80]?).filter (· ≠ 0)).map Char.ofNat

def decodeCp1252 : Codec := fun payload => payload.data.toList.mapM cp1252Char

/-- `latin-1`, which decodes every payload -/
def decodeLatin1 (payload : ByteArray) : Text :=
  payload.data.toList.map fun b => Char.ofNat b.toNat

def decodePayload (encoding : Option Codec) (payload : ByteArray) : Text :=
  ((encoding.toList ++ [decodeUtf8, decodeUtf8Sig, decodeCp1252]).findSome? (· payload)).getD
    (decodeLatin1 payload)

theorem byteOrderMark_eq : byteOrderMark = [Char.ofNat 0xFEFF].utf8Encode := by rfl

theorem decodePayload_of_utf8 {payload : ByteArray} {t : Text} (h : decodeUtf8 payload = some t) :
    decodePayload none payload = t := by
  unfold decodePayload
  rw [Option.toList_none, List.nil_append, List.findSome?_cons, h]
  rfl

theorem decodeUtf8_mark {payload : ByteArray} {t : Text} (h : decodeUtf8 payload = some t) :
    decodeUtf8 (byteOrderMark ++ payload) = some (Char.ofNat 0xFEFF :: t) := by
  obtain ⟨cs, hcs, rfl⟩ := Option.map_eq_some_iff.mp h
  unfold decodeUtf8
  rw [byteOrderMark_eq, ByteArray.utf8Decode?_utf8Encode_singleton_append, hcs]
  simp

/-- **The candidate that would drop the mark comes after one that keeps it.** -/
theorem decodePayload_mark {payload : ByteArray} {t : Text} (h : decodeUtf8 payload = some t) :
    decodePayload none (byteOrderMark ++ payload) = Char.ofNat 0xFEFF :: t :=
  decodePayload_of_utf8 (decodeUtf8_mark h)

/-! ## documents -/

/-- what `json.loads` returns; the keys of an object are different -/
inductive Json
  | null
  | bool (b : Bool)
  | int (n : Int)
  | float (x : Double)
  | str (t : Text)
  | arr (xs : List Json)
  | obj (fields : List (Text × Json))

/-- `bool(value)` -/
def Json.truthy : Json → Bool
  | .null => false
  | .bool b => b
  | .int n => decide (n ≠ 0)
  | .float (.finite q _) => decide (q ≠ 0)
  | .float _ => true
  | .str t => !t.isEmpty
  | .arr xs => !xs.isEmpty
  | .obj fields => !fields.isEmpty

/-- `xs[i]`; `none` is the `IndexError` -/
def indexed {α : Type} (xs : List α) (i : Int) : Option α :=
  if 0 ≤ i then xs[i.toNat]?
  else if -(xs.length : Int) ≤ i then xs[(xs.length + i).toNat]?
  else none

/-- one segment of a dotted path -/
def digSegment (current : Json) (segment : Text) : Json :=
  match current with
  | .arr xs =>
    match parseInt segment with
    | none => .null
    | some i => (indexed xs i).getD .null
  | .obj fields => ((fields.find? fun field => field.1 = segment).map Prod.snd).getD .null
  | _ => .null

/-- `_dig` -/
def dig (payload : Json) (path : Text) : Json := (path.splitOn '.').foldl digSegment payload

/-! ## the adapter -/

/-- what building an item raises -/
inductive ItemError
  /-- a `TypeError` or `ValueError`: the item is skipped -/
  | skipped (message : Text)
  | other (message : Text)

/-- how `json.loads` ends -/
inductive Loaded
  | document (x : Json)
  /-- `JSONDecodeError` -/
  | decodeError (message : Text)
  | raises (message : Text)

/-- the libraries that the adapter calls -/
structure JsonEnv where
  loads : Text → Loaded
  /-- `str` of a value that is not a string -/
  str : Json → Except ItemError Text
  /-- `json.dumps(·, ensure_ascii=False)` -/
  dumps : Json → Except ItemError Text
  urljoin : Text → Text → Except ItemError Text
  /-- `date_parser.parse`: the wall clock in microseconds and the offset in seconds; `none` where it
  raises a `ValueError`, `OverflowError` or `TypeError` -/
  parseDate : Text → Option (Int × Option Int)

structure JsonApiAdapter where
  /-- empty where the document is the list -/
  itemsPath : Text := []
  uidField : Text := txt "id"
  urlField : Text := txt "url"
  titleField : Text := txt "title"
  bodyField : Text := txt "description"
  publishedField : Text := txt "published"
  retrievalMethod : Text := txt "api"

/-- an item with the `raw_keys` kept for audit -/
structure ApiItem where
  item : ParsedItem
  rawKeys : List Text
  deriving DecidableEq, Repr

def JsonEnv.text (env : JsonEnv) : Json → Except ItemError Text
  | .str t => .ok t
  | x => env.str x

/-- `_as_text` -/
def JsonEnv.asText (env : JsonEnv) : Json → Except ItemError (Option Text)
  | .null => .ok none
  | .str [] => .ok none
  | .str t => .ok (some t)
  | x => (env.dumps x).map some

/-- `parse_timestamp` of a JSON value; a time without an offset is taken as UTC -/
def JsonEnv.parseTimestamp (env : JsonEnv) : Json → Option Timestamp
  | .str [] => none
  | .str t => (env.parseDate t).map fun parsed =>
    let offset := parsed.2.getD 0
    ⟨⟨parsed.1 - offset * DateTime.microsPerSecond⟩, offset⟩
  | _ => none

section
variable (env : JsonEnv) (adapter : JsonApiAdapter)

/-- `_item` -/
def JsonApiAdapter.item (fields : List (Text × Json)) (baseUrl : Text) :
    Except ItemError ApiItem := do
  let raw := Json.obj fields
  let link := dig raw adapter.urlField
  let url ← if link.truthy then do env.urljoin baseUrl (← env.text link) else .ok baseUrl
  let sourceUid ← match dig raw adapter.uidField with
    | .null => .ok none
    | uid => (env.text uid).map some
  let title ← env.asText (dig raw adapter.titleField)
  let bodyText ← env.asText (dig raw adapter.bodyField)
  .ok
    { item :=
        { sourceUid := sourceUid
          url := url
          title := title
          bodyText := bodyText
          publishedAt := env.parseTimestamp (dig raw adapter.publishedField)
          canonicalUrl := some url
          language := none }
      rawKeys := (sortBy id (fields.map Prod.fst)).take 40 }

/-- the loop of `parse` -/
def JsonApiAdapter.collect (baseUrl : Text) : List Json → Except Text (List ApiItem)
  | [] => .ok []
  | .obj fields :: raws =>
    match adapter.item env fields baseUrl with
    | .ok item => (collect baseUrl raws).map (item :: ·)
    | .error (.skipped _) => collect baseUrl raws
    | .error (.other message) => .error message
  | _ :: raws => collect baseUrl raws

/-- the value that has to be the list of items -/
def JsonApiAdapter.rawItems (document : Json) : Json :=
  if adapter.itemsPath = [] then document else dig document adapter.itemsPath

def JsonApiAdapter.parse (payload : ByteArray) (baseUrl : Text) : Except Text (List ApiItem) :=
  match env.loads (decodePayload none payload) with
  | .decodeError _ => .ok []
  | .raises message => .error message
  | .document document =>
    match adapter.rawItems document with
    | .arr raws => adapter.collect env baseUrl raws
    | _ => .ok []

/-- the text is no JSON, the path leads to no list, or no object of the list makes an item -/
def Itemless (baseUrl t : Text) : Prop :=
  match env.loads t with
  | .decodeError _ => True
  | .raises _ => False
  | .document document => ∀ raws, adapter.rawItems document = .arr raws →
    ∀ fields, .obj fields ∈ raws →
      ∃ message, adapter.item env fields baseUrl = .error (.skipped message)

end

/-! ## payloads with a byte-order mark -/

section
variable {env : JsonEnv} {adapter : JsonApiAdapter} {payload : ByteArray} {baseUrl t : Text}

theorem collect_eq_nil_iff {raws : List Json} :
    adapter.collect env baseUrl raws = .ok [] ↔ ∀ fields, .obj fields ∈ raws →
      ∃ message, adapter.item env fields baseUrl = .error (.skipped message) := by
  induction raws with
  | nil => exact iff_of_true rfl fun _ h => absurd h List.not_mem_nil
  | cons raw raws ih =>
    simp only [List.mem_cons, or_imp, forall_and]
    cases raw with
    | obj fields =>
      rw [JsonApiAdapter.collect, ← ih]
      simp only [Json.obj.injEq, forall_eq]
      cases hitem : adapter.item env fields baseUrl with
      | ok item =>
        refine iff_of_false ?_ fun h => by obtain ⟨_, he⟩ := h.1; cases he
        cases adapter.collect env baseUrl raws with
        | error e => exact fun h => by cases h
        | ok items => exact fun h => by cases h
      | error e =>
        cases e with
        | skipped message => exact ⟨fun h => ⟨⟨message, rfl⟩, h⟩, fun h => h.2⟩
        | other message =>
          exact iff_of_false (fun h => by cases h) fun h => by obtain ⟨_, he⟩ := h.1; cases he
    | _ =>
      rw [JsonApiAdapter.collect, ← ih]
      · exact ⟨fun h => ⟨fun _ hf => Json.noConfusion hf, h⟩, fun h => h.2⟩
      · exact fun _ => Json.noConfusion

/-- a payload has no items exactly if its text has none -/
theorem parse_eq_nil_iff (h : decodeUtf8 payload = some t) :
    adapter.parse env payload baseUrl = .ok [] ↔ Itemless env adapter baseUrl t := by
  unfold JsonApiAdapter.parse Itemless
  rw [decodePayload_of_utf8 h]
  cases env.loads t with
  | decodeError message => exact iff_of_true rfl trivial
  | raises message => exact iff_of_false (fun h => by cases h) id
  | document document =>
    simp only
    cases adapter.rawItems document with
    | arr raws =>
      simp only [Json.arr.injEq, forall_eq']
      exact collect_eq_nil_iff
    | _ => exact iff_of_true rfl fun _ h => Json.noConfusion h

/-- **Behind a byte-order mark nothing is found.** -/
theorem parse_mark
    (hloads : ∀ t, ∃ message, env.loads (Char.ofNat 0xFEFF :: t) = .decodeError message)
    (h : decodeUtf8 payload = some t) :
    adapter.parse env (byteOrderMark ++ payload) baseUrl = .ok [] := by
  obtain ⟨message, hrejects⟩ := hloads t
  unfold JsonApiAdapter.parse
  rw [decodePayload_mark h, hrejects]

/-- **A byte-order mark makes no difference exactly to the payloads without items.** -/
theorem parse_mark_iff
    (hloads : ∀ t, ∃ message, env.loads (Char.ofNat 0xFEFF :: t) = .decodeError message)
    (adapter : JsonApiAdapter) (baseUrl : Text) (h : decodeUtf8 payload = some t) :
    adapter.parse env (byteOrderMark ++ payload) baseUrl = adapter.parse env payload baseUrl ↔
      Itemless env adapter baseUrl t := by
  rw [parse_mark hloads h, ← parse_eq_nil_iff h]
  exact eq_comm

end

namespace Sample

def linkFeed : Text := txt "[\x7b\"url\": \"/n1\"\x7d]"

/-- the libraries, on the two feeds -/
def jsonEnv : JsonEnv where
  loads
    | [] => .decodeError (txt "Expecting value")
    | c :: t =>
      if c = Char.ofNat 0xFEFF then
        .decodeError (txt "Unexpected UTF-8 BOM (decode using utf-8-sig)")
      else if c :: t = linkFeed then .document (.arr [.obj [(txt "url", .str (txt "/n1"))]])
      else if c :: t = txt "[]" then .document (.arr [])
      else .decodeError (txt "Expecting value")
  str _ := .error (.other (txt "no other value"))
  dumps _ := .error (.other (txt "no other value"))
  urljoin base link := .ok (base ++ link)
  parseDate _ := none

theorem jsonEnv_rejects (t : Text) :
    ∃ message, jsonEnv.loads (Char.ofNat 0xFEFF :: t) = .decodeError message :=
  ⟨_, rfl⟩

end Sample

/-- a feed with one item has none behind a byte-order mark -/
theorem mark_hides_linkFeed :
    ¬ ∀ (env : JsonEnv) (adapter : JsonApiAdapter) (payload : ByteArray) (baseUrl t : Text),
      (∀ t, ∃ message, env.loads (Char.ofNat 0xFEFF :: t) = .decodeError message) →
        decodeUtf8 payload = some t → t.head? ≠ some (Char.ofNat 0xFEFF) →
          adapter.parse env (byteOrderMark ++ payload) baseUrl =
            adapter.parse env payload baseUrl := by
  intro h
  have hdecode : decodeUtf8 Sample.linkFeed.utf8Encode = some Sample.linkFeed := by
    rw [decodeUtf8, List.utf8Decode?_utf8Encode]
    rfl
  have heq := h Sample.jsonEnv {} _ (txt "https://example.org") _ Sample.jsonEnv_rejects hdecode
    (by decide)
  rw [parse_mark Sample.jsonEnv_rejects hdecode, JsonApiAdapter.parse,
    decodePayload_of_utf8 hdecode] at heq
  have hitems : (Except.ok [] : Except Text (List ApiItem)) =
      .ok [⟨⟨none, txt "https://example.org/n1", none, none, none,
        some (txt "https://example.org/n1"), none⟩, [txt "url"]⟩] := heq
  cases hitems

theorem parse_mark_iff_empty :
    JsonApiAdapter.parse Sample.jsonEnv {} (byteOrderMark ++ (txt "[]").utf8Encode) [] =
      JsonApiAdapter.parse Sample.jsonEnv {} (txt "[]").utf8Encode [] := by
  have hdecode : decodeUtf8 (txt "[]").utf8Encode = some (txt "[]") := by
    rw [decodeUtf8, List.utf8Decode?_utf8Encode]
    rfl
  refine (parse_mark_iff Sample.jsonEnv_rejects {} [] hdecode).mpr ?_
  intro raws hraws fields hfields
  cases hraws
  cases hfields

/-! ## the run of a source -/

section
variable {U : Unicode} {sha : Text → Text} {store : Store} {source : Source} {run : SourceEnv}
  {now : DateTime} {env : JsonEnv} {adapter : JsonApiAdapter} {payload : ByteArray} {t : Text}

/-- the items of a payload, with the answers of the database to them -/
def JsonApiAdapter.offers (adapter : JsonApiAdapter) (env : JsonEnv) (payload : ByteArray)
    (baseUrl : Text) (answers : Nat → Insertion) : Except Text (List (ParsedItem × Insertion)) :=
  (adapter.parse env payload baseUrl).map fun items =>
    items.zipIdx.map fun x => (x.1.item, answers x.2)

/-- **A feed with a byte-order mark is a run that succeeds and sees nothing.** -/
theorem ingestSource_mark
    (hloads : ∀ t, ∃ message, env.loads (Char.ofNat 0xFEFF :: t) = .decodeError message)
    (h : decodeUtf8 payload = some t) {answers : Nat → Insertion} {fetch : FetchResult}
    (ho : run.opens = true) (ha : run.adapter = .ok ()) (hc : run.closes = true)
    (hf : run.fetch = .returned fetch) (hmod : fetch.notModified = false)
    (hitems : run.items = adapter.offers env (byteOrderMark ++ payload) source.feedUrl answers) :
    ∃ store' row, (ingestSource U sha store source run now).result = .ok (store', row) ∧
      row.status = .succeeded ∧ row.itemsSeen = 0 ∧ store'.documents = store.documents := by
  have hnone : run.items = .ok [] := by
    rw [hitems, JsonApiAdapter.offers, parse_mark hloads h]
    rfl
  unfold ingestSource ingestResponse
  simp only [ho, ha, hf, hmod, hnone, Bool.not_true, Bool.false_eq_true, if_false]
  unfold storeItems storeItemsFrom closeRun ensure
  simp only [hc]
  exact ⟨_, _, rfl, rfl, rfl, rfl⟩

end

end GeoRisk
