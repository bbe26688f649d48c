import GeoRisk.Product.Briefing
import GeoRisk.Record.Gate

/-!
# One record with its evidence

`get_event` and `build_event_detail`, which the dashboard shares: the evidence rows joined with their
documents and sources, and the number of quotes that lists, search and queue show.

* `evidenceOut`           `_evidence_out`;
* `buildEventDetail`      the record as it is served;
* `Served`                what a reader gets;
* `served_of_cited`       where every reference resolves and every quote is located, a reader gets all
                          quotes, and as many as are announced.
-/

namespace GeoRisk
open Kit

structure EvidenceOut where
  fieldSupported : Text
  quote : Text
  verified : Bool
  verificationMethod : Text
  sourceUrl : Text
  sourceName : Text
  documentTitle : Option Text
  publishedAt : Option DateTime
  charStart : Option Nat
  charEnd : Option Nat
  deriving DecidableEq, Repr

structure ActorOut where
  name : Text
  entityType : EntityType
  role : ActorRole
  deriving DecidableEq, Repr

def detailDisclaimer : Text := txt (
  "This record reflects what the cited sources reported. Quotes are verified " ++
  "against the text retrieved at ingestion time. Coverage is not comprehensive " ++
  "and absence of an event is not evidence that nothing happened.")

structure EventDetailOut extends EventSummaryOut where
  summary : Text
  severityRationale : Option Text
  changeNote : Option Text
  actors : List ActorOut
  evidence : List EvidenceOut
  sourceLinks : List Text
  disclaimer : Text := detailDisclaimer
  deriving DecidableEq, Repr

/-! ## the page -/

/-- the rows of `_evidence_out`, in the order of the table -/
def evidenceOf (s : Store) (eventId : Nat) : List (EventEvidence × RawDocument × Source) :=
  (s.evidenceRows.filter fun r => decide (r.1 = eventId)).filterMap fun r =>
    (s.document? r.2.documentId).bind fun d => (s.source? d.sourceId).map fun x => (r.2, d, x)

/-- the link to a document -/
def RawDocument.link (d : RawDocument) : Text :=
  match d.canonicalUrl with
  | none | some [] => d.url
  | some url => url

def evidenceRowOut (r : EventEvidence × RawDocument × Source) : EvidenceOut where
  fieldSupported := r.1.fieldSupported
  quote := r.1.quote
  verified := r.1.verified
  verificationMethod := r.1.verificationMethod
  sourceUrl := r.2.1.link
  sourceName := r.2.2.name
  documentTitle := r.2.1.title
  publishedAt := r.2.1.publishedAt
  charStart := r.1.quoteCharStart
  charEnd := r.1.quoteCharEnd

/-- `_evidence_out` -/
def evidenceOut (env : ReadEnv) (s : Store) (eventId : Nat) : List EvidenceOut :=
  ((env.scan (evidenceOf s eventId)).insertionSort fun a b =>
    env.collate a.1.fieldSupported b.1.fieldSupported = true).map evidenceRowOut

def buildEventDetail (env : ReadEnv) (s : Store) (e : Event) : EventDetailOut :=
  let evidence := evidenceOut env s e.eventId
  { summaryOut e evidence.length with
    summary := e.summary
    severityRationale := e.severityRationale
    changeNote := e.changeNote
    actors := e.actors.map fun a => ⟨a.entity.canonicalName, a.entity.entityType, a.role⟩
    evidence := evidence
    sourceLinks := sortedTexts ((evidence.map (·.sourceUrl)).filter (fun t => !t.isEmpty)).dedup }

def eventNotFound : HttpError := ⟨404, txt "event not found"⟩

def getEvent (env : ReadEnv) (s : Store) (eventId : Nat) : Except HttpError EventDetailOut :=
  match s.event? eventId with
  | none => .error eventNotFound
  | some e => .ok (buildEventDetail env s e)

/-! ## what a reader gets -/

/-- a quote on the page: a row of the record, and where a reader can check it -/
structure Checkable (U : Unicode) (s : Store) (x : EventEvidence) (q : EvidenceOut) : Prop where
  row : q.quote = x.quote ∧ q.fieldSupported = x.fieldSupported
  verified : q.verified = true
  /-- the quote stands at its offsets in the stored text of the document that is linked, normalised
  once more as `verify_quote` reads it -/
  stands : ∃ d text i j, s.document? x.documentId = some d ∧ q.sourceUrl = d.link ∧
    q.documentTitle = d.title ∧ d.cleanText = some text ∧ q.charStart = some i ∧
    q.charEnd = some j ∧ slice (normaliseText U text) i j = normaliseText U (strip x.quote)
  /-- and names who published it -/
  source : ∃ d src, s.document? x.documentId = some d ∧ s.source? d.sourceId = some src ∧
    q.sourceName = src.name

structure Served (U : Unicode) (s : Store) (e : Event) (out : EventDetailOut) : Prop where
  /-- what the lists show of the record, with the number of its quotes -/
  summary : ∀ ids, e.eventId ∈ ids →
    out.toEventSummaryOut = summaryOut e (countOf (evidenceCounts s ids) e.eventId)
  count : out.evidenceCount = out.evidence.length
  nonempty : out.evidence ≠ []
  /-- every quote of the record is on the page, once -/
  evidence : ∃ rows, rows.Perm e.evidence ∧ List.Forall₂ (Checkable U s) rows out.evidence
  links : ∀ url, url ∈ out.sourceLinks ↔ url ≠ [] ∧ ∃ q ∈ out.evidence, q.sourceUrl = url

section
variable {U : Unicode} {env : ReadEnv} {s : Store} {e : Event}

/-! ## counts -/

/-- the rows of one event -/
theorem filter_evidenceRows (hkeys : (s.events.map Event.eventId).Nodup) (he : e ∈ s.events) :
    (s.evidenceRows.filter fun r => decide (r.1 = e.eventId)) =
      e.evidence.map fun x => (e.eventId, x) := by
  have hown : ∀ f : Event, f.eventId = e.eventId →
      (f.evidence.map fun x => (f.eventId, x)).filter (fun r => decide (r.1 = e.eventId)) =
        f.evidence.map fun x => (f.eventId, x) := by
    intro f hf
    rw [List.filter_eq_self]
    intro r hr
    obtain ⟨x, _, rfl⟩ := List.mem_map.mp hr
    exact decide_eq_true hf
  have hother : ∀ f : Event, f.eventId ≠ e.eventId →
      (f.evidence.map fun x => (f.eventId, x)).filter (fun r => decide (r.1 = e.eventId)) = [] := by
    intro f hf
    rw [List.filter_eq_nil_iff]
    intro r hr
    obtain ⟨x, _, rfl⟩ := List.mem_map.mp hr
    rw [decide_eq_true_eq]
    exact hf
  unfold Store.evidenceRows
  rw [List.filter_flatMap]
  generalize s.events = events at hkeys he
  induction events with
  | nil => cases he
  | cons f events ih =>
    rw [List.map_cons, List.nodup_cons] at hkeys
    rw [List.flatMap_cons]
    rcases List.mem_cons.mp he with rfl | he
    · rw [hown e rfl, List.flatMap_eq_nil_iff.mpr, List.append_nil]
      intro f hf
      exact hother f fun h => hkeys.1 (h ▸ List.mem_map_of_mem hf)
    · rw [hother f fun h => hkeys.1 (h ▸ List.mem_map_of_mem he), List.nil_append, ih hkeys.2 he]

/-- the number of quotes that is announced for an event -/
theorem countOf_evidenceCounts {ids : List Nat} {i : Nat} (hi : i ∈ ids) :
    countOf (evidenceCounts s ids) i = s.evidenceRows.countP fun r => decide (r.1 = i) := by
  have hsel : ∀ r ∈ s.evidenceRows, r.1 = i → r.1 ∈ ids := fun r _ hr => hr ▸ hi
  unfold countOf evidenceCounts lookup
  rw [if_neg (List.ne_nil_of_mem hi), List.find?_map]
  show (((((groupBy Prod.fst (s.evidenceRows.filter fun r => decide (r.1 ∈ ids))).find? fun g =>
    decide (g.1 = i)).map fun g => (g.1, g.2.length)).map Prod.snd).getD 0) = _
  rw [find?_groupBy, List.filter_filter, List.countP_eq_length_filter]
  have hsame : (s.evidenceRows.filter fun r => decide (r.1 = i) && decide (r.1 ∈ ids)) =
      s.evidenceRows.filter fun r => decide (r.1 = i) := by
    apply List.filter_congr
    intro r hr
    by_cases h : r.1 = i
    · rw [decide_eq_true h, decide_eq_true (hsel r hr h)]
      rfl
    · rw [decide_eq_false h]
      rfl
  rw [hsame]
  split
  · rfl
  · next hnot =>
    symm
    rw [Option.map_none, Option.map_none, Option.getD_none, List.length_eq_zero_iff,
      List.filter_eq_nil_iff]
    intro r hr h
    have hr' := of_decide_eq_true h
    refine hnot (List.mem_map.mpr ⟨r, List.mem_filter.mpr ⟨hr, ?_⟩, hr'⟩)
    exact decide_eq_true (hsel r hr hr')

/-! ## the join -/

/-- where a row leads -/
def joinRow (s : Store) (x : EventEvidence) : Option (EventEvidence × RawDocument × Source) :=
  (s.document? x.documentId).bind fun d => (s.source? d.sourceId).map fun src => (x, d, src)

theorem evidenceOf_eq (hkeys : (s.events.map Event.eventId).Nodup) (he : e ∈ s.events) :
    evidenceOf s e.eventId = e.evidence.filterMap (joinRow s) := by
  unfold evidenceOf
  rw [filter_evidenceRows hkeys he, List.filterMap_map]
  rfl

theorem joinRow_eq_some {x : EventEvidence} {r : EventEvidence × RawDocument × Source}
    (h : joinRow s x = some r) :
    r.1 = x ∧ s.document? x.documentId = some r.2.1 ∧ s.source? r.2.1.sourceId = some r.2.2 := by
  obtain ⟨d, hd, h⟩ := Option.bind_eq_some_iff.mp h
  obtain ⟨src, hsrc, rfl⟩ := Option.map_eq_some_iff.mp h
  exact ⟨rfl, hd, hsrc⟩

/-- **A join along references that resolve loses no row.** -/
theorem map_join {rows : List EventEvidence}
    (h : ∀ x ∈ rows, ∃ d src, s.document? x.documentId = some d ∧ s.source? d.sourceId = some src) :
    (rows.filterMap (joinRow s)).map Prod.fst = rows := by
  induction rows with
  | nil => rfl
  | cons x rows ih =>
    rw [List.forall_mem_cons] at h
    obtain ⟨d, src, hd, hsrc⟩ := h.1
    have hjoin : joinRow s x = some (x, d, src) := by
      unfold joinRow
      rw [hd, Option.bind_some, hsrc]
      rfl
    rw [List.filterMap_cons_some hjoin, List.map_cons, ih h.2]

theorem checkable_of_join {x : EventEvidence} {r : EventEvidence × RawDocument × Source}
    (hx : Located U s e x) (h : joinRow s x = some r) : Checkable U s r.1 (evidenceRowOut r) := by
  obtain ⟨hrow, hd, hsrc⟩ := joinRow_eq_some h
  obtain ⟨d, text, i, j, hd', htext, hi, hj, hslice⟩ := hx.found
  have hsame : r.2.1 = d := Option.some.inj (hd.symm.trans hd')
  subst hrow
  exact ⟨⟨rfl, rfl⟩, hx.verified,
    ⟨d, text, i, j, hd', congrArg RawDocument.link hsame, congrArg RawDocument.title hsame, htext,
      hi, hj, hslice⟩, r.2.1, r.2.2, hd, hsrc, rfl⟩

/-! ## the page of a record -/

theorem mem_sourceLinks {evidence : List EvidenceOut} {url : Text} :
    url ∈ sortedTexts ((evidence.map (·.sourceUrl)).filter (fun t => !t.isEmpty)).dedup ↔
      url ≠ [] ∧ ∃ q ∈ evidence, q.sourceUrl = url := by
  unfold sortedTexts
  rw [(perm_sortBy id _).mem_iff, List.mem_dedup, List.mem_filter, List.mem_map]
  cases url with
  | nil => simp
  | cons c t => simp

/-- **A record whose quotes are located and lead to a source is served with all of them, and its
page agrees with what the lists say of it.** -/
theorem served_of_cited (hkeys : (s.events.map Event.eventId).Nodup) (he : e ∈ s.events)
    (hcited : Cited U s e)
    (hrefs : ∀ x ∈ e.evidence,
      ∃ d src, s.document? x.documentId = some d ∧ s.source? d.sourceId = some src) :
    ∃ out, getEvent env s e.eventId = .ok out ∧ Served U s e out := by
  have hfound : s.event? e.eventId = some e := lookup_of_mem hkeys he
  set rows := (env.scan (evidenceOf s e.eventId)).insertionSort fun a b =>
    env.collate a.1.fieldSupported b.1.fieldSupported = true
  have hperm : rows.Perm (e.evidence.filterMap (joinRow s)) := by
    rw [← evidenceOf_eq hkeys he]
    exact (List.perm_insertionSort _ _).trans (env.scan_perm _)
  have hall : (rows.map Prod.fst).Perm e.evidence := by
    have hmap := hperm.map Prod.fst
    rwa [map_join hrefs] at hmap
  have hlength : (rows.map evidenceRowOut).length = e.evidence.length := by
    rw [List.length_map, ← hall.length_eq, List.length_map]
  have hcount : s.evidenceRows.countP (fun r => decide (r.1 = e.eventId)) = e.evidence.length := by
    rw [List.countP_eq_length_filter, filter_evidenceRows hkeys he, List.length_map]
  refine ⟨buildEventDetail env s e, ?_, ?_, rfl, ?_, ⟨rows.map Prod.fst, hall, ?_⟩, ?_⟩
  · unfold getEvent
    rw [hfound]
  · intro ids hids
    rw [countOf_evidenceCounts hids, hcount]
    show summaryOut e (rows.map evidenceRowOut).length = _
    rw [hlength]
  · intro hnil
    have hzero : (rows.map evidenceRowOut).length = 0 := congrArg List.length hnil
    rw [hlength] at hzero
    exact hcited.nonempty (List.length_eq_zero_iff.mp hzero)
  · show List.Forall₂ (Checkable U s) (rows.map Prod.fst) (rows.map evidenceRowOut)
    rw [List.forall₂_map_left_iff, List.forall₂_map_right_iff, List.forall₂_same]
    intro r hr
    obtain ⟨x, hx, hjoin⟩ := List.mem_filterMap.mp (hperm.mem_iff.mp hr)
    exact checkable_of_join (hcited.located x hx) hjoin
  · exact fun url => mem_sourceLinks

end

end GeoRisk
