import GeoRisk.Processing.Verify

/-!
# What a new document means for an existing event

`consolidate.py`: a snapshot of the event is compared with the new extraction.  Nothing is written
here.

* `compare`               the changes to apply, the conflicts, the ungrounded changes and the
                          additions;
* `Consolidation.relation`    `update` or `duplicate`;
* `relation_eq_update`    an update is a report that changes content or needs a human;
* `mem_groundedAdditions`,
  `mem_sectorAdditions`   which names and sectors are added;
* `Labelled`, `Mentioned` what the quotes of the report support;
* `changeNote`            the note assembled from the changes and the quotes behind them.
-/

namespace GeoRisk
open Kit

/-- the fields a quote can be labelled with, as `compare` asks for them -/
inductive MaterialField
  | severity
  | eventDate
  | eventType
  | affectedSectors
  deriving DecidableEq, Repr

namespace MaterialField

def value : MaterialField → Text
  | severity => txt "severity"
  | eventDate => txt "event_date"
  | eventType => txt "event_type"
  | affectedSectors => txt "affected_sectors"

/-- `_FIELD_ALIASES` -/
def aliases : MaterialField → List Text
  | severity => [txt "severity"]
  | eventDate => [txt "event_date", txt "date"]
  | eventType => [txt "event_type", txt "type"]
  | affectedSectors => [txt "affected_sectors", txt "sectors", txt "sector"]

theorem value_mem_aliases (f : MaterialField) : f.value ∈ f.aliases := by
  cases f <;> exact List.mem_cons_self ..

end MaterialField

/-- the parts of an event that a new report is compared against; the names are keys -/
structure EventSnapshot where
  eventType : EventType
  eventDate : Date
  severity : Severity
  locationNames : List Text
  actorNames : List Text
  sectors : List Sector

/-- a changed field with its old and new value and the quote that supports the new one -/
inductive FieldChange
  | eventType (before after : EventType) (quote : Option Text)
  | eventDate (before after : Date) (quote : Option Text)
  | severity (before after : Severity) (quote : Option Text)
  deriving DecidableEq, Repr

namespace FieldChange

def field : FieldChange → MaterialField
  | eventType .. => .eventType
  | eventDate .. => .eventDate
  | severity .. => .severity

def before : FieldChange → Text
  | eventType b _ _ => b.value
  | eventDate b _ _ => b.isoformat
  | severity b _ _ => b.value

def after : FieldChange → Text
  | eventType _ a _ => a.value
  | eventDate _ a _ => a.isoformat
  | severity _ a _ => a.value

def quote : FieldChange → Option Text
  | eventType _ _ q => q
  | eventDate _ _ q => q
  | severity _ _ q => q

end FieldChange

structure Consolidation where
  applied : List FieldChange := []
  conflicts : List FieldChange := []
  ungrounded : List FieldChange := []
  newLocations : List Text := []
  newActors : List Text := []
  newSectors : List Sector := []
  deriving DecidableEq, Repr

namespace Consolidation

def additions (c : Consolidation) : Bool :=
  !(c.newLocations.isEmpty && c.newActors.isEmpty && c.newSectors.isEmpty)

def relation (c : Consolidation) : DocumentRelation :=
  if !c.applied.isEmpty || !c.conflicts.isEmpty || !c.ungrounded.isEmpty || c.additions then
    .update
  else .duplicate

def needsReview (c : Consolidation) : Bool := !c.conflicts.isEmpty || !c.ungrounded.isEmpty
def changesContent (c : Consolidation) : Bool := !c.applied.isEmpty || c.additions

/-- **An update changes content or needs a human.** -/
theorem relation_eq_update {c : Consolidation} :
    c.relation = .update ↔ c.changesContent = true ∨ c.needsReview = true := by
  unfold relation changesContent needsReview
  cases c.applied.isEmpty <;> cases c.conflicts.isEmpty <;> cases c.ungrounded.isEmpty <;>
    cases c.additions <;> decide

theorem relation_update_or_duplicate (c : Consolidation) :
    c.relation = .update ∨ c.relation = .duplicate := by
  unfold relation
  split
  · exact Or.inl rfl
  · exact Or.inr rfl

theorem of_relation_ne_update {c : Consolidation} (h : c.relation ≠ .update) :
    c.changesContent = false ∧ c.needsReview = false := by
  rw [Ne, relation_eq_update, not_or] at h
  exact ⟨Bool.eq_false_iff.mpr h.1, Bool.eq_false_iff.mpr h.2⟩

theorem relation_eq_duplicate {c : Consolidation} :
    c.relation = .duplicate ↔
      c.applied = [] ∧ c.conflicts = [] ∧ c.ungrounded = [] ∧ c.additions = false := by
  unfold relation
  cases c.applied with
  | cons _ _ => simp
  | nil =>
    cases c.conflicts with
    | cons _ _ => simp
    | nil =>
      cases c.ungrounded with
      | cons _ _ => simp
      | nil => cases c.additions <;> simp

theorem additions_eq_false {c : Consolidation} :
    c.additions = false ↔ c.newLocations = [] ∧ c.newActors = [] ∧ c.newSectors = [] := by
  simp [additions, and_assoc]

theorem of_changesContent_false {c : Consolidation} (h : c.changesContent = false) :
    c.applied = [] ∧ c.newLocations = [] ∧ c.newActors = [] ∧ c.newSectors = [] := by
  simpa [changesContent, additions, and_assoc] using h

end Consolidation

/-- the truth value of an optional string -/
def truthy : Option Text → Bool
  | some (_ :: _) => true
  | _ => false

section
variable (U : Unicode)

def key (text : Text) : Text := U.casefold (normaliseText U text)

def quoteFor (quotes : List VerifiedQuote) (canonical : MaterialField) : Option Text :=
  (quotes.find? fun q =>
    q.verified && decide (U.casefold (strip q.fieldSupported) ∈ canonical.aliases)).map (·.quote)

def quoteMentioning (quotes : List VerifiedQuote) (name : Text) : Option Text :=
  (quotes.find? fun q =>
    q.verified && decide (key U name ≠ []) && decide (key U name <:+: key U q.quote)).map (·.quote)

/-- the loop of `_grounded_additions`, with the names added so far -/
def groundedAdditionsFrom (known : List Text) (quotes : List VerifiedQuote) :
    List Text → List Text → List Text
  | added, [] => added
  | added, name :: names =>
    if key U name ∈ known ∨ name ∈ added then groundedAdditionsFrom known quotes added names
    else if truthy (quoteMentioning U quotes name) then
      groundedAdditionsFrom known quotes (added ++ [name]) names
    else groundedAdditionsFrom known quotes added names

def groundedAdditions (names known : List Text) (quotes : List VerifiedQuote) : List Text :=
  groundedAdditionsFrom U known quotes [] names

/-- the sector loop of `compare` -/
def sectorAdditions (known : List Sector) : List Sector → List Sector → List Sector
  | added, [] => added
  | added, sector :: rest =>
    if sector ∉ known ∧ sector ∉ added then sectorAdditions known (added ++ [sector]) rest
    else sectorAdditions known added rest

/-- the contradicted fields -/
def conflictsOf (existing : EventSnapshot) (new : ExtractedEvent) (quotes : List VerifiedQuote) :
    List FieldChange :=
  (if new.eventType ≠ existing.eventType then
    [.eventType existing.eventType new.eventType (quoteFor U quotes .eventType)] else []) ++
  (if new.eventDate ≠ existing.eventDate then
    [.eventDate existing.eventDate new.eventDate (quoteFor U quotes .eventDate)] else [])

/-- the change of severity, if the report gives another one -/
def severityChange (existing : EventSnapshot) (new : ExtractedEvent)
    (quotes : List VerifiedQuote) : List FieldChange :=
  if new.severity ≠ existing.severity then
    [.severity existing.severity new.severity (quoteFor U quotes .severity)] else []

def compare (existing : EventSnapshot) (new : ExtractedEvent) (quotes : List VerifiedQuote) :
    Consolidation :=
  let supported := truthy (quoteFor U quotes .severity)
  { applied := if supported then severityChange U existing new quotes else []
    conflicts := conflictsOf U existing new quotes
    ungrounded := if supported then [] else severityChange U existing new quotes
    newLocations :=
      groundedAdditions U (new.locations.map (·.name.text)) existing.locationNames quotes
    newActors := groundedAdditions U (new.actors.map (·.name.text)) existing.actorNames quotes
    newSectors :=
      if truthy (quoteFor U quotes .affectedSectors) then
        sectorAdditions existing.sectors [] new.affectedSectors
      else [] }

/-- the only change that is ever applied is one of severity, to the reported level -/
theorem compare_applied {existing : EventSnapshot} {new : ExtractedEvent}
    {quotes : List VerifiedQuote} {change : FieldChange}
    (h : change ∈ (compare U existing new quotes).applied) :
    change = .severity existing.severity new.severity (quoteFor U quotes .severity) ∧
      new.severity ≠ existing.severity ∧ truthy (quoteFor U quotes .severity) = true := by
  simp only [compare] at h
  cases hq : truthy (quoteFor U quotes .severity) with
  | false => rw [hq] at h; cases h
  | true =>
    rw [hq, if_pos rfl, severityChange] at h
    split at h
    · next hne => exact ⟨List.mem_singleton.mp h, hne, rfl⟩
    · cases h

/-! ## what is added -/

theorem mem_groundedAdditionsFrom {known : List Text} {quotes : List VerifiedQuote}
    {added names : List Text} {name : Text} :
    name ∈ groundedAdditionsFrom U known quotes added names ↔
      name ∈ added ∨ (name ∈ names ∧ key U name ∉ known ∧
        truthy (quoteMentioning U quotes name) = true) := by
  induction names generalizing added with
  | nil => simp [groundedAdditionsFrom]
  | cons n rest ih =>
    rw [groundedAdditionsFrom]
    split
    · next hskip =>
      rw [ih, List.mem_cons]
      constructor
      · rintro (h | ⟨h, hk⟩)
        · exact Or.inl h
        · exact Or.inr ⟨Or.inr h, hk⟩
      · rintro (h | ⟨rfl | h, hk⟩)
        · exact Or.inl h
        · exact Or.inl (hskip.resolve_left hk.1)
        · exact Or.inr ⟨h, hk⟩
    · next hskip =>
      rw [not_or] at hskip
      split
      · next hm =>
        rw [ih, List.mem_append, List.mem_singleton, List.mem_cons]
        constructor
        · rintro ((h | rfl) | ⟨h, hk⟩)
          · exact Or.inl h
          · exact Or.inr ⟨Or.inl rfl, hskip.1, hm⟩
          · exact Or.inr ⟨Or.inr h, hk⟩
        · rintro (h | ⟨rfl | h, hk⟩)
          · exact Or.inl (Or.inl h)
          · exact Or.inl (Or.inr rfl)
          · exact Or.inr ⟨h, hk⟩
      · next hm =>
        rw [ih, List.mem_cons]
        constructor
        · rintro (h | ⟨h, hk⟩)
          · exact Or.inl h
          · exact Or.inr ⟨Or.inr h, hk⟩
        · rintro (h | ⟨rfl | h, hk⟩)
          · exact Or.inl h
          · exact absurd hk.2 hm
          · exact Or.inr ⟨h, hk⟩

/-- **A name is added if it is not on the record and a verified quote mentions it.** -/
theorem mem_groundedAdditions {names known : List Text} {quotes : List VerifiedQuote}
    {name : Text} :
    name ∈ groundedAdditions U names known quotes ↔
      name ∈ names ∧ key U name ∉ known ∧ truthy (quoteMentioning U quotes name) = true := by
  unfold groundedAdditions
  rw [mem_groundedAdditionsFrom]
  exact or_iff_right List.not_mem_nil

theorem mem_sectorAdditions {known added sectors : List Sector} {x : Sector} :
    x ∈ sectorAdditions known added sectors ↔ x ∈ added ∨ (x ∈ sectors ∧ x ∉ known) := by
  induction sectors generalizing added with
  | nil => simp [sectorAdditions]
  | cons y rest ih =>
    rw [sectorAdditions]
    split
    · next h =>
      rw [ih, List.mem_append, List.mem_singleton, List.mem_cons]
      constructor
      · rintro ((hx | rfl) | ⟨hx, hk⟩)
        · exact Or.inl hx
        · exact Or.inr ⟨Or.inl rfl, h.1⟩
        · exact Or.inr ⟨Or.inr hx, hk⟩
      · rintro (hx | ⟨rfl | hx, hk⟩)
        · exact Or.inl (Or.inl hx)
        · exact Or.inl (Or.inr rfl)
        · exact Or.inr ⟨hx, hk⟩
    · next h =>
      rw [ih, List.mem_cons]
      constructor
      · rintro (hx | ⟨hx, hk⟩)
        · exact Or.inl hx
        · exact Or.inr ⟨Or.inr hx, hk⟩
      · rintro (hx | ⟨rfl | hx, hk⟩)
        · exact Or.inl hx
        · -- skipped and not on the record: it has been added before
          rw [not_and, not_not] at h
          exact Or.inl (h hk)
        · exact Or.inr ⟨hx, hk⟩

/-- some verified quote is labelled with the field -/
def Labelled (quotes : List VerifiedQuote) (field : MaterialField) : Prop :=
  ∃ q ∈ quotes, q.verified = true ∧ U.casefold (strip q.fieldSupported) ∈ field.aliases

/-- the key of the name occurs in that of some verified quote -/
def Mentioned (quotes : List VerifiedQuote) (name : Text) : Prop :=
  ∃ q ∈ quotes, q.verified = true ∧ key U name ≠ [] ∧ key U name <:+: key U q.quote

theorem truthy_map_find? {α : Type} {p : α → Bool} {f : α → Text} {l : List α}
    (h : truthy ((l.find? p).map f) = true) : ∃ x ∈ l, p x = true := by
  cases hf : l.find? p with
  | none => rw [hf] at h; cases h
  | some x => exact ⟨x, List.mem_of_find?_eq_some hf, List.find?_some hf⟩

theorem labelled_of_quoteFor {quotes : List VerifiedQuote} {field : MaterialField}
    (h : truthy (quoteFor U quotes field) = true) : Labelled U quotes field := by
  obtain ⟨q, hq, hp⟩ := truthy_map_find? h
  rw [Bool.and_eq_true, decide_eq_true_eq] at hp
  exact ⟨q, hq, hp⟩

theorem mentioned_of_quoteMentioning {quotes : List VerifiedQuote} {name : Text}
    (h : truthy (quoteMentioning U quotes name) = true) : Mentioned U quotes name := by
  obtain ⟨q, hq, hp⟩ := truthy_map_find? h
  rw [Bool.and_eq_true, Bool.and_eq_true, decide_eq_true_eq, decide_eq_true_eq] at hp
  exact ⟨q, hq, hp.1.1, hp.1.2, hp.2⟩

/-- quotes that are not empty support the field they are labelled with -/
theorem quoteFor_of_labelled {quotes : List VerifiedQuote} {field : MaterialField}
    (hne : ∀ q ∈ quotes, q.quote ≠ []) (h : Labelled U quotes field) :
    truthy (quoteFor U quotes field) = true := by
  obtain ⟨q, hq, hv, hl⟩ := h
  unfold quoteFor
  cases hf : quotes.find? fun q =>
      q.verified && decide (U.casefold (strip q.fieldSupported) ∈ field.aliases) with
  | none =>
    have := List.find?_eq_none.mp hf q hq
    rw [hv, decide_eq_true hl] at this
    exact absurd rfl this
  | some x =>
    have hx := hne x (List.mem_of_find?_eq_some hf)
    cases ht : x.quote with
    | nil => exact absurd ht hx
    | cons c t =>
      show truthy (some x.quote) = true
      rw [ht]
      rfl

/-! ## the change note -/

/-- an optional quote as a format string shows it -/
def shown : Option Text → Text
  | some q => q
  | none => txt "None"

def quoted (q : Option Text) : Text := txt "\"" ++ shown q ++ txt "\""

/-- the clauses of the note, in order -/
def noteParts (c : Consolidation) (quotes : List VerifiedQuote) : List Text :=
  (c.applied.map fun change =>
    change.field.value ++ txt " revised from " ++ change.before ++ txt " to " ++ change.after ++
      txt ": " ++ quoted change.quote) ++
  (c.newLocations.map fun name =>
    txt "location reported: " ++ name ++ txt ": " ++ quoted (quoteMentioning U quotes name)) ++
  (c.newActors.map fun name =>
    txt "organisation reported: " ++ name ++ txt ": " ++ quoted (quoteMentioning U quotes name)) ++
  (if c.newSectors.isEmpty then []
    else [txt "sectors added: " ++ join (txt ", ") (c.newSectors.map Sector.value)]) ++
  (c.conflicts.map fun change =>
    change.field.value ++ txt " given as " ++ change.after ++
      txt ", conflicting with the recorded " ++ change.before ++ txt ": " ++
      if truthy change.quote then quoted change.quote else txt "no supporting quote") ++
  (c.ungrounded.map fun change =>
    change.field.value ++ txt " given as " ++ change.after ++
      txt ", but no verified quote supports it; not applied")

def changeNote (c : Consolidation) (sourceName : Text) (published : Option Date)
    (quotes : List VerifiedQuote) : Option Text :=
  if c.relation ≠ .update then none
  else
    let when := match published with
      | some day => txt " published " ++ day.isoformat
      | none => []
    let note := txt "Update from " ++ sourceName ++ when ++ txt ": " ++
      join (txt "; ") (noteParts U c quotes)
    let note := if txt ".\"" <:+ note ∨ txt "." <:+ note then note else note ++ txt "."
    some (if c.needsReview then note ++ txt " Held for human review." else note)

theorem changeNote_isSome {c : Consolidation} {sourceName : Text} {published : Option Date}
    {quotes : List VerifiedQuote} :
    (changeNote U c sourceName published quotes).isSome ↔ c.relation = .update := by
  unfold changeNote
  by_cases h : c.relation = .update
  · simp [h]
  · simp [h]

end

end GeoRisk
