import GeoRisk.Record.Gate

/-!
# What the change note cites

`change_note` builds one clause for each thing it reports, and shows the quote behind it.

* `Reported`            what a clause reports; `reported d` lists it for a decision, in order;
* `clause`              the clause of the note;
* `noteParts_eq`        the clauses of the note are those of what is reported;
* `Cites`               a clause shows a verified quote that grounds what it reports, between
                        quotation marks;
* `clause_cites`        every clause about a change of the record does, but for the one on sectors;
* `traceable_iff`       the note is traceable exactly where no sector is added.
-/

namespace GeoRisk
open Kit

/-- what a clause of the note reports -/
inductive Reported
  | applied (change : FieldChange)
  | location (name : Text)
  | organisation (name : Text)
  | sectors (added : List Sector)
  | conflict (change : FieldChange)
  | ungrounded (change : FieldChange)
  deriving DecidableEq, Repr

namespace Reported

/-- a change made to the record -/
def onRecord : Reported → Bool
  | applied _ | location _ | organisation _ | sectors _ => true
  | conflict _ | ungrounded _ => false

end Reported

/-- what the note of a decision reports, in order -/
def reported (c : Consolidation) : List Reported :=
  c.applied.map .applied ++ c.newLocations.map .location ++ c.newActors.map .organisation ++
    (if c.newSectors.isEmpty then [] else [.sectors c.newSectors]) ++
    c.conflicts.map .conflict ++ c.ungrounded.map .ungrounded

section
variable (U : Unicode) (quotes : List VerifiedQuote)

/-- the clause that reports it -/
def clause : Reported → Text
  | .applied change =>
    change.field.value ++ txt " revised from " ++ change.before ++ txt " to " ++ change.after ++
      txt ": " ++ quoted change.quote
  | .location name =>
    txt "location reported: " ++ name ++ txt ": " ++ quoted (quoteMentioning U quotes name)
  | .organisation name =>
    txt "organisation reported: " ++ name ++ txt ": " ++ quoted (quoteMentioning U quotes name)
  | .sectors added => txt "sectors added: " ++ join (txt ", ") (added.map Sector.value)
  | .conflict change =>
    change.field.value ++ txt " given as " ++ change.after ++
      txt ", conflicting with the recorded " ++ change.before ++ txt ": " ++
      if truthy change.quote then quoted change.quote else txt "no supporting quote"
  | .ungrounded change =>
    change.field.value ++ txt " given as " ++ change.after ++
      txt ", but no verified quote supports it; not applied"

/-- the quote is what the change rests on -/
def Grounds (q : VerifiedQuote) : Reported → Prop
  | .applied change | .conflict change | .ungrounded change =>
    U.casefold (strip q.fieldSupported) ∈ change.field.aliases
  | .location name | .organisation name => key U name ≠ [] ∧ key U name <:+: key U q.quote
  | .sectors _ => U.casefold (strip q.fieldSupported) ∈ MaterialField.affectedSectors.aliases

/-- the clause shows a verified quote that grounds what it reports -/
def Cites (item : Reported) : Prop :=
  ∃ q ∈ quotes, q.verified = true ∧ Grounds U q item ∧ quoted (some q.quote) <:+: clause U quotes item

variable {U quotes}

/-- **One clause for each thing that is reported.** -/
theorem noteParts_eq (c : Consolidation) :
    noteParts U c quotes = (reported c).map (clause U quotes) := by
  unfold noteParts reported
  simp only [List.map_append, List.map_map]
  cases c.newSectors.isEmpty with
  | true => rfl
  | false => rfl

/-- the end of a note is put behind it -/
theorem ended (body : Text) (review : Bool) :
    ∃ ending,
      (if review then
        (if txt ".\"" <:+ body ∨ txt "." <:+ body then body else body ++ txt ".") ++
          txt " Held for human review."
      else if txt ".\"" <:+ body ∨ txt "." <:+ body then body else body ++ txt ".") =
        body ++ ending := by
  split
  · split
    · exact ⟨txt " Held for human review.", rfl⟩
    · exact ⟨txt "." ++ txt " Held for human review.", List.append_assoc _ _ _⟩
  · split
    · exact ⟨[], (List.append_nil _).symm⟩
    · exact ⟨txt ".", rfl⟩

/-- the note is its clauses, between a heading and an end -/
theorem changeNote_eq {c : Consolidation} {sourceName note : Text} {published : Option Date}
    (h : changeNote U c sourceName published quotes = some note) :
    ∃ heading ending, note =
      heading ++ join (txt "; ") ((reported c).map (clause U quotes)) ++ ending := by
  unfold changeNote at h
  by_cases hrel : c.relation ≠ .update
  · rw [if_pos hrel] at h
    cases h
  · rw [if_neg hrel, noteParts_eq] at h
    obtain ⟨ending, he⟩ := ended _ c.needsReview
    exact ⟨_, ending, (Option.some.inj h).symm.trans he⟩

/-! ## the quotes behind the clauses -/

theorem quoteFor_some {field : MaterialField} (h : truthy (quoteFor U quotes field) = true) :
    ∃ q ∈ quotes, q.verified = true ∧ U.casefold (strip q.fieldSupported) ∈ field.aliases ∧
      quoteFor U quotes field = some q.quote := by
  unfold quoteFor at h ⊢
  cases hf : quotes.find? fun q =>
      q.verified && decide (U.casefold (strip q.fieldSupported) ∈ field.aliases) with
  | none => rw [hf] at h; cases h
  | some q =>
    have hp := List.find?_some hf
    rw [Bool.and_eq_true, decide_eq_true_eq] at hp
    exact ⟨q, List.mem_of_find?_eq_some hf, hp.1, hp.2, rfl⟩

theorem quoteMentioning_some {name : Text} (h : truthy (quoteMentioning U quotes name) = true) :
    ∃ q ∈ quotes, q.verified = true ∧ key U name ≠ [] ∧ key U name <:+: key U q.quote ∧
      quoteMentioning U quotes name = some q.quote := by
  unfold quoteMentioning at h ⊢
  cases hf : quotes.find? fun q =>
      q.verified && decide (key U name ≠ []) && decide (key U name <:+: key U q.quote) with
  | none => rw [hf] at h; cases h
  | some q =>
    have hp := List.find?_some hf
    rw [Bool.and_eq_true, Bool.and_eq_true, decide_eq_true_eq, decide_eq_true_eq] at hp
    exact ⟨q, List.mem_of_find?_eq_some hf, hp.1.1, hp.1.2, hp.2, rfl⟩

/-- a clause that ends with a quote shows it -/
theorem quoted_infix (before : Text) {q : Option Text} {text : Text} (h : q = some text) :
    quoted (some text) <:+: before ++ quoted q :=
  h ▸ (List.suffix_append _ _).isInfix

theorem mem_join {sep : Text} {parts : List Text} {c : Char} (h : c ∈ join sep parts) :
    c ∈ sep ∨ ∃ part ∈ parts, c ∈ part := by
  unfold join at h
  induction parts with
  | nil => cases h
  | cons part rest ih =>
    by_cases hrest : rest = []
    · rw [hrest, List.intercalate_singleton] at h
      exact Or.inr ⟨part, List.mem_cons_self .., h⟩
    · rw [List.intercalate_cons_of_ne_nil hrest, List.mem_append, List.mem_append] at h
      rcases h with (h | h) | h
      · exact Or.inr ⟨part, List.mem_cons_self .., h⟩
      · exact Or.inl h
      · rcases ih h with h | ⟨p, hp, hc⟩
        · exact Or.inl h
        · exact Or.inr ⟨p, List.mem_cons_of_mem _ hp, hc⟩

/-- the clause on sectors shows no quotation mark -/
theorem mark_not_mem_sectors (added : List Sector) :
    '"' ∉ clause U quotes (.sectors added) := by
  intro h
  rcases List.mem_append.mp h with h | h
  · revert h
    decide
  · rcases mem_join h with h | ⟨part, hpart, h⟩
    · revert h
      decide
    · obtain ⟨sector, _, rfl⟩ := List.mem_map.mp hpart
      revert h
      cases sector <;> decide

theorem not_cites_sectors (added : List Sector) : ¬Cites U quotes (.sectors added) := by
  rintro ⟨q, _, _, _, hin⟩
  have hmark : '"' ∈ quoted (some q.quote) := by simp [quoted, txt]
  exact mark_not_mem_sectors added (hin.subset hmark)

end

section
variable {U : Unicode} {existing : EventSnapshot} {new : ExtractedEvent}
  {quotes : List VerifiedQuote} {sourceName : Text} {published : Option Date}

/-- **Every clause about a change of the record shows the quote behind it, but for sectors.** -/
theorem clause_cites {item : Reported} (h : item ∈ reported (compare U existing new quotes))
    (hrecord : item.onRecord = true) (hsectors : ∀ added, item ≠ .sectors added) :
    Cites U quotes item := by
  unfold reported at h
  simp only [List.mem_append, List.mem_map] at h
  rcases h with ((((⟨change, hc, rfl⟩ | ⟨name, hn, rfl⟩) | ⟨name, hn, rfl⟩) | hs) | ⟨_, _, rfl⟩) |
    ⟨_, _, rfl⟩
  · obtain ⟨rfl, _, hq⟩ := compare_applied U hc
    obtain ⟨q, hmem, hv, hlabel, he⟩ := quoteFor_some hq
    exact ⟨q, hmem, hv, hlabel, quoted_infix _ he⟩
  · obtain ⟨_, _, hq⟩ := (mem_groundedAdditions U).mp hn
    obtain ⟨q, hmem, hv, hne, hin, he⟩ := quoteMentioning_some hq
    exact ⟨q, hmem, hv, ⟨hne, hin⟩, quoted_infix _ he⟩
  · obtain ⟨_, _, hq⟩ := (mem_groundedAdditions U).mp hn
    obtain ⟨q, hmem, hv, hne, hin, he⟩ := quoteMentioning_some hq
    exact ⟨q, hmem, hv, ⟨hne, hin⟩, quoted_infix _ he⟩
  · split at hs
    · cases hs
    · exact absurd (List.mem_singleton.mp hs) (hsectors _)
  · cases hrecord
  · cases hrecord

/-- the note is there exactly for an update, has one clause for each thing that it reports, and each
clause about a change of the record shows a verified quote that grounds it -/
structure Traceable (U : Unicode) (existing : EventSnapshot) (new : ExtractedEvent)
    (quotes : List VerifiedQuote) (sourceName : Text) (published : Option Date) : Prop where
  silent : changeNote U (compare U existing new quotes) sourceName published quotes = none ↔
    (compare U existing new quotes).relation = .duplicate
  clauses : ∀ note,
    changeNote U (compare U existing new quotes) sourceName published quotes = some note →
      ∃ heading ending, note = heading ++
        join (txt "; ") ((reported (compare U existing new quotes)).map (clause U quotes)) ++ ending
  cited : ∀ item ∈ reported (compare U existing new quotes), item.onRecord = true →
    Cites U quotes item

theorem changeNote_eq_none {c : Consolidation} :
    changeNote U c sourceName published quotes = none ↔ c.relation = .duplicate := by
  rw [← Option.not_isSome_iff_eq_none, changeNote_isSome]
  rcases c.relation_update_or_duplicate with h | h
  · simp [h]
  · simp [h]

/-- no sector is added where no verified quote is labelled with the sectors, or all of them are on
the record -/
theorem newSectors_eq_nil :
    (compare U existing new quotes).newSectors = [] ↔
      truthy (quoteFor U quotes .affectedSectors) = false ∨
        ∀ s ∈ new.affectedSectors, s ∈ existing.sectors := by
  have hmem : ∀ s, s ∈ sectorAdditions existing.sectors [] new.affectedSectors ↔
      s ∈ new.affectedSectors ∧ s ∉ existing.sectors := by
    intro s
    rw [mem_sectorAdditions]
    exact or_iff_right List.not_mem_nil
  show (if truthy (quoteFor U quotes .affectedSectors) then
    sectorAdditions existing.sectors [] new.affectedSectors else []) = [] ↔ _
  cases truthy (quoteFor U quotes .affectedSectors) with
  | false => simp
  | true =>
    rw [if_pos rfl, List.eq_nil_iff_forall_not_mem]
    constructor
    · intro h
      right
      intro s hs
      by_contra hnot
      exact h s ((hmem s).mpr ⟨hs, hnot⟩)
    · rintro (h | h) s hs
      · cases h
      · obtain ⟨hnew, hnot⟩ := (hmem s).mp hs
        exact hnot (h s hnew)

/-- **The note is traceable exactly where no sector is added.** -/
theorem traceable_iff :
    Traceable U existing new quotes sourceName published ↔
      truthy (quoteFor U quotes .affectedSectors) = false ∨
        ∀ s ∈ new.affectedSectors, s ∈ existing.sectors := by
  rw [← newSectors_eq_nil]
  constructor
  · intro h
    by_contra hne
    have hitem : Reported.sectors (compare U existing new quotes).newSectors ∈
        reported (compare U existing new quotes) := by
      unfold reported
      rw [if_neg (by simpa using hne)]
      simp
    exact not_cites_sectors _ (h.cited _ hitem rfl)
  · intro hnil
    refine ⟨changeNote_eq_none, fun note hnote => changeNote_eq hnote, ?_⟩
    intro item hitem hrecord
    apply clause_cites hitem hrecord
    rintro added rfl
    -- the clause on sectors is there only where some are added
    unfold reported at hitem
    simp only [hnil, List.isEmpty_nil, if_true, List.mem_append, List.mem_map, List.not_mem_nil,
      or_false] at hitem
    simp at hitem

end

namespace Sample

/-- the report adds a sector, and its quote is labelled with the sectors -/
def sectorReport : ExtractedEvent :=
  { event .moderate with
    affectedSectors := [.portsTerminals, .oil]
    affectedSectors_length := by decide
    evidence := (event .moderate).evidence.map fun q =>
      ⟨⟨txt "affected_sectors", by decide, by decide, by decide⟩, q.quote⟩
    evidence_length := by decide }

def sectorQuotes : List VerifiedQuote :=
  (verifyEvidence Unicode.latin sectorReport.evidence (some text)).quotes

/-- the record of the port, without the sector -/
def portOnly : EventSnapshot :=
  ⟨.portDisruption, ⟨0⟩, .moderate, [txt "aden"], [txt "port authority"], [.portsTerminals]⟩

end Sample

/-- "sectors added: oil" is the whole of the note, and shows no quote -/
theorem sectors_uncited :
    ¬∀ (U : Unicode) (existing : EventSnapshot) (new : ExtractedEvent)
      (quotes : List VerifiedQuote),
      ∀ item ∈ reported (compare U existing new quotes), item.onRecord = true →
        ∃ q ∈ quotes, q.verified = true ∧ q.quote <:+: clause U quotes item := by
  intro h
  have hcited := h Unicode.latin Sample.portOnly Sample.sectorReport Sample.sectorQuotes
    (.sectors [.oil])
  revert hcited
  decide +kernel

end GeoRisk
