import GeoRisk.Record.Gate

/-!
# Names that a merge adds

`_grounded_additions` tells what is on the record by the key of a name, and what it has added before
by the name itself.

* `nodup_groundedAdditions`    no name is added twice as it is written;
* `OneSpelling`                the reported names that can be added are written in one way each;
* `Distinct`                   the additions differ by key, also from what is on the record, and so
                               do the rows that a merge adds;
* `distinct_iff`               they do exactly where each name is written in one way.
-/

namespace GeoRisk
open Kit

section
variable {U : Unicode} {names known : List Text} {quotes : List VerifiedQuote}

theorem nodup_groundedAdditionsFrom {added : List Text} (h : added.Nodup) :
    (groundedAdditionsFrom U known quotes added names).Nodup := by
  induction names generalizing added with
  | nil => exact h
  | cons name rest ih =>
    rw [groundedAdditionsFrom]
    split
    · exact ih h
    · next hskip =>
      rw [not_or] at hskip
      split
      · apply ih
        rw [← List.concat_eq_append]
        exact List.Nodup.concat hskip.2 h
      · exact ih h

theorem nodup_groundedAdditions : (groundedAdditions U names known quotes).Nodup :=
  nodup_groundedAdditionsFrom List.nodup_nil

/-- a quote mentions a name by its key alone -/
theorem quoteMentioning_congr {a b : Text} (h : key U a = key U b) :
    quoteMentioning U quotes a = quoteMentioning U quotes b := by
  unfold quoteMentioning
  rw [h]

/-- names with one key are one name, where the key is not on the record and a verified quote
mentions it -/
def OneSpelling (U : Unicode) (names known : List Text) (quotes : List VerifiedQuote) : Prop :=
  ∀ a ∈ names, ∀ b ∈ names, key U a = key U b → key U a ∉ known →
    truthy (quoteMentioning U quotes a) = true → a = b

/-- **The names added differ by key exactly where the ones that can be added are written in one way
each.** -/
theorem nodup_key_groundedAdditions :
    ((groundedAdditions U names known quotes).map (key U)).Nodup ↔
      OneSpelling U names known quotes := by
  rw [List.nodup_map_iff_inj_on nodup_groundedAdditions]
  constructor
  · intro h a ha b hb hkey hknown hmention
    apply h a ((mem_groundedAdditions U).mpr ⟨ha, hknown, hmention⟩) b _ hkey
    rw [mem_groundedAdditions, ← hkey, ← quoteMentioning_congr hkey]
    exact ⟨hb, hknown, hmention⟩
  · intro h a ha b hb hkey
    obtain ⟨ha, hknown, hmention⟩ := (mem_groundedAdditions U).mp ha
    exact h a ha b ((mem_groundedAdditions U).mp hb).1 hkey hknown hmention

end

section
variable {U : Unicode} {existing : EventSnapshot} {new : ExtractedEvent}
  {quotes : List VerifiedQuote}

/-- one name for each key -/
def SpelledOnce (U : Unicode) (names : List Text) : Prop :=
  ∀ a ∈ names, ∀ b ∈ names, key U a = key U b → a = b

/-- the names added differ by key from one another and from those on the record, and a merge adds no
name in two spellings -/
structure Distinct (U : Unicode) (existing : EventSnapshot) (new : ExtractedEvent)
    (quotes : List VerifiedQuote) : Prop where
  locations : ((compare U existing new quotes).newLocations.map (key U)).Nodup
  actors : ((compare U existing new quotes).newActors.map (key U)).Nodup
  newLocations : ∀ name ∈ (compare U existing new quotes).newLocations,
    key U name ∉ existing.locationNames
  newActors : ∀ name ∈ (compare U existing new quotes).newActors, key U name ∉ existing.actorNames
  merged : ∀ (e : Event) (r : Report), snapshot U e = existing → r.event = new →
    r.verification.quotes = quotes → ∃ places actors,
      (mergeEvent U e r).locations = e.locations ++ places ∧
        (mergeEvent U e r).actors = e.actors ++ actors ∧
        SpelledOnce U (places.map (·.name)) ∧
        SpelledOnce U (actors.map (·.entity.canonicalName))

theorem spelledOnce_of_nodup {names added : List Text} (h : (added.map (key U)).Nodup)
    (hsub : ∀ a ∈ names, a ∈ added) : SpelledOnce U names := by
  intro a ha b hb hkey
  exact (List.nodup_map_iff_inj_on (List.Nodup.of_map _ h)).mp h a (hsub a ha) b (hsub b hb) hkey

/-- the rows that a merge adds carry names that its decision adds -/
theorem mergeEvent_added (U : Unicode) (e : Event) (r : Report) :
    ∃ places actors, (mergeEvent U e r).locations = e.locations ++ places ∧
      (mergeEvent U e r).actors = e.actors ++ actors ∧
      (∀ a ∈ places.map (·.name), a ∈ (consolidation U e r).newLocations) ∧
      (∀ a ∈ actors.map (·.entity.canonicalName), a ∈ (consolidation U e r).newActors) := by
  obtain ⟨hlocations, hactors, _⟩ := mergeEvent_rows U e r
  obtain ⟨added, hadded, hrows⟩ := addActors_append e.actors
    (r.event.actors.filter fun a => decide (a.name.text ∈ (consolidation U e r).newActors))
  rw [hadded] at hactors
  refine ⟨_, added, hlocations, hactors, ?_, ?_⟩
  · intro name hname
    obtain ⟨row, hrow, rfl⟩ := List.mem_map.mp hname
    obtain ⟨l, hl, rfl⟩ := List.mem_map.mp hrow
    exact of_decide_eq_true (List.mem_filter.mp hl).2
  · intro name hname
    obtain ⟨row, hrow, rfl⟩ := List.mem_map.mp hname
    obtain ⟨a, ha, rfl⟩ := hrows row hrow
    exact of_decide_eq_true (List.mem_filter.mp ha).2

/-- **Additions are distinct by key exactly where each name that can be added is written in one
way.** -/
theorem distinct_iff :
    Distinct U existing new quotes ↔
      OneSpelling U (new.locations.map (·.name.text)) existing.locationNames quotes ∧
        OneSpelling U (new.actors.map (·.name.text)) existing.actorNames quotes := by
  constructor
  · intro h
    exact ⟨nodup_key_groundedAdditions.mp h.locations, nodup_key_groundedAdditions.mp h.actors⟩
  · rintro ⟨hl, ha⟩
    have hlocations : ((compare U existing new quotes).newLocations.map (key U)).Nodup :=
      nodup_key_groundedAdditions.mpr hl
    have hactors : ((compare U existing new quotes).newActors.map (key U)).Nodup :=
      nodup_key_groundedAdditions.mpr ha
    refine ⟨hlocations, hactors, ?_, ?_, ?_⟩
    · intro name hname
      exact ((mem_groundedAdditions U).mp hname).2.1
    · intro name hname
      exact ((mem_groundedAdditions U).mp hname).2.1
    · rintro e r rfl rfl rfl
      obtain ⟨places, actors, h1, h2, hplaces, hnames⟩ := mergeEvent_added U e r
      exact ⟨places, actors, h1, h2, spelledOnce_of_nodup hlocations hplaces,
        spelledOnce_of_nodup hactors hnames⟩

end

namespace Sample

def capitals (l : ExtractedLocation) : ExtractedLocation :=
  { l with name := ⟨txt "ADEN", by decide, by decide, by decide⟩ }

/-- the place is reported twice, in two spellings -/
def twice : ExtractedEvent :=
  { event .moderate with
    locations := (event .moderate).locations ++ (event .moderate).locations.map capitals
    locations_length := by decide }

/-- a record that names no place yet -/
def placeless : EventSnapshot :=
  ⟨.portDisruption, ⟨0⟩, .moderate, [], [], [.portsTerminals]⟩

def twiceQuotes : List VerifiedQuote :=
  (verifyEvidence Unicode.latin twice.evidence (some text)).quotes

end Sample

theorem twice_added :
    ¬∀ (U : Unicode) (existing : EventSnapshot) (new : ExtractedEvent)
      (quotes : List VerifiedQuote),
      ((compare U existing new quotes).newLocations.map (key U)).Nodup := by
  intro h
  have hnodup := h Unicode.latin Sample.placeless Sample.twice Sample.twiceQuotes
  revert hnodup
  decide +kernel

end GeoRisk
