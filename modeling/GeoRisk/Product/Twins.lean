import GeoRisk.Product.Briefing
import GeoRisk.Product.Locations
import GeoRisk.Record.Race

/-!
# What is not established is not shown

Two stores that differ only in what their pending and rejected records say are the same store to a
reader.

* `Twin`, `Alike`              events, and stores, that differ in this way only;
* `Alike.filter`               a selection of established events selects the same rows;
* `Alike.rows`                 so does a selection of child rows by established events;
* `listEvents_alike`, `searchEvents_alike`, `locationSummary_alike`, `buildBriefing_alike`
                               each read path;
* `withheld_not_read`          all of them.
-/

namespace GeoRisk
open Kit

/-- equal, or not established with the same review status and times -/
def Twin (a b : Event) : Prop :=
  a = b ∨ (isEstablished a = false ∧ b.eventId = a.eventId ∧ b.reviewStatus = a.reviewStatus ∧
    b.firstSeenAt = a.firstSeenAt ∧ b.lastUpdatedAt = a.lastUpdatedAt)

/-- the stores differ in records that are not established, and in what no read path reads -/
structure Alike (s t : Store) : Prop where
  events : List.Forall₂ Twin s.events t.events
  documents : t.documents = s.documents
  sources : t.sources = s.sources

section
variable {env : ReadEnv} {s t : Store} {a b e : Event}

theorem Twin.established (h : Twin a b) : isEstablished b = isEstablished a := by
  rcases h with rfl | ⟨_, _, hr, _⟩
  · rfl
  · unfold isEstablished
    rw [hr]

/-- **A selection of established events selects the same rows.** -/
theorem Alike.filter (h : Alike s t) {p : Event → Bool} (hp : ∀ e, p e = true → isEstablished e = true) :
    s.events.filter p = t.events.filter p := by
  refine filter_eq_of_forall₂ (h.events.imp fun a b hab => ?_)
  have hb := hab.established
  rcases hab with hab | ⟨ha, _⟩
  · exact Or.inl hab
  · have hnot : ∀ e, isEstablished e = false → p e = false := by
      intro e he
      rw [Bool.eq_false_iff]
      intro hpe
      rw [hp e hpe] at he
      cases he
    exact Or.inr ⟨hnot a ha, hnot b (hb.trans ha)⟩

theorem Alike.any (h : Alike s t) {p : Event → Bool} (hp : ∀ e, p e = true → isEstablished e = true) :
    s.events.any p = t.events.any p := by
  have hmem : ∀ e, (e ∈ s.events ∧ p e = true) ↔ (e ∈ t.events ∧ p e = true) := by
    intro e
    rw [← List.mem_filter, ← List.mem_filter, h.filter hp]
  rw [Bool.eq_iff_iff, List.any_eq_true, List.any_eq_true]
  exact exists_congr hmem

/-- a key of an established event is the key of no other event -/
theorem established_of_key (hkeys : (s.events.map Event.eventId).Nodup) (ha : a ∈ s.events)
    (hb : b ∈ s.events) (hid : a.eventId = b.eventId) (hest : isEstablished a = true) :
    isEstablished b = true := by
  have hsame : some a = some b := by
    rw [← lookup_of_mem hkeys ha, ← lookup_of_mem hkeys hb, hid]
  rw [← Option.some.inj hsame]
  exact hest

/-- **A selection of child rows that takes none of an event that is not established selects the same
rows.** -/
theorem Alike.rows {γ : Type} (h : Alike s t) {f : Event → List γ} {q : Nat × γ → Bool}
    (hq : ∀ e ∈ s.events, isEstablished e = false → ∀ x, q (e.eventId, x) = false) :
    (s.events.flatMap fun e => (f e).map fun x => (e.eventId, x)).filter q =
      (t.events.flatMap fun e => (f e).map fun x => (e.eventId, x)).filter q := by
  have hpairs : List.Forall₂ (fun a b => a ∈ s.events ∧ Twin a b) s.events t.events :=
    (List.forall₂_and_left _ _).mpr ⟨fun _ ha => ha, h.events⟩
  have hnone : ∀ (i : Nat) (xs : List γ), (∀ x, q (i, x) = false) →
      (xs.map fun x => (i, x)).filter q = [] := by
    intro i xs hi
    rw [List.filter_eq_nil_iff]
    intro r hr
    obtain ⟨x, _, rfl⟩ := List.mem_map.mp hr
    rw [hi x]
    exact Bool.false_ne_true
  rw [List.filter_flatMap, List.filter_flatMap]
  refine flatMap_eq_of_forall₂ (hpairs.imp fun a b hab => ?_)
  obtain ⟨hmem, rfl | ⟨ha, hid, _⟩⟩ := hab
  · rfl
  · have hnot := hq a hmem ha
    rw [hnone a.eventId (f a) hnot, hid, hnone a.eventId (f b) hnot]

/-! ## lists -/

theorem evidenceCounts_alike (h : Alike s t) (hkeys : (s.events.map Event.eventId).Nodup)
    {events : List Event} (he : ∀ e ∈ events, e ∈ s.events ∧ isEstablished e = true) :
    evidenceCounts s (events.map Event.eventId) = evidenceCounts t (events.map Event.eventId) := by
  unfold evidenceCounts Store.evidenceRows
  rw [h.rows]
  intro e hmem hest x
  rw [decide_eq_false_iff_not]
  intro hid
  obtain ⟨v, hv, hve⟩ := List.mem_map.mp hid
  have hest' := established_of_key hkeys (he v hv).1 hmem hve (he v hv).2
  rw [hest] at hest'
  cases hest'

/-- rows of a sorted and cut selection are rows of the table -/
theorem mem_of_page {p : Event → Bool} {κ : Type} [LinearOrder κ] {key : Event → κ} {i j : Nat}
    (he : e ∈ ((sortBy key (env.scan (s.events.filter p))).drop i).take j) :
    e ∈ s.events ∧ p e = true := by
  have he := List.mem_of_mem_drop (List.mem_of_mem_take he)
  have he := (List.perm_insertionSort _ _).mem_iff.mp he
  exact List.mem_filter.mp ((env.scan_perm _).mem_iff.mp he)

theorem listEvents_alike (h : Alike s t) (hkeys : (s.events.map Event.eventId).Nodup)
    {q : EventFilter} (hq : q.includePendingReview = false) :
    listEvents env s q = listEvents env t q := by
  have hest : ∀ e, q.selects env e = true → isEstablished e = true := by
    intro e he
    unfold EventFilter.selects at he
    simp only [hq, Bool.false_or, Bool.and_eq_true] at he
    exact he.1.1.1.1.1
  unfold listEvents
  split
  · rfl
  split
  · rfl
  split
  · rfl
  · simp only
    rw [← h.filter hest]
    unfold summariesOut
    rw [evidenceCounts_alike h hkeys fun e he => ?_]
    obtain ⟨hmem, hsel⟩ := mem_of_page he
    exact ⟨hmem, hest e hsel⟩

theorem searchEvents_alike (h : Alike s t) (hkeys : (s.events.map Event.eventId).Nodup)
    {x : SearchQuery} (hx : x.includePendingReview = false) :
    searchEvents env s x = searchEvents env t x := by
  have hest : ∀ e, x.selects env e = true → isEstablished e = true := by
    intro e he
    unfold SearchQuery.selects at he
    simp only [hx, Bool.false_or, Bool.and_eq_true] at he
    exact he.2
  unfold searchEvents
  split
  · rfl
  · simp only
    rw [← h.filter hest, evidenceCounts_alike h hkeys fun e he => ?_]
    obtain ⟨hmem, hsel⟩ := mem_of_page (i := 0) he
    exact ⟨hmem, hest e hsel⟩

/-! ## locations -/

theorem locationRows_alike (h : Alike s t) (hkeys : (s.events.map Event.eventId).Nodup) :
    locationRows s false = locationRows t false := by
  have hhidden : ∀ e, isEstablished e = false → countsLocation false e = false := by
    intro e he
    unfold countsLocation
    rw [he, Bool.false_or, Bool.and_false]
  have hcounted : ∀ r : Nat × EventLocation,
      (s.events.any fun e => decide (e.eventId = r.1) && countsLocation false e) =
        t.events.any fun e => decide (e.eventId = r.1) && countsLocation false e := by
    intro r
    refine h.any fun e he => ?_
    by_contra hno
    rw [hhidden e (Bool.eq_false_iff.mpr hno), Bool.and_false] at he
    cases he
  unfold locationRows Store.locationRows
  rw [← funext hcounted]
  refine h.rows fun e he hest l => ?_
  rw [List.any_eq_false]
  intro x hx hcount
  obtain ⟨hid, hcount⟩ := Bool.and_eq_true_iff.mp hcount
  have hxest : isEstablished x = true := by
    by_contra hno
    rw [hhidden x (Bool.eq_false_iff.mpr hno)] at hcount
    cases hcount
  have hsame := established_of_key hkeys hx he (of_decide_eq_true hid) hxest
  rw [hest] at hsame
  cases hsame

theorem locationSummary_alike (h : Alike s t) (hkeys : (s.events.map Event.eventId).Nodup) :
    locationSummary env s = locationSummary env t := by
  unfold locationSummary
  rw [locationRows_alike h hkeys]

/-! ## the briefing -/

theorem verifiedQuotes_alike (h : Alike s t) (hkeys : (s.events.map Event.eventId).Nodup)
    (he : e ∈ s.events) (hest : isEstablished e = true) :
    verifiedQuotes env s e.eventId = verifiedQuotes env t e.eventId := by
  have hrows : (s.evidenceRows.filter fun r => decide (r.1 = e.eventId) && r.2.verified) =
      t.evidenceRows.filter fun r => decide (r.1 = e.eventId) && r.2.verified := by
    refine h.rows fun x hx hxest v => ?_
    rw [Bool.and_eq_false_iff, decide_eq_false_iff_not]
    left
    intro hid
    have hsame := established_of_key hkeys he hx hid.symm hest
    rw [hxest] at hsame
    cases hsame
  unfold verifiedQuotes evidenceJoin Store.document? Store.source?
  rw [hrows, h.documents, h.sources]

theorem briefingItem_alike {bounds : DateTime × DateTime} (h : Alike s t)
    (hkeys : (s.events.map Event.eventId).Nodup) (he : e ∈ s.events)
    (hest : isEstablished e = true) :
    briefingItem env s bounds e = briefingItem env t bounds e := by
  unfold briefingItem
  rw [verifiedQuotes_alike h hkeys he hest]

/-- candidates are told apart by what two alike stores share -/
theorem Twin.candidate (h : Twin a b) (bounds : DateTime × DateTime) :
    isCandidate bounds b = isCandidate bounds a := by
  rcases h with rfl | ⟨_, _, hr, hf, hl⟩
  · rfl
  · unfold isCandidate
    rw [hr, hf, hl]

theorem withheld_alike (h : Alike s t) (bounds : DateTime × DateTime) :
    ((s.events.filter (isCandidate bounds)).countP fun e => !isEstablished e) =
      (t.events.filter (isCandidate bounds)).countP fun e => !isEstablished e := by
  have hcount : ∀ {xs ys : List Event}, List.Forall₂ Twin xs ys →
      ((xs.filter (isCandidate bounds)).countP fun e => !isEstablished e) =
        (ys.filter (isCandidate bounds)).countP fun e => !isEstablished e := by
    intro xs ys hxy
    induction hxy with
    | nil => rfl
    | cons hab _ ih =>
      rw [List.filter_cons, List.filter_cons, hab.candidate]
      split
      · rw [List.countP_cons, List.countP_cons, hab.established, ih]
      · exact ih
  exact hcount h.events

/-- the established candidates -/
theorem candidates_alike (h : Alike s t) (bounds : DateTime × DateTime) :
    (s.events.filter (isCandidate bounds)).filter isEstablished =
      (t.events.filter (isCandidate bounds)).filter isEstablished := by
  rw [List.filter_filter, List.filter_filter]
  exact h.filter fun e he => (Bool.and_eq_true_iff.mp he).1

theorem buildBriefing_alike (h : Alike s t) (hkeys : (s.events.map Event.eventId).Nodup) (day : Date) :
    buildBriefing env s day = buildBriefing env t day := by
  refine buildBriefing_congr rfl hkeys fun bounds _ => ⟨candidates_alike h bounds, ?_,
    withheld_alike h bounds⟩
  intro e he hest
  exact briefingItem_alike h hkeys (List.mem_of_mem_filter he) hest

/-- **What pending and rejected records say reaches no default response.** -/
theorem withheld_not_read (env : ReadEnv) (h : Alike s t)
    (hkeys : (s.events.map Event.eventId).Nodup) :
    (∀ q : EventFilter, q.includePendingReview = false → listEvents env s q = listEvents env t q) ∧
      (∀ x : SearchQuery, x.includePendingReview = false →
        searchEvents env s x = searchEvents env t x) ∧
      locationSummary env s = locationSummary env t ∧
      ∀ day, buildBriefing env s day = buildBriefing env t day :=
  ⟨fun _ => listEvents_alike h hkeys, fun _ => searchEvents_alike h hkeys,
    locationSummary_alike h hkeys, buildBriefing_alike h hkeys⟩

end

/-! ## two stores -/

namespace Sample

def readEnv : ReadEnv where
  scan rows := rows
  scan_perm rows := List.Perm.refl rows
  collate a b := decide (a ≤ b)
  sqlLower := id
  sqlUpper t := t.filter fun c => decide (c ≠ nul)
  nul_not_mem_sqlUpper t h := of_decide_eq_true (List.mem_filter.mp h).2 rfl
  lower := id
  upper := id
  idText n := List.replicate n '1'
  idText_injective m n h := by
    have hlen := congrArg List.length h
    rw [List.length_replicate, List.length_replicate] at hlen
    exact hlen

/-- a record that needed no review, and one that waits for it -/
def oneWaiting : Store where
  sources := [source]
  documents := [document text]
  events := [newEvent 7 6 (report .moderate), waiting]

def reworded : Store :=
  { oneWaiting with events := [newEvent 7 6 (report .moderate),
      { waiting with title := txt "The port of Aden was never closed", locations := [] }] }

end Sample

theorem withheld_reworded :
    (listEvents Sample.readEnv Sample.oneWaiting {}).toOption.map (·.total) = some 1 ∧
      (buildBriefing Sample.readEnv Sample.oneWaiting ⟨0⟩).toOption.map
        (fun b => (b.items.length, b.withheldPendingReview)) = some (1, 1) ∧
      listEvents Sample.readEnv Sample.oneWaiting {} = listEvents Sample.readEnv Sample.reworded {} ∧
      buildBriefing Sample.readEnv Sample.oneWaiting ⟨0⟩ =
        buildBriefing Sample.readEnv Sample.reworded ⟨0⟩ := by
  have halike : Alike Sample.oneWaiting Sample.reworded :=
    ⟨.cons (Or.inl rfl) (.cons (Or.inr ⟨by decide +kernel, rfl, rfl, rfl, rfl⟩) .nil), rfl, rfl⟩
  obtain ⟨hlist, _, _, hbriefing⟩ :=
    withheld_not_read Sample.readEnv halike (by decide +kernel)
  exact ⟨by decide +kernel, by decide +kernel, hlist {} rfl, hbriefing ⟨0⟩⟩

end GeoRisk
