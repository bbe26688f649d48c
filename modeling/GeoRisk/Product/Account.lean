import GeoRisk.Product.Twins

/-!
# A briefing accounts for every record

The records of a day are those first seen or updated on it, in UTC, that are not rejected.  Each of
them is an item of the briefing or counted as withheld or excluded.

* `recordsOf`              the records of the day, by the date of their times (`inWindow_eq_onDay`);
* `Place`, `placeOf`       where a record is counted;
* `Accounts`               what the briefing says about the records of its day;
* `briefing_accounts_iff`  it says so on every day but the last of the calendar, for which there is
                           no briefing.
-/

namespace GeoRisk
open Kit

/-- the instant falls on the day -/
def onDay (day : Date) (value : Option DateTime) : Bool := value.any fun t => decide (t.date = day)

/-- the records of the day that are not rejected -/
def recordsOf (s : Store) (day : Date) : List Event :=
  s.events.filter fun e => (onDay day e.firstSeenAt || onDay day e.lastUpdatedAt) &&
    decide (e.reviewStatus ≠ .rejected)

inductive Place
  | item
  | withheld
  | excluded
  deriving DecidableEq

/-- where the briefing counts a record -/
def placeOf (s : Store) (e : Event) : Place :=
  if e.reviewStatus = .pending then .withheld
  else if evidenceJoin s e.eventId = [] then .excluded
  else .item

/-- the quote is a verified evidence row of the event, with its document and source -/
def QuotesEvidence (s : Store) (eventId : Nat) (q : BriefingQuote) : Prop :=
  ∃ r : EventEvidence × RawDocument × Source,
    (eventId, r.1) ∈ s.evidenceRows ∧ r.1.verified = true ∧
      s.document? r.1.documentId = some r.2.1 ∧ s.source? r.2.1.sourceId = some r.2.2 ∧
      q = quoteOut r

structure Accounts (s : Store) (day : Date) (b : Briefing) : Prop where
  total : b.items.length + b.withheldPendingReview + b.excludedNoVerifiedEvidence =
    (recordsOf s day).length
  items : (b.items.map (·.eventId)).Perm
    (((recordsOf s day).filter fun e => decide (placeOf s e = .item)).map (·.eventId))
  withheld : b.withheldPendingReview =
    (recordsOf s day).countP fun e => decide (placeOf s e = .withheld)
  excluded : b.excludedNoVerifiedEvidence =
    (recordsOf s day).countP fun e => decide (placeOf s e = .excluded)
  pending : b.withheldPendingReview =
    (recordsOf s day).countP fun e => decide (e.reviewStatus = .pending)
  shown : ∀ i ∈ b.items, ∃ e ∈ recordsOf s day, i.eventId = e.eventId ∧ isEstablished e = true ∧
    1 ≤ i.quotes.length ∧ i.quotes.length ≤ 3 ∧ (∀ q ∈ i.quotes, QuotesEvidence s i.eventId q) ∧
    (i.kind = .new ↔ onDay day e.firstSeenAt = true)

/-- there is a briefing of the day, and it accounts for every record -/
def FullyBriefed (env : ReadEnv) (s : Store) (day : Date) : Prop :=
  ∃ b, buildBriefing env s day = .ok b ∧ Accounts s day b

section
variable {env : ReadEnv} {s : Store} {day : Date} {bounds : DateTime × DateTime} {e : Event}

/-! ## the records of the day -/

/-- the half-open window holds the instants of the day -/
theorem inWindow_eq_onDay (h : dayBounds day = .ok bounds) (value : Option DateTime) :
    inWindow value bounds = onDay day value := by
  unfold dayBounds at h
  split at h
  · cases h
  · cases h
    unfold inWindow onDay
    congr 1
    funext t
    rw [Bool.eq_iff_iff, Bool.and_eq_true, decide_eq_true_eq, decide_eq_true_eq, decide_eq_true_eq]
    obtain ⟨d⟩ := day
    obtain ⟨m⟩ := t
    show (d * DateTime.microsPerDay ≤ m ∧ m < d * DateTime.microsPerDay + DateTime.microsPerDay) ↔
      (⟨m / DateTime.microsPerDay⟩ : Date) = ⟨d⟩
    rw [Date.mk.injEq]
    unfold DateTime.microsPerDay DateTime.microsPerSecond
    omega

theorem filter_isCandidate (h : dayBounds day = .ok bounds) :
    s.events.filter (isCandidate bounds) = recordsOf s day := by
  unfold recordsOf
  congr 1
  funext e
  unfold isCandidate
  rw [inWindow_eq_onDay h, inWindow_eq_onDay h]

theorem established_of_mem (h : e ∈ recordsOf s day) :
    isEstablished e = !decide (e.reviewStatus = .pending) := by
  obtain ⟨_, hsel⟩ := List.mem_filter.mp h
  have hne := of_decide_eq_true (Bool.and_eq_true_iff.mp hsel).2
  unfold isEstablished
  cases hr : e.reviewStatus with
  | rejected => exact absurd hr hne
  | pending => rfl
  | approved => rfl
  | edited => rfl
  | notRequired => rfl

/-! ## where they are counted -/

/-- every element has one place -/
theorem countP_places {α : Type*} (place : α → Place) (xs : List α) :
    (xs.countP fun x => decide (place x = .item)) + (xs.countP fun x => decide (place x = .withheld)) +
      (xs.countP fun x => decide (place x = .excluded)) = xs.length := by
  induction xs with
  | nil => rfl
  | cons x xs ih =>
    rw [List.countP_cons, List.countP_cons, List.countP_cons, List.length_cons, ← ih]
    cases place x <;> simp <;> omega

theorem placeOf_withheld : placeOf s e = .withheld ↔ e.reviewStatus = .pending := by
  unfold placeOf
  by_cases hp : e.reviewStatus = .pending
  · exact iff_of_true (if_pos hp) hp
  · rw [if_neg hp]
    refine iff_of_false ?_ hp
    split <;> exact Place.noConfusion

variable (env bounds) in
/-- the place of a record of the day, as the code finds it -/
theorem placeOf_eq (h : e ∈ recordsOf s day) :
    (decide (placeOf s e = .item) = (isEstablished e && (briefingItem env s bounds e).isSome)) ∧
      (decide (placeOf s e = .withheld) = !isEstablished e) ∧
      (decide (placeOf s e = .excluded) =
        (isEstablished e && (briefingItem env s bounds e).isNone)) := by
  have hnone : (briefingItem env s bounds e).isNone = decide (evidenceJoin s e.eventId = []) := by
    rw [Bool.eq_iff_iff, Option.isNone_iff_eq_none, briefingItem_eq_none, decide_eq_true_eq]
    exact (verifiedQuotes_spec env s e.eventId).2.2
  have hsome : (briefingItem env s bounds e).isSome = !decide (evidenceJoin s e.eventId = []) := by
    rw [← hnone, Option.not_isNone]
  rw [established_of_mem h, hnone, hsome]
  unfold placeOf
  by_cases hp : e.reviewStatus = .pending
  · simp [hp]
  · by_cases hj : evidenceJoin s e.eventId = []
    · simp [hp, hj]
    · simp [hp, hj]

/-! ## the briefing -/

theorem dayBounds_ok (h : day.ordinal < Date.max.ordinal) :
    dayBounds day = .ok (day.midnight, ⟨day.midnight.micros + DateTime.microsPerDay⟩) := by
  unfold dayBounds
  rw [if_neg (not_le.mpr h)]

variable (env s) in
/-- the briefing of a day, from its records -/
theorem buildBriefing_eq (h : dayBounds day = .ok bounds) :
    buildBriefing env s day = .ok {
      day := day
      items := sortBy (itemKey env) (((env.scan (recordsOf s day)).filter isEstablished).filterMap
        (briefingItem env s bounds))
      withheldPendingReview := (env.scan (recordsOf s day)).countP fun e => !isEstablished e
      excludedNoVerifiedEvidence := ((env.scan (recordsOf s day)).filter isEstablished).countP
        fun e => (briefingItem env s bounds e).isNone } := by
  unfold buildBriefing
  rw [h]
  show (Except.ok _ : Except Text Briefing) = _
  rw [filter_isCandidate h]

/-- an item is that of an established record of the day -/
theorem mem_items {b : Briefing} {i : BriefingItem} (h : dayBounds day = .ok bounds)
    (hb : buildBriefing env s day = .ok b) :
    i ∈ b.items ↔
      ∃ e ∈ recordsOf s day, isEstablished e = true ∧ briefingItem env s bounds e = some i := by
  rw [buildBriefing_eq env s h] at hb
  cases hb
  rw [(perm_sortBy _ _).mem_iff, List.mem_filterMap]
  refine exists_congr fun e => ?_
  rw [List.mem_filter, (env.scan_perm _).mem_iff, and_assoc]

theorem accounts_of_bounds (h : dayBounds day = .ok bounds) : FullyBriefed env s day := by
  have hscan := env.scan_perm (recordsOf s day)
  have hwithheld : ((env.scan (recordsOf s day)).countP fun e => !isEstablished e) =
      (recordsOf s day).countP fun e => decide (placeOf s e = .withheld) := by
    rw [hscan.countP_eq]
    exact List.countP_congr fun e he => by
      rw [(placeOf_eq env bounds he).2.1]
  have hexcluded : (((env.scan (recordsOf s day)).filter isEstablished).countP
      fun e => (briefingItem env s bounds e).isNone) =
        (recordsOf s day).countP fun e => decide (placeOf s e = .excluded) := by
    rw [(hscan.filter _).countP_eq, List.countP_filter]
    exact List.countP_congr fun e he => by
      rw [(placeOf_eq env bounds he).2.2, Bool.and_comm]
  have hitems : ((sortBy (itemKey env) (((env.scan (recordsOf s day)).filter
      isEstablished).filterMap (briefingItem env s bounds))).map (·.eventId)).Perm
        (((recordsOf s day).filter fun e => decide (placeOf s e = .item)).map (·.eventId)) := by
    have hfilter : ((recordsOf s day).filter fun e => decide (placeOf s e = .item)) =
        ((recordsOf s day).filter isEstablished).filter
          fun e => (briefingItem env s bounds e).isSome := by
      rw [List.filter_filter]
      exact List.filter_congr fun e he => by
        rw [(placeOf_eq env bounds he).1, Bool.and_comm]
    rw [hfilter, ← map_filterMap_of_key (f := briefingItem env s bounds)
      (g := fun i : BriefingItem => i.eventId) fun _ _ => briefingItem_id]
    exact ((perm_sortBy _ _).trans ((hscan.filter _).filterMap _)).map _
  refine ⟨_, buildBriefing_eq env s h, ?_, hitems, hwithheld, hexcluded, ?_, ?_⟩
  · have hlen := hitems.length_eq
    rw [List.length_map, List.length_map, ← List.countP_eq_length_filter] at hlen
    show (sortBy _ _).length + _ + _ = _
    rw [hlen, hwithheld, hexcluded]
    exact countP_places (placeOf s) (recordsOf s day)
  · show (List.countP _ _) = _
    rw [hwithheld]
    refine List.countP_congr fun e _ => ?_
    rw [decide_eq_true_eq, decide_eq_true_eq]
    exact placeOf_withheld
  · intro i hi
    obtain ⟨e, hmem, hest, hei⟩ := (mem_items h (buildBriefing_eq env s h)).mp hi
    obtain ⟨hquotes, hne, hkind⟩ := briefingItem_quotes hei
    obtain ⟨hrows, hlen, _⟩ := verifiedQuotes_spec env s e.eventId
    refine ⟨e, hmem, briefingItem_id hei, hest, List.length_pos_iff.mpr hne, ?_, ?_,
      ?_⟩
    · rw [hquotes]
      exact hlen
    · intro q hq
      rw [hquotes] at hq
      obtain ⟨r, hr, hqr⟩ := hrows q hq
      obtain ⟨h1, h2, h3, h4⟩ := mem_evidenceJoin hr
      rw [briefingItem_id hei]
      exact ⟨r, h1, h2, h3, h4, hqr⟩
    · rw [← inWindow_eq_onDay h]
      exact hkind

/-- **A briefing accounts for every record, on every day but the last of the calendar.** -/
theorem briefing_accounts_iff (env : ReadEnv) (s : Store) (day : Date) :
    FullyBriefed env s day ↔ day.ordinal < Date.max.ordinal := by
  constructor
  · rintro ⟨b, hb, _⟩
    by_contra hlast
    unfold buildBriefing dayBounds at hb
    rw [if_pos (not_lt.mp hlast)] at hb
    cases hb
  · intro h
    exact accounts_of_bounds (dayBounds_ok h)

/-- the day after the last one is not a date -/
theorem lastDay_not_accounted :
    ¬ ∀ (env : ReadEnv) (s : Store) (day : Date), FullyBriefed env s day := by
  intro h
  obtain ⟨b, hb, _⟩ := h Sample.readEnv .empty Date.max
  cases hb

end

end GeoRisk
