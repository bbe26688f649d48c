import GeoRisk.Kit.Paging
import GeoRisk.Product.Repeat

/-!
# Reading the list of events page by page

`list_events` sorts by event date and creation time, which do not order the events: those of one
transaction that happened on one day tie.  Each page is a query of its own, and the database may
return ties in another order.

* `readPages`              the items of the first pages, each read in its own order of the rows;
* `VisitedOnce`            the pages up to the total hold every matching event exactly once;
* `CleanPages`             no page ends between two events that tie;
* `visitedOnce_iff`        paging visits every event once exactly when its pages are clean.
-/

namespace GeoRisk
open Kit

section
variable (env : ReadEnv) (s : Store) (q : EventFilter)

/-- the events that the filters select -/
def matching : List Event := s.events.filter (q.selects env)

/-- the pages at the offsets `0`, `limit`, `2 * limit`, …, the `k`-th in the order `orders k` -/
def readPages (orders : Nat → RowOrder) : Nat → Except HttpError (List EventSummaryOut)
  | 0 => .ok []
  | n + 1 => do
    let items ← readPages orders n
    let page ← listEvents (env.ordered (orders n)) s { q with offset := n * q.limit }
    .ok (items ++ page.items)

/-- the number of pages after which the total is reached -/
def pageCount (total limit : Nat) : Nat := (total + limit - 1) / limit

def VisitedOnce : Prop :=
  ∀ orders : Nat → RowOrder, ∃ items,
    readPages env s q orders (pageCount (matching env s q).length q.limit) = .ok items ∧
      (items.map EventSummaryOut.eventId).Perm ((matching env s q).map Event.eventId)

/-- the end of no page falls inside a group of matching events with one date and creation time -/
def CleanPages : Prop := ∀ k, CleanCut latestFirst (matching env s q) (k * q.limit)

end

section
variable {env : ReadEnv} {s : Store} {q : EventFilter}

theorem eventIds_summariesOut (s : Store) (events : List Event) :
    (summariesOut s events).map EventSummaryOut.eventId = events.map Event.eventId := by
  unfold summariesOut
  rw [List.map_map]
  rfl

theorem given_mono {parameter : Option Text} {f g : Text → Bool} (h : given parameter f = true)
    (hfg : ∀ t, f t = true → g t = true) : given parameter g = true := by
  match parameter with
  | none => rfl
  | some [] => rfl
  | some (c :: t) => exact hfg (c :: t) h

/-- filters that select an event are valid, and their texts can be sent to the database -/
theorem listEvents_of_matching {e : Event} (he : e ∈ matching env s q) :
    listEvents env s q = .ok ⟨(matching env s q).length, q.limit, q.offset,
      summariesOut s (((sortBy latestFirst (env.scan (matching env s q))).drop q.offset).take
        q.limit)⟩ := by
  have hsel := (List.mem_filter.mp he).2
  unfold EventFilter.selects at hsel
  simp only [Bool.and_eq_true] at hsel
  obtain ⟨⟨⟨⟨⟨_, htype⟩, hseverity⟩, _⟩, _⟩, hcountry⟩ := hsel
  have h1 : given q.eventType (fun t => (EventType.ofText? t).isSome) = true := by
    refine given_mono htype fun t ht => ?_
    rw [← of_decide_eq_true ht, EventType.ofText?_value]
    rfl
  have h2 : given q.severity (fun t => (Severity.ofText? t).isSome) = true := by
    refine given_mono hseverity fun t ht => ?_
    rw [← of_decide_eq_true ht, Severity.ofText?_value]
    rfl
  -- the country is that of a location, as the database prints it
  have h3 : given q.country (fun t => decide (nul ∉ env.upper t)) = true := by
    refine given_mono hcountry fun t ht => ?_
    obtain ⟨l, _, hl⟩ := List.any_eq_true.mp ht
    obtain ⟨c, _, hc⟩ := (Option.any_eq_true _ _).mp hl
    rw [← of_decide_eq_true hc]
    exact decide_eq_true (env.nul_not_mem_sqlUpper c)
  unfold listEvents
  rw [h1, h2, h3]
  rfl

/-- where anything matches, the pages hold the rows of the pages of the sorted query -/
theorem readPages_of_matching (orders : Nat → RowOrder) {e : Event} (he : e ∈ matching env s q)
    (n : Nat) :
    ∃ items, readPages env s q orders n = .ok items ∧
      items.map EventSummaryOut.eventId =
        (pages latestFirst (fun k => (orders k).rows (matching env s q)) q.limit n).map
          Event.eventId := by
  induction n with
  | zero => exact ⟨[], rfl, rfl⟩
  | succ n ih =>
    obtain ⟨items, hitems, hids⟩ := ih
    have hpage : listEvents (env.ordered (orders n)) s { q with offset := n * q.limit } = _ :=
      listEvents_of_matching he
    rw [readPages, hitems, hpage]
    refine ⟨_, rfl, ?_⟩
    rw [List.map_append, hids, eventIds_summariesOut, pages, List.map_append]
    rfl

theorem le_pageCount (q : EventFilter) (total : Nat) : total ≤ pageCount total q.limit * q.limit := by
  have hlimit := q.limit_range.1
  have hdiv := Nat.lt_div_mul_add (a := total + q.limit - 1) hlimit
  unfold pageCount
  omega

theorem visitedOnce_of_clean (h : CleanPages env s q) : VisitedOnce env s q := by
  intro orders
  by_cases hnil : matching env s q = []
  · rw [hnil, List.length_nil, pageCount, Nat.zero_add,
      Nat.div_eq_of_lt (Nat.sub_lt q.limit_range.1 Nat.one_pos)]
    exact ⟨[], rfl, List.Perm.refl _⟩
  · obtain ⟨e, he⟩ := List.exists_mem_of_ne_nil _ hnil
    obtain ⟨items, hitems, hids⟩ := readPages_of_matching orders he
      (pageCount (matching env s q).length q.limit)
    refine ⟨items, hitems, ?_⟩
    rw [hids]
    have hpages := pages_perm (fun k => ((orders k).perm (matching env s q)).symm) h
      (pageCount (matching env s q).length q.limit)
    have hlen : (sortBy latestFirst (matching env s q)).length ≤
        pageCount (matching env s q).length q.limit * q.limit := by
      rw [(perm_sortBy latestFirst _).length_eq]
      exact le_pageCount q _
    rw [List.take_of_length_le hlen] at hpages
    exact (hpages.trans (perm_sortBy latestFirst _)).map _

/-- the database returns the `j`-th row of a query last -/
def RowOrder.back (j : Nat) : RowOrder where
  rows xs :=
    match xs[j]? with
    | none => xs
    | some x => xs.eraseIdx j ++ [x]
  perm xs := by
    cases hx : xs[j]? with
    | none => exact List.Perm.refl _
    | some x =>
      obtain ⟨hj, rfl⟩ := List.getElem?_eq_some_iff.mp hx
      exact (List.perm_append_singleton _ _).trans (List.getElem_cons_eraseIdx_perm hj)

/-- the `j`-th row comes first on the pages before the `m`-th, and last from there on -/
def cutAt (m j k : Nat) : RowOrder := if k < m then .front j else .back j

section
variable {α : Type} {xs : List α} {x : α} {m j k : Nat}

theorem rows_cutAt_of_lt (hj : xs[j]? = some x) (h : k < m) :
    (cutAt m j k).rows xs = x :: xs.eraseIdx j := by
  rw [cutAt, if_pos h, RowOrder.rows_front hj]

theorem rows_cutAt_of_le (hj : xs[j]? = some x) (h : m ≤ k) :
    (cutAt m j k).rows xs = xs.eraseIdx j ++ [x] := by
  rw [cutAt, if_neg (not_lt.mpr h)]
  simp only [RowOrder.back, hj]

end

/-- an event that is first among its ties on the pages before a cut, and last on those behind it, is
on two pages -/
theorem clean_of_visitedOnce (hkeys : (s.events.map Event.eventId).Nodup)
    (h : VisitedOnce env s q) : CleanPages env s q := by
  intro m e he hbefore
  by_contra hthrough
  obtain ⟨j, hj⟩ := List.mem_iff_getElem?.mp he
  obtain ⟨items, hitems, hids⟩ := h (cutAt m j)
  obtain ⟨items', hitems', hids'⟩ := readPages_of_matching (cutAt m j) he
    (pageCount (matching env s q).length q.limit)
  obtain rfl : items' = items := Except.ok.inj (hitems'.symm.trans hitems)
  have hnodup : (items'.map EventSummaryOut.eventId).Nodup := by
    rw [hids.nodup_iff]
    exact hkeys.sublist (List.filter_sublist.map _)
  rw [hids'] at hnodup
  have htwice := sublist_pages (RowOrder.perm_front hj) hbefore (not_le.mp hthrough)
    (fun _ hk => rows_cutAt_of_lt hj hk) (fun _ hk => rows_cutAt_of_le hj hk)
    (le_pageCount q (matching env s q).length)
  exact List.nodup_iff_sublist.mp hnodup.of_map e htwice

/-- **Paging visits every matching event exactly once, whatever the orders in which ties are
returned, exactly when no page ends between two events of one date and creation time.** -/
theorem visitedOnce_iff (env : ReadEnv) (q : EventFilter)
    (hkeys : (s.events.map Event.eventId).Nodup) : VisitedOnce env s q ↔ CleanPages env s q :=
  ⟨clean_of_visitedOnce hkeys, visitedOnce_of_clean⟩

/-- what fits on one page is not cut -/
theorem cleanPages_of_le (h : (matching env s q).length ≤ q.limit) : CleanPages env s q := by
  intro k e _ hbefore
  cases k with
  | zero =>
    rw [Nat.zero_mul] at hbefore
    exact absurd hbefore (Nat.not_lt_zero _)
  | succ k =>
    have hcount : through latestFirst (matching env s q) e ≤ (matching env s q).length :=
      List.countP_le_length
    rw [Nat.succ_mul]
    omega

end

namespace Sample

/-- two events of one report -/
def sameDay : Store where
  events := [newEvent 7 6 (report .moderate), newEvent 8 6 (report .moderate)]

end Sample

/-- read one by one, with the first event first on the first page and last on the second, they are
the first event twice -/
theorem sameDay_not_visitedOnce :
    ¬ ∀ (env : ReadEnv) (s : Store) (q : EventFilter), (s.events.map Event.eventId).Nodup →
      VisitedOnce env s q := by
  intro h
  obtain ⟨items, hitems, hids⟩ := h Sample.readEnv Sample.sameDay { limit := 1 } (by decide +kernel)
    fun k => if k < 1 then .front 0 else .back 0
  have hread : (readPages Sample.readEnv Sample.sameDay { limit := 1 }
      (fun k => if k < 1 then .front 0 else .back 0) 2).toOption.map
        (List.map EventSummaryOut.eventId) = some [7, 7] := by decide +kernel
  have hmatching : (matching Sample.readEnv Sample.sameDay { limit := 1 }).map Event.eventId =
      [7, 8] := by decide +kernel
  have hcount : pageCount (matching Sample.readEnv Sample.sameDay { limit := 1 }).length 1 = 2 := by
    decide +kernel
  rw [show ({ limit := 1 } : EventFilter).limit = 1 from rfl, hcount] at hitems
  rw [hitems] at hread
  rw [Option.some.inj hread, hmatching] at hids
  exact absurd hids (by decide)

theorem visitedOnce_iff_sameDay : VisitedOnce Sample.readEnv Sample.sameDay {} :=
  (visitedOnce_iff Sample.readEnv {} (by decide +kernel)).mpr
    (cleanPages_of_le (by decide +kernel))

end GeoRisk
