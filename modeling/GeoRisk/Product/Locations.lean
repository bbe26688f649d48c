import GeoRisk.Product.Events

/-!
# Counts per location

`location_summary`: the location rows joined with their events, grouped by place and by country, and
the number of different events of each group.

* `locationRows`      the join, with its `WHERE` clauses;
* `locationSummary`   both groupings, most events first.
-/

namespace GeoRisk
open Kit

structure LocationCount where
  name : Text
  locationType : LocationType
  countryCode : Option Text
  events : Nat
  deriving DecidableEq, Repr

structure CountryCount where
  countryCode : Option Text
  events : Nat
  deriving DecidableEq, Repr

def scopeNote : Text := txt ("Counts of established records per fixed feature or administrative area. No" ++
  " coordinates, no individual positions, and no movement over time are recorded or" ++
  " served.")

structure LocationSummary where
  scopeNote : Text := GeoRisk.scopeNote
  includePendingReview : Bool
  byLocation : List LocationCount
  byCountry : List CountryCount
  deriving DecidableEq, Repr

/-- the rows of `event_locations`, with their `event_id` -/
def Store.locationRows (s : Store) : List (Nat × EventLocation) :=
  s.events.flatMap fun e => e.locations.map fun l => (e.eventId, l)

/-- the `WHERE` clauses of `location_summary` on the event of a location -/
def countsLocation (includePendingReview : Bool) (e : Event) : Bool :=
  decide (e.reviewStatus ≠ .rejected) && (includePendingReview || isEstablished e)

/-- the location rows whose event is counted -/
def locationRows (s : Store) (includePendingReview : Bool) : List (Nat × EventLocation) :=
  s.locationRows.filter fun r =>
    s.events.any fun e => decide (e.eventId = r.1) && countsLocation includePendingReview e

/-- `ORDER BY events DESC, name` -/
def busiestPlace (env : ReadEnv) (a b : LocationCount) : Prop :=
  b.events < a.events ∨ (b.events = a.events ∧ env.collate a.name b.name = true)

/-- the order of a nullable text: `NULL` comes last -/
def collateNullable (env : ReadEnv) : Option Text → Option Text → Bool
  | some a, some b => env.collate a b
  | some _, none => true
  | none, some _ => false
  | none, none => true

/-- `ORDER BY events DESC, country_code` -/
def busiestCountry (env : ReadEnv) (a b : CountryCount) : Prop :=
  b.events < a.events ∨
    (b.events = a.events ∧ collateNullable env a.countryCode b.countryCode = true)

instance (env : ReadEnv) : DecidableRel (busiestPlace env) :=
  fun _ _ => inferInstanceAs (Decidable (_ ∨ _))

instance (env : ReadEnv) : DecidableRel (busiestCountry env) :=
  fun _ _ => inferInstanceAs (Decidable (_ ∨ _))

def byLocation (env : ReadEnv) (rows : List (Nat × EventLocation)) : List LocationCount :=
  let groups := groupBy (fun r => (r.2.name, r.2.locationType, r.2.countryCode)) rows
  (env.scan (groups.map fun g =>
    ⟨g.1.1, g.1.2.1, g.1.2.2, distinct (g.2.map Prod.fst)⟩)).insertionSort (busiestPlace env)

def byCountry (env : ReadEnv) (rows : List (Nat × EventLocation)) : List CountryCount :=
  let groups := groupBy (fun r => r.2.countryCode) rows
  (env.scan (groups.map fun g => ⟨g.1, distinct (g.2.map Prod.fst)⟩)).insertionSort
    (busiestCountry env)

def locationSummary (env : ReadEnv) (s : Store) (includePendingReview : Bool := false) :
    LocationSummary where
  includePendingReview := includePendingReview
  byLocation := byLocation env (locationRows s includePendingReview)
  byCountry := byCountry env (locationRows s includePendingReview)

end GeoRisk
