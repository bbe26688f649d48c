import GeoRisk.Text.Unicode

/-!
# Closed vocabularies

The value sets of `taxonomy.py`.  Each is an inductive type with its member names; `value` gives
the stored string where the code prints, compares or parses it, and `ofText?` reads one back (the
test `value in EVENT_TYPES` of the review path).

* `EventType`, `Severity`, `Sector`                       what an event record says;
* `EntityType`, `ActorRole`, `LocationType`,
  `LocationPrecision`                                     what its actors and locations say;
* `EventStatus`, `DocumentRelation`, `ReviewStatus`,
  `ReviewVerb`, `OutcomeLabel`, `RunStatus`               life cycle of the rows.
-/

namespace GeoRisk

/-- `EVENT_TYPES` -/
inductive EventType
  | portDisruption
  | canalTransitRestriction
  | straitTransitRestriction
  | vesselIncident
  | piracyOrArmedRobberyReport
  | maritimeSecurityAdvisory
  | pipelineDisruption
  | refineryOutage
  | lngTerminalDisruption
  | powerGridDisruption
  | energyExportRestriction
  | subseaCableDamage
  | laborActionTransport
  | customsOrBorderDelay
  | supplyChainShortageNotice
  | sanctionsOrRegulatoryNotice
  | otherInScope
  deriving DecidableEq, Repr

namespace EventType

def all : List EventType :=
  [portDisruption, canalTransitRestriction, straitTransitRestriction, vesselIncident,
    piracyOrArmedRobberyReport, maritimeSecurityAdvisory, pipelineDisruption, refineryOutage,
    lngTerminalDisruption, powerGridDisruption, energyExportRestriction, subseaCableDamage,
    laborActionTransport, customsOrBorderDelay, supplyChainShortageNotice,
    sanctionsOrRegulatoryNotice, otherInScope]

def value : EventType → Text
  | portDisruption => txt "port_disruption"
  | canalTransitRestriction => txt "canal_transit_restriction"
  | straitTransitRestriction => txt "strait_transit_restriction"
  | vesselIncident => txt "vessel_incident"
  | piracyOrArmedRobberyReport => txt "piracy_or_armed_robbery_report"
  | maritimeSecurityAdvisory => txt "maritime_security_advisory"
  | pipelineDisruption => txt "pipeline_disruption"
  | refineryOutage => txt "refinery_outage"
  | lngTerminalDisruption => txt "lng_terminal_disruption"
  | powerGridDisruption => txt "power_grid_disruption"
  | energyExportRestriction => txt "energy_export_restriction"
  | subseaCableDamage => txt "subsea_cable_damage"
  | laborActionTransport => txt "labor_action_transport"
  | customsOrBorderDelay => txt "customs_or_border_delay"
  | supplyChainShortageNotice => txt "supply_chain_shortage_notice"
  | sanctionsOrRegulatoryNotice => txt "sanctions_or_regulatory_notice"
  | otherInScope => txt "other_in_scope"

def ofText? (t : Text) : Option EventType := all.find? fun e => e.value = t

theorem mem_all (e : EventType) : e ∈ all := by
  cases e <;> decide

theorem ofText?_value (e : EventType) : ofText? e.value = some e := by
  have h : ∀ e ∈ all, ofText? e.value = some e := by decide +kernel
  exact h e (mem_all e)

theorem value_of_ofText? {t : Text} {e : EventType} (h : ofText? t = some e) : e.value = t := by
  have := List.find?_some h
  simpa using this

end EventType

/-- `SEVERITY_LEVELS` -/
inductive Severity
  | informational
  | low
  | moderate
  | high
  | severe
  deriving DecidableEq, Repr

namespace Severity

/-- in the order of `SEVERITY_LEVELS` -/
def all : List Severity := [informational, low, moderate, high, severe]

def value : Severity → Text
  | informational => txt "informational"
  | low => txt "low"
  | moderate => txt "moderate"
  | high => txt "high"
  | severe => txt "severe"

/-- `SEVERITY_ALWAYS_REVIEW` -/
def alwaysReview : Severity → Bool
  | high => true
  | severe => true
  | _ => false

def ofText? (t : Text) : Option Severity := all.find? fun s => s.value = t

theorem ofText?_value (s : Severity) : ofText? s.value = some s := by
  cases s <;> decide

theorem value_of_ofText? {t : Text} {s : Severity} (h : ofText? t = some s) : s.value = t := by
  have := List.find?_some h
  simpa using this

end Severity

/-- `SECTORS` -/
inductive Sector
  | maritimeShipping
  | portsTerminals
  | oil
  | naturalGas
  | lng
  | refinedProducts
  | electricity
  | railFreight
  | roadFreight
  | airCargo
  | telecomsSubsea
  deriving DecidableEq, Repr

def Sector.all : List Sector :=
  [.maritimeShipping, .portsTerminals, .oil, .naturalGas, .lng, .refinedProducts, .electricity,
    .railFreight, .roadFreight, .airCargo, .telecomsSubsea]

def Sector.value : Sector → Text
  | maritimeShipping => txt "maritime_shipping"
  | portsTerminals => txt "ports_terminals"
  | oil => txt "oil"
  | naturalGas => txt "natural_gas"
  | lng => txt "lng"
  | refinedProducts => txt "refined_products"
  | electricity => txt "electricity"
  | railFreight => txt "rail_freight"
  | roadFreight => txt "road_freight"
  | airCargo => txt "air_cargo"
  | telecomsSubsea => txt "telecoms_subsea"

/-- `ENTITY_TYPES`: no person -/
inductive EntityType
  | state
  | governmentBody
  | regulatoryAuthority
  | portAuthority
  | company
  | industryGroup
  | infrastructure
  | vessel
  | vesselClass
  | armedGroup
  | otherOrganisation
  deriving DecidableEq, Repr

def EntityType.value : EntityType → Text
  | state => txt "state"
  | governmentBody => txt "government_body"
  | regulatoryAuthority => txt "regulatory_authority"
  | portAuthority => txt "port_authority"
  | company => txt "company"
  | industryGroup => txt "industry_group"
  | infrastructure => txt "infrastructure"
  | vessel => txt "vessel"
  | vesselClass => txt "vessel_class"
  | armedGroup => txt "armed_group"
  | otherOrganisation => txt "other_organisation"

/-- `ACTOR_ROLES` -/
inductive ActorRole
  | operator
  | owner
  | authorityIssuingNotice
  | affectedParty
  | claimedResponsible
  | mentioned
  deriving DecidableEq, Repr

def ActorRole.value : ActorRole → Text
  | operator => txt "operator"
  | owner => txt "owner"
  | authorityIssuingNotice => txt "authority_issuing_notice"
  | affectedParty => txt "affected_party"
  | claimedResponsible => txt "claimed_responsible"
  | mentioned => txt "mentioned"

/-- `LOCATION_TYPES` -/
inductive LocationType
  | port
  | terminal
  | canal
  | strait
  | shippingLane
  | pipeline
  | refinery
  | gridRegion
  | subseaCableSegment
  | eez
  | country
  | adminArea
  | seaArea
  deriving DecidableEq, Repr

def LocationType.value : LocationType → Text
  | port => txt "port"
  | terminal => txt "terminal"
  | canal => txt "canal"
  | strait => txt "strait"
  | shippingLane => txt "shipping_lane"
  | pipeline => txt "pipeline"
  | refinery => txt "refinery"
  | gridRegion => txt "grid_region"
  | subseaCableSegment => txt "subsea_cable_segment"
  | eez => txt "eez"
  | country => txt "country"
  | adminArea => txt "admin_area"
  | seaArea => txt "sea_area"

/-- `LOCATION_PRECISIONS` -/
inductive LocationPrecision
  | country
  | adminArea
  | seaArea
  | facility
  | approximate
  deriving DecidableEq, Repr

def LocationPrecision.value : LocationPrecision → Text
  | country => txt "country"
  | adminArea => txt "admin_area"
  | seaArea => txt "sea_area"
  | facility => txt "facility"
  | approximate => txt "approximate"

/-- `EVENT_STATUSES` -/
inductive EventStatus
  | active
  | resolved
  | superseded
  | merged
  deriving DecidableEq, Repr

def EventStatus.value : EventStatus → Text
  | active => txt "active"
  | resolved => txt "resolved"
  | superseded => txt "superseded"
  | merged => txt "merged"

/-- `DOCUMENT_RELATIONS` -/
inductive DocumentRelation
  | newEvent
  | update
  | duplicate
  | background
  deriving DecidableEq, Repr

def DocumentRelation.value : DocumentRelation → Text
  | newEvent => txt "new_event"
  | update => txt "update"
  | duplicate => txt "duplicate"
  | background => txt "background"

/-- `REVIEW_STATUSES` -/
inductive ReviewStatus
  | pending
  | approved
  | rejected
  | edited
  | notRequired
  deriving DecidableEq, Repr

def ReviewStatus.value : ReviewStatus → Text
  | pending => txt "pending"
  | approved => txt "approved"
  | rejected => txt "rejected"
  | edited => txt "edited"
  | notRequired => txt "not_required"

/-- `REVIEW_DECISIONS` -/
inductive ReviewVerb
  | approve
  | reject
  | edit
  deriving DecidableEq, Repr

namespace ReviewVerb

def value : ReviewVerb → Text
  | approve => txt "approve"
  | reject => txt "reject"
  | edit => txt "edit"

def ofText? (t : Text) : Option ReviewVerb := [approve, reject, edit].find? fun v => v.value = t

theorem ofText?_value (v : ReviewVerb) : ofText? v.value = some v := by
  cases v <;> decide

end ReviewVerb

/-- `EXTRACTION_OUTCOMES` -/
inductive OutcomeLabel
  | extracted
  | abstained
  | schemaInvalid
  | citationInvalid
  | error
  deriving DecidableEq, Repr

def OutcomeLabel.value : OutcomeLabel → Text
  | extracted => txt "extracted"
  | abstained => txt "abstained"
  | schemaInvalid => txt "schema_invalid"
  | citationInvalid => txt "citation_invalid"
  | error => txt "error"

/-- `INGESTION_RUN_STATUSES` -/
inductive RunStatus
  | running
  | succeeded
  | failed
  | skipped
  deriving DecidableEq, Repr

end GeoRisk
