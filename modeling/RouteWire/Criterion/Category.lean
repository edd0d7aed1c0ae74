/-!
# Criterion categories

Some values of a directions request come from a closed catalogue: a travel profile, an
annotation, a payment method. A category is one such catalogue. Its values are listed three times:
as values (`enumerators`), in an order that gives each of them its ordinal, by their wire names
(`names`), and as the values among which a name is looked up (`catalogue`). No value is missing from
the other two lists (`length_names`, `mem_catalogue_iff`).
-/

set_option autoImplicit false

namespace RouteWire

/-- A closed catalogue of values that a directions request may name. -/
inductive Category where
  | profile
  | geometry
  | overview
  | annotationKind
  | exclusion
  | inclusion
  | voiceUnits
  | source
  | destination
  | approach
  | paymentMethod
  | amenity
  deriving DecidableEq

namespace Category

/-- The values of the category, in ordinal order. -/
def enumerators : Category → List String
  | profile => ["DrivingTraffic", "Driving", "Walking", "Cycling"]
  | geometry => ["Polyline", "Polyline6"]
  | overview => ["Simplified", "Full", "False"]
  | annotationKind =>
    ["Duration", "Distance", "Speed", "Congestion", "CongestionNumeric", "Maxspeed", "Closure",
      "TrafficTendency"]
  | exclusion =>
    ["Toll", "Motorway", "Ferry", "Tunnel", "Restricted", "CashOnlyTolls", "Unpaved"]
  | inclusion => ["Hov2", "Hov3", "Hot"]
  | voiceUnits => ["Imperial", "Metric"]
  | source => ["First", "Any"]
  | destination => ["Any", "Last"]
  | approach => ["Unrestricted", "Curb"]
  | paymentMethod =>
    ["General", "Etc", "Etcx", "Cash", "ExactCash", "Coins", "Notes", "DebitCards", "PassCard",
      "CreditCards", "Video", "Cryptocurrencies", "App"]
  | amenity =>
    ["GasStation", "ElectricChargingStation", "Toilet", "Coffee", "Restaurant", "Snack", "Atm",
      "Info", "BabyCare", "FacilitiesForDisabled", "Shop", "Telephone", "Hotel", "Hotspring",
      "Shower", "PicnicShelter", "Post", "Fax"]

/-- The wire names of the category, in ordinal order. -/
def names : Category → List String
  | profile => ["driving-traffic", "driving", "walking", "cycling"]
  | geometry => ["polyline", "polyline6"]
  | overview => ["simplified", "full", "false"]
  | annotationKind =>
    ["duration", "distance", "speed", "congestion", "congestion_numeric", "maxspeed", "closure",
      "traffic_tendency"]
  | exclusion =>
    ["toll", "motorway", "ferry", "tunnel", "restricted", "cash_only_tolls", "unpaved"]
  | inclusion => ["hov2", "hov3", "hot"]
  | voiceUnits => ["imperial", "metric"]
  | source => ["first", "any"]
  | destination => ["any", "last"]
  | approach => ["unrestricted", "curb"]
  | paymentMethod =>
    ["general", "etc", "etcx", "cash", "exact_cash", "coins", "notes", "debit_cards", "pass_card",
      "credit_cards", "video", "cryptocurrencies", "app"]
  | amenity =>
    ["gas_station", "electric_charging_station", "toilet", "coffee", "restaurant", "snack", "ATM",
      "info", "baby_care", "facilities_for_disabled", "shop", "telephone", "hotel", "hotspring",
      "shower", "picnic_shelter", "post", "FAX"]

/-- What a message calls the category when a name is not in it. -/
def label : Category → String
  | profile => "profile"
  | geometry => "geometry"
  | overview => "overview"
  | annotationKind => "annotation"
  | exclusion => "exclude"
  | inclusion => "include"
  | voiceUnits => "voice units"
  | source => "source"
  | destination => "destination"
  | approach => "approach"
  | paymentMethod => "payment method"
  | amenity => "amenity type"

/-- What a message calls the category when an ordinal is not in it. -/
def title : Category → String
  | profile => "Profile"
  | geometry => "Geometry"
  | overview => "Overview"
  | annotationKind => "Annotation"
  | exclusion => "Exclude"
  | inclusion => "Include"
  | voiceUnits => "VoiceUnits"
  | source => "Source"
  | destination => "Destination"
  | approach => "Approach"
  | paymentMethod => "PaymentMethod"
  | amenity => "AmenityType"

/-- The ordinals of the values among which a name is looked up, in this order. -/
def catalogue : Category → List Nat
  | profile => [0, 1, 2, 3]
  | overview | inclusion => [0, 1, 2]
  | geometry | voiceUnits | source | destination | approach => [0, 1]
  | annotationKind => [0, 1, 2, 3, 4, 5, 6, 7]
  | exclusion => [0, 1, 2, 3, 4, 5, 6]
  | paymentMethod => [0, 1, 2, 3, 4, 5, 6, 7, 8, 9, 10, 11, 12]
  | amenity => [0, 1, 2, 3, 4, 5, 6, 7, 8, 9, 10, 11, 12, 13, 14, 15, 16, 17]

/-- No category lists a name twice, so a name has at most one ordinal. -/
theorem nodup_names (c : Category) : c.names.Nodup := by
  cases c <;> decide

/-- Every value has a wire name, and every name is one of a value. -/
theorem length_names (c : Category) : c.names.length = c.enumerators.length := by
  cases c <;> rfl

/-- The catalogue lists the ordinals of all values. -/
theorem mem_catalogue_iff {c : Category} {i : Nat} :
    i ∈ c.catalogue ↔ i < c.enumerators.length := by
  have hrange : c.catalogue = List.range c.enumerators.length := by
    cases c <;> rfl
  rw [hrange, List.mem_range]

end Category

end RouteWire
