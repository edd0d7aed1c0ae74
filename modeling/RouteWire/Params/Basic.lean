import RouteWire.Field.Rule

/-!
# Route parameters

The list-valued parameters of a directions request. `Params` is a record of thirteen optional
values and `Param` names them, so that what holds for each of them can be said once: reading,
writing and comparing are functions of the name. `Params.get_set` and its companion say that the
names are independent of each other.
-/

set_option autoImplicit false

namespace RouteWire

/-- The name of a route parameter, in the order in which parameters are read and written. -/
inductive Param where
  | coordinates
  | bearings
  | radiuses
  | approaches
  | waypointIndices
  | waypointNames
  | waypointTargets
  | closures
  | annotations
  | exclusions
  | inclusions
  | paymentMethods
  | layers
  deriving DecidableEq

namespace Param

/-- All parameters, in order. -/
def all : List Param :=
  [coordinates, bearings, radiuses, approaches, waypointIndices, waypointNames, waypointTargets,
    closures, annotations, exclusions, inclusions, paymentMethods, layers]

/-- The name of a parameter in a query. -/
def wireName : Param → String
  | coordinates => "coordinates"
  | bearings => "bearings"
  | radiuses => "radiuses"
  | approaches => "approaches"
  | waypointIndices => "waypoints"
  | waypointNames => "waypoint_names"
  | waypointTargets => "waypoint_targets"
  | closures => "snapping_include_closures"
  | annotations => "annotations"
  | exclusions => "exclude"
  | inclusions => "include"
  | paymentMethods => "payment_methods"
  | layers => "layers"

/-- What a parameter holds when it is set. -/
abbrev Value : Param → Type
  | coordinates => List Point
  | bearings => Sequence Bearing
  | radiuses => Sequence String
  | approaches => Sequence (Criterion .approach)
  | waypointIndices => Sequence Int32
  | waypointNames => Sequence String
  | waypointTargets => Sequence Point
  | closures => Sequence Bool
  | annotations => Sequence (Criterion .annotationKind)
  | exclusions => Sequence (Criterion .exclusion)
  | inclusions => Sequence (Criterion .inclusion)
  | paymentMethods => Sequence (Criterion .paymentMethod)
  | layers => Sequence Int32

/-- The list has all parameters. -/
theorem mem_all (k : Param) : k ∈ all := by
  cases k <;> decide

/-- The list has no parameter twice. -/
theorem nodup_all : all.Nodup := by
  decide

/-- No two parameters have one name. -/
theorem wireName_injective {j k : Param} (h : j.wireName = k.wireName) : j = k := by
  cases j <;> cases k <;> simp_all [wireName]

end Param

/-- The list-valued parameters of a directions request. -/
structure Params where
  coordinates : Option (List Point) := none
  bearings : Option (Sequence Bearing) := none
  radiuses : Option (Sequence String) := none
  approaches : Option (Sequence (Criterion .approach)) := none
  waypointIndices : Option (Sequence Int32) := none
  waypointNames : Option (Sequence String) := none
  waypointTargets : Option (Sequence Point) := none
  closures : Option (Sequence Bool) := none
  annotations : Option (Sequence (Criterion .annotationKind)) := none
  exclusions : Option (Sequence (Criterion .exclusion)) := none
  inclusions : Option (Sequence (Criterion .inclusion)) := none
  paymentMethods : Option (Sequence (Criterion .paymentMethod)) := none
  layers : Option (Sequence Int32) := none
  deriving DecidableEq

namespace Params

/-- The value of a parameter, if it is set. -/
def get (p : Params) : (k : Param) → Option k.Value
  | .coordinates => p.coordinates
  | .bearings => p.bearings
  | .radiuses => p.radiuses
  | .approaches => p.approaches
  | .waypointIndices => p.waypointIndices
  | .waypointNames => p.waypointNames
  | .waypointTargets => p.waypointTargets
  | .closures => p.closures
  | .annotations => p.annotations
  | .exclusions => p.exclusions
  | .inclusions => p.inclusions
  | .paymentMethods => p.paymentMethods
  | .layers => p.layers

/-- The parameters with one of them set, or unset. -/
def set (p : Params) : (k : Param) → Option k.Value → Params
  | .coordinates, v => { p with coordinates := v }
  | .bearings, v => { p with bearings := v }
  | .radiuses, v => { p with radiuses := v }
  | .approaches, v => { p with approaches := v }
  | .waypointIndices, v => { p with waypointIndices := v }
  | .waypointNames, v => { p with waypointNames := v }
  | .waypointTargets, v => { p with waypointTargets := v }
  | .closures, v => { p with closures := v }
  | .annotations, v => { p with annotations := v }
  | .exclusions, v => { p with exclusions := v }
  | .inclusions, v => { p with inclusions := v }
  | .paymentMethods, v => { p with paymentMethods := v }
  | .layers, v => { p with layers := v }

/-- A parameter has the value that it was set to. -/
@[simp] theorem get_set (p : Params) (k : Param) (v : Option k.Value) : (p.set k v).get k = v := by
  cases k <;> rfl

/-- Setting one parameter leaves the others as they are. -/
theorem get_set_of_ne (p : Params) {j k : Param} (v : Option k.Value) (h : j ≠ k) :
    (p.set k v).get j = p.get j := by
  cases k <;> cases j <;> simp_all [get, set]

/-- Parameters are determined by their values. -/
theorem ext_get {p q : Params} (h : ∀ k, p.get k = q.get k) : p = q := by
  have h₁ := h .coordinates
  have h₂ := h .bearings
  have h₃ := h .radiuses
  have h₄ := h .approaches
  have h₅ := h .waypointIndices
  have h₆ := h .waypointNames
  have h₇ := h .waypointTargets
  have h₈ := h .closures
  have h₉ := h .annotations
  have h₁₀ := h .exclusions
  have h₁₁ := h .inclusions
  have h₁₂ := h .paymentMethods
  have h₁₃ := h .layers
  cases p
  cases q
  simp_all [get]

/-- A value for one parameter, or none to unset it. -/
structure Patch where
  param : Param
  value : Option param.Value

/-- The parameters after some of them are overwritten in turn. -/
def apply (p : Params) (patches : List Patch) : Params :=
  patches.foldl (fun p e => p.set e.param e.value) p

end Params

end RouteWire
