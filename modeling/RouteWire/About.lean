import RouteWire.Number.Write
import RouteWire.Tokens

/-!
# Fixed values of the library

The service that the requests are for, the version of the library, and what is fixed in the wire
format.
-/

set_option autoImplicit false

namespace RouteWire

/-- What a library tells about itself. -/
structure About where
  /-- The user whose routing profiles are the default. -/
  profileDefaultUser : String
  /-- Where requests go. -/
  baseApiUrl : String
  version : String
  delimiter : Char
  innerDelimiter : Char
  maxFractionDigits : Nat
  deriving DecidableEq

/-- What this library tells about itself. -/
def library : About where
  profileDefaultUser := "mapbox"
  baseApiUrl := "https://api.mapbox.com"
  version := "0.1.0"
  delimiter := defaultDelimiter
  innerDelimiter := defaultInnerDelimiter
  maxFractionDigits := RouteWire.maxFractionDigits

end RouteWire
