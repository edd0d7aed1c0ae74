import RouteWire.About
import RouteWire.Proofs.Decimal
import RouteWire.Proofs.Number.RoundTrip
import RouteWire.Session.Log
import RouteWire.Session.Slots
import RouteWire.Proofs.Numeral.Place
import RouteWire.Proofs.Number.OutOfRange
import RouteWire.Proofs.Outcome
import RouteWire.Proofs.Sequence.RoundTrip
import RouteWire.Proofs.Integer
import RouteWire.Proofs.Criterion
import RouteWire.Proofs.Number.Settled
import RouteWire.Proofs.Point
import RouteWire.Proofs.Params.Element
import RouteWire.Proofs.Field.Write
import RouteWire.Proofs.Params.Query
import RouteWire.Proofs.Params.RoundTrip
import RouteWire.Proofs.Params.WaypointNames
import RouteWire.Proofs.Session.Perform
import RouteWire.Proofs.Session.Reentrant
import RouteWire.Proofs.Sequence.Failure
import RouteWire.Proofs.Params.Decoding
import RouteWire.Proofs.Params.Encoding
import RouteWire.Proofs.Params.Resending
import RouteWire.Proofs.Params.Same
import RouteWire.Proofs.Numeral.Longest
import RouteWire.Proofs.Sequence.FirstFailure
import RouteWire.Proofs.Number.Accepted
import RouteWire.Proofs.Number.Canonical
import RouteWire.Proofs.Number.Rounded
import RouteWire.Proofs.Number.CanonicalRoundTrip
import RouteWire.Proofs.Sequence.Trimmed
import RouteWire.Proofs.Field.Bearings
import RouteWire.Proofs.Field.Radiuses
import RouteWire.Proofs.Field.Criteria
import RouteWire.Proofs.Integer.Spelling
import RouteWire.Proofs.Number.Whole
import RouteWire.Proofs.Field.Distributions
import RouteWire.Proofs.Session.Points
import RouteWire.Proofs.Sequence.Append
import RouteWire.Proofs.Field.Numbers
import RouteWire.Proofs.Params.Coordinates
import RouteWire.Proofs.Params.Document
import RouteWire.Proofs.Tokens.Search
import RouteWire.Proofs.Number.AllDecimals
