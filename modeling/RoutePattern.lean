import RoutePattern.Decimal.Reading
import RoutePattern.Proofs.Acceptance
import RoutePattern.Proofs.AddressParts
import RoutePattern.Proofs.ArgumentsByName
import RoutePattern.Proofs.Captures
import RoutePattern.Proofs.ClosedForm
import RoutePattern.Proofs.Compilation
import RoutePattern.Proofs.Components
import RoutePattern.Proofs.Delimiters
import RoutePattern.Proofs.FullAddress
import RoutePattern.Proofs.GroupRemoval
import RoutePattern.Proofs.LiteralRoutes
import RoutePattern.Proofs.Meaning
import RoutePattern.Proofs.OnePass
import RoutePattern.Proofs.OptionForms
import RoutePattern.Proofs.OptionLayers
import RoutePattern.Proofs.ParameterNames
import RoutePattern.Proofs.QueryEntries
import RoutePattern.Proofs.QueryIndependence
import RoutePattern.Proofs.Recency
import RoutePattern.Proofs.ReportAgreement
import RoutePattern.Proofs.RoundTrip
import RoutePattern.Proofs.Splicing
import RoutePattern.Session.Operation
