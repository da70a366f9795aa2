import HazardReach.Proofs.Exact
import HazardReach.Double
import HazardReach.Screen.Pairing
import HazardReach.Proximity
import HazardReach.Source.MultiPointSource
import HazardReach.Surface.Plane
import HazardReach.Wire.Forms
import HazardReach.Proofs.Longitude
import HazardReach.Proofs.Box.Arc
import HazardReach.Proofs.Frame
import HazardReach.Proofs.Site.Collection
import HazardReach.Proofs.Screen.Index
import HazardReach.Proofs.Screen.Pairs
import HazardReach.Proofs.Cutoff.Table
import HazardReach.Proofs.Screen.Reach
import HazardReach.Proofs.Screen.Transmission
import HazardReach.Proofs.Box.Enclosing
import HazardReach.Proofs.Box.Enlarged
import HazardReach.Proofs.Source.Points
import HazardReach.Proofs.Screen.Prefilter
import HazardReach.Proofs.Site.Membership
import HazardReach.Proofs.Screen.Search
import HazardReach.Proofs.Screen.Sequence
import HazardReach.Proofs.Screen.Backends
import HazardReach.Proofs.Box.Smallest
import HazardReach.Proofs.Cutoff.Check
import HazardReach.Proofs.Cutoff.Entries
import HazardReach.Proofs.Cutoff.Transfer
import HazardReach.Proofs.Proximity
import HazardReach.Proofs.Screen.Pruning
import HazardReach.Proofs.Screen.RoundTrip
import HazardReach.Proofs.Box.Growth
import HazardReach.Proofs.Screen.Placed
import HazardReach.Proofs.Closest
import HazardReach.Proofs.Cutoff.Curve
import HazardReach.Proofs.Alignment
import HazardReach.Proofs.Site.Narrowing
import HazardReach.Proofs.Site.Acceptance
import HazardReach.Proofs.Cutoff.Segment
import HazardReach.Proofs.Cutoff.Rearranged
import HazardReach.Proofs.Cutoff.Envelope
import HazardReach.Proofs.Source.Union
import HazardReach.Proofs.Surface.Minimum
import HazardReach.Proofs.Source.Turns
import HazardReach.Proofs.Surface.Accepted
import HazardReach.Proofs.Surface.Parallel
import HazardReach.Proofs.Surface.Directivity
