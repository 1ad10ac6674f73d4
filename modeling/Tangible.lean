import Tangible.Osc.Encode
import Tangible.Osc.Decode
import Tangible.Osc.Cursor
import Tangible.Message.Scan
import Tangible.Geometry.Polygon
import Tangible.Session
import Tangible.Graph.Topology
import Tangible.Graph.Components
import Tangible.Graph.Isomorphism
import Tangible.Message.Planar
import Tangible.Message.Spatial
import Tangible.Message.Frame
import Tangible.Message.Payload
import Tangible.Message.Outline
import Tangible.Message.Link
import Tangible.Message.Basic
import Tangible.Registry
import Tangible.Bundle.Basic
import Tangible.Message.Transform
import Tangible.Message.Term
import Tangible.Bundle.Stack
import Tangible.Bundle.Containment
import Tangible.Bundle.Handles
import Tangible.Config.Basic
import Tangible.Network.Client
import Tangible.Network.Server
import Tangible.Bundle.Sample
import Tangible.Message.Carrier
import Tangible.Proofs.Osc.Reads
import Tangible.Proofs.Bundle.RoundTrip
import Tangible.Proofs.Network.Assembly
import Tangible.Proofs.Network.Delivery
import Tangible.Proofs.Network.Framing
import Tangible.Proofs.Network.Payload
import Tangible.Message.Update
import Tangible.Proofs.Message.Reencoding
import Tangible.Proofs.Message.Update
import Tangible.Proofs.Network.Ordering
import Tangible.Network.Endpoint
import Tangible.Proofs.Session
import Tangible.Proofs.Network.Endpoint
import Tangible.Proofs.Graph.Change
import Tangible.Proofs.Graph.Multigraph
import Tangible.Proofs.Graph.Refinement
import Tangible.Proofs.Graph.Pairing
import Tangible.Proofs.Message.Layout
import Tangible.Proofs.Graph.Shape
import Tangible.Proofs.Network.Packaging
import Tangible.Proofs.Network.Accepted
import Tangible.Proofs.Network.Truncation
import Tangible.Proofs.Registration
import Tangible.Proofs.Bundle.Containment
import Tangible.Proofs.Network.Row
import Tangible.Proofs.Network.Lag
import Tangible.Proofs.Message.Contour
import Tangible.Proofs.Message.ScanTree
import Tangible.Proofs.Bundle.Block
import Tangible.Proofs.Message.Canonical
import Tangible.Graph.Split
import Tangible.Proofs.Graph.Descent
import Tangible.Proofs.Graph.Split
import Tangible.Proofs.Message.Transform
import Tangible.Proofs.Network.Schedule
import Tangible.Proofs.Timetag
import Tangible.Proofs.Geometry.Repeated
