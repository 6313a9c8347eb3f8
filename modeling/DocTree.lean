import DocTree.Datum.Forms
import DocTree.Proofs.Axis.Dispatch
import DocTree.Proofs.Layout.ReadBack
import DocTree.Proofs.Layout.WellLinked
import DocTree.Proofs.Node.DocumentOrder
import DocTree.Proofs.Client.Basic
import DocTree.Proofs.Walk.Route
import DocTree.Session.Axes
import DocTree.Session.Description
import DocTree.Session.Documents
import DocTree.Session.Names
import DocTree.Session.Storage
import DocTree.Proofs.Registry.Conserved
import DocTree.Proofs.Client.Custody
import DocTree.Proofs.Axis.Budget
import DocTree.Proofs.Reading.Refused
import DocTree.Proofs.Walk.Refused
import DocTree.Proofs.Axis.Missing
import DocTree.Proofs.Walk.Astray
import DocTree.Proofs.Stream.Relay
import DocTree.Proofs.Stream.Merge
import DocTree.Proofs.Walk.Order
import DocTree.Proofs.Axis.Order
import DocTree.Proofs.Registry.Compositional
import DocTree.Proofs.Registry.Budget
import DocTree.Proofs.Client.Budget
import DocTree.Proofs.Store.Refused
import DocTree.Proofs.Node.Text
import DocTree.Proofs.Node.CutPath
import DocTree.Proofs.Node.Missing
import DocTree.Proofs.Stream.Interleaved
import DocTree.Proofs.Node.Identity
import DocTree.Proofs.Node.Lenient
import DocTree.Proofs.Store.Steady
import DocTree.Proofs.Registry.Later
import DocTree.Proofs.Client.Turns
import DocTree.Proofs.Walk.Complete
import DocTree.Proofs.Axis.Extent
import DocTree.Proofs.Client.Lending
import DocTree.Proofs.NamePool.Exhaustion
import DocTree.Proofs.Stream.Rejected
import DocTree.Proofs.Axis.InScope
import DocTree.Proofs.Stream.CutShort
import DocTree.Proofs.Axis.Fingerprint
import DocTree.Proofs.Node.Value
import DocTree.Proofs.Axis.Links
import DocTree.Proofs.Axis.Exhausted
import DocTree.Proofs.Node.BaseUri
import DocTree.Proofs.Registry.Leaves
import DocTree.Proofs.Node.Declarations
import DocTree.Proofs.Client.Overdrawn
import DocTree.Proofs.Registry.Numbers
import DocTree.Proofs.Axis.Nodes
import DocTree.Proofs.Node.AttributeAxis
import DocTree.Proofs.Node.Relatives
import DocTree.Proofs.Walk.Terminates
import DocTree.Proofs.Layout.Builder
