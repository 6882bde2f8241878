import Testnet.Main
import Testnet.Proofs.Build
import Testnet.Proofs.Factory
import Testnet.Proofs.Peering.Dial
import Testnet.Proofs.Peering.Reach
import Testnet.Proofs.Peering.Bridge
import Testnet.Proofs.Account
import Testnet.Proofs.Assignment
import Testnet.Proofs.Binding
import Testnet.Proofs.SharedAccounts
import Testnet.Proofs.Peering.Connect
import Testnet.Proofs.Peering.Graph
import Testnet.Proofs.Peering.Regular
import Testnet.Proofs.Peering.Stride
import Testnet.Proofs.Binary64
import Testnet.Proofs.Peering.Gap
import Testnet.Proofs.Generated
import Testnet.Proofs.Peering.Star
import Testnet.Proofs.Json.Literal
import Testnet.Proofs.Json.Text
import Testnet.Proofs.Json.Decode
import Testnet.Proofs.Topology
import Testnet.Proofs.Genesis.Text
import Testnet.Proofs.Timestamp
import Testnet.Proofs.FileTree
import Testnet.Proofs.Output
import Testnet.Proofs.Declared
import Testnet.Proofs.DeclaredAgain
import Testnet.Proofs.WellFormed
import Testnet.Proofs.Exhaustion
import Testnet.Proofs.Redeclared
import Testnet.Proofs.Config.Check
import Testnet.Proofs.PortClash
import Testnet.Proofs.Genesis.Compose
import Testnet.Proofs.Shape
import Testnet.Proofs.Regenerated
import Testnet.Proofs.Identity
import Testnet.Proofs.Ownership
import Testnet.Proofs.Started
import Testnet.Proofs.Acceptance
import Testnet.Proofs.Launch.Reading
import Testnet.Proofs.Launch.Plan
import Testnet.Proofs.PeerLists
import Testnet.Proofs.Json.Fields
import Testnet.Proofs.Genesis.Rewrite
import Testnet.Proofs.Timestamp.Grammar
import Testnet.Proofs.Genesis.Override
import Testnet.Proofs.Peering.Exact
import Testnet.Proofs.Peering.Saturated
import Testnet.Proofs.Peering.Halves
import Testnet.Proofs.Account.Order
import Testnet.Proofs.Binding.Order
import Testnet.Proofs.Binding.Failed
import Testnet.Proofs.Peering.Again
import Testnet.Proofs.Peering.Session
import Testnet.Proofs.Genesis.Layers
import Testnet.Proofs.CommandLine.DryRun
