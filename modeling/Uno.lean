import Uno.Lib.Dict
import Uno.Lib.Nested
import Uno.Core.Exn
import Uno.Core.Ip
import Uno.Core.Netmask
import Uno.Core.Text
import Uno.Core.IpText
import Uno.Core.Wg
import Uno.Core.Data
import Uno.Core.Time
import Uno.Core.DateTime
import Uno.Core.Paired
import Uno.Lib.Fold
import Uno.Lib.Bytes
import Uno.Lib.FixedDigits
import Uno.Lib.Calendar
import Uno.Deploy.Links
import Uno.Deploy.Strategy
import Uno.Deploy.Graph
import Uno.Deploy.Crossed
import Uno.Deploy.Placement
import Uno.Deploy.Deployments
import Uno.Deploy.Addressing
import Uno.Deploy.Random
import Uno.Deploy.RandomWalk
import Uno.Deploy.RandomRuns
import Uno.Deploy.RandomSafety
import Uno.Lib.FlaggedTable
import Uno.Lib.Like
import Uno.Lib.Paths
import Uno.Lib.Run
import Uno.Vpn.KeyMap
import Uno.Vpn.ReadOnly
import Uno.Vpn.KeyMapSync
import Uno.Vpn.KeyMapRows
import Uno.Vpn.Keymat
import Uno.Vpn.Keys
import Uno.Vpn.KeyText
import Uno.Vpn.KeyLoad
import Uno.Vpn.KeyRestore
import Uno.Vpn.KeyNetworks
import Uno.Vpn.Backbone
import Uno.Vpn.Ends
import Uno.Vpn.Central
import Uno.Vpn.CentralEnds
import Uno.Vpn.CentralRange
import Uno.Registry.Create
import Uno.Registry.Clashes
import Uno.Registry.Uvn
import Uno.Registry.Cells
import Uno.Registry.Lans
import Uno.Vpn.AllowedIps
import Uno.Agent.Peers
import Uno.Agent.Meaning
import Uno.Agent.Flags
import Uno.Lib.Transaction
import Uno.Registry.Transactions
import Uno.Registry.Atomicity
import Uno.Registry.Save
import Uno.Registry.Retry
import Uno.Registry.Rekey
import Uno.Registry.Generate
import Uno.Registry.RekeyRuns
import Uno.Vpn.Material
import Uno.Registry.State
import Uno.Lib.Worklist
import Uno.Registry.Schema
import Uno.Registry.Delete
import Uno.Registry.Completeness
import Uno.Registry.Cache
import Uno.Registry.Ownership
import Uno.Registry.Identity
import Uno.Registry.IdentityExchange
import Uno.Agent.Trigger
import Uno.Agent.StatusMessage
import Uno.Registry.Dump
import Uno.Registry.Dumpable
import Uno.Registry.PublicDump
import Uno.Registry.Tracking
import Uno.Registry.ChangeTracking
import Uno.Agent.Liveness
import Uno.Registry.MaxRate
import Uno.Deploy.Static
import Uno.Agent.StaticServices
import Uno.Agent.ParticleStatus
import Uno.Deploy.Shape
import Uno.Agent.Reachability
import Uno.Agent.Reconcile
import Uno.Registry.Load
import Uno.Lib.RuleChains
import Uno.Agent.Firewall
import Uno.Agent.FirewallCommands
import Uno.Agent.FirewallRuns
import Uno.Lib.ReplaceTable
import Uno.Registry.Export
import Uno.Registry.Confidentiality
import Uno.Registry.Reachable
import Uno.Lib.SplitDouble
import Uno.Registry.Archive
import Uno.Lib.Sha256
import Uno.Registry.Login
import Uno.Agent.Lans
import Uno.Agent.Participant
import Uno.Registry.AgentKeys
import Uno.Registry.Package
import Uno.Registry.Ban
import Uno.Vpn.AgentConfig
import Uno.Registry.Handover
import Uno.Agent.Push
import Uno.Agent.PidFile
import Uno.Lib.ExitStack
import Uno.Agent.Spin
import Uno.Agent.StaticServiceRuns
import Uno.Lib.PathVector
import Uno.Agent.Router
import Uno.Registry.Import
import Uno.Agent.Reload
import Uno.Agent.Sync
