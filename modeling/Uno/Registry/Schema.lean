import Mathlib.Data.List.Basic

/-!
# The tables of the database

The tables of `initialize_registry.sql` and `initialize_agent.sql`, and the classes whose objects they hold: the table
of agents has two.
-/

namespace Uno

inductive DbTable where
  | users
  | uvns
  | registry
  | cells
  | particles
  | asymmKeys
  | symmKeys
  | agents
  | peers
  | peersVpnStatus
  | peersLanStatus
  deriving DecidableEq

namespace DbTable

/-- `DB_OWNER`: the tables of the classes that may own the objects of a table. -/
def ownerTypes : DbTable → List DbTable
  | uvns | cells | particles => [users]
  | agents => [uvns, cells]
  | peers => [uvns, cells, particles]
  | peersVpnStatus | peersLanStatus => [peers]
  | users | registry | asymmKeys | symmKeys => []

end DbTable

inductive DbClass where
  | user
  | uvn
  | registry
  | cell
  | particle
  | wireGuardKeyPair
  | wireGuardPsk
  | agentConfig
  | agent
  | uvnPeer
  | vpnInterfaceStatus
  | lanStatus
  deriving DecidableEq

/-- `DB_TABLE`. -/
def DbClass.table : DbClass → DbTable
  | user => .users
  | uvn => .uvns
  | registry => .registry
  | cell => .cells
  | particle => .particles
  | wireGuardKeyPair => .asymmKeys
  | wireGuardPsk => .symmKeys
  | agentConfig | agent => .agents
  | uvnPeer => .peers
  | vpnInterfaceStatus => .peersVpnStatus
  | lanStatus => .peersLanStatus

end Uno
