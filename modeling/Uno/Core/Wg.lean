import Uno.Core.IpText
import Uno.Lib.Dict
import Mathlib.Data.String.Basic

/-!
# WireGuard configurations as dictionaries

`serialize` leaves the unset fields out, and `deserialize` fills them in again. A keepalive of zero and the
flags `masquerade` and `forward` that are false are left out too, but come back as `None`: reading a
configuration back gives the one that has `None` in these places (`deserialize_serialize`).
-/

namespace Uno

/-- A Python value of a serialized object. -/
inductive YamlValue where
  | none
  | bool (b : Bool)
  | int (n : ℤ)
  | str (s : String)
  | list (values : List YamlValue)
  | dict (entries : List (String × YamlValue))

namespace YamlValue

def ofOption {β : Type} (f : β → YamlValue) : Option β → YamlValue
  | some v => f v
  | Option.none => none

def toStr : YamlValue → Option String
  | str s => some s
  | _ => Option.none

def toInt : YamlValue → Option ℤ
  | int n => some n
  | _ => Option.none

def toBool : YamlValue → Option Bool
  | bool b => some b
  | _ => Option.none

/-- A value that may be `None`. -/
def toOption {β : Type} (f : YamlValue → Option β) : YamlValue → Option (Option β)
  | none => some Option.none
  | v => (f v).map some

def toList {β : Type} (f : YamlValue → Option β) : YamlValue → Option (List β)
  | list values => values.mapM f
  | _ => Option.none

theorem toOption_ofOption {β : Type} (f : YamlValue → Option β) (g : β → YamlValue) (hne : ∀ v, g v ≠ none)
    (hfg : ∀ v, f (g v) = some v) (o : Option β) : (ofOption g o).toOption f = some o := by
  cases o with
  | none => rfl
  | some v =>
    have hmap : (g v).toOption f = (f (g v)).map some := by
      unfold toOption
      split
      · next h => exact absurd h (hne v)
      · rfl
    rw [ofOption, hmap, hfg]
    rfl

@[simp] theorem toOption_ofOption_str (o : Option String) : (ofOption str o).toOption toStr = some o :=
  toOption_ofOption toStr str (by simp) (fun _ => rfl) o

@[simp] theorem toOption_ofOption_int (o : Option ℤ) : (ofOption int o).toOption toInt = some o :=
  toOption_ofOption toInt int (by simp) (fun _ => rfl) o

@[simp] theorem toOption_ofOption_bool (o : Option Bool) : (ofOption bool o).toOption toBool = some o :=
  toOption_ofOption toBool bool (by simp) (fun _ => rfl) o

end YamlValue

/-- The entries of a dictionary with distinct string keys. -/
abbrev YamlDict := List (String × YamlValue)

namespace YamlDict

/-- `if condition: del serialized[key]`. -/
def delIf (d : YamlDict) (condition : Bool) (key : String) : YamlDict :=
  if condition then d.filter fun e => e.1 ≠ key else d

/-- `serialized[key]`; raises when there is no such key. -/
def item (d : YamlDict) (key : String) : Option YamlValue := Dict.lookupEntry key d

/-- `serialized.get(key)`. -/
def get (d : YamlDict) (key : String) : YamlValue := (d.item key).getD .none

theorem item_delIf (d : YamlDict) (condition : Bool) (key key' : String) :
    (d.delIf condition key).item key' = if condition ∧ key' = key then none else d.item key' := by
  unfold delIf
  cases condition with
  | false => simp
  | true =>
    rw [if_pos rfl, item, Dict.lookupEntry_filter (fun k => decide (k ≠ key))]
    by_cases hk : key' = key
    · simp [hk]
    · simp [hk, item]

theorem delIf_comm (d : YamlDict) (p q : Bool) (key key' : String) :
    (d.delIf p key).delIf q key' = (d.delIf q key').delIf p key := by
  unfold delIf
  cases p <;> cases q <;> simp [List.filter_filter, Bool.and_comm]

theorem delIf_entry {d e : YamlDict} {condition : Bool} {key : String} {v w : YamlValue}
    (h : condition = false → v = w) :
    YamlDict.delIf (d ++ (key, v) :: e) condition key = YamlDict.delIf (d ++ (key, w) :: e) condition key := by
  cases condition with
  | false => rw [h rfl]
  | true => simp [delIf]

theorem getD_if_none {β : Type} (g : β → YamlValue) (o : Option β) :
    (if o = none then none else some (YamlValue.ofOption g o)).getD .none = YamlValue.ofOption g o := by
  cases o <;> rfl

end YamlDict

namespace Wg

open YamlValue (ofOption)

structure InterfaceConfig where
  name : String
  /-- `None` where the private half is not known. -/
  privkey : Option String
  address : IPv4Address
  netmask : ℕ
  port : Option ℤ
  endpoint : Option String
  mtu : Option ℤ
  /-- `subnet` can be built. -/
  netmask_le : netmask ≤ 32

instance : DecidableEq InterfaceConfig := fun c d =>
  decidable_of_iff (c.name = d.name ∧ c.privkey = d.privkey ∧ c.address = d.address ∧ c.netmask = d.netmask ∧
    c.port = d.port ∧ c.endpoint = d.endpoint ∧ c.mtu = d.mtu) (by cases c; cases d; simp)

structure PeerConfig where
  id : ℤ
  pubkey : String
  psk : String
  address : IPv4Address
  allowed : List String
  endpoint : Option String
  keepalive : Option ℤ
  /-- `allowed = sorted(allowed or [])`. -/
  sorted : allowed.Pairwise (· ≤ ·)
  deriving DecidableEq

structure Config where
  intf : InterfaceConfig
  peers : List PeerConfig
  tunnel : Bool
  tunnelRoot : Bool
  /-- Read back as `None` when it is left out; so is `forward`. -/
  masquerade : Option Bool
  forward : Option Bool
  generationTs : String
  /-- `generation_ts or Timestamp.now().format()`. -/
  generationTs_ne : generationTs ≠ ""
  deriving DecidableEq

/-! ### Interfaces -/

namespace InterfaceConfig

def serialize (c : InterfaceConfig) (pub : Bool) : YamlDict :=
  let serialized : YamlDict := [
    ("name", .str c.name),
    ("privkey", if pub then .none else ofOption .str c.privkey),
    ("address", .str (String.ofList c.address.str)),
    ("netmask", .int c.netmask),
    ("port", ofOption .int c.port),
    ("endpoint", ofOption .str c.endpoint),
    ("mtu", ofOption .int c.mtu)]
  let serialized := serialized.delIf (c.port = none) "port"
  let serialized := serialized.delIf (c.endpoint = none) "endpoint"
  serialized.delIf (c.mtu = none) "mtu"

/-- `none` stands for an exception: a key is missing, or a value is not one of the field's type. -/
def deserialize (serialized : YamlDict) : Option InterfaceConfig := do
  let name ← (← serialized.item "name").toStr
  let privkey ← (← serialized.item "privkey").toOption YamlValue.toStr
  let address ← (ipAddress (← (← serialized.item "address").toStr).toList).toOption
  let netmask ← (← serialized.item "netmask").toInt
  let port ← (serialized.get "port").toOption YamlValue.toInt
  let endpoint ← (serialized.get "endpoint").toOption YamlValue.toStr
  let mtu ← (serialized.get "mtu").toOption YamlValue.toInt
  if h : netmask.toNat ≤ 32 then
    if 0 ≤ netmask then some ⟨name, privkey, address, netmask.toNat, port, endpoint, mtu, h⟩ else none
  else none

theorem item_serialize (c : InterfaceConfig) :
    (c.serialize false).item "name" = some (.str c.name) ∧
    (c.serialize false).item "privkey" = some (ofOption .str c.privkey) ∧
    (c.serialize false).item "address" = some (.str (String.ofList c.address.str)) ∧
    (c.serialize false).item "netmask" = some (.int c.netmask) ∧
    (c.serialize false).get "port" = ofOption .int c.port ∧
    (c.serialize false).get "endpoint" = ofOption .str c.endpoint ∧
    (c.serialize false).get "mtu" = ofOption .int c.mtu := by
  unfold serialize YamlDict.get
  simp only [YamlDict.item_delIf]
  simp [YamlDict.item, Dict.lookupEntry, YamlDict.getD_if_none]

theorem deserialize_serialize (c : InterfaceConfig) : deserialize (c.serialize false) = some c := by
  obtain ⟨hname, hprivkey, haddress, hnetmask, hport, hendpoint, hmtu⟩ := c.item_serialize
  have hip : (ipAddress c.address.str).toOption = some c.address := by
    rw [IPv4Address.ipAddress_str]
    rfl
  unfold deserialize
  simp [hname, hprivkey, haddress, hnetmask, hport, hendpoint, hmtu, YamlValue.toStr, YamlValue.toInt, hip,
    c.netmask_le]

end InterfaceConfig

/-! ### Peers -/

namespace PeerConfig

theorem pairwise_sorted (l : List String) : (l.mergeSort fun a b => a ≤ b).Pairwise (· ≤ ·) := by
  have htrans : ∀ a b c : String, decide (a ≤ b) = true → decide (b ≤ c) = true → decide (a ≤ c) = true :=
    fun a b c hab hbc => decide_eq_true (le_trans (of_decide_eq_true hab) (of_decide_eq_true hbc))
  have htotal : ∀ a b : String, (decide (a ≤ b) || decide (b ≤ a)) = true := fun a b => by
    simpa using le_total a b
  exact (List.pairwise_mergeSort htrans htotal l).imp of_decide_eq_true

/-- `WireGuardInterfacePeerConfig(…)`. -/
def new (id : ℤ) (pubkey psk : String) (address : IPv4Address) (allowed : Option (List String))
    (endpoint : Option String) (keepalive : Option ℤ) : PeerConfig :=
  ⟨id, pubkey, psk, address, (allowed.getD []).mergeSort fun a b => a ≤ b, endpoint, keepalive,
    pairwise_sorted (allowed.getD [])⟩

def serialize (p : PeerConfig) (pub : Bool) : YamlDict :=
  let serialized : YamlDict := [
    ("id", .int p.id),
    ("pubkey", .str p.pubkey),
    ("psk", if pub then .none else .str p.psk),
    ("address", .str (String.ofList p.address.str)),
    ("allowed", .list (p.allowed.map .str)),
    ("endpoint", ofOption .str p.endpoint),
    ("keepalive", ofOption .int p.keepalive)]
  let serialized := serialized.delIf (p.endpoint = none) "endpoint"
  let serialized := serialized.delIf (p.allowed = []) "allowed"
  serialized.delIf (p.keepalive = none ∨ p.keepalive = some 0) "keepalive"

def deserialize (serialized : YamlDict) : Option PeerConfig := do
  let id ← (← serialized.item "id").toInt
  let pubkey ← (← serialized.item "pubkey").toStr
  let psk ← (← serialized.item "psk").toStr
  let address ← (ipAddress (← (← serialized.item "address").toStr).toList).toOption
  let allowed ← (serialized.get "allowed").toOption (YamlValue.toList YamlValue.toStr)
  let endpoint ← (serialized.get "endpoint").toOption YamlValue.toStr
  let keepalive ← (serialized.get "keepalive").toOption YamlValue.toInt
  some (new id pubkey psk address allowed endpoint keepalive)

/-- The configuration without a keepalive of zero. -/
def forget (p : PeerConfig) : PeerConfig :=
  { p with keepalive := if p.keepalive = some 0 then none else p.keepalive }

theorem new_of_sorted (p : PeerConfig) (allowed : Option (List String)) (h : allowed.getD [] = p.allowed) :
    new p.id p.pubkey p.psk p.address allowed p.endpoint p.keepalive = p := by
  obtain ⟨id, pubkey, psk, address, l, endpoint, keepalive, hsorted⟩ := p
  unfold new
  congr 1
  rw [h]
  exact List.mergeSort_of_pairwise (by simpa using hsorted)

theorem item_serialize (p : PeerConfig) :
    (p.serialize false).item "id" = some (.int p.id) ∧
    (p.serialize false).item "pubkey" = some (.str p.pubkey) ∧
    (p.serialize false).item "psk" = some (.str p.psk) ∧
    (p.serialize false).item "address" = some (.str (String.ofList p.address.str)) ∧
    (p.serialize false).get "allowed" = (if p.allowed = [] then .none else .list (p.allowed.map .str)) ∧
    (p.serialize false).get "endpoint" = ofOption .str p.endpoint ∧
    (p.serialize false).get "keepalive" = ofOption .int p.forget.keepalive := by
  unfold serialize YamlDict.get
  simp only [YamlDict.item_delIf]
  refine ⟨?_, ?_, ?_, ?_, ?_, ?_, ?_⟩
  · simp [YamlDict.item, Dict.lookupEntry]
  · simp [YamlDict.item, Dict.lookupEntry]
  · simp [YamlDict.item, Dict.lookupEntry]
  · simp [YamlDict.item, Dict.lookupEntry]
  · by_cases h : p.allowed = [] <;> simp [YamlDict.item, Dict.lookupEntry, h]
  · simp [YamlDict.item, Dict.lookupEntry, YamlDict.getD_if_none]
  · rcases h : p.keepalive with _ | n
    · simp [forget, h, ofOption]
    · by_cases hn : n = 0 <;> simp [YamlDict.item, Dict.lookupEntry, forget, h, hn, ofOption]

/-- A peer is read back without a keepalive of zero. -/
theorem deserialize_serialize (p : PeerConfig) : deserialize (p.serialize false) = some p.forget := by
  obtain ⟨hid, hpubkey, hpsk, haddress, hallowed, hendpoint, hkeepalive⟩ := p.item_serialize
  have hip : (ipAddress p.address.str).toOption = some p.address := by
    rw [IPv4Address.ipAddress_str]
    rfl
  have hlist : ∃ allowed, YamlValue.toOption (YamlValue.toList YamlValue.toStr)
      (if p.allowed = [] then .none else .list (p.allowed.map .str)) = some allowed ∧
        allowed.getD [] = p.allowed := by
    by_cases h : p.allowed = []
    · exact ⟨none, by rw [if_pos h]; rfl, h.symm⟩
    · refine ⟨some p.allowed, ?_, rfl⟩
      rw [if_neg h]
      show Option.map some ((p.allowed.map YamlValue.str).mapM YamlValue.toStr) = _
      rw [List.mapM_map]
      exact congrArg (Option.map some) (List.mapM_pure.trans (congrArg some (List.map_id _)))
  obtain ⟨allowed, hallowed', hgetD⟩ := hlist
  unfold deserialize
  simp only [hid, hpubkey, hpsk, haddress, hallowed, hendpoint, hkeepalive, Option.bind_eq_bind, Option.bind_some,
    YamlValue.toStr, YamlValue.toInt, String.toList_ofList, hip, hallowed', YamlValue.toOption_ofOption_str,
    YamlValue.toOption_ofOption_int]
  exact congrArg some (new_of_sorted p.forget allowed hgetD)

theorem serialize_forget (p : PeerConfig) (pub : Bool) : p.forget.serialize pub = p.serialize pub := by
  have hcondition : decide (p.forget.keepalive = none ∨ p.forget.keepalive = some 0) =
      decide (p.keepalive = none ∨ p.keepalive = some 0) := by
    unfold forget
    by_cases h : p.keepalive = some 0 <;> simp [h]
  unfold serialize
  rw [hcondition]
  simp only [YamlDict.delIf_comm _ _ (decide (p.keepalive = none ∨ p.keepalive = some 0)) _ "keepalive"]
  refine congrArg (fun d : YamlDict =>
    (d.delIf (decide (p.endpoint = none)) "endpoint").delIf (decide (p.allowed = [])) "allowed") ?_
  refine @YamlDict.delIf_entry [(_, _), (_, _), (_, _), (_, _), (_, _), (_, _)] [] _ _ _ _ fun hkept => ?_
  have hne : p.keepalive ≠ some 0 := fun h => of_decide_eq_false hkept (.inr h)
  exact congrArg (ofOption YamlValue.int) (if_neg hne)

theorem forget_eq_self_iff (p : PeerConfig) : p.forget = p ↔ p.keepalive ≠ some 0 := by
  obtain ⟨id, pubkey, psk, address, allowed, endpoint, keepalive, hsorted⟩ := p
  by_cases h : keepalive = some 0 <;> simp [forget, h]

end PeerConfig

/-! ### Configurations -/

namespace Config

def serialize (c : Config) (pub : Bool) : YamlDict :=
  let serialized : YamlDict := [
    ("intf", .dict (c.intf.serialize pub)),
    ("peers", .list (c.peers.map fun p => .dict (p.serialize pub))),
    ("generation_ts", .str c.generationTs),
    ("tunnel", .bool c.tunnel),
    ("tunnel_root", .bool c.tunnelRoot),
    ("masquerade", ofOption .bool c.masquerade),
    ("forward", ofOption .bool c.forward)]
  let serialized := serialized.delIf (c.peers.length = 0) "peers"
  let serialized := serialized.delIf (c.tunnel = false) "tunnel"
  let serialized := serialized.delIf (c.tunnelRoot = false) "tunnel_root"
  let serialized := serialized.delIf (c.masquerade ≠ some true) "masquerade"
  serialized.delIf (c.forward ≠ some true) "forward"

/-- `serialized.get(key, default)`. -/
def getOr (serialized : YamlDict) (key : String) (default : YamlValue) : YamlValue :=
  (serialized.item key).getD default

/-- A value that is a dictionary. -/
def toDict : YamlValue → Option YamlDict
  | .dict entries => some entries
  | _ => none

def peerOfValue (v : YamlValue) : Option PeerConfig := toDict v >>= PeerConfig.deserialize

/-- `generation_ts or Timestamp.now().format()`. -/
def stampOr (generationTs : String) (now : {text : String // text ≠ ""}) : {text : String // text ≠ ""} :=
  if h : generationTs ≠ "" then ⟨generationTs, h⟩ else now

def deserialize (now : {text : String // text ≠ ""}) (serialized : YamlDict) : Option Config := do
  let intf ← InterfaceConfig.deserialize (← toDict (← serialized.item "intf"))
  let peers ← YamlValue.toList peerOfValue (getOr serialized "peers" (.list []))
  let tunnel ← (getOr serialized "tunnel" (.bool false)).toBool
  let tunnelRoot ← (getOr serialized "tunnel_root" (.bool false)).toBool
  let generationTs ← (← serialized.item "generation_ts").toStr
  let masquerade ← (serialized.get "masquerade").toOption YamlValue.toBool
  let forward ← (serialized.get "forward").toOption YamlValue.toBool
  let stamp := stampOr generationTs now
  some ⟨intf, peers, tunnel, tunnelRoot, masquerade, forward, stamp.1, stamp.2⟩

/-- The configuration without the false flags that come back as `None`, and without keepalives of zero. -/
def forget (c : Config) : Config :=
  { c with
    peers := c.peers.map PeerConfig.forget
    masquerade := if c.masquerade = some false then none else c.masquerade
    forward := if c.forward = some false then none else c.forward }

theorem item_serialize (c : Config) :
    (c.serialize false).item "intf" = some (.dict (c.intf.serialize false)) ∧
    getOr (c.serialize false) "peers" (.list []) = .list (c.peers.map fun p => .dict (p.serialize false)) ∧
    getOr (c.serialize false) "tunnel" (.bool false) = .bool c.tunnel ∧
    getOr (c.serialize false) "tunnel_root" (.bool false) = .bool c.tunnelRoot ∧
    (c.serialize false).item "generation_ts" = some (.str c.generationTs) ∧
    (c.serialize false).get "masquerade" = ofOption .bool c.forget.masquerade ∧
    (c.serialize false).get "forward" = ofOption .bool c.forget.forward := by
  have hflag : ∀ o : Option Bool, (if o ≠ some true then none else some (ofOption YamlValue.bool o)).getD .none =
      ofOption .bool (if o = some false then none else o) := by
    rintro (_ | _ | _) <;> rfl
  unfold serialize YamlDict.get getOr
  simp only [YamlDict.item_delIf]
  refine ⟨?_, ?_, ?_, ?_, ?_, ?_, ?_⟩
  · simp [YamlDict.item, Dict.lookupEntry]
  · by_cases h : c.peers = [] <;> simp [YamlDict.item, Dict.lookupEntry, h]
  · cases h : c.tunnel <;> simp [YamlDict.item, Dict.lookupEntry]
  · cases h : c.tunnelRoot <;> simp [YamlDict.item, Dict.lookupEntry]
  · simp [YamlDict.item, Dict.lookupEntry]
  · refine Eq.trans ?_ (hflag c.masquerade)
    simp [YamlDict.item, Dict.lookupEntry]
  · refine Eq.trans ?_ (hflag c.forward)
    simp [YamlDict.item, Dict.lookupEntry]

theorem deserialize_serialize (c : Config) (now : {text : String // text ≠ ""}) :
    deserialize now (c.serialize false) = some c.forget := by
  obtain ⟨hintf, hpeers, htunnel, hroot, hts, hmasquerade, hforward⟩ := c.item_serialize
  have hlist : YamlValue.toList peerOfValue
      (.list (c.peers.map fun p => .dict (p.serialize false))) = some c.forget.peers := by
    show (c.peers.map fun p => YamlValue.dict (p.serialize false)).mapM _ = _
    rw [List.mapM_map]
    have hpeer : (peerOfValue ∘ fun p : PeerConfig => .dict (p.serialize false)) =
        fun p => some p.forget := funext fun p => p.deserialize_serialize
    rw [hpeer]
    exact List.mapM_pure
  have hstamp : stampOr c.generationTs now = ⟨c.generationTs, c.generationTs_ne⟩ := dif_pos c.generationTs_ne
  unfold deserialize
  simp only [hintf, hpeers, htunnel, hroot, hts, hmasquerade, hforward, hlist, hstamp, Option.bind_eq_bind,
    Option.bind_some, toDict, InterfaceConfig.deserialize_serialize, YamlValue.toBool, YamlValue.toStr,
    YamlValue.toOption_ofOption_bool]
  rfl

theorem serialize_forget (c : Config) : c.forget.serialize false = c.serialize false := by
  have hpeers : c.forget.peers.map (fun p => YamlValue.dict (p.serialize false)) =
      c.peers.map fun p => .dict (p.serialize false) := by
    show (c.peers.map PeerConfig.forget).map _ = _
    rw [List.map_map]
    exact List.map_congr_left fun p _ => congrArg YamlValue.dict (p.serialize_forget false)
  have hlen : c.forget.peers.length = c.peers.length := List.length_map _
  have hflag : ∀ o : Option Bool, decide ((if o = some false then none else o) ≠ some true) = decide (o ≠ some true) := by
    rintro (_ | _ | _) <;> rfl
  have hmasquerade : decide (c.forget.masquerade ≠ some true) = decide (c.masquerade ≠ some true) := hflag _
  have hforward : decide (c.forget.forward ≠ some true) = decide (c.forward ≠ some true) := hflag _
  have hkept : ∀ o : Option Bool, decide (o ≠ some true) = false →
      ofOption YamlValue.bool (if o = some false then none else o) = ofOption .bool o := by
    rintro (_ | _ | _) h
    · rfl
    · cases h
    · rfl
  unfold serialize
  rw [hpeers, hlen, hmasquerade, hforward]
  simp only [YamlDict.delIf_comm _ _ (decide (c.masquerade ≠ some true)) _ "masquerade"]
  simp only [YamlDict.delIf_comm _ _ (decide (c.forward ≠ some true)) _ "forward"]
  -- the entries of the two flags are the only ones that differ, and a flag whose entry differs is deleted
  refine congrArg (fun d : YamlDict => ((d.delIf (decide (c.peers.length = 0)) "peers").delIf
    (decide (c.tunnel = false)) "tunnel").delIf (decide (c.tunnelRoot = false)) "tunnel_root") ?_
  refine (congrArg (fun d : YamlDict => d.delIf (decide (c.masquerade ≠ some true)) "masquerade")
    (@YamlDict.delIf_entry [(_, _), (_, _), (_, _), (_, _), (_, _), (_, _)] [] _ _ _ _ (hkept c.forward))).trans ?_
  rw [YamlDict.delIf_comm]
  refine (congrArg (fun d : YamlDict => d.delIf (decide (c.forward ≠ some true)) "forward")
    (@YamlDict.delIf_entry [(_, _), (_, _), (_, _), (_, _), (_, _)] [(_, _)] _ _ _ _ (hkept c.masquerade))).trans ?_
  exact YamlDict.delIf_comm _ _ _ _ _

/-- Reading a configuration back gives the same fields, and writing that gives the same output. -/
def RoundTrips (c : Config) : Prop :=
  ∀ now, ∃ c', deserialize now (c.serialize false) = some c' ∧ c' = c ∧ c'.serialize false = c.serialize false

theorem roundTrips_iff (c : Config) :
    c.RoundTrips ↔ c.masquerade ≠ some false ∧ c.forward ≠ some false ∧ ∀ p ∈ c.peers, p.keepalive ≠ some 0 := by
  have hpeers : c.peers.map PeerConfig.forget = c.peers ↔ ∀ p ∈ c.peers, p.keepalive ≠ some 0 := by
    have hself : c.peers.map PeerConfig.forget = c.peers.map id ↔ _ := List.map_inj_left
    rw [List.map_id] at hself
    exact hself.trans (forall₂_congr fun p _ => p.forget_eq_self_iff)
  have hflag : ∀ o : Option Bool, (if o = some false then none else o) = o ↔ o ≠ some false := by
    rintro (_ | _ | _) <;> decide
  have hforget : c.forget = c ↔
      c.masquerade ≠ some false ∧ c.forward ≠ some false ∧ ∀ p ∈ c.peers, p.keepalive ≠ some 0 := by
    rw [← hpeers, ← hflag c.masquerade, ← hflag c.forward]
    obtain ⟨intf, peers, tunnel, tunnelRoot, masquerade, forward, generationTs, hts⟩ := c
    simp only [forget, mk.injEq, true_and, and_true]
    tauto
  rw [← hforget]
  constructor
  · intro h
    obtain ⟨c', hread, heq, -⟩ := h ⟨c.generationTs, c.generationTs_ne⟩
    rw [deserialize_serialize, Option.some.injEq] at hread
    exact hread.trans heq
  · intro h now
    exact ⟨c.forget, c.deserialize_serialize now, h, c.serialize_forget⟩

/-- An interface without peers, with the flags that the constructor defaults to. -/
def plain : Config where
  intf := ⟨"wg0", some "privkey", ⟨0x0A000001, by norm_num⟩, 24, none, none, none, by omega⟩
  peers := []
  tunnel := false
  tunnelRoot := false
  masquerade := some false
  forward := some false
  generationTs := "20240101-000000-000000"
  generationTs_ne := by decide

theorem plain_not_roundTrips : ¬ plain.RoundTrips := by
  intro h
  obtain ⟨c', hread, heq, -⟩ := h ⟨"20240102-000000-000000", by decide⟩
  rw [deserialize_serialize, Option.some.injEq] at hread
  have hflag : plain.forget.masquerade = plain.masquerade := congrArg masquerade (hread.trans heq)
  cases hflag

end Config

end Wg

end Uno
