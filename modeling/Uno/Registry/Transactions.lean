import Uno.Lib.Transaction

/-!
# The transactions of the registry's methods

What the methods with `inject_db_transaction` do to the connection of the database: the places that
may raise, the writes, and the nested calls. A nested call that is given the cursor joins the
transaction; one that is not opens its own. Changes of objects in memory and log messages are left
out.

Objects without a table are children created without a cursor (`newTransient`), among them the
settings of every cell that is created or read from its table, and the key materials that the
registry caches.
-/

namespace Uno

open Transaction Prog

namespace RegistryMethods

/-! ### Objects and rows -/

/-- `new_child` of a class without a table, without a cursor. -/
def newTransient : Prog := .transaction .point

/-- Reading rows that are not cached. Cells get their settings. -/
def loadRows : Prog := block [.point, .loop newTransient]

/-- A key material: it loads its keys and creates its map of preshared keys. -/
def newKeymat : Prog := .transaction (block [.point, newTransient])

/-- The cached property `particles_vpn_keymats`: a key material for each cell. -/
def particlesVpnKeymats (loaded : Bool) (cells : ℕ) : Prog :=
  if loaded then .skip else if cells = 0 then .point else block [loadRows, newKeymat.times cells]

/-- `db.save(..., cursor=cursor)` of objects with a table and of their keys. -/
def saveRows : Prog := block [.point, .loop (block [.point, .write])]

/-- `db.delete(..., cursor=cursor)`: the ownership and the row. -/
def deleteRows : Prog := block [.point, .loop .write]

/-- `db.save(registry, cursor=cursor)`. Once the row of the registry is written, its cached
properties are reset, and marking it as saved reads its `nested` objects, that is creates the key
materials again. -/
def saveRegistry (dirty : Bool) : Prog :=
  block [loadRows, .loop newKeymat,
    if dirty then block [.point, .loop (block [.write, .loop newTransient]), .write, newKeymat, newKeymat, .point]
    else .skip]

/-! ### Methods -/

/-- `new_child` of a class with a table, with a cursor: the id, the row and the owner. -/
def newRow : Prog := block [.point, .write, .write, .write]

/-- `add_user`, which does not hand on its cursor. -/
def addUser : Prog := .transaction newRow

/-- `add_cell`. Checking the new cell reads the rows of the active cells, that of the new one
included, if they are not cached. -/
def addCell (cellsLoaded : Bool) : Prog :=
  block [.point, newTransient, newRow,
    .guarded (block [if cellsLoaded then .skip else block [.point, newTransient, .loop newTransient], .point])
      deleteRows]

/-- `add_particle`; `validate_particle` does nothing. -/
def addParticle : Prog := block [newRow, .guarded .skip deleteRows]

/-- The cells of `define_uvn`. Saving the registry has cached the cells; adding one resets them. -/
def addCells : ℕ → Prog
  | 0 => .skip
  | more + 1 => block [addCell true, (addCell false).times more]

/-- The `config` of a specification, and whether it gives a property of the UVN another value. -/
inductive UvnConfig where
  | absent
  | same
  | changed
  deriving DecidableEq

/-- `self.uvn.configure(**uvn_config)`, which saves nothing. -/
def configureUvn (config : UvnConfig) : Prog :=
  if config = .absent then .skip else block [.point, .loop newTransient]

/-- `define_uvn`. Configuring the UVN and adding a user change the registry. -/
def defineUvn (dirty : Bool) (config : UvnConfig) (users cells particles : ℕ) : Prog :=
  block [configureUvn config, .point, .loop newTransient, addUser.times users,
    saveRegistry (dirty || config = .changed || users ≠ 0), addCells cells, addParticle.times particles]

/-- `keymat.purge_gone_peers(..., cursor=cursor)` and `keymat.drop_keys(..., cursor=cursor)`. -/
def dropKeys : Prog := block [.point, .loop .write]

def rekeyRoot : Prog := block [loadRows, .loop newKeymat, dropKeys]

/-- `rekey_uvn` and `rekey_cell`: the keys of the root VPN, then those of the particle VPNs of one
cell or of all. -/
def rekey (rootVpn particlesVpn deleted keymatsLoaded : Bool) (cells targets : ℕ) : Prog :=
  block [if deleted then .skip else if rootVpn || particlesVpn then .point else .raise,
    if deleted || rootVpn then rekeyRoot else .skip,
    if deleted || particlesVpn then block [particlesVpnKeymats keymatsLoaded cells, dropKeys.times targets]
    else .skip]

def rekeyParticle : Prog := block [.point, loadRows, .loop newKeymat, .loop dropKeys]

def deleteCell (keymatsLoaded : Bool) (cells : ℕ) : Prog :=
  block [.point, rekey false false true keymatsLoaded cells 1, deleteRows]

def deleteParticle : Prog := block [.point, rekeyParticle, deleteRows]

/-- `delete_user`: `set_ownership` passes the owner twice to a method that takes it once. -/
def deleteUser (ownsObjects : Bool) : Prog :=
  block [loadRows, .point, if ownsObjects then .raise else .skip, deleteRows]

/-- `ban`: the cells, the particles and the users that changed are saved. -/
def ban : Prog := block [loadRows, .loop .point, saveRows, saveRows, saveRows]

def purgeKeys (keymatsLoaded : Bool) (cells : ℕ) : Prog :=
  block [loadRows, .loop newKeymat, dropKeys, if cells = 0 then .skip else particlesVpnKeymats keymatsLoaded cells,
    dropKeys.times cells]

/-- `redeploy`, and dropping the backbone keys, which saves them without a cursor. -/
def redeploy : Prog :=
  block [newTransient, .point, newTransient, newTransient, newKeymat, dropKeys, dropKeys, .transaction saveRows]

/-- `assert_keys`: the new keys are saved without a cursor. -/
def assertKeys : Prog := block [newTransient, .loop (.transaction (block [.point, .write])), .point]

/-- `generate_artifacts`: the registry always gets a new `config_id`. -/
def generateArtifacts (keymatsLoaded : Bool) (cells : ℕ) : Prog :=
  block [purgeKeys keymatsLoaded cells, .choice .skip redeploy, saveRegistry true, assertKeys, saveRegistry true, .point]

/-- `generate_cell_database` writes to another database. -/
def generateCellDatabase : Prog := block [.point, .loop newKeymat, .point]

end RegistryMethods

/-! ### Calls -/

/-- A call of a method with `inject_db_transaction`, in a state with a number of cells. `cellsLoaded` and
`keymatsLoaded` say whether the active cells of the UVN and `particles_vpn_keymats` are cached. -/
inductive RegistryCall where
  | defineUvn (dirty : Bool) (config : RegistryMethods.UvnConfig) (users cells particles : ℕ)
  | addCell (cellsLoaded : Bool)
  | addParticle
  /-- Of one of `others + 1` cells, as in `rekeyCell`. -/
  | deleteCell (keymatsLoaded : Bool) (others : ℕ)
  | deleteParticle
  | deleteUser (ownsObjects : Bool)
  | ban
  | purgeKeys (keymatsLoaded : Bool) (cells : ℕ)
  | generateArtifacts (keymatsLoaded : Bool) (cells : ℕ)
  | rekeyUvn (rootVpn particlesVpn deleted keymatsLoaded : Bool) (cells : ℕ)
  | rekeyParticle
  | rekeyCell (rootVpn particlesVpn deleted keymatsLoaded : Bool) (others : ℕ)
  | generateCellDatabase

namespace RegistryCall

def body : RegistryCall → Prog
  | .defineUvn dirty config users cells particles => RegistryMethods.defineUvn dirty config users cells particles
  | .addCell cellsLoaded => RegistryMethods.addCell cellsLoaded
  | .addParticle => RegistryMethods.addParticle
  | .deleteCell keymatsLoaded others => RegistryMethods.deleteCell keymatsLoaded (others + 1)
  | .deleteParticle => RegistryMethods.deleteParticle
  | .deleteUser ownsObjects => RegistryMethods.deleteUser ownsObjects
  | .ban => RegistryMethods.ban
  | .purgeKeys keymatsLoaded cells => RegistryMethods.purgeKeys keymatsLoaded cells
  | .generateArtifacts keymatsLoaded cells => RegistryMethods.generateArtifacts keymatsLoaded cells
  | .rekeyUvn rootVpn particlesVpn deleted keymatsLoaded cells =>
    RegistryMethods.rekey rootVpn particlesVpn deleted keymatsLoaded cells cells
  | .rekeyParticle => RegistryMethods.rekeyParticle
  | .rekeyCell rootVpn particlesVpn deleted keymatsLoaded others =>
    RegistryMethods.rekey rootVpn particlesVpn deleted keymatsLoaded (others + 1) 1
  | .generateCellDatabase => RegistryMethods.generateCellDatabase

/-- No nested call commits a write of the outer one. -/
def Threads : RegistryCall → Prop
  | .defineUvn dirty config users cells _ => dirty = false ∧ config ≠ .changed ∧ users = 0 ∧ cells ≤ 1
  | .addCell cellsLoaded => cellsLoaded = true
  | .deleteCell keymatsLoaded _ => keymatsLoaded = true
  | .purgeKeys keymatsLoaded cells => keymatsLoaded = true ∨ cells = 0
  | .generateArtifacts _ _ => False
  | .rekeyUvn rootVpn particlesVpn deleted keymatsLoaded cells =>
    (keymatsLoaded = true ∨ cells = 0) ∨ deleted = false ∧ (rootVpn = false ∨ particlesVpn = false)
  | .rekeyCell rootVpn particlesVpn deleted keymatsLoaded _ =>
    keymatsLoaded = true ∨ deleted = false ∧ (rootVpn = false ∨ particlesVpn = false)
  | _ => True

end RegistryCall

end Uno
