import Uno.Core.Exn
import Uno.Lib.Dict
import Uno.Lib.Fold
import Uno.Lib.Paths

/-!
# The identity database

The backend keeps a certificate, a private key and permissions for every peer of a UVN, at paths made of
the type, the owner and the target of its key id. `exportKeys` copies what a target may have into an output
directory, and `importKeys` copies what it finds there into the backend of the target.

A key is looked up by listing the certificates and reading the owner and the target back from their paths.
So the export and the import work together when owners and targets are parts of paths, and when each peer is
read back from exactly one certificate (`exportImport_iff`).
-/

namespace Uno

inductive KeyType where
  | root
  | cell
  | particle
  deriving DecidableEq

/-- `name.lower()`. -/
def KeyType.lower : KeyType → Text
  | .root => ['r', 'o', 'o', 't']
  | .cell => ['c', 'e', 'l', 'l']
  | .particle => ['p', 'a', 'r', 't', 'i', 'c', 'l', 'e']

structure KeyId where
  keyType : KeyType
  owner : Text
  target : Text
  deriving DecidableEq

/-- The files that are exported and imported. -/
inductive FileKind where
  | cert
  | key
  | permissions
  | governance
  | ca
  | permCa
  deriving DecidableEq

/-- The end of an exported file's name. -/
def FileKind.filename : FileKind → Text
  | .cert => ['c', 'e', 'r', 't', '.', 'p', 'e', 'm']
  | .key => ['k', 'e', 'y', '.', 'p', 'e', 'm']
  | .permissions => ['p', 'e', 'r', 'm', 'i', 's', 's', 'i', 'o', 'n', 's', '.', 'p', '7', 's']
  | .governance => ['g', 'o', 'v', 'e', 'r', 'n', 'a', 'n', 'c', 'e', '.', 'p', '7', 's']
  | .ca => ['c', 'a', '.', 'p', 'e', 'm']
  | .permCa => ['p', 'e', 'r', 'm', '-', 'c', 'a', '.', 'p', 'e', 'm']

inductive IdentityError where
  | key (id : KeyId)
  | duplicateFile
  | missingCertificate (id : KeyId)
  | missingKeyMaterial
  | copy

/-- What `str.replace` with an empty replacement does from the left, `skip` characters being part of an
occurrence that was found before. -/
def removeFrom (pattern : Text) : ℕ → Text → Text
  | _, [] => []
  | skip + 1, _ :: rest => removeFrom pattern skip rest
  | 0, c :: rest =>
    if pattern.isPrefixOf (c :: rest) then removeFrom pattern (pattern.length - 1) rest
    else c :: removeFrom pattern 0 rest

/-! ### Paths of the backend, relative to its root -/

namespace DdsKeysBackend

def privateName : Text := ['p', 'r', 'i', 'v', 'a', 't', 'e']

def publicName : Text := ['p', 'u', 'b', 'l', 'i', 'c']

def permissionsName : Text := ['p', 'e', 'r', 'm', 'i', 's', 's', 'i', 'o', 'n', 's']

/-- `-cert.pem`. -/
def certSuffix : Text := ['-', 'c', 'e', 'r', 't', '.', 'p', 'e', 'm']

/-- `-key.pem`. -/
def keySuffix : Text := ['-', 'k', 'e', 'y', '.', 'p', 'e', 'm']

/-- `-permissions.xml.p7s`. -/
def permissionsSuffix : Text :=
  ['-', 'p', 'e', 'r', 'm', 'i', 's', 's', 'i', 'o', 'n', 's', '.', 'x', 'm', 'l', '.', 'p', '7', 's']

/-- `ca-cert.pem`. -/
def caCertName : Text := ['c', 'a', '-', 'c', 'e', 'r', 't', '.', 'p', 'e', 'm']

def keysDir : PurePath := ⟨false, [privateName]⟩

def certsDir : PurePath := ⟨false, [publicName]⟩

def permissionsDir : PurePath := ⟨false, [permissionsName]⟩

/-- `governance.xml.p7s`. -/
def governance : PurePath :=
  ⟨false, [['g', 'o', 'v', 'e', 'r', 'n', 'a', 'n', 'c', 'e', '.', 'x', 'm', 'l', '.', 'p', '7', 's']]⟩

/-- `ca/ca-cert.pem`. -/
def caCert : PurePath := ⟨false, [['c', 'a'], caCertName]⟩

/-- `ca-perm/ca-cert.pem`. -/
def permCaCert : PurePath := ⟨false, [['c', 'a', '-', 'p', 'e', 'r', 'm'], caCertName]⟩

def permissions (id : KeyId) : PurePath :=
  permissionsDir.join (['/'].intercalate [id.keyType.lower, id.owner, id.target ++ permissionsSuffix])

def key (id : KeyId) : PurePath :=
  (keysDir.join id.keyType.lower).join (['/'].intercalate [id.owner, id.target ++ keySuffix])

def cert (id : KeyId) : PurePath :=
  (certsDir.join id.keyType.lower).join (['/'].intercalate [id.owner, id.target ++ certSuffix])

/-- Where the backend keeps a file. -/
def backendPath (id : KeyId) : FileKind → PurePath
  | .cert => cert id
  | .key => key id
  | .permissions => permissions id
  | .governance => governance
  | .ca => caCert
  | .permCa => permCaCert

/-- Where a file is exported to, relative to the output directory. -/
def exportPath (id : KeyId) (kind : FileKind) : PurePath :=
  (PurePath.parse (['/'].intercalate [id.keyType.lower, id.owner, id.target])).addSuffix ('-' :: kind.filename)

/-- What is looked for among the exported files. -/
def relPath (id : KeyId) (kind : FileKind) : Text :=
  ['/'].intercalate [id.keyType.lower, id.owner, id.target ++ '-' :: kind.filename]

/-! ### Looking up keys -/

variable {α : Type}

/-- The owner and the name of a path that `certs_dir.glob` matches for a type. -/
def certEntry (keyType : KeyType) : PurePath → Option (Text × Text)
  | ⟨false, [dir, type, owner, name]⟩ =>
    if dir = publicName ∧ type = keyType.lower ∧ certSuffix.isSuffixOf name then some (owner, name) else none
  | _ => none

def globCerts (store : Dict PurePath α) (keyType : KeyType) : List (Text × Text) :=
  store.keys.filterMap (certEntry keyType)

/-- `cert.name.replace("-cert.pem", "")`. -/
def readTarget (name : Text) : Text := removeFrom certSuffix 0 name

/-- `search_keys` for an owner, a target and a type. -/
def searchKeys (store : Dict PurePath α) (id : KeyId) : List KeyId :=
  ((globCerts store id.keyType).filter fun e => e.1 = id.owner ∧ readTarget e.2 = id.target).map fun e =>
    ⟨id.keyType, e.1, readTarget e.2⟩

def getKey (store : Dict PurePath α) (id : KeyId) : Except IdentityError (Option KeyId) :=
  match searchKeys store id with
  | [] => .ok none
  | [k] => .ok (some k)
  | _ => .error (.key id)

/-- `backend[id]`. -/
def getItem (store : Dict PurePath α) (id : KeyId) : Except IdentityError KeyId :=
  match getKey store id with
  | .ok (some k) => .ok k
  | .ok none => .error (.key id)
  | .error e => .error e

/-! ### Copying files -/

/-- The file at a path. -/
def lookup (store : Dict PurePath α) (p : PurePath) : Option α := store.get? p.resolve

def copy (source : Dict PurePath α) (src : PurePath) (dest : Dict PurePath α) (dst : PurePath) :
    Except IdentityError (Dict PurePath α) :=
  match lookup source src with
  | some content => .ok (dest.set dst.resolve content)
  | none => .error .copy

/-- The files that are exported for a key. -/
def exportedKinds (id : KeyId) (withPrivkey : Bool) : List FileKind :=
  [.cert] ++ (if withPrivkey then [.key, .permissions] else []) ++
    (if id.keyType = .root then [.governance, .ca, .permCa] else [])

def exportKey (store : Dict PurePath α) (id : KeyId) (output : Dict PurePath α) (withPrivkey : Bool) :
    Except IdentityError (Dict PurePath α) :=
  (exportedKinds id withPrivkey).foldlM
    (fun output kind => copy store (backendPath id kind) output (exportPath id kind)) output

def findFile (files : List PurePath) (id : KeyId) (kind : FileKind) : Option PurePath :=
  files.find? fun f => f.str = relPath id kind

/-- `if file: cp(file, out)`. -/
def copyIfFound (base : Dict PurePath α) (file : Option PurePath) (store : Dict PurePath α) (out : PurePath) :
    Except IdentityError (Dict PurePath α) :=
  match file with
  | some f => copy base f store out
  | none => .ok store

/-- The files of the authorities, which come with the key of the root. -/
def importAuthorities (base : Dict PurePath α) (files : List PurePath) (store : Dict PurePath α) (id : KeyId) :
    Except IdentityError (Dict PurePath α) :=
  match findFile files id .governance, findFile files id .ca, findFile files id .permCa with
  | some governanceFile, some caPem, some permCaPem => do
    let store ← copy base governanceFile store governance
    let store ← copy base caPem store caCert
    copy base permCaPem store permCaCert
  | _, _, _ => .error .missingKeyMaterial

def importKey (base : Dict PurePath α) (files : List PurePath) (store : Dict PurePath α) (id : KeyId) :
    Except IdentityError (Dict PurePath α) :=
  match findFile files id .cert with
  | none => .error (.missingCertificate id)
  | some certFile => do
    let store ← copy base certFile store (cert id)
    let store ← copyIfFound base (findFile files id .key) store (key id)
    let store ← copyIfFound base (findFile files id .permissions) store (permissions id)
    if id.keyType = .root then importAuthorities base files store id else .ok store

end DdsKeysBackend

/-! ### The identity database of a UVN -/

/-- A peer: the UVN itself, or a cell with its id. -/
structure IdentityPeer where
  ref : Option ℕ
  keyId : KeyId

/-- The owners and the names of a UVN and its cells; names are not empty, and those of cells are unique. -/
structure IdentityDatabase where
  owner : Text
  name : Text
  /-- The id, owner and name of each cell. -/
  cells : List (ℕ × Text × Text)
  name_ne_nil : name ≠ []
  cellName_ne_nil : ∀ c ∈ cells, c.2.2 ≠ []
  ids_nodup : (cells.map fun c => c.1).Nodup
  names_nodup : (cells.map fun c => c.2.2).Nodup

namespace IdentityDatabase

open DdsKeysBackend

variable {α : Type}

/-- The peers with their key ids, as `KeyId.from_uvn` makes them. -/
def peers (u : IdentityDatabase) : List IdentityPeer :=
  ⟨none, ⟨.root, u.owner, u.name⟩⟩ :: u.cells.map fun c => ⟨some c.1, ⟨.cell, c.2.1, c.2.2⟩⟩

/-- One turn of `export_keys`: the output directory and the files exported so far. -/
def exportPeer (store : Dict PurePath α) (target : Option ℕ) (state : Dict PurePath α × List PurePath)
    (p : IdentityPeer) : Except IdentityError (Dict PurePath α × List PurePath) := do
  let id ← getItem store p.keyId
  let output ← exportKey store id state.1 (p.ref = target)
  let exported := (exportedKinds id (p.ref = target)).map (exportPath id)
  if exported.any (· ∈ state.2) then .error .duplicateFile else .ok (output, state.2 ++ exported)

def exportKeys (u : IdentityDatabase) (store : Dict PurePath α) (target : Option ℕ) :
    Except IdentityError (Dict PurePath α × List PurePath) :=
  u.peers.foldlM (exportPeer store target) (∅, [])

def importKeys (u : IdentityDatabase) (store base : Dict PurePath α) (files : List PurePath) :
    Except IdentityError (Dict PurePath α) :=
  u.peers.foldlM (fun store p => importKey base files store p.keyId) store

/-! ### What the exchange is for -/

/-- What a backend is once the keys of all peers are asserted: a directory tree with their files. -/
structure Asserted (u : IdentityDatabase) (store : Dict PurePath α) : Prop where
  resolved : ∀ p ∈ store.keys, p.resolve = p ∧ ∀ c ∈ p.parts, PurePath.IsPart c
  peer : ∀ p ∈ u.peers, ∀ kind, (lookup store (backendPath p.keyId kind)).isSome

/-- The files of a peer. -/
def kinds (p : IdentityPeer) : List FileKind := exportedKinds p.keyId true

/-- The files of a peer that the target gets. -/
def delivered (target : Option ℕ) (p : IdentityPeer) : List FileKind := exportedKinds p.keyId (p.ref = target)

/-- The target gets, from the exported files and at the paths of its own backend, the certificates of all
peers, the files of the authorities and its own private key and permissions; no other private key is
exported, and no two files have the same path. -/
structure Delivers (u : IdentityDatabase) (store : Dict PurePath α) (target : Option ℕ) (output : Dict PurePath α)
    (files : List PurePath) (store' : Dict PurePath α) : Prop where
  cert : ∀ p ∈ u.peers, lookup store' (cert p.keyId) = lookup store (cert p.keyId)
  authorities : ∀ path ∈ [governance, caCert, permCaCert], lookup store' path = lookup store path
  own : ∀ p ∈ u.peers, p.ref = target →
    lookup store' (key p.keyId) = lookup store (key p.keyId) ∧
      lookup store' (permissions p.keyId) = lookup store (permissions p.keyId)
  others : ∀ p ∈ u.peers, p.ref ≠ target →
    lookup store' (key p.keyId) = none ∧ lookup store' (permissions p.keyId) = none
  exported : ∀ f ∈ files, ∃ p ∈ u.peers, ∃ kind ∈ delivered target p, f = exportPath p.keyId kind ∧
    lookup output f = lookup store (backendPath p.keyId kind) ∧ (kind = .key → p.ref = target)
  paths : ∀ p ∈ u.peers, ∀ q ∈ u.peers, ∀ k ∈ kinds p, ∀ l ∈ kinds q,
    exportPath p.keyId k = exportPath q.keyId l ∨ relPath p.keyId k = relPath q.keyId l → p.keyId = q.keyId ∧ k = l

/-- What is exported for the target from an asserted backend and imported into an empty one is delivered. -/
def ExportImport (u : IdentityDatabase) (store : Dict PurePath α) (target : Option ℕ) : Prop :=
  ∃ output files store', u.exportKeys store target = .ok (output, files) ∧
    u.importKeys ∅ output files = .ok store' ∧ u.Delivers store target output files store'

end IdentityDatabase

/-- The key id is read back from paths: its owner is a name in a directory, its target is the start of one,
and exactly one certificate in the owner's directory is read as the target. -/
structure KeyId.Readable {α : Type} (store : Dict PurePath α) (id : KeyId) : Prop where
  owner : PurePath.IsPart id.owner
  owner_ne_dotdot : id.owner ≠ PurePath.dotdot
  target : '/' ∉ id.target
  target_ne_dot : id.target ≠ ['.']
  unique : ∃! name, ⟨false, [DdsKeysBackend.publicName, id.keyType.lower, id.owner, name]⟩ ∈ store.keys ∧
    DdsKeysBackend.certSuffix <:+ name ∧ DdsKeysBackend.readTarget name = id.target

end Uno
