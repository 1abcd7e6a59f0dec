/-
The persistent configuration of a node (`static-node/src/config.rs`): its
id, its mix key, its identity, and its peers, in one JSON file.

# What is stopped

A start of a node loads the file, or makes one. It can fail at any system
call, and the process can be killed at any. Both leave the same behind, so
a start is given where it stops, if it does (`Interruption`). The JSON
conversions are a parameter.
-/
import StaticNet.Crypto
import StaticNet.Lib.Replace

namespace StaticNet

structure PersistentConfig where
  nodeId : NodeId
  mixPrivateKey : Bytes 32
  identityPrivateKey : Bytes 32
  identityPublicKey : Bytes 32
  knownPeers : List String
deriving DecidableEq

/-- The `serde_json` conversions of a configuration. Fields that an older
file lacks are read as zeros. -/
structure ConfigJson where
  toStringPretty : PersistentConfig → List UInt8
  fromStr : List UInt8 → Option PersistentConfig

/-- What is written is read back. -/
def ConfigJson.RoundTrips (json : ConfigJson) : Prop :=
  ∀ config, json.fromStr (json.toStringPretty config) = some config

/-- The random bytes of a start. -/
structure ConfigDraw where
  nodeId : NodeId
  mixPrivateKey : Bytes 32
  identityPrivateKey : Bytes 32

namespace PersistentConfig

variable (P : Prims)

def new (draw : ConfigDraw) : PersistentConfig where
  nodeId := draw.nodeId
  mixPrivateKey := draw.mixPrivateKey
  identityPrivateKey := draw.identityPrivateKey
  identityPublicKey := P.edPublic draw.identityPrivateKey
  knownPeers := []

/-- A legacy default, or a public key that is not that of the private
key. -/
def identityNeedsMigration (config : PersistentConfig) : Bool :=
  if config.identityPrivateKey = Bytes.zero 32 then true
  else P.edPublic config.identityPrivateKey ≠ config.identityPublicKey

def regenerateIdentity (config : PersistentConfig) (draw : ConfigDraw) :
    PersistentConfig :=
  { config with
    identityPrivateKey := draw.identityPrivateKey
    identityPublicKey := P.edPublic draw.identityPrivateKey }

end PersistentConfig

/-- The permissions of the configuration: for its owner only. -/
def CONFIG_MODE : Nat := 0o600

/-- One start: what it draws, whether the stat of a file that is there
goes through and the file can be read, and where it stops. -/
structure ConfigStart where
  draw : ConfigDraw
  statted : Bool
  readable : Bool
  stop : Option Interruption

/-- The data directory: `config.json`, and `config.json.tmp` beside it. -/
abbrev ConfigDir : Type := FilePair

namespace ConfigDir

variable (P : Prims) (json : ConfigJson) (created : Nat)

/-- `save`: the directory afterwards, and whether it went through. -/
def save (dir : ConfigDir) (config : PersistentConfig)
    (stop : Option Interruption) : ConfigDir × Bool :=
  match stop with
  | none =>
      (FilePair.replace created dir (json.toStringPretty config) CONFIG_MODE,
        true)
  | some stop =>
      (FilePair.interrupted created dir (json.toStringPretty config)
        CONFIG_MODE stop, false)

/-- A configuration is saved before it is used. -/
def saved (dir : ConfigDir) (config : PersistentConfig)
    (stop : Option Interruption) : ConfigDir × Option PersistentConfig :=
  let r := dir.save json created config stop
  (r.1, if r.2 then some config else none)

/-- The file that `config_path.exists()` finds: a stat that fails is
answered as if there were none. -/
def found (dir : ConfigDir) (start : ConfigStart) : Option File :=
  if start.statted then dir.target else none

def loadOrCreate (dir : ConfigDir) (start : ConfigStart) :
    ConfigDir × Option PersistentConfig :=
  match dir.found start with
  | none => dir.saved json created (.new P start.draw) start.stop
  | some file =>
      if !start.readable then (dir, none)
      else
        match json.fromStr file.bytes with
        | none => (dir, none)
        | some config =>
            if config.identityNeedsMigration P then
              dir.saved json created (config.regenerateIdentity P start.draw)
                start.stop
            else (dir, some config)

/-- One start after the other: the directory, and what each start got. -/
def starts : ConfigDir → List ConfigStart →
    ConfigDir × List (Option PersistentConfig)
  | dir, [] => (dir, [])
  | dir, start :: later =>
      let r := dir.loadOrCreate P json created start
      let rest := starts r.1 later
      (rest.1, r.2 :: rest.2)

end ConfigDir

end StaticNet
