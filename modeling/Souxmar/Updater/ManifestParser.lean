import Mathlib.Data.List.Basic
import Souxmar.Updater.Manifest
import Souxmar.Updater.RollbackLog

/-!
# Parsing the update manifest

`parse_manifest_string` of `manifest.cpp`, behind toml++. An optional field of the wrong type is read as
if it were missing; everything else that is wrong is an error.
-/

namespace Souxmar.Updater

def kManifestSchemaV1 : ℤ := 1

/-- What toml++ makes of a text, and of a node that is asked for a bool. -/
structure Toml where
  parse : List UInt8 → Except String TomlTable
  valueBool : TomlNode → Option Bool

def parseChannel (s : String) : Option Channel :=
  if s = "stable" then some .stable
  else if s = "beta" then some .beta
  else if s = "nightly" then some .nightly
  else none

def parseOs (s : String) : Option Os :=
  if s = "linux" then some .linux
  else if s = "macos" then some .macos
  else if s = "windows" then some .windows
  else none

def parseArch (s : String) : Option Arch :=
  if s = "x86_64" then some .x86_64
  else if s = "aarch64" then some .aarch64
  else none

def requiredString (tbl : TomlTable) (key scope : String) : Except String String :=
  match tbl.lookup key with
  | none => .error (scope ++ ": missing required field '" ++ key ++ "'")
  | some v =>
    match v.valueString with
    | none => .error (scope ++ ": field '" ++ key ++ "' must be a string")
    | some s => .ok s

def optionalBool (toml : Toml) (tbl : TomlTable) (key : String) (dv : Bool) : Bool :=
  ((tbl.lookup key).bind toml.valueBool).getD dv

def requiredUint (tbl : TomlTable) (key scope : String) : Except String ℕ :=
  match tbl.lookup key with
  | none => .error (scope ++ ": missing required field '" ++ key ++ "'")
  | some v =>
    match v.valueInt with
    | none => .error (scope ++ ": field '" ++ key ++ "' must be a positive integer")
    | some i =>
      if i < 0 then
        .error (scope ++ ": field '" ++ key ++ "' must be non-negative (got " ++ toString i ++ ")")
      else .ok i.toNat

/-- `get_as<toml::table>`, which the three blocks are looked up with. -/
def requiredTable (root : TomlTable) (key : String) : Except String TomlTable :=
  match (root.lookup key).bind TomlNode.asTable with
  | none => .error ("missing required table [" ++ key ++ "]")
  | some tbl => .ok tbl

def parseSchema (root : TomlTable) : Except String Unit :=
  match root.lookup "schema" with
  | none => .error "missing required field 'schema'"
  | some node =>
    match node.valueInt with
    | none => .error "'schema' must be an integer"
    | some schema =>
      if schema ≠ kManifestSchemaV1 then
        .error ("unsupported manifest schema " ++ toString schema ++
          " (this parser supports schema=" ++ toString kManifestSchemaV1 ++ ")")
      else .ok ()

def parseChannelBlock (tbl : TomlTable) : Except String ChannelBlock := do
  let name ← requiredString tbl "name" "[channel]"
  match parseChannel name with
  | none =>
    .error ("[channel]: unknown channel name '" ++ name ++ "' (expected stable, beta, or nightly)")
  | some channel => .ok { name := channel, expiresAt := readStringField tbl "expires_at" }

def parseReleaseBlock (toml : Toml) (tbl : TomlTable) : Except String ReleaseBlock := do
  let version ← requiredString tbl "version" "[release]"
  .ok
    { version
      releasedAt := readStringField tbl "released_at"
      minPreviousVersion := readStringField tbl "min_previous_version"
      rollbackTarget := readStringField tbl "rollback_target"
      notesUrl := readStringField tbl "notes_url"
      mandatory := optionalBool toml tbl "mandatory" false }

/-- One entry of `[[artifact]]`. -/
def parseArtifact (idx : ℕ) (node : TomlNode) : Except String Artifact :=
  match node.asTable with
  | none => .error ("[[artifact]] entry #" ++ toString idx ++ " is not a table")
  | some tbl => do
    let scope := "[[artifact]] #" ++ toString idx
    let osStr ← requiredString tbl "os" scope
    let archStr ← requiredString tbl "arch" scope
    match parseOs osStr with
    | none =>
      .error (scope ++ ": unknown os '" ++ osStr ++ "' (expected linux, macos, or windows)")
    | some os =>
      match parseArch archStr with
      | none =>
        .error (scope ++ ": unknown arch '" ++ archStr ++ "' (expected x86_64 or aarch64)")
      | some arch => do
        let url ← requiredString tbl "url" scope
        let sha256 ← requiredString tbl "sha256" scope
        let size ← requiredUint tbl "size" scope
        .ok { os, arch, url, sha256, size }

def parseArtifacts : ℕ → List TomlNode → Except String (List Artifact)
  | _, [] => .ok []
  | idx, node :: nodes => do
    let a ← parseArtifact idx node
    let rest ← parseArtifacts (idx + 1) nodes
    .ok (a :: rest)

def artifactNodes (root : TomlTable) : Except String (List TomlNode) :=
  match (root.lookup "artifact").bind TomlNode.asArray with
  | none => .error "missing required table-array [[artifact]]"
  | some [] => .error "[[artifact]] must contain at least one entry"
  | some nodes => .ok nodes

def parseRoot (toml : Toml) (root : TomlTable) : Except String Manifest := do
  parseSchema root
  let channel ← requiredTable root "channel" >>= parseChannelBlock
  let release ← requiredTable root "release" >>= parseReleaseBlock toml
  let artifacts ← artifactNodes root >>= parseArtifacts 0
  let signing ← requiredTable root "signing"
  let algorithm ← requiredString signing "algorithm" "[signing]"
  let publicKeyId ← requiredString signing "public_key_id" "[signing]"
  .ok
    { generatedAt := readStringField root "generated_at"
      channel, release, artifacts
      signing := { algorithm, publicKeyId } }

def parseManifestString (toml : Toml) (text : List UInt8) : Except String Manifest :=
  match toml.parse text with
  | .error description => .error ("<string>: " ++ description)
  | .ok root =>
    match parseRoot toml root with
    | .error what => .error ("<string>: " ++ what)
    | .ok m => .ok m

end Souxmar.Updater
