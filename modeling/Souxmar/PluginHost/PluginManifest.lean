import Souxmar.PluginHost.Loader
import Mathlib.Data.List.Basic

/-!
# Plugin manifests

`parse_manifest` of `manifest.cpp`. The TOML library is a parameter: it gives the tree of a document, and
`node.value<int64_t>()` reads a node as a 64-bit integer, which it also does for some nodes that are not
written as integers.
-/

namespace Souxmar.PluginHost

/-! ## TOML trees -/

inductive TomlNode
  | string (s : String)
  | integer (v : Int64)
  | floating (bits : UInt64)
  | boolean (b : Bool)
  | dateTime (text : String)
  | array (items : List TomlNode)
  | table (fields : List (String × TomlNode))

namespace TomlNode

/-- `node.value<std::string>()`, which converts nothing. -/
def valueString : TomlNode → Option String
  | string s => some s
  | _ => none

/-- `at_path`, with the keys that are written with dots between them. -/
def atPath : TomlNode → List String → Option TomlNode
  | node, [] => some node
  | table fields, key :: keys => (fields.lookup key).bind fun node => node.atPath keys
  | _, _ :: _ => none

end TomlNode

/-- A path as it is written. -/
def dotted (path : List String) : String := String.intercalate "." path

/-! ## Errors -/

inductive ManifestRejection
  | ok
  | tomlSyntax
  | missingField
  | wrongType
  | abiUnsupported
  | emptyCapabilities
  | unknownThreading
  | invalidCapabilityNamespace
  | invalidPluginId
  | invalidVersion
  | fileIo
deriving DecidableEq, Repr

structure ParseError where
  code : ManifestRejection
  message : String
  line : Option ℕ := none
  column : Option ℕ := none
  field : String := ""
deriving DecidableEq, Repr

/-- `plugin::Manifest`, with all of its fields. -/
structure PluginManifest where
  id : String
  name : String
  version : String
  abi : Int32
  license : String
  homepage : String := ""
  binaryFile : String
  capabilities : List String
  threading : ThreadingModel := .singleThreaded
  souxmarVersionConstraint : String := ""
  description : String := ""
  documentation : String := ""
  tags : List String := []
  minSouxmarAbiMinor : Int32 := 0
deriving DecidableEq

/-- What of it the loader reads. -/
def PluginManifest.forLoader (m : PluginManifest) : Manifest where
  id := m.id
  abi := m.abi.toInt
  threading := m.threading

/-! ## Recognisers -/

def isAlnum (c : Char) : Bool := c.isAlpha || c.isDigit

def pluginIdLooksValid (id : String) : Bool :=
  if id.isEmpty then false
  else if !id.toList.contains '.' then false
  else if id.toList.any fun c =>
      c.toNat ≤ 0x20 || c.toNat = 0x7F || c = '/' || c = '\\' ||
        !(isAlnum c || c = '.' || c = '-' || c = '_') then false
  else if id.toList.head? = some '.' || id.toList.getLast? = some '.' then false
  else true

/-- The loop of `version_looks_valid`. -/
def versionLoop (dots : ℕ) (seenDigitInPart : Bool) : List Char → Bool
  | [] => dots = 2 && seenDigitInPart
  | c :: cs =>
    if c = '.' then if !seenDigitInPart then false else versionLoop (dots + 1) false cs
    else if c = '-' || c = '+' then !(dots < 2 || !seenDigitInPart)
    else if !c.isDigit then false
    else versionLoop dots true cs

def versionLooksValid (v : String) : Bool :=
  if v.isEmpty then false else versionLoop 0 false v.toList

def threadingFromString (s : String) : Option ThreadingModel :=
  if s = "reentrant" then some .reentrant
  else if s = "single-threaded" then some .singleThreaded
  else if s = "internal-parallel" then some .internalParallel
  else none

def kAllowedNamespaces : List String :=
  ["reader", "writer", "mesher", "element", "solver", "postproc"]

def isAllowedCapability (capabilityId : String) : Bool :=
  let chars := capabilityId.toList
  let dot := chars.idxOf '.'
  if dot = chars.length || dot = 0 || dot + 1 = chars.length then false
  else kAllowedNamespaces.any fun allowed => chars.take dot = allowed.toList

/-! ## Reading a document -/

section

variable (valueInt64 : TomlNode → Option Int64) (tbl : TomlNode)

def missingField (path : List String) : ParseError where
  code := .missingField
  message := "missing required field '" ++ dotted path ++ "'"
  field := dotted path

def getRequiredString (path : List String) : Except ParseError String :=
  match tbl.atPath path with
  | none => .error (missingField path)
  | some node =>
    match node.valueString with
    | none => .error
        { code := .wrongType, message := "field '" ++ dotted path ++ "' must be a string",
          field := dotted path }
    | some s => .ok s

def getOptionalString (path : List String) : String :=
  ((tbl.atPath path).bind TomlNode.valueString).getD ""

def checkPluginId (id : String) : Except ParseError Unit :=
  if !pluginIdLooksValid id then .error
    { code := .invalidPluginId
      message := "'plugin.id' = '" ++ id ++ "' is not a valid reverse-DNS identifier " ++
        "(letters/digits/dots/hyphens/underscores, at least one dot, no whitespace)"
      field := "plugin.id" }
  else .ok ()

def checkVersion (version : String) : Except ParseError Unit :=
  if !versionLooksValid version then .error
    { code := .invalidVersion
      message := "'plugin.version' = '" ++ version ++ "' does not look like SemVer " ++
        "(expected major.minor.patch[-pre][+build])"
      field := "plugin.version" }
  else .ok ()

/-- The value is cut to 32 bits here and compared at the end. -/
def getAbi : Except ParseError Int32 :=
  match tbl.atPath ["plugin", "abi"] with
  | none => .error (missingField ["plugin", "abi"])
  | some node =>
    match valueInt64 node with
    | none => .error
        { code := .wrongType, message := "'plugin.abi' must be an integer", field := "plugin.abi" }
    | some abi => .ok abi.toInt32

def capabilitiesError (code : ManifestRejection) (text : String) : ParseError where
  code
  message := "'plugin.capabilities.provides' " ++ text
  field := "plugin.capabilities.provides"

def getCapability (node : TomlNode) : Except ParseError String :=
  match node.valueString with
  | none => .error (capabilitiesError .wrongType "must be an array of strings")
  | some s =>
    if !isAllowedCapability s then .error (capabilitiesError .invalidCapabilityNamespace
      ("has '" ++ s ++ "' — namespace is not in the " ++
        "host allow-list (reader, writer, mesher, element, solver, postproc)"))
    else .ok s

def getCapabilities : Except ParseError (List String) :=
  match tbl.atPath ["plugin", "capabilities", "provides"] with
  | none => .error (missingField ["plugin", "capabilities", "provides"])
  | some (.array items) => do
    let capabilities ← items.mapM getCapability
    if capabilities.isEmpty then
      .error (capabilitiesError .emptyCapabilities "must list at least one capability")
    else .ok capabilities
  | some _ => .error (capabilitiesError .wrongType "must be an array")

def getThreading : Except ParseError ThreadingModel :=
  match tbl.atPath ["plugin", "threading", "model"] with
  | none => .ok .singleThreaded
  | some node =>
    match node.valueString with
    | none => .error
        { code := .wrongType, message := "'plugin.threading.model' must be a string",
          field := "plugin.threading.model" }
    | some s =>
      match threadingFromString s with
      | none => .error
          { code := .unknownThreading
            message := "'plugin.threading.model' must be one of: reentrant, " ++
              "single-threaded, internal-parallel (got '" ++ s ++ "')"
            field := "plugin.threading.model" }
      | some threading => .ok threading

def getMinAbiMinor : Except ParseError Int32 :=
  match tbl.atPath ["plugin", "min_souxmar_abi_minor"] with
  | none => .ok 0
  | some node =>
    match valueInt64 node with
    | none => .error
        { code := .wrongType, message := "'plugin.min_souxmar_abi_minor' must be an integer",
          field := "plugin.min_souxmar_abi_minor" }
    | some v => .ok v.toInt32

def tagsError : ParseError where
  code := .wrongType
  message := "'plugin.tags' must be an array of strings"
  field := "plugin.tags"

def getTag (node : TomlNode) : Except ParseError String :=
  match node.valueString with
  | none => .error tagsError
  | some s => .ok s

def getTags : Except ParseError (List String) :=
  match tbl.atPath ["plugin", "tags"] with
  | none => .ok []
  | some (.array items) => items.mapM getTag
  | some _ => .error tagsError

def checkAbi (abi : Int32) : Except ParseError Unit :=
  if abi ≠ 1 then .error
    { code := .abiUnsupported
      message := "'plugin.abi' = " ++ toString abi.toInt ++
        " not supported by this host (only ABI v1 is recognised)"
      field := "plugin.abi" }
  else .ok ()

/-- `parse_manifest`, once the document is parsed. -/
def parseTable : Except ParseError PluginManifest := do
  let id ← getRequiredString tbl ["plugin", "id"]
  let name ← getRequiredString tbl ["plugin", "name"]
  let version ← getRequiredString tbl ["plugin", "version"]
  let license ← getRequiredString tbl ["plugin", "license"]
  let homepage := getOptionalString tbl ["plugin", "homepage"]
  checkPluginId id
  checkVersion version
  let abi ← getAbi valueInt64 tbl
  let binaryFile ← getRequiredString tbl ["plugin", "binary", "file"]
  let capabilities ← getCapabilities tbl
  let threading ← getThreading tbl
  let souxmarVersionConstraint := getOptionalString tbl ["plugin", "dependencies", "souxmar"]
  let description := getOptionalString tbl ["plugin", "description"]
  let documentation := getOptionalString tbl ["plugin", "documentation"]
  let minSouxmarAbiMinor ← getMinAbiMinor valueInt64 tbl
  let tags ← getTags tbl
  checkAbi abi
  .ok { id, name, version, abi, license, homepage, binaryFile, capabilities, threading,
        souxmarVersionConstraint, description, documentation, tags, minSouxmarAbiMinor }

end

/-- What the TOML library says of a document that it refuses. -/
structure TomlError where
  description : String
  position : Option (ℕ × ℕ) := none

def parseManifest (toml : String → Except TomlError TomlNode) (valueInt64 : TomlNode → Option Int64)
    (tomlSource : String) : Except ParseError PluginManifest :=
  match toml tomlSource with
  | .error e => .error
      { code := .tomlSyntax, message := "TOML parse error: " ++ e.description,
        line := e.position.map Prod.fst, column := e.position.map Prod.snd }
  | .ok tbl => parseTable valueInt64 tbl

end Souxmar.PluginHost
