import Mathlib.Data.Int.Notation
import Souxmar.Updater.FileWrite

/-!
# The rollback log

The event log of `rollback_log.cpp`. Its file is TOML, written by `renderRollbackLog` and read back
through toml++, which is not part of the repository: the reader is a parameter, `TomlReader`.
`tomlLines` reads the fragment that the updater itself writes.
-/

namespace Souxmar.Updater

/-! ### The TOML interface -/

/-- A node of a parsed document; `other` is any further kind of node, with what `value<int64_t>`
makes of it. -/
inductive TomlNode
  | str (s : String)
  | int (i : ℤ)
  | arr (nodes : List TomlNode)
  | table (fields : List (String × TomlNode))
  | other (asInt : Option ℤ)

/-- A table, in document order. -/
abbrev TomlTable : Type := List (String × TomlNode)

/-- `toml::parse_file`; the error is the description of the exception. -/
abbrev TomlReader : Type := FileText → Except String TomlTable

namespace TomlNode

/-- `value<std::string>`. -/
def valueString : TomlNode → Option String
  | str s => some s
  | _ => none

/-- `value<std::int64_t>`. -/
def valueInt : TomlNode → Option ℤ
  | int i => some i
  | other asInt => asInt
  | _ => none

def asTable : TomlNode → Option TomlTable
  | table fields => some fields
  | _ => none

/-- `get_as<toml::array>`. -/
def asArray : TomlNode → Option (List TomlNode)
  | arr nodes => some nodes
  | _ => none

end TomlNode

def readStringField (tbl : TomlTable) (key : String) : String :=
  ((tbl.lookup key).bind TomlNode.valueString).getD ""

/-! ### Events -/

inductive RollbackEventType
  | apply
  | rollback
deriving DecidableEq, Repr

def typeToString : RollbackEventType → String
  | .apply => "apply"
  | .rollback => "rollback"

structure RollbackEvent where
  timestamp : String := ""
  type : RollbackEventType := .apply
  fromVersion : String := ""
  toVersion : String := ""
  artifactSha256 : String := ""
  publicKeyId : String := ""
deriving DecidableEq, Repr

def kRollbackLogSchemaV1 : ℤ := 1

/-- `name`, padded by its caller, with a quoted value. -/
def renderField (name value : String) : FileText :=
  name.toList ++ ['=', ' ', '"'] ++ value.toList ++ ['"', '\n']

def renderEvent (e : RollbackEvent) : FileText :=
  "[[event]]\n".toList ++
  renderField "timestamp       " e.timestamp ++
  renderField "type            " (typeToString e.type) ++
  renderField "from_version    " e.fromVersion ++
  renderField "to_version      " e.toVersion ++
  renderField "artifact_sha256 " e.artifactSha256 ++
  renderField "public_key_id   " e.publicKeyId ++ ['\n']

def renderRollbackLog (events : List RollbackEvent) : FileText :=
  "# souxmar auto-updater rollback / apply event log. Schema is\n".toList ++
  "# locked by ADR-0013; append-only — do not hand-edit unless\n".toList ++
  "# you also bump `schema`.\n".toList ++
  "schema = ".toList ++ (toString kRollbackLogSchemaV1).toList ++ ['\n', '\n'] ++
  events.flatMap renderEvent

/-! ### Loading -/

/-- One `[[event]]` entry; `idx` is its position, for the error text. -/
def readEvent (path : String) (idx : ℕ) (node : TomlNode) : Except String RollbackEvent :=
  match node.asTable with
  | none => .error (path ++ ": [[event]] entry #" ++ toString idx ++ " is not a table")
  | some tbl =>
    let typeStr := readStringField tbl "type"
    let event (type : RollbackEventType) : RollbackEvent :=
      { timestamp := readStringField tbl "timestamp"
        type := type
        fromVersion := readStringField tbl "from_version"
        toVersion := readStringField tbl "to_version"
        artifactSha256 := readStringField tbl "artifact_sha256"
        publicKeyId := readStringField tbl "public_key_id" }
    if typeStr = "apply" then .ok (event .apply)
    else if typeStr = "rollback" then .ok (event .rollback)
    else .error (path ++ ": [[event]] #" ++ toString idx ++ " has unknown type '" ++ typeStr ++ "'")

/-- The loop over the `event` array. -/
def readEvents (path : String) : ℕ → List TomlNode → Except String (List RollbackEvent)
  | _, [] => .ok []
  | idx, node :: nodes => do
    let e ← readEvent path idx node
    let es ← readEvents path (idx + 1) nodes
    return e :: es

def loadRollbackLog (parse : TomlReader) (path : String) (file : Option FileText) :
    Except String (List RollbackEvent) :=
  match file with
  | none => .ok []
  | some text =>
    match parse text with
    | .error description => .error (path ++ ": " ++ description)
    | .ok root =>
      match root.lookup "schema" with
      | none => .error (path ++ ": missing required field 'schema'")
      | some schemaNode =>
        match schemaNode.valueInt with
        | none => .error (path ++ ": 'schema' must be an integer")
        | some schemaVal =>
          if schemaVal ≠ kRollbackLogSchemaV1 then
            .error (path ++ ": unsupported rollback-log schema " ++ toString schemaVal ++
              " (this client understands " ++ toString kRollbackLogSchemaV1 ++ ")")
          else
            match (root.lookup "event").bind TomlNode.asArray with
            | none => .ok []
            | some nodes => readEvents path 0 nodes

/-! ### Appending -/

/-- The faults of one append: creating the directory, and the write of the file. -/
structure LogFaults where
  createDir : Bool := false
  file : WriteFaults := {}
deriving DecidableEq, Repr

/-- A log that cannot be read is left alone, and the append reports failure. -/
def appendRollbackEvent (parse : TomlReader) (f : LogFaults) (path : String)
    (file : Option FileText) (event : RollbackEvent) : Bool × Option FileText :=
  match loadRollbackLog parse path file with
  | .error _ => (false, file)
  | .ok events =>
    if f.createDir then (false, file)
    else writeTmpRename f.file file (renderRollbackLog (events ++ [event]))

/-- The most recent apply event that put `currentVersion` in place says where to go back to. -/
def findRollbackTarget (events : List RollbackEvent) (currentVersion : String) : String :=
  if currentVersion = "" then ""
  else
    match events.reverse.find? fun e =>
        e.type = .apply && e.toVersion = currentVersion && e.fromVersion ≠ "" with
    | some e => e.fromVersion
    | none => ""

/-! ### Reading what the updater writes -/

/-- A value as `renderRollbackLog` writes it: a quoted string without escapes, or digits. -/
def tomlScalar (value : List Char) : TomlNode :=
  match value with
  | '"' :: rest => .str (String.ofList rest.dropLast)
  | digits => .int (digits.foldl (fun n c => 10 * n + (c.toNat - '0'.toNat : ℤ)) 0)

/-- `key = value`, with blanks around the sign. -/
def tomlField (line : List Char) : String × TomlNode :=
  let key := line.takeWhile (· ≠ ' ')
  (String.ofList key,
    tomlScalar (((line.drop key.length).dropWhile (· = ' ')).drop 1 |>.dropWhile (· = ' ')))

/-- Lines of fields from the last line up: the fields since the last table header, and the tables
closed so far. -/
def tomlLine (line : List Char) (acc : TomlTable × List TomlNode) : TomlTable × List TomlNode :=
  if line.isEmpty || line.head? = some '#' then acc
  else if line = "[[event]]".toList then ([], .table acc.1 :: acc.2)
  else (tomlField line :: acc.1, acc.2)

/-- A reader for the fragment of TOML that the updater writes: comments, `key = value` lines and
`[[event]]` tables. -/
def tomlLines : TomlReader := fun text =>
  let (root, events) := (text.splitOn '\n').foldr tomlLine ([], [])
  .ok (root ++ [("event", .arr events)])

end Souxmar.Updater
