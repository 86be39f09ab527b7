import Souxmar.Pipeline.Dag
import Souxmar.Pipeline.Readers

/-!
# The pipeline parser

`parse_yaml_root` and `parse_pipeline` (`parser.cpp`). The version of a pipeline that is accepted is always 1, and a
`Pipeline` does not hold it.
-/

namespace Souxmar.Pipeline

open Souxmar.Lib.Yaml

/-- What `YAML::Load` throws: a parser's exception with its place, or another one. -/
inductive LoadFailure
  | parser (msg : String) (mark : Mark)
  | other (what : String)
deriving DecidableEq, Repr

def makeError (message : String) : ParseError := ⟨message, none, none⟩

variable (c : Conversions)

/-- A required scalar of a stage that must not be empty. -/
def requiredText (stageNode : Node) (key missing : String) : Except ParseError String :=
  match stageNode.find key with
  | some (.scalar mark _ text) =>
    if text.isEmpty then .error (fromMark ("`" ++ key ++ "` must be non-empty") mark) else .ok text
  | some node => .error (fromMark ("`" ++ key ++ "` must be a scalar") node.mark)
  | none => .error (fromMark missing stageNode.mark)

/-- The input of a stage, an empty map when there is none. -/
def stageInput (stageNode : Node) (id : String) : Except ParseError Value :=
  match stageNode.find "input" with
  | some input =>
    match toValue c input with
    | .error e => .error e
    | .ok (.map fields) => .ok (.map fields)
    | .ok _ => .error (fromMark ("stage '" ++ id ++ "' input must be a mapping") input.mark)
  | none => .ok (.map [])

/-- One turn of the loop over the stages. -/
def parseStage (seenIds : List String) (stageNode : Node) : Except ParseError Stage :=
  match stageNode with
  | .map mark entries => do
    let id ← requiredText (.map mark entries) "id" "stage missing required `id`"
    if id ∈ seenIds then
      throw (fromMark ("duplicate stage id '" ++ id ++ "'") mark)
    let plugin ← requiredText (.map mark entries) "plugin" ("stage '" ++ id ++ "' missing required `plugin`")
    let input ← stageInput c (.map mark entries) id
    return ⟨id, plugin, input⟩
  | node => .error (fromMark "each stage must be a mapping" node.mark)

def parseStages : List String → List Node → Except ParseError (List Stage)
  | _, [] => .ok []
  | seenIds, stageNode :: nodes => do
    let stage ← parseStage c seenIds stageNode
    let stages ← parseStages (stage.id :: seenIds) nodes
    return stage :: stages

/-- The checks of `version`. -/
def parseVersion (root : Node) : Except ParseError Unit :=
  match root.find "version" with
  | some (.scalar mark _ text) =>
    match c.asInt64 text with
    | some n =>
      if n < 1 ∨ n > 2147483647 then
        .error (fromMark ("`version` out of range (got " ++ toString n ++ ")") mark)
      else if n ≠ 1 then
        .error (makeError ("pipeline `version` = " ++ toString n ++
          " not supported by this parser (only v1 known)"))
      else .ok ()
    | none => .error (fromMark "`version` must be an integer" mark)
  | some node => .error (fromMark "`version` must be an integer scalar" node.mark)
  | none => .error (makeError "missing required field 'version'")

def parseYamlRoot (root : Node) : Except ParseError Pipeline :=
  match root with
  | .map mark entries => do
    parseVersion c (.map mark entries)
    match (Node.map mark entries).find "stages" with
    | some (.sequence smark nodes) =>
      if nodes = [] then throw (fromMark "`stages` must list at least one stage" smark)
      let stages ← parseStages c [] nodes
      return ⟨stages⟩
    | some node => throw (fromMark "`stages` must be a sequence" node.mark)
    | none => throw (makeError "missing required field 'stages'")
  | node => .error (fromMark "pipeline root must be a mapping" node.mark)

def parsePipeline (load : String → Except LoadFailure Node) (yamlSource : String) : Except ParseError Pipeline :=
  match load yamlSource with
  | .error (.parser msg mark) => .error (fromMark ("YAML parse error: " ++ msg) mark)
  | .error (.other what) => .error (makeError ("YAML error: " ++ what))
  | .ok root => parseYamlRoot c root

end Souxmar.Pipeline
