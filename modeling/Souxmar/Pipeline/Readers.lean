import Souxmar.Lib.Yaml
import Souxmar.Pipeline.Value

/-!
# The two YAML readers

`to_value` of the pipeline parser (`parser.cpp`), for the inputs of stages, and `yaml_node_to_value` of
`value.cpp`, behind `parse_value_yaml`, for the arguments of tools. Both read the nodes of yaml-cpp.
-/

set_option linter.dupNamespace false

namespace Souxmar.Pipeline

open Souxmar.Lib.Yaml

structure ParseError where
  message : String
  line : Option ℕ := none
  column : Option ℕ := none
deriving DecidableEq, Repr

/-- Lines and columns are counted from 1 for humans. -/
def fromMark (message : String) (mark : Mark) : ParseError where
  message := message
  line := if mark.line ≥ 0 then some (mark.line + 1).toNat else none
  column := if mark.column ≥ 0 then some (mark.column + 1).toNat else none

/-- The shorthand `{ from: stage_id }` of a stage reference. -/
def recogniseStageRef : Node → Option String
  | .map _ [(.scalar _ _ key, .scalar _ _ stageId)] => if key = "from" then some stageId else none
  | _ => none

variable (c : Conversions)

/-! ## The pipeline parser -/

/-- The characters of the numbers that the pipeline parser takes. -/
def numericChar (ch : Char) : Bool := ch ∈ "0123456789-+.eE_".toList

/-- A scalar of the pipeline parser: quoted, boolean, number or string. -/
def scalarToValue (tag raw : String) : Value :=
  if tag = quotedTag then .string raw
  else if raw = "true" ∨ raw = "True" then .boolean true
  else if raw = "false" ∨ raw = "False" then .boolean false
  else
    match c.asDouble raw with
    | some d => if raw.toList.all numericChar then .number d else .string raw
    | none => .string raw

mutual

def toValue : Node → Except ParseError Value
  | .null _ => .ok .null
  | .scalar _ tag raw => .ok (scalarToValue c tag raw)
  | .sequence _ items => (toValues items).map .list
  | .map mark entries =>
    match recogniseStageRef (.map mark entries) with
    | some stageId =>
      if stageId.isEmpty then
        .error (fromMark "`from:` must reference a non-empty stage id" mark)
      else .ok (.stage stageId)
    | none => (toFields entries []).map .map
  | .undefined mark => .error (fromMark "undefined / unparsable YAML node" mark)

def toValues : List Node → Except ParseError (List Value)
  | [] => .ok []
  | child :: items =>
    (toValue child).bind fun v => (toValues items).map fun vs => v :: vs

def toFields : List (Node × Node) → List (String × Value) → Except ParseError (List (String × Value))
  | [], fields => .ok fields
  | (key, value) :: entries, fields =>
    match key with
    | .scalar _ _ text =>
      (toValue value).bind fun v => toFields entries (Value.emplaceField text v fields)
    | _ => .error (fromMark "map keys must be scalars" key.mark)

end

/-! ## The reader behind `parse_value_yaml` -/

/-- The typed conversions in their order: bool, double, string. -/
def yamlScalarToValue (raw : String) : Value :=
  match c.decodeBool raw with
  | some b => .boolean b
  | none =>
    match c.asDouble raw with
    | some d => .number d
    | none => .string raw

mutual

/-- Nothing when a key cannot be converted, which throws. -/
def yamlNodeToValue : Node → Option Value
  | .null _ => some .null
  | .undefined _ => some .null
  | .scalar _ _ raw => some (yamlScalarToValue c raw)
  | .sequence _ items => (yamlNodesToValues items).map .list
  | .map mark entries =>
    match recogniseStageRef (.map mark entries) with
    | some stageId => some (.stage stageId)
    | none => (yamlNodesToFields entries []).map .map

def yamlNodesToValues : List Node → Option (List Value)
  | [] => some []
  | item :: items =>
    (yamlNodeToValue item).bind fun v => (yamlNodesToValues items).map fun vs => v :: vs

def yamlNodesToFields : List (Node × Node) → List (String × Value) → Option (List (String × Value))
  | [], fields => some fields
  | (key, value) :: entries, fields =>
    (c.asString key).bind fun text =>
      (yamlNodeToValue value).bind fun v =>
        yamlNodesToFields entries (Value.emplaceField text v fields)

end

end Souxmar.Pipeline
