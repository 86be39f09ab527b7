import Mathlib.Data.Int.Notation
import Mathlib.Data.List.Basic
import Mathlib.Data.Nat.Notation

/-!
# YAML nodes

What a YAML library hands over for a document: the kind of each node, with the tag and the text of a
scalar. Its conversions of a scalar's text to typed values are a parameter.
-/

namespace Souxmar.Lib.Yaml

/-- Where a node starts, counted from 0; negative when the library does not know. -/
structure Mark where
  line : ℤ
  column : ℤ
deriving DecidableEq, Repr

inductive Node
  | undefined (mark : Mark)
  | null (mark : Mark)
  | scalar (mark : Mark) (tag text : String)
  | sequence (mark : Mark) (items : List Node)
  | map (mark : Mark) (entries : List (Node × Node))

namespace Node

def mark : Node → Mark
  | undefined mark => mark
  | null mark => mark
  | scalar mark _ _ => mark
  | sequence mark _ => mark
  | map mark _ => mark

/-- Induction over the tree, with the hypothesis at every item and at both nodes of every entry. -/
@[induction_eliminator]
theorem induction {P : Node → Prop} (undefined : ∀ mark, P (undefined mark))
    (null : ∀ mark, P (null mark)) (scalar : ∀ mark tag text, P (scalar mark tag text))
    (sequence : ∀ mark items, (∀ node ∈ items, P node) → P (sequence mark items))
    (map : ∀ mark entries, (∀ kv ∈ entries, P kv.1 ∧ P kv.2) → P (map mark entries)) (node : Node) :
    P node :=
  @Node.rec P (fun items => ∀ node ∈ items, P node) (fun entries => ∀ kv ∈ entries, P kv.1 ∧ P kv.2)
    (fun kv => P kv.1 ∧ P kv.2) undefined null scalar sequence map
    (fun _ h => nomatch h)
    (fun _ _ h hs => List.forall_mem_cons.mpr ⟨h, hs⟩)
    (fun _ h => nomatch h)
    (fun _ _ h hs => List.forall_mem_cons.mpr ⟨h, hs⟩)
    (fun _ _ hk hv => ⟨hk, hv⟩) node

/-- `node[key]` on a map: the value of the first scalar key with this text. -/
def find (key : String) : Node → Option Node
  | map _ entries => (entries.find? fun kv => match kv.1 with
      | scalar _ _ text => text = key
      | _ => false).map (·.2)
  | _ => none

end Node

/-- The conversions of a scalar's text, and the text of a null node where it has one. -/
structure Conversions where
  decodeBool : String → Option Bool
  asDouble : String → Option UInt64
  asInt64 : String → Option ℤ
  nullText : Option String

/-- `as<std::string>()`; nothing when it throws. -/
def Conversions.asString (c : Conversions) : Node → Option String
  | .scalar _ _ text => some text
  | .null _ => c.nullText
  | _ => none

/-- The tag of a scalar in single or double quotes. -/
def quotedTag : String := "!"

end Souxmar.Lib.Yaml
