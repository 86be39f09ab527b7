import Souxmar.Pipeline.EmittedText

/-!
# Values through YAML and back

`parse_value_yaml` (`value.cpp`) on the text of `emit_value_yaml`. The reader does not look at the tag of
a scalar, so a string comes back as itself only if its text is no boolean and no number (`Faithful`).
-/

set_option linter.dupNamespace false

namespace Souxmar.Pipeline

open Souxmar.Lib Souxmar.Lib.Yaml

/-- Nothing when yaml-cpp throws. -/
def parseValueYaml (load : String → Option Node) (c : Conversions) (yamlSource : String) :
    Option Value :=
  (load yamlSource).bind (yamlNodeToValue c)

/-- The emitted text is read back as the value. -/
def RoundTrips (load : String → Option Node) (c : Conversions) (fmt : UInt64 → String) (v : Value) :
    Prop :=
  ∃ v', parseValueYaml load c (emitValueYaml fmt v) = some v' ∧ v'.equal v = true

/-! ## Faithful values -/

def FaithfulString (c : Conversions) (s : String) : Prop :=
  Kept s ∧ c.decodeBool s = none ∧ c.asDouble s = none

/-- Booleans, numbers and strings, which are scalars in YAML. -/
def Value.scalar : Value → Bool
  | boolean _ => true
  | number _ => true
  | string _ => true
  | _ => false

/-- A map that the reader takes for a stage reference. -/
def referenceLike : List (String × Value) → Bool
  | [(key, child)] => key = "from" && child.scalar
  | _ => false

mutual

/-- No string is taken for something else, and no map for a reference. -/
def Faithful (c : Conversions) : Value → Prop
  | .string s => FaithfulString c s
  | .stage stageId => Kept stageId
  | .list items => FaithfulItems c items
  | .map fields => referenceLike fields = false ∧ FaithfulFields c fields
  | _ => True

def FaithfulItems (c : Conversions) : List Value → Prop
  | [] => True
  | item :: items => Faithful c item ∧ FaithfulItems c items

def FaithfulFields (c : Conversions) : List (String × Value) → Prop
  | [] => True
  | (_, child) :: fields => Faithful c child ∧ FaithfulFields c fields

end

theorem faithfulItems_iff {c : Conversions} {items : List Value} :
    FaithfulItems c items ↔ ∀ item ∈ items, Faithful c item := by
  induction items with
  | nil => simp [FaithfulItems]
  | cons item items ih => simp [FaithfulItems, ih]

theorem faithfulFields_iff {c : Conversions} {fields : List (String × Value)} :
    FaithfulFields c fields ↔ ∀ field ∈ fields, Faithful c field.2 := by
  induction fields with
  | nil => simp [FaithfulFields]
  | cons field fields ih => simp [FaithfulFields, ih]

/-! ## Numbers -/

/-- What the libraries document of a number: its text is a decimal, no boolean, and read as a number
that is equal to it. -/
structure ReadsNumber (c : Conversions) (fmt : UInt64 → String) (bits : UInt64) : Prop where
  shaped : Double.integer bits = none → NumberShaped (fmt bits)
  notBool : c.decodeBool (numberText fmt bits) = none
  reads : ∃ d, c.asDouble (numberText fmt bits) = some d ∧ Double.equal d bits = true

theorem digits_of_nat (n : ℕ) : ∃ first rest, (toString n).toList = first :: rest ∧
    first.isDigit = true ∧ ∀ c ∈ rest, numericChar c = true := by
  have hdigits : (toString n).toList = Nat.toDigits 10 n := Nat.toList_repr
  have hall : ∀ c ∈ Nat.toDigits 10 n, c.isDigit = true := fun c hc =>
    Nat.isDigit_of_mem_toDigits (by omega) (by omega) hc
  cases hlist : Nat.toDigits 10 n with
  | nil => exact absurd hlist Nat.toDigits_ne_nil
  | cons first rest =>
    rw [hlist] at hall
    refine ⟨first, rest, by rw [hdigits, hlist], hall first List.mem_cons_self, fun c hc => ?_⟩
    exact numericChar_of_isDigit (hall c (List.mem_cons_of_mem _ hc))

theorem numberShaped_int (i : ℤ) : NumberShaped (toString i) := by
  cases i with
  | ofNat n =>
    obtain ⟨first, rest, htext, hfirst, hrest⟩ := digits_of_nat n
    exact ⟨[], first, rest, htext, .inl rfl, hfirst, hrest⟩
  | negSucc n =>
    obtain ⟨first, rest, htext, hfirst, hrest⟩ := digits_of_nat (n + 1)
    have hsign : toString (Int.negSucc n) = "-" ++ toString (n + 1) := rfl
    refine ⟨['-'], first, rest, ?_, .inr rfl, hfirst, hrest⟩
    rw [hsign, String.toList_append, htext]
    rfl

theorem ReadsNumber.numberShaped {c : Conversions} {fmt : UInt64 → String} {bits : UInt64}
    (h : ReadsNumber c fmt bits) : NumberShaped (numberText fmt bits) := by
  unfold numberText
  cases hinteger : Double.integer bits with
  | some i => exact numberShaped_int i
  | none => exact h.shaped hinteger

/-! ## Reading nodes -/

theorem asString_unmark (c : Conversions) (node : Node) : c.asString node.unmark = c.asString node := by
  cases node <;> rfl

theorem recogniseStageRef_unmark (mark : Mark) (entries : List (Node × Node)) :
    recogniseStageRef (Node.map mark entries).unmark = recogniseStageRef (.map mark entries) := by
  match entries with
  | [] => rfl
  | [(key, value)] => cases key <;> cases value <;> rfl
  | (key, value) :: (_, _) :: _ => cases key <;> cases value <;> rfl

theorem yamlNodeToValue_unmark (c : Conversions) (node : Node) :
    yamlNodeToValue c node.unmark = yamlNodeToValue c node := by
  induction node with
  | undefined mark => rfl
  | null mark => rfl
  | scalar mark tag text => rfl
  | sequence mark items ih =>
    have hitems : yamlNodesToValues c (Node.unmarkItems items) = yamlNodesToValues c items := by
      induction items with
      | nil => rfl
      | cons item items ihs =>
        rw [Node.unmarkItems, yamlNodesToValues, yamlNodesToValues, ih item List.mem_cons_self,
          ihs fun node hnode => ih node (List.mem_cons_of_mem _ hnode)]
    rw [Node.unmark, yamlNodeToValue, yamlNodeToValue, hitems]
  | map mark entries ih =>
    have hentries : ∀ fields, yamlNodesToFields c (Node.unmarkEntries entries) fields =
        yamlNodesToFields c entries fields := by
      have hread : ∀ kv ∈ entries, yamlNodeToValue c kv.2.unmark = yamlNodeToValue c kv.2 :=
        fun kv hkv => (ih kv hkv).2
      clear ih
      induction entries with
      | nil => intro fields; rfl
      | cons kv entries ihs =>
        intro fields
        obtain ⟨key, value⟩ := kv
        have htail := ihs fun kv hkv => hread kv (List.mem_cons_of_mem _ hkv)
        rw [Node.unmarkEntries, yamlNodesToFields, yamlNodesToFields, asString_unmark,
          hread (key, value) List.mem_cons_self]
        simp only [htail]
    have href := recogniseStageRef_unmark mark entries
    rw [Node.unmark] at href ⊢
    rw [yamlNodeToValue, yamlNodeToValue, href, hentries]

/-! ## Reading back -/

section

variable {c : Conversions} {fmt : UInt64 → String}

/-- What is read from the node of the value. -/
def ReadBack (c : Conversions) (fmt : UInt64 → String) (v : Value) : Prop :=
  ∃ v', yamlNodeToValue c (nodeOf fmt v) = some v' ∧ v'.equal v = true

theorem yamlScalarToValue_equal (text s : String) :
    (yamlScalarToValue c text).equal (.string s) = true ↔
      text = s ∧ c.decodeBool text = none ∧ c.asDouble text = none := by
  unfold yamlScalarToValue
  cases hbool : c.decodeBool text with
  | some b => simp [Value.equal]
  | none =>
    cases hdouble : c.asDouble text with
    | some d => simp [Value.equal]
    | none => simp [Value.equal]

theorem scalarNode_cases (s : String) :
    (∃ tag, scalarNode s = .scalar noMark tag s ∧ Kept s) ∨
      (¬Kept s ∧ (scalarNode s = .null noMark ∨
        ∃ text, scalarNode s = .scalar noMark plainTag text ∧ text ≠ s)) := by
  unfold scalarNode Kept
  by_cases hquotes : needsQuotes s = true
  · rw [if_pos hquotes]
    exact .inl ⟨quotedTag, by rw [quotedNode, String.ofList_toList], .inl hquotes⟩
  · rw [if_neg hquotes]
    by_cases hstrip : strip s.toList = s.toList
    · rw [hstrip, String.ofList_toList, plainNode]
      split_ifs with hnull
      · exact .inr ⟨by simp [hquotes, hnull], .inl rfl⟩
      · exact .inl ⟨plainTag, rfl, .inr ⟨rfl, hnull⟩⟩
    · refine .inr ⟨by simp [hquotes, hstrip], ?_⟩
      unfold plainNode
      split_ifs
      · exact .inl rfl
      · refine .inr ⟨_, rfl, fun hsame => hstrip ?_⟩
        have hchars := congrArg String.toList hsame
        rwa [String.toList_ofList] at hchars

theorem readBack_string (s : String) : ReadBack c fmt (.string s) ↔ FaithfulString c s := by
  unfold ReadBack FaithfulString
  rw [nodeOf]
  rcases scalarNode_cases s with ⟨tag, hnode, hkept⟩ | ⟨hlost, hnode | ⟨text, hnode, hne⟩⟩
  · rw [hnode, yamlNodeToValue]
    simp [yamlScalarToValue_equal, hkept]
  · rw [hnode, yamlNodeToValue]
    simp [hlost, Value.equal]
  · rw [hnode, yamlNodeToValue]
    simp [yamlScalarToValue_equal, hlost, hne]

theorem readBack_stage (id : String) : ReadBack c fmt (.stage id) ↔ Kept id := by
  unfold ReadBack
  rw [nodeOf]
  rcases scalarNode_cases id with ⟨tag, hnode, hkept⟩ | ⟨hlost, hnode | ⟨text, hnode, hne⟩⟩
  · simp [hnode, fromKey, yamlNodeToValue, recogniseStageRef, Value.equal, hkept]
  · simp [hnode, fromKey, yamlNodeToValue, recogniseStageRef, hlost, yamlNodesToFields,
      Conversions.asString, Value.equal]
  · simp [hnode, fromKey, yamlNodeToValue, recogniseStageRef, Value.equal, hlost, hne]

theorem readBack_boolean (htrue : c.decodeBool "true" = some true)
    (hfalse : c.decodeBool "false" = some false) (b : Bool) : ReadBack c fmt (.boolean b) := by
  refine ⟨.boolean b, ?_, by simp [Value.equal]⟩
  rw [nodeOf, yamlNodeToValue, yamlScalarToValue]
  cases b with
  | true => simp [htrue]
  | false => simp [hfalse]

theorem readBack_number {bits : UInt64} (h : ReadsNumber c fmt bits) : ReadBack c fmt (.number bits) := by
  obtain ⟨d, hd, hequal⟩ := h.reads
  refine ⟨.number d, ?_, hequal⟩
  rw [nodeOf, yamlNodeToValue, yamlScalarToValue, h.notBool, hd]

theorem readBack_list {items : List Value} :
    ReadBack c fmt (.list items) ↔ ∀ item ∈ items, ReadBack c fmt item := by
  have hitems : (∃ vs, yamlNodesToValues c (nodesOf fmt items) = some vs ∧
      Value.equalItems vs items = true) ↔ ∀ item ∈ items, ReadBack c fmt item := by
    induction items with
    | nil => simp [nodesOf, yamlNodesToValues, Value.equalItems]
    | cons item items ih =>
      rw [List.forall_mem_cons, ← ih, nodesOf, yamlNodesToValues]
      constructor
      · rintro ⟨vs, hread, hequal⟩
        obtain ⟨v, hv, hread⟩ := Option.bind_eq_some_iff.mp hread
        obtain ⟨rest, hrest, rfl⟩ := Option.map_eq_some_iff.mp hread
        rw [Value.equalItems, Bool.and_eq_true] at hequal
        exact ⟨⟨v, hv, hequal.1⟩, rest, hrest, hequal.2⟩
      · rintro ⟨⟨v, hv, hequal⟩, rest, hrest, hequals⟩
        refine ⟨v :: rest, by rw [hv, hrest]; rfl, ?_⟩
        rw [Value.equalItems, hequal, hequals]
        rfl
  rw [← hitems]
  unfold ReadBack
  rw [nodeOf, yamlNodeToValue]
  constructor
  · rintro ⟨v, hread, hequal⟩
    obtain ⟨vs, hvs, rfl⟩ := Option.map_eq_some_iff.mp hread
    exact ⟨vs, hvs, hequal⟩
  · rintro ⟨vs, hvs, hequal⟩
    exact ⟨.list vs, by rw [hvs]; rfl, hequal⟩

theorem scalarNode_kept {s : String} (h : Kept s) : ∃ tag, scalarNode s = .scalar noMark tag s := by
  rcases scalarNode_cases s with ⟨tag, hnode, -⟩ | ⟨hlost, -⟩
  · exact ⟨tag, hnode⟩
  · exact absurd h hlost

theorem emplaceField_last {key : String} (v : Value) {fields : List (String × Value)}
    (h : ∀ field ∈ fields, field.1 < key) :
    Value.emplaceField key v fields = fields ++ [(key, v)] := by
  induction fields with
  | nil => rfl
  | cons field fields ih =>
    obtain ⟨k, w⟩ := field
    have hlt : k < key := h (k, w) List.mem_cons_self
    rw [Value.emplaceField, if_neg (not_lt.mpr hlt.le), if_neg (ne_of_gt hlt),
      ih fun field hfield => h field (List.mem_cons_of_mem _ hfield)]
    rfl

theorem yamlNodesToFields_entriesOf {fields : List (String × Value)}
    (hkept : ∀ field ∈ fields, Kept field.1) : ∀ before : List (String × Value),
    Value.Ascending (before ++ fields) → yamlNodesToFields c (entriesOf fmt fields) before =
      (allSome (fun field => (yamlNodeToValue c (nodeOf fmt field.2)).map (field.1, ·)) fields).map
        (before ++ ·) := by
  induction fields with
  | nil => intro before _; simp [entriesOf, yamlNodesToFields, allSome]
  | cons field fields ih =>
    intro before hascending
    obtain ⟨key, child⟩ := field
    obtain ⟨tag, hkey⟩ := scalarNode_kept (hkept (key, child) List.mem_cons_self)
    have htail := ih fun field hfield => hkept field (List.mem_cons_of_mem _ hfield)
    rw [entriesOf, yamlNodesToFields, hkey, Conversions.asString, Option.bind_some, allSome]
    cases hread : yamlNodeToValue c (nodeOf fmt child) with
    | none => rfl
    | some v =>
      have hlast : ∀ field ∈ before, field.1 < key := by
        intro field hfield
        rw [Value.Ascending, List.map_append, List.pairwise_append] at hascending
        exact hascending.2.2 field.1 (List.mem_map_of_mem hfield) key List.mem_cons_self
      have hnext : Value.Ascending ((before ++ [(key, v)]) ++ fields) := by
        simpa [Value.Ascending] using hascending
      rw [Option.bind_some, emplaceField_last v hlast, htail _ hnext, Option.map_some, Option.bind_some,
        Option.map_map]
      simp [Function.comp_def]

theorem readBack_fields {fields : List (String × Value)} (hkept : ∀ field ∈ fields, Kept field.1)
    (hascending : Value.Ascending fields) : (∃ read,
      yamlNodesToFields c (entriesOf fmt fields) [] = some read ∧
        Value.equalFields read fields = true) ↔ ∀ field ∈ fields, ReadBack c fmt field.2 := by
  rw [yamlNodesToFields_entriesOf hkept [] hascending]
  simp only [List.nil_append, Option.map_id_fun', id]
  clear hkept hascending
  induction fields with
  | nil => simp [allSome, Value.equalFields]
  | cons field fields ih =>
    rw [List.forall_mem_cons, ← ih, allSome]
    constructor
    · rintro ⟨read, hread, hequal⟩
      obtain ⟨_, hfield, hread⟩ := Option.bind_eq_some_iff.mp hread
      obtain ⟨v, hv, rfl⟩ := Option.map_eq_some_iff.mp hfield
      obtain ⟨rest, hrest, rfl⟩ := Option.map_eq_some_iff.mp hread
      rw [Value.equalFields, Bool.and_eq_true, Bool.and_eq_true] at hequal
      exact ⟨⟨v, hv, hequal.1.2⟩, rest, hrest, hequal.2⟩
    · rintro ⟨⟨v, hv, hequal⟩, rest, hrest, hequals⟩
      refine ⟨(field.1, v) :: rest, by rw [hv, hrest]; rfl, ?_⟩
      rw [Value.equalFields, hequal, hequals]
      simp

theorem recogniseStageRef_of_key {key : String} (h : key ≠ "from") (tag : String) (value : Node) :
    recogniseStageRef (.map noMark [(.scalar noMark tag key, value)]) = none := by
  cases value with
  | scalar _ _ stageId => exact if_neg h
  | _ => rfl

theorem recogniseStageRef_nodeOf {fields : List (String × Value)} (hkept : ∀ field ∈ fields, Kept field.1)
    (hplain : referenceLike fields = false) : recogniseStageRef (nodeOf fmt (.map fields)) = none := by
  rw [nodeOf]
  rcases fields with - | ⟨⟨key, child⟩, - | ⟨⟨key', child'⟩, fields⟩⟩
  · rfl
  · obtain ⟨tag, hkey⟩ := scalarNode_kept (hkept (key, child) List.mem_cons_self)
    rw [entriesOf, hkey]
    by_cases hfrom : key = "from"
    · have hchild : child.scalar = false := by simpa [referenceLike, hfrom] using hplain
      cases child with
      | boolean b => cases hchild
      | number bits => cases hchild
      | string s => cases hchild
      | _ => rfl
    · exact recogniseStageRef_of_key hfrom tag _
  · rw [entriesOf, entriesOf]
    simp [recogniseStageRef]

theorem nodeOf_scalar {v : Value} (h : v.scalar = true) :
    (∃ tag text, nodeOf fmt v = .scalar noMark tag text) ∨
      ∃ s, v = .string s ∧ nodeOf fmt v = .null noMark := by
  cases v with
  | boolean b => exact .inl ⟨_, _, rfl⟩
  | number bits => exact .inl ⟨_, _, rfl⟩
  | string s =>
    rw [nodeOf]
    rcases scalarNode_cases s with ⟨tag, hnode, -⟩ | ⟨-, hnode | ⟨text, hnode, -⟩⟩
    · exact .inl ⟨tag, s, hnode⟩
    · exact .inr ⟨s, rfl, hnode⟩
    · exact .inl ⟨plainTag, text, hnode⟩
  | _ => cases h

theorem not_readBack_reference {fields : List (String × Value)} (h : referenceLike fields = true) :
    ¬ReadBack c fmt (.map fields) := by
  rintro ⟨v, hread, hequal⟩
  obtain _ | ⟨⟨key, child⟩, _ | ⟨_, _⟩⟩ := fields
  · cases h
  rotate_left
  · cases h
  simp only [referenceLike, Bool.and_eq_true, decide_eq_true_eq] at h
  obtain ⟨rfl, hscalar⟩ := h
  obtain ⟨tag, hkey⟩ := scalarNode_kept (s := "from") (by decide)
  rw [nodeOf, entriesOf, entriesOf, hkey] at hread
  rcases @nodeOf_scalar fmt child hscalar with ⟨tag', text, hnode⟩ | ⟨s, rfl, hnode⟩
  · rw [hnode, yamlNodeToValue, recogniseStageRef, if_pos rfl] at hread
    rw [← Option.some.inj hread] at hequal
    cases hequal
  · rw [hnode, yamlNodeToValue, recogniseStageRef] at hread
    · simp only [yamlNodesToFields, Conversions.asString, yamlNodeToValue, Option.bind_some,
        Option.map_some] at hread
      rw [← Option.some.inj hread] at hequal
      simp [Value.emplaceField, Value.equal, Value.equalFields] at hequal
    · simp

theorem readBack_map {fields : List (String × Value)} (hkept : ∀ field ∈ fields, Kept field.1)
    (hascending : Value.Ascending fields) : ReadBack c fmt (.map fields) ↔
      referenceLike fields = false ∧ ∀ field ∈ fields, ReadBack c fmt field.2 := by
  have hread : ∀ plain : recogniseStageRef (nodeOf fmt (.map fields)) = none,
      ReadBack c fmt (.map fields) ↔ ∀ field ∈ fields, ReadBack c fmt field.2 := by
    intro hplain
    rw [← readBack_fields hkept hascending]
    unfold ReadBack
    rw [nodeOf] at hplain ⊢
    rw [yamlNodeToValue, hplain]
    constructor
    · rintro ⟨v, hv, hequal⟩
      obtain ⟨read, hread, rfl⟩ := Option.map_eq_some_iff.mp hv
      exact ⟨read, hread, hequal⟩
    · rintro ⟨read, hread, hequal⟩
      exact ⟨.map read, by rw [hread]; rfl, hequal⟩
  cases hreference : referenceLike fields with
  | false => rw [hread (recogniseStageRef_nodeOf hkept hreference)]; simp
  | true => simp [not_readBack_reference hreference]

theorem readBack_iff (htrue : c.decodeBool "true" = some true)
    (hfalse : c.decodeBool "false" = some false) {v : Value} (hordered : v.Ordered)
    (hcarried : Carried (ReadsNumber c fmt) v) : ReadBack c fmt v ↔ Faithful c v := by
  induction v with
  | null => exact iff_of_true ⟨.null, rfl, rfl⟩ trivial
  | boolean b => exact iff_of_true (readBack_boolean htrue hfalse b) trivial
  | number bits => exact iff_of_true (readBack_number hcarried) trivial
  | string s => exact readBack_string s
  | stage id => exact readBack_stage id
  | list items ih =>
    rw [Value.Ordered, Value.orderedItems_iff] at hordered
    rw [Carried, carriedItems_iff] at hcarried
    rw [readBack_list, Faithful, faithfulItems_iff]
    exact forall₂_congr fun item hitem => ih item hitem (hordered item hitem) (hcarried item hitem)
  | map fields ih =>
    rw [Value.Ordered, Value.orderedFields_iff] at hordered
    rw [Carried, carriedFields_iff] at hcarried
    have hkept : ∀ field ∈ fields, Kept field.1 := fun field hfield => (hcarried field hfield).1.kept
    have hfields : (∀ field ∈ fields, ReadBack c fmt field.2) ↔ ∀ field ∈ fields, Faithful c field.2 :=
      forall₂_congr fun field hfield =>
        ih field hfield (hordered.2 field hfield) (hcarried field hfield).2
    rw [readBack_map hkept hordered.1, Faithful, faithfulFields_iff, hfields]

end

/-! ## The round trip -/

theorem roundTrips_iff_readBack {load : String → Option Node} {c : Conversions} {fmt : UInt64 → String}
    (hload : ReadsYaml load) {v : Value} (hordered : v.Ordered) (hcarried : CarriedBy fmt v)
    (hroot : Unmarked v) : RoundTrips load c fmt v ↔ ReadBack c fmt v := by
  obtain ⟨node, hnode, hsame⟩ := hload _ _ (readDocument_emitValueYaml fmt hcarried hordered hroot)
  have hparse : parseValueYaml load c (emitValueYaml fmt v) = yamlNodeToValue c (nodeOf fmt v) := by
    rw [parseValueYaml, hnode, Option.bind_some, ← yamlNodeToValue_unmark, hsame,
      yamlNodeToValue_unmark]
  unfold RoundTrips ReadBack
  rw [hparse]

section Example

/-- The reader of this part of YAML. -/
def readText (text : String) : Option Node := readDocument text.toList

theorem readText_reads : ReadsYaml readText := fun _ node h => ⟨node, h, rfl⟩

/-- `fmt::format` at the number 1.5. -/
def sampleFormat (bits : UInt64) : String := if bits = 0x3FF8000000000000 then "1.5" else ""

/-- Conversions that know the number 1.5. -/
def halfConversions : Conversions where
  decodeBool raw := if raw = "true" then some true else if raw = "false" then some false else none
  asDouble raw := if raw = "1.5" then some 0x3FF8000000000000 else none
  asInt64 _ := none
  nullText := some "null"

theorem half_reads : ReadsNumber halfConversions sampleFormat 0x3FF8000000000000 where
  shaped _ := ⟨[], '1', ['.', '5'], by decide, .inl rfl, by decide, by decide⟩
  notBool := by decide +kernel
  reads := ⟨0x3FF8000000000000, by decide +kernel, by decide +kernel⟩

/-- A quoted word comes back as a boolean: the tag of the scalar is not looked at. -/
theorem quoted_word_is_lost : ReadsYaml readText ∧ halfConversions.decodeBool "true" = some true ∧
    ¬RoundTrips readText halfConversions sampleFormat (.string "true") := by
  refine ⟨readText_reads, rfl, ?_⟩
  have hcarried : CarriedText "true" := by decide
  have hordered : (Value.string "true").Ordered := trivial
  have hroot : Unmarked (.string "true") := fun h => absurd h (by decide)
  rw [roundTrips_iff_readBack readText_reads hordered hcarried hroot, readBack_string]
  exact fun hfaithful => absurd hfaithful.2.1 (by decide)

end Example

/-- On every value that YAML carries in the form it is emitted in, and whose numbers come through the
libraries, the emitted text is read back as the value exactly when the value is faithful. -/
theorem yaml_round_trip_iff {load : String → Option Node} {c : Conversions} {fmt : UInt64 → String}
    (hload : ReadsYaml load) (htrue : c.decodeBool "true" = some true)
    (hfalse : c.decodeBool "false" = some false) {v : Value} (hordered : v.Ordered)
    (hcarried : Carried (fun bits => Double.InRange bits ∧ ReadsNumber c fmt bits) v)
    (hroot : Unmarked v) : RoundTrips load c fmt v ↔ Faithful c v := by
  have hnumbers : Carried (ReadsNumber c fmt) v := hcarried.mono fun _ h => h.2
  have hshaped : CarriedBy fmt v := hnumbers.mono fun _ h => h.numberShaped
  rw [roundTrips_iff_readBack hload hordered hshaped hroot, readBack_iff htrue hfalse hordered hnumbers]

section Example

def sampleFields : List (String × Value) :=
  [("factor", .number 0x3FF8000000000000), ("from", .stage "mesh.main"),
    ("names", .list [.string "a: b", .null, .map [], .string "two words"])]

theorem yaml_round_trip_iff_sample :
    RoundTrips readText halfConversions sampleFormat (.map sampleFields) ↔
      Faithful halfConversions (.map sampleFields) := by
  have hstage : CarriedText "mesh.main" := by decide
  have hquoted : CarriedText "a: b" := by decide
  have hwords : CarriedText "two words" := by decide
  have hkey : ∀ key ∈ ["factor", "from", "names"], CarriedKey key ∧ isMarker (key.toList ++ [':', ' ']) =
      false := by
    intro key hkey
    simp only [List.mem_cons, List.not_mem_nil, or_false] at hkey
    rcases hkey with rfl | rfl | rfl <;> exact ⟨⟨by decide, by decide, by decide⟩, by decide⟩
  have hnumber : Double.InRange 0x3FF8000000000000 := by decide +kernel
  refine yaml_round_trip_iff readText_reads rfl rfl ?_ ?_ ?_
  · have hkeys : (["factor", "from", "names"] : List String).Pairwise (· < ·) := by decide
    exact ⟨hkeys, trivial, trivial, ⟨trivial, trivial, ⟨Value.Ascending.nil, trivial⟩, trivial, trivial⟩,
      trivial⟩
  · exact ⟨(hkey _ (by simp)).1, ⟨hnumber, half_reads⟩, (hkey _ (by simp)).1, hstage,
      (hkey _ (by simp)).1, ⟨hquoted, trivial, trivial, hwords, trivial⟩, trivial⟩
  · intro field hfield _
    have hkeys : sampleFields.map (·.1) = ["factor", "from", "names"] := rfl
    exact (hkey field.1 (hkeys ▸ List.mem_map_of_mem hfield)).2

end Example

end Souxmar.Pipeline
