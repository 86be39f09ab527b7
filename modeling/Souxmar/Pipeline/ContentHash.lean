import Souxmar.Lib.Codec
import Souxmar.Pipeline.Sha256
import Souxmar.Pipeline.Value

/-!
# Content hashes

`hash_inputs` walks a context string and a value tree into SHA-256 (`cache.cpp`). The bytes it feeds
are named here (`inputsStream`), and `inputsStream_inj` says what two equal streams have in common:
the context, the tree, and the hash of every stage the tree refers to.
-/

namespace Souxmar.Pipeline

open Souxmar.Lib

@[ext] structure ContentHash where
  bytes : List UInt8
  size : bytes.length = 32
deriving DecidableEq, Repr

instance : Inhabited ContentHash := ⟨⟨List.replicate 32 0, by decide⟩⟩

def kHex : List Char :=
  ['0', '1', '2', '3', '4', '5', '6', '7', '8', '9', 'a', 'b', 'c', 'd', 'e', 'f']

def hexByte (b : UInt8) : List Char :=
  [kHex.getD (b >>> 4).toNat '0', kHex.getD (b &&& 0xF).toNat '0']

theorem mem_hexByte {b : UInt8} {c : Char} (h : c ∈ hexByte b) : c ∈ kHex := by
  have hget : ∀ i, kHex.getD i '0' ∈ kHex := by
    intro i
    rw [List.getD_eq_getElem?_getD]
    cases hi : kHex[i]? with
    | none => decide
    | some c => exact List.mem_of_getElem? hi
  rcases List.mem_pair.mp h with rfl | rfl
  · exact hget _
  · exact hget _

def ContentHash.hex (ch : ContentHash) : String := String.ofList (ch.bytes.flatMap hexByte)

/-! ## Feeding the hash -/

/-- The bytes of a `std::string`. -/
def bytesOf (s : String) : List UInt8 := s.toUTF8.data.toList

/-- Eight bytes, least significant first. -/
def u64Bytes (v : UInt64) : List UInt8 :=
  [v.toUInt8, (v >>> 8).toUInt8, (v >>> 16).toUInt8, (v >>> 24).toUInt8,
    (v >>> 32).toUInt8, (v >>> 40).toUInt8, (v >>> 48).toUInt8, (v >>> 56).toUInt8]

def feedU64 (sh : Sha256) (v : UInt64) : Sha256 := sh.update (u64Bytes v)

def feedStr (sh : Sha256) (s : String) : Sha256 :=
  let sh := feedU64 sh (UInt64.ofNat s.utf8ByteSize)
  if s.isEmpty then sh else sh.update (bytesOf s)

/-- The hash of the stage a reference names, all `0xFF` when it is not among the upstream hashes. -/
def upstreamBytes (upstream : List (String × ContentHash)) (stageId : String) : List UInt8 :=
  match upstream.lookup stageId with
  | some ch => ch.bytes
  | none => List.replicate 32 0xFF

section

variable (upstream : List (String × ContentHash))

mutual

def hashValue (sh : Sha256) : Value → Sha256
  | .null => sh.update [Value.null.kind]
  | .boolean b =>
    let sh := sh.update [(Value.boolean b).kind]
    sh.update [if b then 1 else 0]
  | .number bits =>
    let sh := sh.update [(Value.number bits).kind]
    sh.update (u64Bytes bits)
  | .string s =>
    let sh := sh.update [(Value.string s).kind]
    feedStr sh s
  | .stage stageId =>
    let sh := sh.update [(Value.stage stageId).kind]
    let sh := feedStr sh stageId
    sh.update (upstreamBytes upstream stageId)
  | .list items =>
    let sh := sh.update [(Value.list items).kind]
    let sh := feedU64 sh (UInt64.ofNat items.length)
    hashItems sh items
  | .map fields =>
    let sh := sh.update [(Value.map fields).kind]
    let sh := feedU64 sh (UInt64.ofNat fields.length)
    hashFields sh fields

def hashItems (sh : Sha256) : List Value → Sha256
  | [] => sh
  | item :: items => hashItems (hashValue sh item) items

def hashFields (sh : Sha256) : List (String × Value) → Sha256
  | [] => sh
  | (k, child) :: fields => hashFields (hashValue (feedStr sh k) child) fields

end

def hashInputs (context : String) (inputs : Value) : ContentHash :=
  let sh := feedStr {} context
  let sh := hashValue upstream sh inputs
  ⟨sh.finalize, sh.length_finalize⟩

end

/-- `hash_file` on the bytes of a file that opens and reads without error, 64 KiB at a time. -/
def hashChunks : ℕ → Sha256 → List UInt8 → Sha256
  | 0, sh, _ => sh
  | n + 1, sh, data =>
    let got := data.take 65536
    if got.isEmpty then sh else hashChunks n (sh.update got) (data.drop 65536)

def hashFile (data : List UInt8) : ContentHash :=
  let sh := hashChunks (data.length + 1) {} data
  ⟨sh.finalize, sh.length_finalize⟩

/-! ## The bytes that are fed -/

def strBytes (s : String) : List UInt8 := u64Bytes (UInt64.ofNat s.utf8ByteSize) ++ bytesOf s

theorem feedStr_eq (sh : Sha256) (s : String) : feedStr sh s = sh.update (strBytes s) := by
  unfold feedStr feedU64 strBytes
  split_ifs with hempty
  · have hs : s = "" := by simpa using hempty
    subst hs
    rfl
  · rw [Sha256.update_append]

section

variable (upstream : List (String × ContentHash))

mutual

def valueBytes : Value → List UInt8
  | .null => [0]
  | .boolean b => 1 :: [if b then 1 else 0]
  | .number bits => 2 :: u64Bytes bits
  | .string s => 3 :: strBytes s
  | .stage stageId => 4 :: (strBytes stageId ++ upstreamBytes upstream stageId)
  | .list items => 5 :: (u64Bytes (UInt64.ofNat items.length) ++ itemsBytes items)
  | .map fields => 6 :: (u64Bytes (UInt64.ofNat fields.length) ++ fieldsBytes fields)

def itemsBytes : List Value → List UInt8
  | [] => []
  | item :: items => valueBytes item ++ itemsBytes items

def fieldsBytes : List (String × Value) → List UInt8
  | [] => []
  | (k, child) :: fields => strBytes k ++ valueBytes child ++ fieldsBytes fields

end

mutual

theorem hashValue_eq (sh : Sha256) : ∀ v, hashValue upstream sh v = sh.update (valueBytes upstream v)
  | .null => rfl
  | .boolean b => by rw [hashValue, Sha256.update_append]; rfl
  | .number bits => by rw [hashValue, Sha256.update_append]; rfl
  | .string s => by rw [hashValue, feedStr_eq, Sha256.update_append]; rfl
  | .stage stageId => by
    rw [hashValue, feedStr_eq, Sha256.update_append, Sha256.update_append]; rfl
  | .list items => by
    rw [hashValue, feedU64, hashItems_eq, Sha256.update_append, Sha256.update_append]; rfl
  | .map fields => by
    rw [hashValue, feedU64, hashFields_eq, Sha256.update_append, Sha256.update_append]; rfl

theorem hashItems_eq (sh : Sha256) :
    ∀ items, hashItems upstream sh items = sh.update (itemsBytes upstream items)
  | [] => (Sha256.update_nil sh).symm
  | item :: items => by
    rw [hashItems, hashItems_eq, hashValue_eq, Sha256.update_append, itemsBytes]

theorem hashFields_eq (sh : Sha256) :
    ∀ fields, hashFields upstream sh fields = sh.update (fieldsBytes upstream fields)
  | [] => (Sha256.update_nil sh).symm
  | (k, child) :: fields => by
    rw [hashFields, hashFields_eq, hashValue_eq, feedStr_eq, Sha256.update_append,
      Sha256.update_append, fieldsBytes, List.append_assoc]

end

def inputsStream (context : String) (inputs : Value) : List UInt8 :=
  strBytes context ++ valueBytes upstream inputs

theorem hashInputs_bytes (context : String) (inputs : Value) :
    (hashInputs upstream context inputs).bytes = sha256 (inputsStream upstream context inputs) := by
  show (hashValue upstream (feedStr {} context) inputs).finalize = _
  rw [feedStr_eq, hashValue_eq, Sha256.update_append]
  rfl

theorem itemsBytes_eq (items : List Value) :
    itemsBytes upstream items = items.flatMap (valueBytes upstream) := by
  induction items with
  | nil => rfl
  | cons item items ih => rw [itemsBytes, ih, List.flatMap_cons]

theorem fieldsBytes_eq (fields : List (String × Value)) :
    fieldsBytes upstream fields =
      fields.flatMap fun kv => strBytes kv.1 ++ valueBytes upstream kv.2 := by
  induction fields with
  | nil => rfl
  | cons kv fields ih => rw [fieldsBytes, ih, List.flatMap_cons]

end

/-! ## What equal streams have in common -/

/-- The number that bytes stand for, least significant first. -/
def ofBytes : List UInt8 → ℕ
  | [] => 0
  | b :: bs => b.toNat + 256 * ofBytes bs

theorem ofBytes_u64Bytes (v : UInt64) : ofBytes (u64Bytes v) = v.toNat := by
  have hv := v.toNat_lt
  simp [ofBytes, u64Bytes, Nat.shiftRight_eq_div_pow]
  omega

theorem u64Bytes_inj {v w : UInt64} (h : u64Bytes v = u64Bytes w) : v = w := by
  apply UInt64.toNat_inj.mp
  rw [← ofBytes_u64Bytes, h, ofBytes_u64Bytes]

/-- Strings and containers are shorter than 2^64, as `std::size_t` counts them. -/
inductive Value.Sized : Value → Prop
  | null : Sized .null
  | boolean (b : Bool) : Sized (.boolean b)
  | number (bits : UInt64) : Sized (.number bits)
  | string {s : String} (hs : s.utf8ByteSize < 2 ^ 64) : Sized (.string s)
  | stage {stageId : String} (hid : stageId.utf8ByteSize < 2 ^ 64) : Sized (.stage stageId)
  | list {items : List Value} (hlen : items.length < 2 ^ 64) (hitems : ∀ v ∈ items, Sized v) :
    Sized (.list items)
  | map {fields : List (String × Value)} (hlen : fields.length < 2 ^ 64)
    (hkeys : ∀ kv ∈ fields, kv.1.utf8ByteSize < 2 ^ 64) (hfields : ∀ kv ∈ fields, Sized kv.2) :
    Sized (.map fields)

theorem bytesOf_inj {s t : String} (h : bytesOf s = bytesOf t) : s = t := by
  apply String.toByteArray_inj.mp
  exact ByteArray.ext (Array.toList_inj.mp h)

theorem fromUTF8?_bytesOf (s : String) : String.fromUTF8? ⟨(bytesOf s).toArray⟩ = some s := by
  have harr : (⟨(bytesOf s).toArray⟩ : ByteArray) = s.toByteArray := by
    rw [bytesOf, Array.toArray_toList]
    rfl
  rw [harr, String.fromUTF8?, dif_pos s.isValidUTF8]
  rfl

theorem bytesOf_of_fromUTF8? {bytes : List UInt8} {s : String}
    (h : String.fromUTF8? ⟨bytes.toArray⟩ = some s) : bytesOf s = bytes := by
  rw [String.fromUTF8?] at h
  split at h
  · rw [← Option.some.inj h]
    exact List.toList_toArray
  · simp at h

theorem agree_length {m n : ℕ} (hm : m < 2 ^ 64) (hn : n < 2 ^ 64) :
    AgreeOn (m = n) (u64Bytes (UInt64.ofNat m)) (u64Bytes (UInt64.ofNat n)) := by
  refine AgreeOn.of_length rfl fun h => ?_
  have hval := congrArg UInt64.toNat (u64Bytes_inj h)
  rwa [UInt64.toNat_ofNat_of_lt' hm, UInt64.toNat_ofNat_of_lt' hn] at hval

theorem agree_str {s t : String} (hs : s.utf8ByteSize < 2 ^ 64) (ht : t.utf8ByteSize < 2 ^ 64) :
    AgreeOn (s = t) (strBytes s) (strBytes t) := by
  refine ((agree_length hs ht).append fun hlen => ?_).mono And.right
  exact AgreeOn.of_length hlen bytesOf_inj

theorem length_upstreamBytes (upstream : List (String × ContentHash)) (id : String) :
    (upstreamBytes upstream id).length = 32 := by
  unfold upstreamBytes
  split
  · rename_i ch _
    exact ch.size
  · rfl

/-- What two readers of one stream agree on: the tree, and the hash of each stage it refers to. -/
def SameTree (upstream upstream' : List (String × ContentHash)) (v w : Value) : Prop :=
  v = w ∧ ∀ id ∈ collectStageRefs v, upstreamBytes upstream id = upstreamBytes upstream' id

section

variable {upstream upstream' : List (String × ContentHash)}

theorem sameTree_list {items items' : List Value}
    (h : List.Forall₂ (SameTree upstream upstream') items items') :
    SameTree upstream upstream' (.list items) (.list items') := by
  have hitems : items = items' := by
    rw [← List.forall₂_eq_eq_eq]
    exact h.imp fun _ _ hvw => hvw.1
  refine ⟨congrArg _ hitems, ?_⟩
  intro id hid
  obtain ⟨v, hv, hid⟩ := mem_collectStageRefs_list.mp hid
  subst hitems
  exact ((List.forall₂_same.mp h) v hv).2 id hid

theorem sameTree_map {fields fields' : List (String × Value)}
    (h : List.Forall₂ (fun kv kv' => kv.1 = kv'.1 ∧ SameTree upstream upstream' kv.2 kv'.2)
      fields fields') :
    SameTree upstream upstream' (.map fields) (.map fields') := by
  have hfields : fields = fields' := by
    rw [← List.forall₂_eq_eq_eq]
    exact h.imp fun _ _ hkv => Prod.ext hkv.1 hkv.2.1
  refine ⟨congrArg _ hfields, ?_⟩
  intro id hid
  obtain ⟨kv, hkv, hid⟩ := mem_collectStageRefs_map.mp hid
  subst hfields
  exact ((List.forall₂_same.mp h) kv hkv).2.2 id hid

theorem agree_value {v w : Value} (hv : v.Sized) (hw : w.Sized) :
    AgreeOn (SameTree upstream upstream' v w) (valueBytes upstream v) (valueBytes upstream' w) := by
  induction v generalizing w with
  | null =>
    cases w <;> unfold valueBytes
    case null => exact AgreeOn.of_length rfl fun _ => ⟨rfl, fun _ h => nomatch h⟩
    all_goals exact AgreeOn.of_head_ne (by decide)
  | boolean b =>
    cases w <;> unfold valueBytes
    case boolean b' =>
      refine AgreeOn.of_length rfl fun h => ⟨?_, fun _ h => nomatch h⟩
      cases b <;> cases b' <;> first | rfl | nomatch h
    all_goals exact AgreeOn.of_head_ne (by decide)
  | number bits =>
    cases w <;> unfold valueBytes
    case number bits' =>
      refine AgreeOn.of_length rfl fun h => ⟨?_, fun _ h => nomatch h⟩
      rw [u64Bytes_inj (List.cons.inj h).2]
    all_goals exact AgreeOn.of_head_ne (by decide)
  | string s =>
    cases w <;> unfold valueBytes
    case string t =>
      cases hv with | string hs =>
      cases hw with | string ht =>
      exact ((agree_str hs ht).mono fun h => ⟨by rw [h], fun _ h => nomatch h⟩).cons 3
    all_goals exact AgreeOn.of_head_ne (by decide)
  | stage id =>
    cases w <;> unfold valueBytes
    case stage id' =>
      cases hv with | stage hid =>
      cases hw with | stage hid' =>
      have hup : id = id' → AgreeOn (upstreamBytes upstream id = upstreamBytes upstream' id')
          (upstreamBytes upstream id) (upstreamBytes upstream' id') := fun _ =>
        AgreeOn.of_length (by rw [length_upstreamBytes, length_upstreamBytes]) fun h => h
      refine (((agree_str hid hid').append hup).mono ?_).cons 4
      rintro ⟨heq, hbytes⟩
      subst heq
      exact ⟨rfl, fun i hi => by rw [List.mem_singleton.mp hi, hbytes]⟩
    all_goals exact AgreeOn.of_head_ne (by decide)
  | list items ih =>
    cases w <;> unfold valueBytes
    case list items' =>
      cases hv with | list hlen hitems =>
      cases hw with | list hlen' hitems' =>
      rw [itemsBytes_eq, itemsBytes_eq]
      refine (((agree_length hlen hlen').append fun hl => ?_).mono
        fun h => sameTree_list h.2).cons 5
      exact AgreeOn.flatMap hl fun x hx y hy => ih x hx (hitems x hx) (hitems' y hy)
    all_goals exact AgreeOn.of_head_ne (by decide)
  | map fields ih =>
    cases w <;> unfold valueBytes
    case map fields' =>
      cases hv with | map hlen hkeys hfields =>
      cases hw with | map hlen' hkeys' hfields' =>
      rw [fieldsBytes_eq, fieldsBytes_eq]
      refine (((agree_length hlen hlen').append fun hl => ?_).mono
        fun h => sameTree_map h.2).cons 6
      exact AgreeOn.flatMap hl fun x hx y hy =>
        (agree_str (hkeys x hx) (hkeys' y hy)).append fun _ =>
          ih x hx (hfields x hx) (hfields' y hy)
    all_goals exact AgreeOn.of_head_ne (by decide)

/-- Equal streams come from equal contexts and equal trees over equal upstream hashes. -/
theorem inputsStream_inj {context context' : String} {v w : Value}
    (hc : context.utf8ByteSize < 2 ^ 64) (hc' : context'.utf8ByteSize < 2 ^ 64)
    (hv : v.Sized) (hw : w.Sized)
    (h : inputsStream upstream context v = inputsStream upstream' context' w) :
    context = context' ∧ SameTree upstream upstream' v w :=
  ((agree_str hc hc').append fun _ => agree_value hv hw).of_eq h

/-- No hash among them is the one that stands for a stage that is not there. -/
def UnmarkedIds (upstream : List (String × ContentHash)) : Prop :=
  ∀ entry ∈ upstream, entry.2.bytes ≠ List.replicate 32 0xFF

theorem upstreamBytes_inj (hup : UnmarkedIds upstream) (hup' : UnmarkedIds upstream') {id : String}
    (h : upstreamBytes upstream id = upstreamBytes upstream' id) : upstream.lookup id = upstream'.lookup id := by
  have hfound : ∀ {list : List (String × ContentHash)} {ch}, UnmarkedIds list → list.lookup id = some ch →
      ch.bytes ≠ List.replicate 32 0xFF := by
    intro list ch hlist hch
    obtain ⟨before, after, rfl, -⟩ := List.lookup_eq_some_iff.mp hch
    exact hlist (id, ch) (List.mem_append_right _ List.mem_cons_self)
  unfold upstreamBytes at h
  cases hl : upstream.lookup id with
  | none =>
    cases hr : upstream'.lookup id with
    | none => rfl
    | some ch' =>
      rw [hl, hr] at h
      exact absurd h.symm (hfound hup' hr)
  | some ch =>
    cases hr : upstream'.lookup id with
    | none =>
      rw [hl, hr] at h
      exact absurd h (hfound hup hl)
    | some ch' =>
      rw [hl, hr] at h
      exact congrArg some (ContentHash.ext h)

/-- A call is the hash of the bytes that it feeds. Two calls that feed the same bytes have the same context, the same
inputs, and the same hash for every stage that the inputs refer to, or none in both. -/
theorem hashInputs_stream_injective {context context' : String} {inputs inputs' : Value}
    (hup : UnmarkedIds upstream) (hup' : UnmarkedIds upstream')
    (hc : context.utf8ByteSize < 2 ^ 64) (hc' : context'.utf8ByteSize < 2 ^ 64)
    (hv : inputs.Sized) (hw : inputs'.Sized)
    (h : inputsStream upstream context inputs = inputsStream upstream' context' inputs') :
    ((hashInputs upstream context inputs).bytes = sha256 (inputsStream upstream context inputs) ∧
      (hashInputs upstream' context' inputs').bytes = sha256 (inputsStream upstream' context' inputs')) ∧
    context = context' ∧ inputs = inputs' ∧
      ∀ id ∈ collectStageRefs inputs, upstream.lookup id = upstream'.lookup id := by
  obtain ⟨hcontext, hinputs, hrefs⟩ := inputsStream_inj hc hc' hv hw h
  exact ⟨⟨hashInputs_bytes .., hashInputs_bytes ..⟩, hcontext, hinputs,
    fun id hid => upstreamBytes_inj hup hup' (hrefs id hid)⟩

/-- A stage more among the upstream hashes does not show in the stream. -/
theorem hashInputs_stream_injective_unused :
    inputsStream [("mesh", default)] "solve" (.list [.stage "mesh", .boolean true]) =
        inputsStream [("geometry", default), ("mesh", default)] "solve" (.list [.stage "mesh", .boolean true]) ∧
      ((hashInputs [("mesh", default)] "solve" (.list [.stage "mesh", .boolean true])).bytes =
          sha256 (inputsStream [("mesh", default)] "solve" (.list [.stage "mesh", .boolean true])) ∧
        (hashInputs [("geometry", default), ("mesh", default)] "solve" (.list [.stage "mesh", .boolean true])).bytes =
          sha256 (inputsStream [("geometry", default), ("mesh", default)] "solve" (.list [.stage "mesh", .boolean true]))) ∧
      [("mesh", (default : ContentHash))].lookup "mesh" =
        [("geometry", default), ("mesh", default)].lookup "mesh" := by
  have hstream : inputsStream [("mesh", default)] "solve" (.list [.stage "mesh", .boolean true]) =
      inputsStream [("geometry", default), ("mesh", default)] "solve" (.list [.stage "mesh", .boolean true]) := rfl
  have hdefault : (default : ContentHash).bytes ≠ List.replicate 32 0xFF := by decide
  have hone : UnmarkedIds [("mesh", default)] := fun entry hentry => by
    rw [List.mem_singleton.mp hentry]
    exact hdefault
  have htwo : UnmarkedIds [("geometry", default), ("mesh", default)] := fun entry hentry => by
    rcases List.mem_pair.mp hentry with rfl | rfl
    · exact hdefault
    · exact hdefault
  have hsized : Value.Sized (.list [.stage "mesh", .boolean true]) := by
    refine .list (by decide) fun v hv => ?_
    rcases List.mem_pair.mp hv with rfl | rfl
    · exact .stage (by decide)
    · exact .boolean true
  have hmesh : "mesh" ∈ collectStageRefs (.list [.stage "mesh", .boolean true]) :=
    mem_collectStageRefs_list.mpr ⟨.stage "mesh", List.mem_cons_self, List.mem_singleton.mpr rfl⟩
  obtain ⟨hhashes, -, -, hlookup⟩ :=
    hashInputs_stream_injective hone htwo (by decide) (by decide) hsized hsized hstream
  exact ⟨hstream, hhashes, hlookup _ hmesh⟩

theorem valueBytes_congr (v : Value)
    (h : ∀ id ∈ collectStageRefs v, upstreamBytes upstream id = upstreamBytes upstream' id) :
    valueBytes upstream v = valueBytes upstream' v := by
  induction v with
  | null | boolean | number | string => rfl
  | stage id =>
    unfold valueBytes
    rw [h id (List.mem_singleton.mpr rfl)]
  | list items ih =>
    unfold valueBytes
    rw [itemsBytes_eq, itemsBytes_eq, List.flatMap_congr fun v hv => ih v hv fun id hid =>
      h id (mem_collectStageRefs_list.mpr ⟨v, hv, hid⟩)]
  | map fields ih =>
    unfold valueBytes
    rw [fieldsBytes_eq, fieldsBytes_eq, List.flatMap_congr fun kv hkv => by
      rw [ih kv hkv fun id hid => h id (mem_collectStageRefs_map.mpr ⟨kv, hkv, hid⟩)]]

theorem hashInputs_congr (context : String) (v : Value)
    (h : ∀ id ∈ collectStageRefs v, upstreamBytes upstream id = upstreamBytes upstream' id) :
    hashInputs upstream context v = hashInputs upstream' context v := by
  have hstream : inputsStream upstream context v = inputsStream upstream' context v := by
    rw [inputsStream, inputsStream, valueBytes_congr v h]
  have hbytes := hashInputs_bytes upstream context v
  rw [hstream, ← hashInputs_bytes] at hbytes
  exact ContentHash.ext hbytes

end

end Souxmar.Pipeline
