import Souxmar.Pipeline.RegistryDispatcher
import Mathlib.Data.UInt
import Mathlib.Tactic.Ring

/-!
# Stage outputs as bytes

`serialize_stage_output` and `deserialize_stage_output` with the sizes the code computes with: paths
and blobs are any bytes, a length is eight of them, and the comparison `blob.size() != 9 + len` is made
modulo 2^64. The decoder accepts a blob only if it is the encoding of what it returns.
-/

set_option linter.dupNamespace false

namespace Souxmar.Pipeline

/-! ## Numbers in little-endian order -/

theorem ofBytes_append (u v : List UInt8) :
    ofBytes (u ++ v) = ofBytes u + 256 ^ u.length * ofBytes v := by
  induction u with
  | nil => simp [ofBytes]
  | cons b u ih =>
    rw [List.cons_append, ofBytes, ofBytes, ih, List.length_cons, Nat.pow_succ]
    ring

theorem ofBytes_lt (u : List UInt8) : ofBytes u < 256 ^ u.length := by
  induction u with
  | nil => simp [ofBytes]
  | cons b u ih =>
    have hb := b.toNat_lt
    rw [ofBytes, List.length_cons, Nat.pow_succ]
    omega

theorem ofBytes_inj {u v : List UInt8} (hlen : u.length = v.length) (h : ofBytes u = ofBytes v) :
    u = v := by
  induction u generalizing v with
  | nil => exact (List.eq_nil_of_length_eq_zero hlen.symm).symm
  | cons b u ih =>
    cases v with
    | nil => simp at hlen
    | cons c v =>
      have hb := b.toNat_lt
      have hc := c.toNat_lt
      rw [ofBytes, ofBytes] at h
      have hhead : b = c := UInt8.toNat_inj.mp (by omega)
      have htail : u = v := ih (by simpa using hlen) (by omega)
      rw [hhead, htail]

theorem u64Bytes_ofBytes {u : List UInt8} (hlen : u.length = 8) :
    u64Bytes (UInt64.ofNat (ofBytes u)) = u := by
  have hlt : ofBytes u < 2 ^ 64 := by
    have h := ofBytes_lt u
    rw [hlen] at h
    omega
  apply ofBytes_inj
  · rw [hlen]
    rfl
  · rw [ofBytes_u64Bytes, UInt64.toNat_ofNat_of_lt' hlt]

namespace OnDisk

/-! ## The records -/

inductive Kind
  | none
  | mesh
  | geometry
  | field
  | path
deriving DecidableEq, Repr

/-- The underlying value of the enumerator, as it is cast to a byte. -/
def Kind.byte : Kind → UInt8
  | none => 0
  | mesh => 1
  | geometry => 2
  | field => 3
  | path => 4

/-- The bytes of a `std::string`, which is never longer than its `max_size`. -/
@[ext] structure Path where
  bytes : List UInt8
  size : bytes.length < 2 ^ 63
deriving DecidableEq, Repr

/-- The bytes that a vector or a span shows; their number is a `std::size_t`. -/
@[ext] structure Blob where
  bytes : List UInt8
  size : bytes.length < 2 ^ 64
deriving DecidableEq, Repr

theorem Path.empty_size : ([] : List UInt8).length < 2 ^ 63 := by decide

instance : Inhabited Path := ⟨⟨[], Path.empty_size⟩⟩

/-- The record `StageOutput`, with all of its members. -/
@[ext] structure StageOutput (M G F : Type) where
  kind : Kind := .none
  mesh : Option M := .none
  geometry : Option G := .none
  field : Option F := .none
  path : Path := default
deriving DecidableEq, Repr

variable {M G F : Type}

/-- The record of a writer's output: the kind, the path, and nothing else. -/
def StageOutput.ofPath (path : Path) : StageOutput M G F := { kind := .path, path }

/-! ## The code -/

theorem Path.blob_size (path : Path) :
    (Kind.path.byte :: (u64Bytes (UInt64.ofNat path.bytes.length) ++ path.bytes)).length < 2 ^ 64 := by
  have h := path.size
  simp only [List.length_cons, List.length_append, show ∀ v, (u64Bytes v).length = 8 from fun _ => rfl]
  omega

/-- `serialize_stage_output` of a payload, which may be null. -/
def serializeStageOutput (payload : Option (StageOutput M G F)) : Option Blob :=
  match payload with
  | none => none
  | some so =>
    if so.kind ≠ .path then none
    else
      let len := UInt64.ofNat so.path.bytes.length
      some ⟨Kind.path.byte :: (u64Bytes len ++ so.path.bytes), so.path.blob_size⟩

/-- The loop over the eight bytes of the length, least significant first. -/
def readLength (blob : List UInt8) : UInt64 :=
  (List.range 8).foldl
    (fun len i => len ||| (blob.getD (1 + i) 0).toUInt64 <<< (8 * UInt64.ofNat i)) 0

theorem Path.cut_size (blob : Blob) (len : ℕ) (h : len < 2 ^ 63) :
    ((blob.bytes.drop 9).take len).length < 2 ^ 63 :=
  (List.length_take_le _ _).trans_lt h

/-- `deserialize_stage_output`, where `exists_` answers whether a path names a file just now. The
constructor of a string longer than `max_size` throws, which accepts nothing either. -/
def deserializeStageOutput (exists_ : Path → Bool) (blob : Blob) : Option (StageOutput M G F) :=
  if blob.bytes.length < 9 then none
  else if blob.bytes.getD 0 0 ≠ Kind.path.byte then none
  else
    let len := readLength blob.bytes
    if UInt64.ofNat blob.bytes.length ≠ 9 + len then none
    else if h : len.toNat < 2 ^ 63 then
      let path : Path := ⟨(blob.bytes.drop 9).take len.toNat, Path.cut_size blob _ h⟩
      if exists_ path then some { kind := .path, path } else none
    else none

/-! ## The length field -/

theorem or_shifted_byte {len : UInt64} {n : ℕ} (b : UInt8) (hn : n < 8)
    (hlen : len.toNat < 256 ^ n) :
    (len ||| b.toUInt64 <<< (8 * UInt64.ofNat n)).toNat = len.toNat + 256 ^ n * b.toNat := by
  have hb := b.toNat_lt
  have hpow : (256 : ℕ) ^ n = 2 ^ (8 * n) := by
    rw [Nat.pow_mul]
  have hn64 : n < UInt64.size := by
    rw [UInt64.size]
    omega
  have hshift : (8 * UInt64.ofNat n).toNat = 8 * n := by
    rw [UInt64.toNat_mul, UInt64.toNat_ofNat_of_lt' hn64]
    exact Nat.mod_eq_of_lt (by simp; omega)
  have hfits : b.toNat * 2 ^ (8 * n) < 2 ^ 64 := by
    calc b.toNat * 2 ^ (8 * n) < 2 ^ 8 * 2 ^ (8 * n) := by
          exact Nat.mul_lt_mul_of_pos_right hb (Nat.two_pow_pos _)
      _ = 2 ^ (8 + 8 * n) := (Nat.pow_add ..).symm
      _ ≤ 2 ^ 64 := Nat.pow_le_pow_right (by decide) (by omega)
  rw [UInt64.toNat_or, UInt64.toNat_shiftLeft, hshift, UInt8.toNat_toUInt64,
    Nat.shiftLeft_eq, Nat.mod_eq_of_lt (show 8 * n < 64 by omega), Nat.mod_eq_of_lt hfits, Nat.or_comm,
    Nat.mul_comm b.toNat, hpow, ← Nat.two_pow_add_eq_or_of_lt (hpow ▸ hlen), Nat.add_comm]

theorem toNat_readLength {blob : List UInt8} (hlong : 9 ≤ blob.length) :
    (readLength blob).toNat = ofBytes ((blob.drop 1).take 8) := by
  have hloop : ∀ n ≤ 8, ((List.range n).foldl
      (fun len i => len ||| (blob.getD (1 + i) 0).toUInt64 <<< (8 * UInt64.ofNat i)) 0).toNat =
        ofBytes ((blob.drop 1).take n) := by
    intro n hn
    induction n with
    | zero => rfl
    | succ n ih =>
      have hn' : n < (blob.drop 1).length := by simp; omega
      have hcut : (blob.drop 1).take (n + 1) = (blob.drop 1).take n ++ [blob.getD (1 + n) 0] := by
        rw [List.take_succ_eq_append_getElem hn', List.getElem_drop,
          List.getD_eq_getElem?_getD, List.getElem?_eq_getElem, Option.getD_some]
      have htake : ((blob.drop 1).take n).length = n := by
        rw [List.length_take]
        omega
      have hlt := ofBytes_lt ((blob.drop 1).take n)
      rw [htake] at hlt
      rw [List.range_succ, List.foldl_append, List.foldl_cons, List.foldl_nil,
        or_shifted_byte _ hn (by rw [ih (by omega)]; exact hlt), ih (by omega), hcut,
        ofBytes_append, htake, ofBytes, ofBytes, Nat.mul_zero, Nat.add_zero]
  exact hloop 8 le_rfl

theorem length_check {size : ℕ} {len : UInt64} (hsize : size < 2 ^ 64) (hlong : 9 ≤ size) :
    UInt64.ofNat size = 9 + len ↔ len.toNat = size - 9 := by
  have hlen := len.toNat_lt
  rw [← UInt64.toNat_inj, UInt64.toNat_ofNat_of_lt' hsize, UInt64.toNat_add]
  simp only [UInt64.reduceToNat]
  omega

/-! ## Exactness -/

variable {exists_ : Path → Bool}

theorem serialize_ofPath (path : Path) :
    serializeStageOutput (some (StageOutput.ofPath path : StageOutput M G F)) =
      some ⟨Kind.path.byte :: (u64Bytes (UInt64.ofNat path.bytes.length) ++ path.bytes),
        path.blob_size⟩ := rfl

theorem serialize_kind {so : StageOutput M G F} {blob : Blob}
    (h : serializeStageOutput (some so) = some blob) : so.kind = .path := by
  by_contra hkind
  simp [serializeStageOutput, hkind] at h

theorem split_blob {blob : List UInt8} (hlong : 9 ≤ blob.length) :
    blob = blob.getD 0 0 :: ((blob.drop 1).take 8 ++ blob.drop 9) := by
  cases blob with
  | nil => simp at hlong
  | cons b blob =>
    have hrest : (b :: blob).drop 9 = blob.drop 8 := rfl
    rw [hrest]
    simp

theorem accepted_is_encoding {blob : Blob} {so : StageOutput M G F}
    (h : deserializeStageOutput exists_ blob = some so) :
    exists_ so.path = true ∧ so = StageOutput.ofPath so.path ∧
      serializeStageOutput (some so) = some blob := by
  unfold deserializeStageOutput at h
  dsimp only at h
  split_ifs at h with hshort htag hlen hfits hthere
  rw [Nat.not_lt] at hshort
  rw [not_not] at htag hlen
  obtain rfl := Option.some.inj h
  refine ⟨hthere, rfl, ?_⟩
  have hsize := (length_check blob.size hshort).mp hlen
  have hlength : (blob.bytes.drop 9).length = (readLength blob.bytes).toNat := by
    rw [List.length_drop, hsize]
  have hall : (blob.bytes.drop 9).take (readLength blob.bytes).toNat = blob.bytes.drop 9 :=
    List.take_of_length_le hlength.le
  have hfield : u64Bytes (UInt64.ofNat (blob.bytes.drop 9).length) = (blob.bytes.drop 1).take 8 := by
    rw [hlength, toNat_readLength hshort]
    apply u64Bytes_ofBytes
    simp
    omega
  have hbytes := split_blob hshort
  rw [htag, ← hfield] at hbytes
  rw [← StageOutput.ofPath, serialize_ofPath]
  congr 1
  apply Blob.ext
  simp only [hall]
  exact hbytes.symm

theorem accepted_of_checks {blob : Blob} {path : Path} (hlong : 9 ≤ blob.bytes.length)
    (htag : blob.bytes.getD 0 0 = Kind.path.byte)
    (hlen : (readLength blob.bytes).toNat = blob.bytes.length - 9)
    (hpath : blob.bytes.drop 9 = path.bytes) (hthere : exists_ path = true) :
    deserializeStageOutput exists_ blob = some (StageOutput.ofPath path : StageOutput M G F) := by
  have hlength : path.bytes.length = (readLength blob.bytes).toNat := by
    rw [hlen, ← hpath, List.length_drop]
  have hfits : (readLength blob.bytes).toNat < 2 ^ 63 := hlength ▸ path.size
  have hcut : (⟨(blob.bytes.drop 9).take (readLength blob.bytes).toNat, Path.cut_size blob _ hfits⟩ :
      Path) = path := by
    apply Path.ext
    dsimp only
    rw [hpath, ← hlength, List.take_length]
  unfold deserializeStageOutput
  dsimp only
  rw [if_neg (Nat.not_lt.mpr hlong), if_neg (not_not.mpr htag),
    if_neg (not_not.mpr ((length_check blob.size hlong).mpr hlen)), dif_pos hfits, hcut,
    if_pos hthere]
  rfl

theorem encoding_is_accepted {path : Path} {blob : Blob}
    (hser : serializeStageOutput (some (StageOutput.ofPath path : StageOutput M G F)) = some blob)
    (hthere : exists_ path = true) :
    deserializeStageOutput exists_ blob = some (StageOutput.ofPath path : StageOutput M G F) := by
  have hpath := path.size
  rw [serialize_ofPath] at hser
  obtain rfl := Option.some.inj hser
  have hsize : (Kind.path.byte :: (u64Bytes (UInt64.ofNat path.bytes.length) ++ path.bytes)).length =
      path.bytes.length + 9 := by
    simp [u64Bytes]
  apply accepted_of_checks
  · dsimp only
    omega
  · rfl
  · dsimp only
    rw [hsize, toNat_readLength (by omega)]
    exact (ofBytes_u64Bytes _).trans (UInt64.toNat_ofNat_of_lt' (by simp [UInt64.size]; omega))
  · rfl
  · exact hthere

theorem prefix_of_encoding {blob blob' : Blob} {so so' : StageOutput M G F}
    (h : serializeStageOutput (some so) = some blob)
    (h' : serializeStageOutput (some so') = some blob') (hpre : blob'.bytes <+: blob.bytes) :
    blob' = blob := by
  have hkind := serialize_kind h
  have hkind' := serialize_kind h'
  simp only [serializeStageOutput, hkind, hkind', ne_eq, not_true_eq_false, if_false,
    Option.some.injEq] at h h'
  subst h h'
  obtain ⟨rest, hrest⟩ := hpre
  simp only [List.cons_append, List.append_assoc, List.cons.injEq, true_and] at hrest
  have hsplit := List.append_inj hrest rfl
  have hlen := congrArg UInt64.toNat (u64Bytes_inj hsplit.1)
  have hpath := so.path.size
  have hpath' := so'.path.size
  rw [UInt64.toNat_ofNat_of_lt' (by simp [UInt64.size]; omega),
    UInt64.toNat_ofNat_of_lt' (by simp [UInt64.size]; omega)] at hlen
  have hsame := (List.append_inj (hsplit.2.trans (List.append_nil _).symm) hlen).1
  apply Blob.ext
  simp only [hsame]

/-! ## The model with text paths

`serializeStageOutput` and `deserializeStageOutput` of the dispatcher's model take paths as text and
lengths as natural numbers. On paths that are text they are the code above. -/

/-- The paths that are text and name a file. -/
def namesFile (files : Files) (path : Path) : Bool :=
  match String.fromUTF8? ⟨path.bytes.toArray⟩ with
  | some s => (files s).isSome
  | none => false

theorem serialize_text (s : String) (hs : (bytesOf s).length < 2 ^ 63) :
    Pipeline.serializeStageOutput (.path s : Pipeline.StageOutput M G F) =
      (serializeStageOutput (some (StageOutput.ofPath ⟨bytesOf s, hs⟩ : StageOutput M G F))).map
        Blob.bytes := rfl

theorem deserialize_text (blob : Blob) (files : Files) (s : String)
    (hs : (bytesOf s).length < 2 ^ 63) :
    Pipeline.deserializeStageOutput blob.bytes files =
        some (.path s : Pipeline.StageOutput M G F) ↔
      deserializeStageOutput (namesFile files) blob =
        some (StageOutput.ofPath ⟨bytesOf s, hs⟩ : StageOutput M G F) := by
  constructor
  · intro h
    unfold Pipeline.deserializeStageOutput at h
    dsimp only at h
    split_ifs at h with hshort htag hlen
    rw [not_not] at htag hlen
    split at h
    · simp at h
    · rename_i path hpath
      split_ifs at h with hthere
      obtain rfl : path = s := by simpa using h
      apply accepted_of_checks (by omega)
      · rw [List.getD_eq_getElem?_getD, ← List.head?_eq_getElem?, htag]
        rfl
      · rw [toNat_readLength (by omega)]
        omega
      · exact (bytesOf_of_fromUTF8? hpath).symm
      · rw [namesFile, fromUTF8?_bytesOf]
        exact hthere
  · intro h
    obtain ⟨hthere, -, hser⟩ := accepted_is_encoding h
    rw [serialize_ofPath] at hser
    obtain rfl := Option.some.inj hser
    rw [StageOutput.ofPath, namesFile, fromUTF8?_bytesOf] at hthere
    have hfield : ofBytes (((Kind.path.byte :: (u64Bytes (UInt64.ofNat (bytesOf s).length) ++
        bytesOf s)).drop 1).take 8) = (bytesOf s).length :=
      (ofBytes_u64Bytes _).trans (UInt64.toNat_ofNat_of_lt' (by simp [UInt64.size]; omega))
    have hsize : (Kind.path.byte :: (u64Bytes (UInt64.ofNat (bytesOf s).length) ++
        bytesOf s)).length = 9 + (bytesOf s).length := by
      simp [u64Bytes]
      omega
    have hrest : (Kind.path.byte :: (u64Bytes (UInt64.ofNat (bytesOf s).length) ++ bytesOf s)).drop 9 =
        bytesOf s := rfl
    unfold Pipeline.deserializeStageOutput
    dsimp only
    rw [hsize, hfield, hrest, fromUTF8?_bytesOf, if_neg (by omega),
      if_neg (by simp [Kind.byte]), if_neg (by simp)]
    simp only [hthere, if_true]

/-- What is written for an output with a path to an existing file is read back as that output; what is
read at all is what is written for the output it gives; and a blob cut short or padded is a miss. -/
theorem stage_output_codec_exact :
    (∀ path : Path, exists_ path = true → ∃ blob,
      serializeStageOutput (some (StageOutput.ofPath path : StageOutput M G F)) = some blob ∧
        deserializeStageOutput exists_ blob = some (StageOutput.ofPath path : StageOutput M G F)) ∧
    (∀ (blob : Blob) (so : StageOutput M G F), deserializeStageOutput exists_ blob = some so →
      serializeStageOutput (some so) = some blob ∧ so = StageOutput.ofPath so.path ∧
        exists_ so.path = true) ∧
    (∀ (payload : Option (StageOutput M G F)) (blob : Blob),
      serializeStageOutput payload = some blob → ∃ so, payload = some so ∧ so.kind = .path) ∧
    ∀ (so : StageOutput M G F) (blob blob' : Blob), serializeStageOutput (some so) = some blob →
      blob'.bytes <+: blob.bytes ∨ blob.bytes <+: blob'.bytes → blob' ≠ blob →
        deserializeStageOutput exists_ blob' = (none : Option (StageOutput M G F)) := by
  refine ⟨fun path hthere => ⟨_, rfl, encoding_is_accepted rfl hthere⟩, fun blob so h => ?_,
    fun payload blob h => ?_, fun so blob blob' h hpre hne => ?_⟩
  · obtain ⟨hthere, hpath, hser⟩ := accepted_is_encoding h
    exact ⟨hser, hpath, hthere⟩
  · cases payload with
    | none => simp [serializeStageOutput] at h
    | some so => exact ⟨so, rfl, serialize_kind h⟩
  · rw [Option.eq_none_iff_forall_ne_some]
    intro so' h'
    have hser' := (accepted_is_encoding h').2.2
    rcases hpre with hpre | hpre
    · exact hne (prefix_of_encoding h hser' hpre)
    · exact hne (prefix_of_encoding hser' h hpre).symm

end OnDisk

end Souxmar.Pipeline
