import Souxmar.Lib.Align

/-!
# Where a buffer is placed

`c_abi_buffer.cpp`: the buffers on the heap. A call of `malloc` gives one block for the header and the data; the data
is aligned, and the header stands right before it. The handle of a buffer is the address of its header.
-/

namespace Souxmar.Core.BufferLayout

open Souxmar.Lib.Align

/-- The header has other fields for a mapped file on Windows. -/
inductive Platform
  | posix
  | windows
deriving DecidableEq, Repr

/-- `sizeof(BufferHeader)` with 64-bit pointers. -/
def Platform.headerSize : Platform → UInt64
  | .posix => 48
  | .windows => 64

def kAlignment : UInt64 := 16

/-- `SXPB`, little-endian. -/
def kMagic : UInt32 := 0x53585042

inductive BufferKind
  | heap
  | mmap
  | mmapReadOnly
deriving DecidableEq, Repr

def BufferKind.code : BufferKind → UInt32
  | .heap => 0
  | .mmap => 1
  | .mmapReadOnly => 2

/-- The descriptor of the mapped file is only there on POSIX. -/
structure BufferHeader where
  magic : UInt32
  kind : UInt32
  size : UInt64
  allocation : UInt64
  mapAddr : UInt64
  mapLength : UInt64
  mapFd : Option Int32
deriving DecidableEq, Repr

/-- What `memset` leaves of a header. -/
def BufferHeader.zero : Platform → BufferHeader
  | .posix => ⟨0, 0, 0, 0, 0, 0, some 0⟩
  | .windows => ⟨0, 0, 0, 0, 0, 0, none⟩

/-- What the memory holds where a header starts. -/
abbrev Headers := UInt64 → BufferHeader

def Headers.store (mem : Headers) (address : UInt64) (header : BufferHeader) : Headers := fun a =>
  if a = address then header else mem a

section

variable (p : Platform)

/-- What is asked of `malloc`: the slack for the alignment is a whole unit of it. -/
def totalBytes (sizeBytes : UInt64) : UInt64 := p.headerSize + sizeBytes + kAlignment

/-- The data area of a block. -/
def dataAddr (rawAddr : UInt64) : UInt64 := (rawAddr + p.headerSize + (kAlignment - 1)) &&& ~~~(kAlignment - 1)

/-- The null handle is 0. -/
def souxmarBufferNew (malloc : UInt64 → UInt64) (mem : Headers) (sizeBytes : UInt64) : UInt64 × Headers :=
  if sizeBytes = 0 then (0, mem)
  else if sizeBytes > 0xFFFFFFFFFFFFFFFF - p.headerSize - kAlignment then (0, mem)
  else
    let raw := malloc (totalBytes p sizeBytes)
    if raw = 0 then (0, mem)
    else
      let address := dataAddr p raw - p.headerSize
      let header := { BufferHeader.zero p with
        magic := kMagic, kind := BufferKind.heap.code, size := sizeBytes, allocation := raw,
        mapFd := (BufferHeader.zero p).mapFd.map fun _ => -1 }
      (address, mem.store address header)

/-- A buffer that is mapped read-only has no writable view. -/
def souxmarBufferData (mem : Headers) (buffer : UInt64) : UInt64 :=
  if buffer = 0 then 0
  else
    let header := mem buffer
    if header.magic ≠ kMagic then 0
    else if header.kind = BufferKind.mmapReadOnly.code then 0
    else if header.kind = BufferKind.mmap.code then header.mapAddr
    else buffer + p.headerSize

end

/-- A header and `size` bytes of data in the block of `total` bytes at `raw`. -/
structure PlacedIn (p : Platform) (raw total size handle data : UInt64) : Prop where
  from_raw : raw.toNat ≤ handle.toNat
  aligned : kAlignment.toNat ∣ data.toNat
  apart : handle.toNat + p.headerSize.toNat ≤ data.toNat
  inside : data.toNat + size.toNat ≤ raw.toNat + total.toNat
  no_wrap : data.toNat + size.toNat < 2 ^ 64

@[simp] theorem kAlignment_toNat : kAlignment.toNat = 16 := rfl

theorem headerSize_le (p : Platform) : p.headerSize.toNat ≤ 64 := by cases p <;> decide

theorem Headers.store_self (mem : Headers) (address : UInt64) (header : BufferHeader) :
    mem.store address header address = header := if_pos rfl

theorem totalBytes_toNat {p : Platform} {size : UInt64} (h : ¬size > 0xFFFFFFFFFFFFFFFF - p.headerSize - kAlignment) :
    (totalBytes p size).toNat = p.headerSize.toNat + size.toNat + 16 := by
  have hle : size.toNat ≤ 0xFFFFFFFFFFFFFFFF - p.headerSize.toNat - 16 := by
    rw [gt_iff_lt, UInt64.lt_iff_toNat_lt, Nat.not_lt] at h
    cases p <;> exact h
  have hheader := headerSize_le p
  rw [totalBytes, UInt64.toNat_add, UInt64.toNat_add, kAlignment_toNat]
  omega

theorem dataAddr_placed {p : Platform} {raw total size : UInt64} (hsize : size ≠ 0)
    (htotal : total.toNat = p.headerSize.toNat + size.toNat + 16) (hraw : raw.toNat + total.toNat ≤ 2 ^ 64) :
    PlacedIn p raw total size (dataAddr p raw - p.headerSize) (dataAddr p raw) := by
  have hpos : 0 < size.toNat := Nat.pos_of_ne_zero fun h => hsize (UInt64.toNat_inj.mp h)
  have hbase : (raw + p.headerSize).toNat = raw.toNat + p.headerSize.toNat := by
    rw [UInt64.toNat_add, Nat.mod_eq_of_lt (by omega)]
  obtain ⟨hle, hlt, hdvd⟩ : (raw + p.headerSize).toNat ≤ (dataAddr p raw).toNat ∧
      (dataAddr p raw).toNat < (raw + p.headerSize).toNat + 2 ^ 4 ∧ 2 ^ 4 ∣ (dataAddr p raw).toNat :=
    alignUp_spec kAlignment_toNat (by omega)
  have hhandle : (dataAddr p raw - p.headerSize).toNat = (dataAddr p raw).toNat - p.headerSize.toNat :=
    UInt64.toNat_sub_of_le _ _ (UInt64.le_iff_toNat_le.mpr (by omega))
  exact
    { from_raw := by omega
      aligned := hdvd
      apart := by omega
      inside := by omega
      no_wrap := by omega }

theorem data_of_heap {p : Platform} {mem : Headers} {buffer : UInt64} (hbuffer : buffer ≠ 0)
    (hmagic : (mem buffer).magic = kMagic) (hkind : (mem buffer).kind = BufferKind.heap.code) :
    souxmarBufferData p mem buffer = buffer + p.headerSize := by
  have hro : ¬(mem buffer).kind = BufferKind.mmapReadOnly.code := by rw [hkind]; decide
  have hrw : ¬(mem buffer).kind = BufferKind.mmap.code := by rw [hkind]; decide
  rw [souxmarBufferData, if_neg hbuffer]
  dsimp only
  rw [if_neg (not_not_intro hmagic), if_neg hro, if_neg hrw]

/-- A block of `malloc` lies in the address space. A call of `souxmar_buffer_new` answers with the null handle, or the
header and the data lie in the block as they should, and the data is found again from the handle for as long as the
header stands. -/
theorem buffer_new_placed (p : Platform) (malloc : UInt64 → UInt64)
    (hmalloc : ∀ n, malloc n ≠ 0 → (malloc n).toNat + n.toNat ≤ 2 ^ 64)
    (mem : Headers) (size handle : UInt64) (mem' : Headers) (hnew : souxmarBufferNew p malloc mem size = (handle, mem')) :
    handle = 0 ∨
      ∃ raw total data,
        raw = malloc total ∧ raw ≠ 0 ∧ total.toNat = p.headerSize.toNat + size.toNat + kAlignment.toNat ∧
        raw.toNat + total.toNat ≤ 2 ^ 64 ∧ PlacedIn p raw total size handle data ∧
        ∀ later : Headers, later handle = mem' handle → souxmarBufferData p later handle = data := by
  rw [souxmarBufferNew] at hnew
  split at hnew
  · exact .inl (congrArg Prod.fst hnew).symm
  split at hnew
  · exact .inl (congrArg Prod.fst hnew).symm
  rename_i hsize hfits
  dsimp only at hnew
  split at hnew
  · exact .inl (congrArg Prod.fst hnew).symm
  rename_i hraw
  obtain ⟨rfl, rfl⟩ := Prod.mk.inj hnew
  have htotal := totalBytes_toNat hfits
  have hplaced := dataAddr_placed hsize htotal (hmalloc _ hraw)
  have hpos : 0 < (malloc (totalBytes p size)).toNat := Nat.pos_of_ne_zero fun h => hraw (UInt64.toNat_inj.mp h)
  have hhandle : dataAddr p (malloc (totalBytes p size)) - p.headerSize ≠ 0 := by
    intro h
    have hfrom := hplaced.from_raw
    rw [h] at hfrom
    exact absurd hpos (Nat.not_lt.mpr hfrom)
  refine .inr ⟨_, _, _, rfl, hraw, htotal, hmalloc _ hraw, hplaced, fun later hlater => ?_⟩
  rw [Headers.store_self] at hlater
  rw [data_of_heap hhandle (congrArg BufferHeader.magic hlater) (congrArg BufferHeader.kind hlater)]
  exact UInt64.sub_add_cancel ..

/-- A block at an odd address, and room for one byte. -/
theorem buffer_new_placed_odd :
    (souxmarBufferNew .posix (fun n => if n = 65 then 4097 else 0) (fun _ => BufferHeader.zero .posix) 1).1 = 4112 ∧
      ∃ raw total data : UInt64,
        raw.toNat = 4097 ∧ total.toNat = 65 ∧ PlacedIn .posix raw total 1 4112 data := by
  have hmalloc : ∀ n : UInt64, (if n = 65 then (4097 : UInt64) else 0) ≠ 0 →
      (if n = 65 then (4097 : UInt64) else 0).toNat + n.toNat ≤ 2 ^ 64 := by
    intro n hn
    by_cases h : n = 65
    · rw [h]; decide
    · exact absurd (if_neg h) hn
  have hhandle : (souxmarBufferNew .posix (fun n => if n = 65 then 4097 else 0)
      (fun _ => BufferHeader.zero .posix) 1).1 = 4112 := by decide
  refine ⟨hhandle, ?_⟩
  obtain h | ⟨raw, total, data, hraw, -, htotal, -, hplaced, -⟩ :=
    buffer_new_placed .posix (fun n => if n = 65 then 4097 else 0) hmalloc (fun _ => BufferHeader.zero .posix) 1 4112
      _ (Prod.ext hhandle rfl)
  · exact absurd h (by decide)
  · have h65 : total = 65 := UInt64.toNat_inj.mp htotal
    refine ⟨raw, total, data, ?_, htotal, hplaced⟩
    rw [hraw, h65]
    rfl

end Souxmar.Core.BufferLayout
