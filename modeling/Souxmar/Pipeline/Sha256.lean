import Mathlib.Algebra.Group.Nat.Defs
import Mathlib.Data.List.Basic

/-!
# SHA-256

The class `Sha256` of `cache.cpp`: eight chaining words, a buffer of fewer than 64 bytes and a bit
counter. `update` fills the buffer a chunk at a time; `update_append` says that only the bytes
matter, not how they are cut into calls.
-/

namespace Souxmar.Pipeline

def kK : List UInt32 := [
  0x428a2f98, 0x71374491, 0xb5c0fbcf, 0xe9b5dba5, 0x3956c25b, 0x59f111f1, 0x923f82a4, 0xab1c5ed5,
  0xd807aa98, 0x12835b01, 0x243185be, 0x550c7dc3, 0x72be5d74, 0x80deb1fe, 0x9bdc06a7, 0xc19bf174,
  0xe49b69c1, 0xefbe4786, 0x0fc19dc6, 0x240ca1cc, 0x2de92c6f, 0x4a7484aa, 0x5cb0a9dc, 0x76f988da,
  0x983e5152, 0xa831c66d, 0xb00327c8, 0xbf597fc7, 0xc6e00bf3, 0xd5a79147, 0x06ca6351, 0x14292967,
  0x27b70a85, 0x2e1b2138, 0x4d2c6dfc, 0x53380d13, 0x650a7354, 0x766a0abb, 0x81c2c92e, 0x92722c85,
  0xa2bfe8a1, 0xa81a664b, 0xc24b8b70, 0xc76c51a3, 0xd192e819, 0xd6990624, 0xf40e3585, 0x106aa070,
  0x19a4c116, 0x1e376c08, 0x2748774c, 0x34b0bcb5, 0x391c0cb3, 0x4ed8aa4a, 0x5b9cca4f, 0x682e6ff3,
  0x748f82ee, 0x78a5636f, 0x84c87814, 0x8cc70208, 0x90befffa, 0xa4506ceb, 0xbef9a3f7, 0xc67178f2]

def rotr32 (x : UInt32) (n : UInt32) : UInt32 := (x >>> n) ||| (x <<< (32 - n))

namespace Sha256

/-- The eight words `h_`, and the working variables `a` to `hh`. -/
structure Words where
  (a b c d e f g h : UInt32)
deriving DecidableEq, Repr

def kInitH : Words :=
  ⟨0x6a09e667, 0xbb67ae85, 0x3c6ef372, 0xa54ff53a, 0x510e527f, 0x9b05688c, 0x1f83d9ab, 0x5be0cd19⟩

/-- The big-endian words of a block. -/
def blockWords : List UInt8 → List UInt32
  | b0 :: b1 :: b2 :: b3 :: block =>
    ((b0.toUInt32 <<< 24) ||| (b1.toUInt32 <<< 16) ||| (b2.toUInt32 <<< 8) ||| b3.toUInt32)
      :: blockWords block
  | _ => []

/-- The message schedule, newest word first: `w[i - k]` is entry `k - 1`. -/
def schedule : ℕ → List UInt32 → List UInt32
  | 0, w => w
  | n + 1, w =>
    let w15 := w.getD 14 0
    let w2 := w.getD 1 0
    let s0 := rotr32 w15 7 ^^^ rotr32 w15 18 ^^^ (w15 >>> 3)
    let s1 := rotr32 w2 17 ^^^ rotr32 w2 19 ^^^ (w2 >>> 10)
    schedule n ((w.getD 15 0 + s0 + w.getD 6 0 + s1) :: w)

/-- One of the 64 rounds, with its constant and its word of the schedule. -/
def round (s : Words) (kw : UInt32 × UInt32) : Words :=
  let S1 := rotr32 s.e 6 ^^^ rotr32 s.e 11 ^^^ rotr32 s.e 25
  let ch := (s.e &&& s.f) ^^^ (~~~ s.e &&& s.g)
  let temp1 := s.h + S1 + ch + kw.1 + kw.2
  let S0 := rotr32 s.a 2 ^^^ rotr32 s.a 13 ^^^ rotr32 s.a 22
  let maj := (s.a &&& s.b) ^^^ (s.a &&& s.c) ^^^ (s.b &&& s.c)
  let temp2 := S0 + maj
  ⟨temp1 + temp2, s.a, s.b, s.c, s.d + temp1, s.e, s.f, s.g⟩

def compress (h : Words) (block : List UInt8) : Words :=
  let w := (schedule 48 (blockWords block).reverse).reverse
  let s := (kK.zip w).foldl round h
  ⟨h.a + s.a, h.b + s.b, h.c + s.c, h.d + s.d, h.e + s.e, h.f + s.f, h.g + s.g, h.h + s.h⟩

def wordBytes (w : UInt32) : List UInt8 :=
  [(w >>> 24).toUInt8, (w >>> 16).toUInt8, (w >>> 8).toUInt8, w.toUInt8]

def Words.bytes (h : Words) : List UInt8 :=
  [h.a, h.b, h.c, h.d, h.e, h.f, h.g, h.h].flatMap wordBytes

@[simp] theorem Words.length_bytes (h : Words) : h.bytes.length = 32 := rfl

theorem short_nil : ([] : List UInt8).length < 64 := by decide

end Sha256

structure Sha256 where
  h : Sha256.Words := Sha256.kInitH
  buf : List UInt8 := []
  bitCount : UInt64 := 0
  short : buf.length < 64 := by exact Sha256.short_nil

namespace Sha256

/-- One pass of the loop of `update`: a chunk that fits goes into the buffer, which is compressed
when it is full. -/
def absorb (sh : Sha256) (chunk : List UInt8) (hfits : sh.buf.length + chunk.length ≤ 64) : Sha256 :=
  if hfull : sh.buf.length + chunk.length = 64 then
    { sh with h := compress sh.h (sh.buf ++ chunk), buf := [], short := short_nil }
  else
    { sh with buf := sh.buf ++ chunk, short := by rw [List.length_append]; omega }

/-- The loop of `update`, which takes at least one byte in every pass. -/
def updateLoop : ℕ → Sha256 → List UInt8 → Sha256
  | 0, sh, _ => sh
  | _ + 1, sh, [] => sh
  | n + 1, sh, data@(_ :: _) =>
    let take := min (64 - sh.buf.length) data.length
    have hfits : sh.buf.length + (data.take take).length ≤ 64 := by
      have := sh.short
      rw [List.length_take]
      omega
    updateLoop n (sh.absorb (data.take take) hfits) (data.drop take)

def update (sh : Sha256) (data : List UInt8) : Sha256 :=
  updateLoop data.length { sh with bitCount := sh.bitCount + UInt64.ofNat data.length * 8 } data

/-- The eight bytes of the bit count, most significant first. -/
def countBytes (n : UInt64) : List UInt8 :=
  [(n >>> 56).toUInt8, (n >>> 48).toUInt8, (n >>> 40).toUInt8, (n >>> 32).toUInt8,
    (n >>> 24).toUInt8, (n >>> 16).toUInt8, (n >>> 8).toUInt8, n.toUInt8]

def finalize (sh : Sha256) : List UInt8 :=
  let buf := sh.buf ++ [0x80]
  let (h, buf) :=
    if buf.length > 56 then (compress sh.h (buf ++ List.replicate (64 - buf.length) 0), [])
    else (sh.h, buf)
  (compress h (buf ++ List.replicate (56 - buf.length) 0 ++ countBytes sh.bitCount)).bytes

@[simp] theorem length_finalize (sh : Sha256) : sh.finalize.length = 32 :=
  Words.length_bytes _

/-! ## Only the bytes matter -/

theorem eq_of_fields {sh sh' : Sha256} (hh : sh.h = sh'.h) (hbuf : sh.buf = sh'.buf)
    (hcount : sh.bitCount = sh'.bitCount) : sh = sh' := by
  cases sh
  cases sh'
  simp_all

/-- The buffer takes one byte. -/
def push (sh : Sha256) (b : UInt8) : Sha256 := sh.absorb [b] sh.short

@[simp] theorem absorb_nil (sh : Sha256) (hfits : sh.buf.length + ([] : List UInt8).length ≤ 64) :
    sh.absorb [] hfits = sh := by
  have hshort := sh.short
  have hlt : ¬ sh.buf.length + ([] : List UInt8).length = 64 := by simp; omega
  rw [absorb, dif_neg hlt]
  exact eq_of_fields rfl (List.append_nil _) rfl

theorem absorb_eq_foldl (chunk : List UInt8) (sh : Sha256)
    (hfits : sh.buf.length + chunk.length ≤ 64) : sh.absorb chunk hfits = chunk.foldl push sh := by
  induction chunk generalizing sh with
  | nil => exact absorb_nil sh hfits
  | cons b bs ih =>
    rw [List.length_cons] at hfits
    have hpush : (sh.push b).buf = if sh.buf.length + 1 = 64 then [] else sh.buf ++ [b] := by
      simp only [push, absorb, List.length_singleton]
      split <;> rfl
    have hpush_h : (sh.push b).h =
        if sh.buf.length + 1 = 64 then compress sh.h (sh.buf ++ [b]) else sh.h := by
      simp only [push, absorb, List.length_singleton]
      split <;> rfl
    have hpush_count : (sh.push b).bitCount = sh.bitCount := by
      simp only [push, absorb]
      split <;> rfl
    cases bs with
    | nil => rfl
    | cons b' bs =>
      have hlt : ¬ sh.buf.length + 1 = 64 := by rw [List.length_cons] at hfits; omega
      rw [if_neg hlt] at hpush hpush_h
      have hfits' : (sh.push b).buf.length + (b' :: bs).length ≤ 64 := by
        rw [hpush, List.length_append, List.length_singleton]
        omega
      rw [List.foldl_cons, ← ih (sh.push b) hfits']
      have happ : (sh.push b).buf ++ b' :: bs = sh.buf ++ b :: b' :: bs := by rw [hpush]; simp
      have hlen : (sh.push b).buf.length + (b' :: bs).length =
          sh.buf.length + (b :: b' :: bs).length := by
        rw [← List.length_append, happ, List.length_append]
      unfold absorb
      by_cases hfull : sh.buf.length + (b :: b' :: bs).length = 64
      · rw [dif_pos hfull, dif_pos (hlen.trans hfull)]
        exact eq_of_fields (by rw [hpush_h, happ]) rfl hpush_count.symm
      · rw [dif_neg hfull, dif_neg (hlen.trans_ne hfull)]
        exact eq_of_fields hpush_h.symm happ.symm hpush_count.symm

theorem updateLoop_eq_foldl (n : ℕ) (sh : Sha256) (data : List UInt8) (hn : data.length ≤ n) :
    updateLoop n sh data = data.foldl push sh := by
  induction n generalizing sh data with
  | zero =>
    have hdata : data = [] := List.length_eq_zero_iff.mp (by omega)
    subst hdata
    rfl
  | succ n ih =>
    cases data with
    | nil => rfl
    | cons b bs =>
      have hshort := sh.short
      have hdrop : ((b :: bs).drop (min (64 - sh.buf.length) (b :: bs).length)).length ≤ n := by
        rw [List.length_drop]
        rw [List.length_cons] at hn ⊢
        omega
      rw [updateLoop, ih _ _ hdrop, absorb_eq_foldl, ← List.foldl_append, List.take_append_drop]

theorem update_eq_foldl (sh : Sha256) (data : List UInt8) :
    sh.update data =
      data.foldl push { sh with bitCount := sh.bitCount + UInt64.ofNat data.length * 8 } :=
  updateLoop_eq_foldl _ _ _ (Nat.le_refl _)

theorem foldl_push_count (data : List UInt8) (sh : Sha256) (n : UInt64) :
    data.foldl push { sh with bitCount := n } =
      { data.foldl push sh with bitCount := n } := by
  induction data generalizing sh with
  | nil => rfl
  | cons b bs ih =>
    have hpush : push { sh with bitCount := n } b = { sh.push b with bitCount := n } := by
      by_cases hfull : sh.buf.length + [b].length = 64
      · simp only [push, absorb, dif_pos hfull]
      · simp only [push, absorb, dif_neg hfull]
    rw [List.foldl_cons, hpush, ih, List.foldl_cons]

@[simp] theorem update_nil (sh : Sha256) : sh.update [] = sh := by
  rw [update_eq_foldl]
  exact eq_of_fields rfl rfl (by simp)

/-- Two updates are one update with the bytes of both. -/
theorem update_append (sh : Sha256) (xs ys : List UInt8) :
    (sh.update xs).update ys = sh.update (xs ++ ys) := by
  simp only [update_eq_foldl, foldl_push_count, List.foldl_append,
    List.length_append]
  refine eq_of_fields rfl rfl ?_
  show sh.bitCount + _ * 8 + _ * 8 = sh.bitCount + _ * 8
  rw [UInt64.ofNat_add, UInt64.add_mul, UInt64.add_assoc]

end Sha256

/-- The digest of a byte string. -/
def sha256 (data : List UInt8) : List UInt8 := (({} : Sha256).update data).finalize

end Souxmar.Pipeline
