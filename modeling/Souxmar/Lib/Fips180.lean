import Mathlib.Data.Nat.NthRoot.Defs
import Mathlib.Data.Nat.Notation
import Mathlib.Tactic.Ring

/-!
# SHA-256 as FIPS 180-4 defines it

The digest of a string of bits: the message is padded to a multiple of 512 bits, cut into blocks of
sixteen words, and the blocks are worked into the hash value one after the other. The constants are the
fractional parts of roots of the first primes.
-/

namespace Souxmar.Lib.Fips180

/-- A string of bits, from left to right. -/
abbrev Bits : Type := List Bool

/-- The bits of a byte, the most significant first. -/
def byteBits (b : UInt8) : Bits := (List.range 8).map fun i => b.toNat.testBit (7 - i)

def bitsOf (bytes : List UInt8) : Bits := bytes.flatMap byteBits

/-- The number that a string of bits stands for. -/
def value (bits : Bits) : ℕ := bits.foldl (fun n b => 2 * n + b.toNat) 0

abbrev Word : Type := BitVec 32

def wordOf (bits : Bits) : Word := BitVec.ofNat 32 (value bits)

/-- The bits of a number in the given width. -/
def bitsOfNat (width n : ℕ) : Bits := (List.range width).map fun i => n.testBit (width - 1 - i)

/-! ### Functions and constants (4.1.2, 4.2.2 and 5.3.3) -/

def ch (x y z : Word) : Word := (x &&& y) ^^^ (~~~x &&& z)

def maj (x y z : Word) : Word := (x &&& y) ^^^ (x &&& z) ^^^ (y &&& z)

def bigSigma0 (x : Word) : Word := x.rotateRight 2 ^^^ x.rotateRight 13 ^^^ x.rotateRight 22

def bigSigma1 (x : Word) : Word := x.rotateRight 6 ^^^ x.rotateRight 11 ^^^ x.rotateRight 25

def smallSigma0 (x : Word) : Word := x.rotateRight 7 ^^^ x.rotateRight 18 ^^^ (x >>> 3)

def smallSigma1 (x : Word) : Word := x.rotateRight 17 ^^^ x.rotateRight 19 ^^^ (x >>> 10)

/-- The first sixty-four primes. -/
def primes : List ℕ := [
  2, 3, 5, 7, 11, 13, 17, 19, 23, 29, 31, 37, 41, 43, 47, 53,
  59, 61, 67, 71, 73, 79, 83, 89, 97, 101, 103, 107, 109, 113, 127, 131,
  137, 139, 149, 151, 157, 163, 167, 173, 179, 181, 191, 193, 197, 199, 211, 223,
  227, 229, 233, 239, 241, 251, 257, 263, 269, 271, 277, 281, 283, 293, 307, 311]

/-- The first 32 bits of the fractional part of the `k`-th root. -/
def rootWord (k p : ℕ) : Word := BitVec.ofNat 32 (Nat.nthRoot k (p * 2 ^ (32 * k)))

/-- `K_t`, from the cube roots. -/
def constant (t : ℕ) : Word := rootWord 3 (primes.getD t 0)

/-- The eight words of a hash value, or the working variables. -/
structure Vars where
  (a b c d e f g h : Word)

/-- `H⁽⁰⁾`, from the square roots of the first eight primes. -/
def initial : Vars where
  a := rootWord 2 2
  b := rootWord 2 3
  c := rootWord 2 5
  d := rootWord 2 7
  e := rootWord 2 11
  f := rootWord 2 13
  g := rootWord 2 17
  h := rootWord 2 19

/-! ### Preprocessing (5.1.1 and 5.2.1) -/

/-- A one and as few zeros as lead to 448 modulo 512, then the length in 64 bits. -/
def pad (message : Bits) : Bits :=
  message ++ true :: List.replicate ((959 - message.length % 512) % 512) false ++
    bitsOfNat 64 message.length

/-- The `i`-th block of 512 bits. -/
def block (padded : Bits) (i : ℕ) : Bits := (padded.drop (512 * i)).take 512

/-- The `t`-th word of a block. -/
def blockWord (block : Bits) (t : ℕ) : Word := wordOf ((block.drop (32 * t)).take 32)

/-! ### Hash computation (6.2.2) -/

/-- `W_t`. -/
def schedule (block : Bits) (t : ℕ) : Word :=
  if t < 16 then blockWord block t
  else smallSigma1 (schedule block (t - 2)) + schedule block (t - 7) + smallSigma0 (schedule block (t - 15)) +
    schedule block (t - 16)
termination_by t

def round (block : Bits) (v : Vars) (t : ℕ) : Vars :=
  let T1 := v.h + bigSigma1 v.e + ch v.e v.f v.g + constant t + schedule block t
  let T2 := bigSigma0 v.a + maj v.a v.b v.c
  ⟨T1 + T2, v.a, v.b, v.c, v.d + T1, v.e, v.f, v.g⟩

/-- `H⁽ⁱ⁾` from `H⁽ⁱ⁻¹⁾` and a block. -/
def compress (H : Vars) (block : Bits) : Vars :=
  let v := (List.range 64).foldl (round block) H
  ⟨v.a + H.a, v.b + H.b, v.c + H.c, v.d + H.d, v.e + H.e, v.f + H.f, v.g + H.g, v.h + H.h⟩

/-- The hash value after the first `n` blocks. -/
def hashBlocks (padded : Bits) (n : ℕ) : Vars :=
  (List.range n).foldl (fun H i => compress H (block padded i)) initial

def Vars.bits (H : Vars) : Bits :=
  [H.a, H.b, H.c, H.d, H.e, H.f, H.g, H.h].flatMap fun w => bitsOfNat 32 w.toNat

/-- The message digest. -/
def sha256 (message : Bits) : Bits :=
  (hashBlocks (pad message) ((pad message).length / 512)).bits

/-! ### Bits and bytes -/

@[simp] theorem length_byteBits (b : UInt8) : (byteBits b).length = 8 := by simp [byteBits]

@[simp] theorem length_bitsOf (bytes : List UInt8) : (bitsOf bytes).length = 8 * bytes.length := by
  induction bytes with
  | nil => rfl
  | cons b bytes ih =>
    rw [bitsOf, List.flatMap_cons, List.length_append, length_byteBits, List.length_cons]
    show 8 + (bitsOf bytes).length = _
    rw [ih]
    omega

@[simp] theorem bitsOf_append (xs ys : List UInt8) : bitsOf (xs ++ ys) = bitsOf xs ++ bitsOf ys :=
  List.flatMap_append

theorem bitsOf_cons (b : UInt8) (bytes : List UInt8) : bitsOf (b :: bytes) = byteBits b ++ bitsOf bytes :=
  List.flatMap_cons

theorem drop_bitsOf (n : ℕ) (bytes : List UInt8) : (bitsOf bytes).drop (8 * n) = bitsOf (bytes.drop n) := by
  induction n generalizing bytes with
  | zero => rfl
  | succ n ih =>
    cases bytes with
    | nil => simp [bitsOf]
    | cons b bytes =>
      rw [bitsOf_cons, List.drop_succ_cons, ← ih, show 8 * (n + 1) = (byteBits b).length + 8 * n by
        rw [length_byteBits]; omega, List.drop_append, List.drop_of_length_le (by omega), List.nil_append,
        Nat.add_sub_cancel_left]

theorem take_bitsOf (n : ℕ) (bytes : List UInt8) : (bitsOf bytes).take (8 * n) = bitsOf (bytes.take n) := by
  induction n generalizing bytes with
  | zero => rfl
  | succ n ih =>
    cases bytes with
    | nil => simp [bitsOf]
    | cons b bytes =>
      rw [bitsOf_cons, List.take_succ_cons, bitsOf_cons, ← ih, show 8 * (n + 1) = (byteBits b).length + 8 * n by
        rw [length_byteBits]; omega, List.take_length_add_append]

theorem value_append (xs ys : Bits) : value (xs ++ ys) = value xs * 2 ^ ys.length + value ys := by
  have hfold : ∀ n, ys.foldl (fun n b => 2 * n + b.toNat) n = n * 2 ^ ys.length + value ys := by
    induction ys with
    | nil => simp [value]
    | cons y ys ih =>
      intro n
      rw [value, List.foldl_cons, List.foldl_cons, ih, ih, List.length_cons, Nat.pow_succ]
      ring
  rw [value, List.foldl_append, hfold]
  rfl

theorem value_byteBits (b : UInt8) : value (byteBits b) = b.toNat := by
  have hall : ∀ n < 256, value ((List.range 8).map fun i => n.testBit (7 - i)) = n := by decide +kernel
  exact hall b.toNat b.toNat_lt

/-- The upper bits, then the lower ones. -/
theorem bitsOfNat_add (upper lower n : ℕ) :
    bitsOfNat (upper + lower) n = bitsOfNat upper (n / 2 ^ lower) ++ bitsOfNat lower n := by
  unfold bitsOfNat
  rw [List.range_add, List.map_append, List.map_map]
  congr 1
  · refine List.map_congr_left fun i hi => ?_
    have hlt := List.mem_range.mp hi
    rw [Nat.testBit_div_two_pow]
    congr 1
    omega
  · refine List.map_congr_left fun i hi => ?_
    have hlt := List.mem_range.mp hi
    show n.testBit (upper + lower - 1 - (upper + i)) = _
    congr 1
    omega

theorem bitsOfNat_mod (width n : ℕ) : bitsOfNat width (n % 2 ^ width) = bitsOfNat width n := by
  refine List.map_congr_left fun i hi => ?_
  have hlt := List.mem_range.mp hi
  rw [Nat.testBit_mod_two_pow, decide_eq_true (by omega : width - 1 - i < width), Bool.true_and]

theorem byteBits_ofNat (n : ℕ) : byteBits (UInt8.ofNat n) = bitsOfNat 8 n := by
  rw [← bitsOfNat_mod 8 n]
  show bitsOfNat 8 (UInt8.ofNat n).toNat = _
  rw [UInt8.toNat_ofNat']

end Souxmar.Lib.Fips180
