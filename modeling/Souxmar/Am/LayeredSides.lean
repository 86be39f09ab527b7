import Mathlib.Data.List.Rotate
import Souxmar.Am.LayeredMesher

/-!
# The sides of the cells of a grid

A face of a cell is a box of grid points, so that faces on the same points are the two sides of one face of the grid.
-/

namespace Souxmar.Am.LayeredMesher

open Souxmar.Core Souxmar.Lib

/-! ## Sides -/

namespace Side

def opposite : Side → Side
  | minusX => plusX
  | plusX => minusX
  | minusY => plusY
  | plusY => minusY
  | minusZ => plusZ
  | plusZ => minusZ

/-- The corners of a side of the unit cube, in the order of the face table. -/
def corners : Side → List (ℕ × ℕ × ℕ)
  | minusX => [(0, 0, 0), (0, 0, 1), (0, 1, 1), (0, 1, 0)]
  | plusX => [(1, 0, 0), (1, 1, 0), (1, 1, 1), (1, 0, 1)]
  | minusY => [(0, 0, 0), (1, 0, 0), (1, 0, 1), (0, 0, 1)]
  | plusY => [(0, 1, 0), (0, 1, 1), (1, 1, 1), (1, 1, 0)]
  | minusZ => [(0, 0, 0), (0, 1, 0), (1, 1, 0), (1, 0, 0)]
  | plusZ => [(0, 0, 1), (1, 0, 1), (1, 1, 1), (0, 1, 1)]

def low : Side → ℕ × ℕ × ℕ
  | plusX => (1, 0, 0)
  | plusY => (0, 1, 0)
  | plusZ => (0, 0, 1)
  | _ => (0, 0, 0)

def high : Side → ℕ × ℕ × ℕ
  | minusX => (0, 1, 1)
  | minusY => (1, 0, 1)
  | minusZ => (1, 1, 0)
  | _ => (1, 1, 1)

theorem mem_corners {s : Side} {x y z : ℕ} :
    (x, y, z) ∈ s.corners ↔ (s.low.1 ≤ x ∧ x ≤ s.high.1) ∧ (s.low.2.1 ≤ y ∧ y ≤ s.high.2.1) ∧
      s.low.2.2 ≤ z ∧ z ≤ s.high.2.2 := by
  cases s <;> simp only [corners, low, high, List.mem_cons, Prod.mk.injEq, List.not_mem_nil, or_false] <;> omega

theorem opposite_opposite (s : Side) : s.opposite.opposite = s := by
  cases s <;> rfl

theorem localFace_lt (s : Side) : s.localFace.toNat < 6 := by
  cases s <;> decide

theorem exists_localFace {f : ℕ} (hf : f < 6) : ∃ s : Side, s.localFace = UInt8.ofNat f := by
  rcases f with _ | _ | _ | _ | _ | _ | f
  · exact ⟨minusZ, rfl⟩
  · exact ⟨plusZ, rfl⟩
  · exact ⟨minusY, rfl⟩
  · exact ⟨plusY, rfl⟩
  · exact ⟨minusX, rfl⟩
  · exact ⟨plusX, rfl⟩
  · omega

theorem localFace_injective {s t : Side} (h : s.localFace = t.localFace) : s = t := by
  cases s <;> cases t <;> first | rfl | exact absurd h (by decide)

theorem tag_injective {s t : Side} (h : s.tag = t.tag) : s = t := by
  cases s <;> cases t <;> first | rfl | exact absurd h (by decide)

theorem tag_ne_untagged (s : Side) : s.tag ≠ untagged := by
  cases s <;> decide

end Side

/-! ## The faces of a cell as boxes -/

/-- The points of a side of the cell at `p`. -/
def facePoints (s : Side) (p : ℕ × ℕ × ℕ) : List (ℕ × ℕ × ℕ) := s.corners.map fun d => p + d

theorem mem_facePoints {s : Side} {p q : ℕ × ℕ × ℕ} :
    q ∈ facePoints s p ↔ ((p + s.low).1 ≤ q.1 ∧ q.1 ≤ (p + s.high).1) ∧
      ((p + s.low).2.1 ≤ q.2.1 ∧ q.2.1 ≤ (p + s.high).2.1) ∧
      (p + s.low).2.2 ≤ q.2.2 ∧ q.2.2 ≤ (p + s.high).2.2 := by
  obtain ⟨i, j, k⟩ := p
  obtain ⟨x, y, z⟩ := q
  unfold facePoints
  rw [List.mem_map]
  constructor
  · rintro ⟨⟨a, b, c⟩, hd, heq⟩
    rw [Side.mem_corners] at hd
    rw [← heq]
    dsimp only [Prod.fst_add, Prod.snd_add] at hd ⊢
    omega
  · intro h
    dsimp only [Prod.fst_add, Prod.snd_add] at h
    refine ⟨(x - i, y - j, z - k), ?_, ?_⟩
    · rw [Side.mem_corners]
      omega
    · exact Prod.ext (by show i + (x - i) = x; omega)
        (Prod.ext (by show j + (y - j) = y; omega) (by show k + (z - k) = z; omega))

theorem low_le_high (s : Side) : s.low.1 ≤ s.high.1 ∧ s.low.2.1 ≤ s.high.2.1 ∧ s.low.2.2 ≤ s.high.2.2 := by
  cases s <;> decide

/-- The cell at `p'` is the next one across the side of the cell at `p`. -/
def Next (s : Side) (p p' : ℕ × ℕ × ℕ) : Prop := p' + s.opposite.low = p + s.low

/-- Sides on the same points are the same, or those of neighbours that face each other. -/
theorem same_points {s s' : Side} {p p' : ℕ × ℕ × ℕ} (h : ∀ q, q ∈ facePoints s p ↔ q ∈ facePoints s' p') :
    (s' = s ∧ p' = p) ∨ (s' = s.opposite ∧ Next s p p') := by
  have hlow := low_le_high s
  have hlow' := low_le_high s'
  have h₁ := (h (p + s.low)).mp (mem_facePoints.mpr (by dsimp only [Prod.fst_add, Prod.snd_add]; omega))
  have h₂ := (h (p + s.high)).mp (mem_facePoints.mpr (by dsimp only [Prod.fst_add, Prod.snd_add]; omega))
  have h₃ := (h (p' + s'.low)).mpr (mem_facePoints.mpr (by dsimp only [Prod.fst_add, Prod.snd_add]; omega))
  have h₄ := (h (p' + s'.high)).mpr (mem_facePoints.mpr (by dsimp only [Prod.fst_add, Prod.snd_add]; omega))
  rw [mem_facePoints] at h₁ h₂ h₃ h₄
  obtain ⟨i, j, k⟩ := p
  obtain ⟨i', j', k'⟩ := p'
  unfold Next
  cases s <;> cases s' <;>
    simp only [Side.low, Side.high, Side.opposite, Prod.mk_add_mk, Prod.mk.injEq,
      reduceCtorEq, true_and, false_and, or_false, false_or] at h₁ h₂ h₃ h₄ ⊢ <;> omega

theorem Next.symm {s : Side} {p p' : ℕ × ℕ × ℕ} (h : Next s p p') : Next s.opposite p' p := by
  unfold Next at h ⊢
  rw [Side.opposite_opposite]
  exact h.symm

theorem facePoints_opposite {s : Side} {p p' : ℕ × ℕ × ℕ} (h : Next s p p') :
    (facePoints s.opposite p').IsRotated (facePoints s p).reverse := by
  have hmirror : ∀ {s : Side} {p p' : ℕ × ℕ × ℕ}, (facePoints s p).IsRotated (facePoints s.opposite p').reverse →
      (facePoints s.opposite p').IsRotated (facePoints s p).reverse := by
    intro s p p' h
    have hback := h.reverse
    rw [List.reverse_reverse] at hback
    exact hback.symm
  cases s with
  | plusX =>
    obtain rfl : p' = p + (1, 0, 0) := h
    exact ⟨1, rfl⟩
  | plusY =>
    obtain rfl : p' = p + (0, 1, 0) := h
    exact ⟨1, rfl⟩
  | plusZ =>
    obtain rfl : p' = p + (0, 0, 1) := h
    exact ⟨1, rfl⟩
  | minusX =>
    obtain rfl : p = p' + (1, 0, 0) := h.symm
    exact hmirror (s := .minusX) ⟨1, rfl⟩
  | minusY =>
    obtain rfl : p = p' + (0, 1, 0) := h.symm
    exact hmirror (s := .minusY) ⟨1, rfl⟩
  | minusZ =>
    obtain rfl : p = p' + (0, 0, 1) := h.symm
    exact hmirror (s := .minusZ) ⟨1, rfl⟩

/-! ## Sides of the grid -/

section

variable {K : Type*} [Field K] [LinearOrder K] (g : Grid K)

namespace Grid

/-- The cell at `p` lies at the side. -/
def AtSide : Side → ℕ × ℕ × ℕ → Prop
  | .minusX, p => p.1 = 0
  | .plusX, p => p.1 + 1 = g.nx
  | .minusY, p => p.2.1 = 0
  | .plusY, p => p.2.1 + 1 = g.ny
  | .minusZ, p => p.2.2 = 0
  | .plusZ, p => p.2.2 + 1 = g.nz

/-- The grid point lies on the side. -/
def OnSide : Side → ℕ × ℕ × ℕ → Prop
  | .minusX, q => q.1 = 0
  | .plusX, q => q.1 = g.nx
  | .minusY, q => q.2.1 = 0
  | .plusY, q => q.2.1 = g.ny
  | .minusZ, q => q.2.2 = 0
  | .plusZ, q => q.2.2 = g.nz

theorem exists_next_iff {s : Side} {p : ℕ × ℕ × ℕ} (hp : Lib.Grid.Inside g.nx g.ny g.nz p) :
    (∃ p', Lib.Grid.Inside g.nx g.ny g.nz p' ∧ Next s p p') ↔ ¬g.AtSide s p := by
  obtain ⟨i, j, k⟩ := p
  obtain ⟨hi, hj, hk⟩ := hp
  dsimp only at hi hj hk
  constructor
  · rintro ⟨⟨i', j', k'⟩, ⟨hi', hj', hk'⟩, hnext⟩
    unfold Next at hnext
    dsimp only at hi' hj' hk'
    cases s <;>
      simp only [Side.low, Side.opposite, Prod.mk_add_mk, Prod.mk.injEq, AtSide] at hnext ⊢ <;> omega
  · intro hat
    cases s with
    | minusX => exact ⟨(i - 1, j, k), ⟨by show i - 1 < _; omega, hj, hk⟩,
        Prod.ext (Nat.sub_add_cancel (Nat.pos_of_ne_zero hat)) rfl⟩
    | plusX => exact ⟨(i + 1, j, k), ⟨Nat.lt_of_le_of_ne hi hat, hj, hk⟩, rfl⟩
    | minusY => exact ⟨(i, j - 1, k), ⟨hi, by show j - 1 < _; omega, hk⟩,
        Prod.ext rfl (Prod.ext (Nat.sub_add_cancel (Nat.pos_of_ne_zero hat)) rfl)⟩
    | plusY => exact ⟨(i, j + 1, k), ⟨hi, Nat.lt_of_le_of_ne hj hat, hk⟩, rfl⟩
    | minusZ => exact ⟨(i, j, k - 1), ⟨hi, hj, by show k - 1 < _; omega⟩,
        Prod.ext rfl (Prod.ext rfl (Nat.sub_add_cancel (Nat.pos_of_ne_zero hat)))⟩
    | plusZ => exact ⟨(i, j, k + 1), ⟨hi, hj, Nat.lt_of_le_of_ne hk hat⟩, rfl⟩

/-- All points of a face lie on a side of the box exactly when it is the face of a cell at that side. -/
theorem onSide_iff {s t : Side} {p : ℕ × ℕ × ℕ} (hp : Lib.Grid.Inside g.nx g.ny g.nz p) :
    (∀ q ∈ facePoints s p, g.OnSide t q) ↔ s = t ∧ g.AtSide s p := by
  obtain ⟨i, j, k⟩ := p
  obtain ⟨hi, hj, hk⟩ := hp
  dsimp only at hi hj hk
  constructor
  · intro h
    have hlow := h ((i, j, k) + s.low) (mem_facePoints.mpr (by
      have hle := low_le_high s
      dsimp only [Prod.fst_add, Prod.snd_add]
      omega))
    have hhigh := h ((i, j, k) + s.high) (mem_facePoints.mpr (by
      have hle := low_le_high s
      dsimp only [Prod.fst_add, Prod.snd_add]
      omega))
    cases s <;> cases t <;>
      simp only [Side.low, Side.high, Prod.mk_add_mk, OnSide, AtSide, reduceCtorEq, true_and, false_and] at hlow hhigh ⊢ <;>
      omega
  · rintro ⟨rfl, hat⟩ q hq
    rw [mem_facePoints] at hq
    cases s <;>
      simp only [Side.low, Side.high, Prod.fst_add, Prod.snd_add, OnSide, AtSide] at hq hat ⊢ <;> omega

end Grid

end

end Souxmar.Am.LayeredMesher
