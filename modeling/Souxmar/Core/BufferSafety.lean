import Mathlib.Data.Nat.Find
import Mathlib.Data.List.Basic
import Mathlib.Tactic.Push
import Souxmar.Core.MeshBuffers

/-!
# When a mesh call stays inside its buffers

The sizes that `souxmar_mesh_from_buffers` asks for are computed modulo `2 ^ 64`. `Fits` says on which
buffers that does no harm: the call is refused on what the buffers hold, or the sizes are the true ones
and small enough for the vectors. `mesh_from_buffers_answers_iff` is exact: on these buffers, and on no
others, every read stays inside and every call ends with a status.
-/

namespace Souxmar.Core

open Souxmar.Lib

/-- The call ends with a status. -/
def Answered : Halt → Prop
  | .status _ _ => True
  | _ => False

/-! ### Reads -/

theorem Buffer.read_ok {width i : ℕ} {b : Buffer} (h : i < b.entries width) :
    b.read width i = .ok (b.entry width i) := if_pos h

theorem Buffer.read_outside {width i : ℕ} {b : Buffer} (h : b.entries width ≤ i) :
    b.read width i = .error .outOfBounds := if_neg (by omega)

theorem Buffer.read_ends {width i : ℕ} {b : Buffer} {E : Halt → Prop} (h : i < b.entries width) :
    Ends (b.read width i) E (fun x => x = b.entry width i) := by
  rw [Buffer.read_ok h]
  exact Ends.ok rfl

theorem refuseIf_answered {c : Prop} [Decidable c] (message : String) :
    Ends (refuseIf c message) Answered (fun _ => ¬c) :=
  Ends.check (fun _ => trivial)

theorem refuseIf_passes {c : Prop} [Decidable c] (h : ¬c) (message : String) :
    refuseIf c message = .ok ⟨⟩ := if_neg h

namespace Given

variable (b : Given)

def offset (i : ℕ) : ℕ := (b.offsets.entry 8 i).toNat

def elementType (i : ℕ) : ElementType := .ofCode (b.types.entry 2 i).toNat

def totalNodeRefs : ℕ := if b.numCells.toNat = 0 then 0 else b.offset b.numCells.toNat

/-- The buffers have the sizes that the counts ask for, as computed. -/
structure SizesMatch : Prop where
  coords : b.coords.size = (b.numNodes * 3 * 8).toNat
  types : b.types.size = (b.numCells * 2).toNat
  offsets : b.offsets.size = ((b.numCells + 1) * 8).toNat
  tags : ∀ tags ∈ b.tags, tags.size = (b.numCells * 4).toNat

/-- The offsets that the buffer holds start at zero and never decrease. -/
structure OffsetsOrdered : Prop where
  first : 0 < b.numCells.toNat → 0 < b.offsets.entries 8 → b.offset 0 = 0
  mono : ∀ i, i + 1 < b.offsets.entries 8 → b.offset i ≤ b.offset (i + 1)

/-- A cell that the checks refuse for what the buffers hold: its type, its size, or one of its nodes. -/
def BadCell (i : ℕ) : Prop :=
  (b.elementType i).numNodes = 0 ∨ b.offset (i + 1) - b.offset i ≠ (b.elementType i).numNodes ∨
    ∃ j, b.offset i ≤ j ∧ j < b.offset (i + 1) ∧ j < b.connectivity.entries 8 ∧
      b.numNodes.toNat ≤ (b.connectivity.entry 8 j).toNat

/-- Where the computed sizes match, either the buffers hold what the call asks for and the vectors can
be as large, or a cell that the connectivity buffer reaches is refused. -/
def Fits (lim : ℕ) : Prop :=
  b.SizesMatch → b.OffsetsOrdered →
    b.numCells.toNat + 1 = b.offsets.entries 8 ∧
      (b.connectivity.size = (UInt64.ofNat b.totalNodeRefs * 8).toNat →
        (∃ i < b.numCells.toNat, b.offset i ≤ b.connectivity.entries 8 ∧ b.BadCell i) ∨
        b.totalNodeRefs = b.connectivity.entries 8 ∧ 3 * b.numNodes.toNat ≤ lim / 8 ∧
          8 * b.numCells.toNat ≤ lim / 8)

variable {b}

/-! ### Sizes -/

theorem SizesMatch.entries_le (h : b.SizesMatch) :
    b.offsets.entries 8 ≤ b.numCells.toNat + 1 := by
  have hsize := h.offsets
  rw [UInt64.toNat_mul, UInt64.toNat_add] at hsize
  unfold Buffer.entries
  simp at hsize
  omega

theorem SizesMatch.whole (h : b.SizesMatch) (hm : b.numCells.toNat + 1 = b.offsets.entries 8) :
    8 * (b.numCells.toNat + 1) < 2 ^ 64 ∧ b.types.entries 2 = b.numCells.toNat ∧
      ∀ tags ∈ b.tags, tags.entries 4 = b.numCells.toNat := by
  have hsize := h.offsets
  rw [UInt64.toNat_mul, UInt64.toNat_add] at hsize
  unfold Buffer.entries at *
  simp at hsize
  have hlt : 8 * (b.numCells.toNat + 1) < 2 ^ 64 := by omega
  refine ⟨hlt, ?_, fun tags htags => ?_⟩
  · have htypes := h.types
    rw [UInt64.toNat_mul] at htypes
    simp at htypes
    omega
  · have htag := h.tags tags htags
    rw [UInt64.toNat_mul] at htag
    simp at htag
    omega

theorem offset_lt (i : ℕ) : b.offset i < 2 ^ 64 := UInt64.toNat_lt _

theorem totalNodeRefs_lt : b.totalNodeRefs < 2 ^ 64 := by
  unfold totalNodeRefs
  split
  · decide
  · exact offset_lt _

theorem connectivity_le (h : b.connectivity.size = (UInt64.ofNat b.totalNodeRefs * 8).toNat) :
    b.connectivity.entries 8 ≤ b.totalNodeRefs := by
  have hlt := totalNodeRefs_lt (b := b)
  rw [UInt64.toNat_mul, UInt64.toNat_ofNat_of_lt' hlt] at h
  unfold Buffer.entries
  simp at h
  omega

theorem OffsetsOrdered.mono_le (h : b.OffsetsOrdered) {i j : ℕ} (hij : i ≤ j)
    (hj : j < b.offsets.entries 8) : b.offset i ≤ b.offset j := by
  induction j, hij using Nat.le_induction with
  | base => exact Nat.le_refl _
  | succ j _ ih => exact Nat.le_trans (ih (by omega)) (h.mono j hj)

theorem OffsetsOrdered.le_total (h : b.OffsetsOrdered)
    (hm : b.numCells.toNat + 1 = b.offsets.entries 8) {i : ℕ} (hi : i < b.numCells.toNat) :
    b.offset (i + 1) ≤ b.totalNodeRefs := by
  unfold totalNodeRefs
  rw [if_neg (by omega)]
  exact h.mono_le hi (by omega)

/-! ### Calls on buffers that fit -/

theorem checkSizes_answered : Ends b.checkSizes Answered (fun _ => b.SizesMatch) := by
  unfold checkSizes
  refine (refuseIf_answered _).bind fun _ hcoords => ?_
  refine (refuseIf_answered _).bind fun _ htypes => ?_
  refine (refuseIf_answered _).bind fun _ hoffsets => ?_
  refine (refuseIf_answered _).mono fun _ htags => ?_
  exact ⟨not_not.mp hcoords, not_not.mp htypes, not_not.mp hoffsets, by simpa using htags⟩

section

variable {lim : ℕ} (hfits : b.Fits lim) (hsizes : b.SizesMatch)

include hfits hsizes

theorem Fits.entries_pos : 0 < b.offsets.entries 8 := by
  by_contra hnone
  have hordered : b.OffsetsOrdered := ⟨fun _ h => absurd h hnone, fun i h => by omega⟩
  have := (hfits hsizes hordered).1
  omega

theorem checkFirstOffset_answered : Ends b.checkFirstOffset Answered
    (fun _ => 0 < b.numCells.toNat → b.offset 0 = 0) := by
  unfold checkFirstOffset
  split
  · refine (Buffer.read_ends (hfits.entries_pos hsizes)).bind fun first hfirst => ?_
    refine (refuseIf_answered _).mono fun _ hzero _ => ?_
    rw [offset, ← hfirst, not_not.mp hzero]
    rfl
  · rename_i hnone
    refine Ends.ok fun hpos => absurd ?_ hnone
    exact UInt64.lt_iff_toNat_lt.mpr hpos

theorem checkOffsets_answered (hfirst : 0 < b.numCells.toNat → b.offset 0 = 0) :
    Ends (forRange b.checkOffset b.numCells.toNat 0 ⟨⟩) Answered
      (fun _ => b.numCells.toNat + 1 = b.offsets.entries 8 ∧ b.OffsetsOrdered) := by
  have hloop : Ends (forRange b.checkOffset b.numCells.toNat 0 ⟨⟩) Answered
      (fun _ => ∀ k < 0 + b.numCells.toNat, b.offset k ≤ b.offset (k + 1)) := by
    refine Ends.forRange (I := fun i _ => ∀ k < i, b.offset k ≤ b.offset (k + 1)) ?_ (by simp)
    intro i _ _ hi hread
    have hi : i < b.numCells.toNat := by omega
    -- were this the end of the buffer, all its offsets would be in order
    have hnext : i + 1 < b.offsets.entries 8 := by
      by_contra hend
      have hordered : b.OffsetsOrdered :=
        ⟨fun hpos _ => hfirst hpos, fun k hk => hread k (by omega)⟩
      have := (hfits hsizes hordered).1
      omega
    refine (Buffer.read_ends hnext).bind fun next heq => ?_
    refine (Buffer.read_ends (by omega : i < b.offsets.entries 8)).bind fun this heq' => ?_
    refine (refuseIf_answered _).mono fun _ hle k hk => ?_
    rcases Nat.lt_succ_iff_lt_or_eq.mp hk with hk | rfl
    · exact hread k hk
    · rw [UInt64.lt_iff_toNat_lt, heq, heq'] at hle
      exact Nat.not_lt.mp hle
  refine hloop.mono fun _ hread => ?_
  have hordered : b.OffsetsOrdered := by
    have := hsizes.entries_le
    exact ⟨fun hpos _ => hfirst hpos, fun k hk => hread k (by omega)⟩
  exact ⟨(hfits hsizes hordered).1, hordered⟩

omit hfits hsizes

theorem checkConnectivitySize_answered (hm : b.numCells.toNat + 1 = b.offsets.entries 8) :
    Ends b.checkConnectivitySize Answered
      (fun _ => b.connectivity.size = (UInt64.ofNat b.totalNodeRefs * 8).toNat) := by
  have htotal : Ends b.readTotalNodeRefs Answered (fun x => x = UInt64.ofNat b.totalNodeRefs) := by
    unfold readTotalNodeRefs totalNodeRefs
    split
    · rename_i hzero
      rw [if_pos (by simp [hzero])]
      exact Ends.ok rfl
    · rename_i hne
      have hpos : b.numCells.toNat ≠ 0 := fun h => hne (UInt64.toNat_inj.mp h)
      refine (Buffer.read_ends (by omega)).mono fun x hx => ?_
      rw [if_neg hpos, hx, offset, UInt64.ofNat_toNat]
  refine htotal.bind fun total htotal => ?_
  refine (refuseIf_answered _).mono fun _ hsize => ?_
  rw [← htotal]
  exact not_not.mp hsize

/-- What the checks establish about a cell. -/
structure GoodCell (b : Given) (i : ℕ) : Prop where
  size : b.offset (i + 1) - b.offset i = (b.elementType i).numNodes
  reached : b.offset (i + 1) ≤ b.connectivity.entries 8
  nodes : ∀ j, b.offset i ≤ j → j < b.offset (i + 1) →
    (b.connectivity.entry 8 j).toNat < b.numNodes.toNat

theorem GoodCell.not_bad {i : ℕ} (h : b.GoodCell i) (htype : (b.elementType i).numNodes ≠ 0) :
    ¬b.BadCell i := by
  rintro (hbad | hbad | ⟨j, hlo, hhi, _, hnode⟩)
  · exact htype hbad
  · exact hbad h.size
  · have := h.nodes j hlo hhi
    omega

theorem toNat_sub_offset {i : ℕ} (hle : b.offset i ≤ b.offset (i + 1)) :
    (b.offsets.entry 8 (i + 1) - b.offsets.entry 8 i).toNat = b.offset (i + 1) - b.offset i := by
  rw [UInt64.toNat_sub_of_le _ _ (UInt64.le_iff_toNat_le.mpr hle)]
  rfl

theorem checkCell_answered {i : ℕ} (htypes : i < b.types.entries 2)
    (hoffsets : i + 1 < b.offsets.entries 8) (hle : b.offset i ≤ b.offset (i + 1))
    (hreach : (b.elementType i).numNodes ≠ 0 →
      b.offset (i + 1) - b.offset i = (b.elementType i).numNodes →
      ∀ j, j < b.offset (i + 1) → b.offset i ≤ j →
        (∀ k, b.offset i ≤ k → k < j → (b.connectivity.entry 8 k).toNat < b.numNodes.toNat) →
        j < b.connectivity.entries 8) :
    Ends (b.checkCell i ⟨⟩) Answered (fun _ => b.GoodCell i ∧ (b.elementType i).numNodes ≠ 0) := by
  unfold checkCell
  refine (Buffer.read_ends htypes).bind fun code hcode => ?_
  subst hcode
  refine (refuseIf_answered _).bind fun _ htype => ?_
  have htype : (b.elementType i).numNodes ≠ 0 := fun h => htype (.inl h)
  refine (Buffer.read_ends hoffsets).bind fun next hnext => ?_
  refine (Buffer.read_ends (by omega : i < b.offsets.entries 8)).bind fun this hthis => ?_
  subst hnext hthis
  refine (refuseIf_answered _).bind fun _ hsize => ?_
  have hsize : b.offset (i + 1) - b.offset i = (b.elementType i).numNodes := by
    rw [← toNat_sub_offset hle]
    exact not_not.mp hsize
  have hreach := hreach htype hsize
  have hloop : Ends (forRange b.checkNode (b.offset (i + 1) - b.offset i) (b.offset i) ⟨⟩) Answered
      (fun _ => ∀ k, b.offset i ≤ k → k < b.offset i + (b.offset (i + 1) - b.offset i) →
        k < b.connectivity.entries 8 ∧ (b.connectivity.entry 8 k).toNat < b.numNodes.toNat) := by
    refine Ends.forRange (I := fun j _ => ∀ k, b.offset i ≤ k → k < j →
      k < b.connectivity.entries 8 ∧ (b.connectivity.entry 8 k).toNat < b.numNodes.toNat) ?_
      (fun k hlo hhi => by omega)
    intro j _ hlo hhi hread
    have hj := hreach j (by omega) hlo fun k hk hkj => (hread k hk hkj).2
    refine (Buffer.read_ends hj).bind fun node hnode => ?_
    subst hnode
    refine (refuseIf_answered _).mono fun _ hrange k hk hkj => ?_
    rcases Nat.lt_succ_iff_lt_or_eq.mp hkj with hkj | rfl
    · exact hread k hk hkj
    · refine ⟨hj, ?_⟩
      have hrange := mt UInt64.le_iff_toNat_le.mpr hrange
      omega
  refine hloop.mono fun _ hread => ⟨⟨hsize, ?_, fun j hlo hhi => ?_⟩, htype⟩
  · have hlast := (hread (b.offset (i + 1) - 1) (by omega) (by omega)).1
    omega
  · exact (hread j hlo (by omega)).2

theorem checkCells_answered {lim : ℕ} (hfits : b.Fits lim) (hsizes : b.SizesMatch)
    (hordered : b.OffsetsOrdered)
    (hsize : b.connectivity.size = (UInt64.ofNat b.totalNodeRefs * 8).toNat) :
    Ends (forRange b.checkCell b.numCells.toNat 0 ⟨⟩) Answered
      (fun _ => (∀ i < b.numCells.toNat, b.GoodCell i ∧ (b.elementType i).numNodes ≠ 0) ∧
        3 * b.numNodes.toNat ≤ lim / 8 ∧ 8 * b.numCells.toNat ≤ lim / 8) := by
  obtain ⟨hm, hcells⟩ := hfits hsizes hordered
  have hcells := hcells hsize
  obtain ⟨-, htypes, -⟩ := hsizes.whole hm
  have hloop : Ends (forRange b.checkCell b.numCells.toNat 0 ⟨⟩) Answered
      (fun _ => ∀ i < 0 + b.numCells.toNat, b.GoodCell i ∧ (b.elementType i).numNodes ≠ 0) := by
    refine Ends.forRange (I := fun j _ => ∀ i < j, b.GoodCell i ∧ (b.elementType i).numNodes ≠ 0) ?_
      (fun i hi => by omega)
    intro i _ _ hi hgood
    have hi : i < b.numCells.toNat := by omega
    refine (checkCell_answered (by omega) (by omega) (hordered.mono i (by omega)) ?_).mono
      fun _ hcell k hk => ?_
    · intro htype hcount j hhi hlo hread
      rcases hcells with ⟨k, hk, hreached, hbad⟩ | ⟨htotal, -, -⟩
      · -- a bad cell lies ahead, or is this one
        have hik : i ≤ k := by
          by_contra hlt
          exact (hgood k (by omega)).1.not_bad (hgood k (by omega)).2 hbad
        rcases Nat.lt_or_eq_of_le hik with hlt | rfl
        · have := hordered.mono_le (by omega : i + 1 ≤ k) (by omega)
          omega
        · rcases hbad with hbad | hbad | ⟨j', hlo', hhi', hj', hnode⟩
          · exact absurd hbad htype
          · exact absurd hcount hbad
          · by_contra hout
            have := hread j' hlo' (by omega)
            omega
      · have := hordered.le_total hm hi
        omega
    · rcases Nat.lt_succ_iff_lt_or_eq.mp hk with hk | rfl
      · exact hgood k hk
      · exact hcell
  refine hloop.mono fun _ hgood => ⟨fun i hi => hgood i (by omega), ?_⟩
  rcases hcells with ⟨k, hk, _, hbad⟩ | ⟨_, hnodes, hcells⟩
  · exact absurd hbad ((hgood k (by omega)).1.not_bad (hgood k (by omega)).2)
  · exact ⟨hnodes, hcells⟩

/-! ### Building after the checks -/

/-- Answered, or out of memory inside a `try`. -/
def Caught (h : Halt) : Prop := Answered h ∨ h = .threw .badAlloc

theorem catchBadAlloc_answered {α : Type} {message : String} {x : Except Halt α} {P : α → Prop}
    (h : Ends x Caught P) : Ends (catchBadAlloc message x) Answered P := by
  cases x with
  | ok a => exact h
  | error e =>
    rcases h with h | rfl
    · cases e with
      | status code text => exact h
      | outOfBounds => exact h.elim
      | threw e => exact h.elim
    · exact Ends.error trivial

theorem reserve_caught {lim width n : ℕ} (granted : Bool) (h : n ≤ lim / width) :
    Ends (reserve lim granted width n) (fun e => e = .badAlloc) (fun _ => True) := by
  rw [reserve, if_neg (by omega)]
  cases granted
  · exact Ends.error rfl
  · exact Ends.ok trivial

theorem call_caught {α : Type} {x : Except Exception α} {P : α → Prop}
    (h : Ends x (fun e => e = .badAlloc) P) : Ends (call x) Caught P := by
  cases x with
  | ok a => exact h
  | error e => exact Ends.error (.inr (congrArg Halt.threw h))

theorem reserveMesh_answered {lim : ℕ} (granted : AllocSite → Bool) (hlim : 8 ≤ lim)
    (hlim' : lim < 2 ^ 64) (hnodes : 3 * b.numNodes.toNat ≤ lim / 8)
    (hcells : 8 * b.numCells.toNat ≤ lim / 8) :
    Ends (b.reserveMesh lim granted) Answered (fun _ => True) := by
  have hn : (3 * b.numNodes).toNat = 3 * b.numNodes.toNat := by
    rw [UInt64.toNat_mul]
    simp
    omega
  have hc : (8 * b.numCells).toNat = 8 * b.numCells.toNat := by
    rw [UInt64.toNat_mul]
    simp
    omega
  have hc' : (b.numCells + 1).toNat = b.numCells.toNat + 1 := by
    rw [UInt64.toNat_add]
    simp
    omega
  unfold reserveMesh
  rw [hn, hc, hc']
  refine catchBadAlloc_answered (call_caught ?_)
  refine (reserve_caught _ hnodes).bind fun _ _ => ?_
  refine (reserve_caught _ (by omega)).bind fun _ _ => ?_
  refine (reserve_caught _ (by omega)).bind fun _ _ => ?_
  refine (reserve_caught _ (by omega)).bind fun _ _ => ?_
  exact reserve_caught _ hcells

theorem addNodes_answered {lim : ℕ} (granted : AllocSite → Bool) (hlim : lim < 2 ^ 64)
    (hsizes : b.SizesMatch) (hnodes : 3 * b.numNodes.toNat ≤ lim / 8) :
    Ends (b.addNodes lim granted) Answered (fun s => s.2 = List.range b.numNodes.toNat) := by
  have hentries : b.coords.entries 8 = 3 * b.numNodes.toNat := by
    have hsize := hsizes.coords
    rw [UInt64.toNat_mul, UInt64.toNat_mul] at hsize
    unfold Buffer.entries
    simp at hsize
    omega
  refine catchBadAlloc_answered ((call_caught (reserve_caught _ (by omega))).bind fun _ _ => ?_)
  have hloop : Ends (forRange b.addNode b.numNodes.toNat 0 ({}, [])) Caught
      (fun s => s.1.nodes.length = 0 + b.numNodes.toNat ∧ s.2 = List.range (0 + b.numNodes.toNat)) := by
    refine Ends.forRange
      (I := fun i (s : Mesh × List ℕ) => s.1.nodes.length = i ∧ s.2 = List.range i) ?_ ⟨rfl, rfl⟩
    rintro i s _ hi ⟨hlength, hlookup⟩
    refine (Buffer.read_ends (by omega)).bind fun x _ => ?_
    refine (Buffer.read_ends (by omega)).bind fun y _ => ?_
    refine (Buffer.read_ends (by omega)).bind fun z _ => ?_
    refine Ends.ok ⟨?_, ?_⟩
    · simp [hlength]
    · simp [hlength, hlookup, List.range_succ]
  refine hloop.mono fun s hs => ?_
  rw [hs.2, Nat.zero_add]

theorem insertCell_answered (granted : AllocSite → Bool) (i : ℕ) (type : ElementType)
    (cellNodes : List ℕ) (tag : UInt32) (mesh : Mesh) :
    Ends (insertCell granted i type cellNodes tag mesh) Answered (fun _ => True) := by
  unfold insertCell
  split
  · exact Ends.ok trivial
  · exact Ends.error trivial
  · exact Ends.error trivial

theorem addCell_answered {lim i : ℕ} (granted : AllocSite → Bool) (hcell : b.GoodCell i)
    (htypes : i < b.types.entries 2) (hoffsets : i + 1 < b.offsets.entries 8)
    (hle : b.offset i ≤ b.offset (i + 1)) (htags : ∀ tags ∈ b.tags, i < tags.entries 4) (mesh : Mesh) :
    Ends (b.addCell lim granted (List.range b.numNodes.toNat) i mesh) Answered (fun _ => True) := by
  unfold addCell
  refine (Buffer.read_ends htypes).bind fun code _ => ?_
  refine (Buffer.read_ends (by omega : i < b.offsets.entries 8)).bind fun this hthis => ?_
  refine (Buffer.read_ends hoffsets).bind fun next hnext => ?_
  subst hthis hnext
  have hroom : Ends (reserveScratch lim granted i (b.offsets.entry 8 (i + 1) - b.offsets.entry 8 i).toNat)
      Answered (fun _ => True) := by
    have hcount := (b.elementType i).numNodes_le
    have hsize := hcell.size
    rw [toNat_sub_offset hle, reserveScratch, if_pos (by omega)]
    exact Ends.ok trivial
  refine hroom.bind fun _ _ => ?_
  have hgather : Ends (forRange (b.gatherNode (List.range b.numNodes.toNat))
      (b.offset (i + 1) - b.offset i) (b.offset i) []) Answered (fun _ => True) := by
    refine Ends.forRange (I := fun _ _ => True) ?_ trivial
    intro j cellNodes hlo hhi _
    have hreached := hcell.reached
    have hnode := hcell.nodes j hlo (by omega)
    refine (Buffer.read_ends (by omega)).bind fun node heq => ?_
    subst heq
    rw [List.getElem?_range hnode]
    exact Ends.ok trivial
  refine hgather.bind fun cellNodes _ => ?_
  have htag : Ends (b.readTag i) Answered (fun _ => True) := by
    unfold readTag
    split
    · rename_i tags hsome
      exact (Buffer.read_ends (htags tags hsome)).bind fun _ _ => Ends.ok trivial
    · exact Ends.ok trivial
  exact htag.bind fun tag _ => insertCell_answered _ _ _ _ _ _

/-- On buffers that fit, every call is answered. -/
theorem Fits.answered {lim : ℕ} (hlim : 8 ≤ lim) (hlim' : lim < 2 ^ 64) (hfits : b.Fits lim)
    (granted : AllocSite → Bool) : Ends (b.build lim granted) Answered (fun _ => True) := by
  unfold build
  refine checkSizes_answered.bind fun _ hsizes => ?_
  refine (checkFirstOffset_answered hfits hsizes).bind fun _ hfirst => ?_
  refine (checkOffsets_answered hfits hsizes hfirst).bind fun _ ⟨hm, hordered⟩ => ?_
  refine (checkConnectivitySize_answered hm).bind fun _ hsize => ?_
  refine (checkCells_answered hfits hsizes hordered hsize).bind fun _ ⟨hgood, hnodes, hcells⟩ => ?_
  refine (reserveMesh_answered granted hlim hlim' hnodes hcells).bind fun _ _ => ?_
  refine (addNodes_answered granted hlim' hsizes hnodes).bind fun s hlookup => ?_
  obtain ⟨mesh, lookup⟩ := s
  subst hlookup
  obtain ⟨-, htypes, htags⟩ := hsizes.whole hm
  refine Ends.forRange (I := fun _ _ => True) ?_ trivial
  intro i mesh _ hi _
  refine addCell_answered granted (hgood i (by omega)).1 (by omega) (by omega)
    (hordered.mono i (by omega)) (fun tags hmem => ?_) mesh
  rw [htags tags hmem]
  omega

end

/-! ### Calls on buffers that do not fit -/

theorem SizesMatch.passes (h : b.SizesMatch) : b.checkSizes = .ok ⟨⟩ := by
  have htags : ¬∃ tags ∈ b.tags, tags.size ≠ (b.numCells * 4).toNat := by
    simpa using h.tags
  unfold checkSizes
  rw [refuseIf_passes (not_not.mpr h.coords), refuseIf_passes (not_not.mpr h.types),
    refuseIf_passes (not_not.mpr h.offsets), refuseIf_passes htags]
  rfl

namespace OffsetsOrdered

variable (h : b.OffsetsOrdered)

include h

theorem first_passes (hpos : 0 < b.offsets.entries 8) : b.checkFirstOffset = .ok ⟨⟩ := by
  unfold checkFirstOffset
  split
  · rename_i hcells
    have hzero : ¬b.offsets.entry 8 0 ≠ 0 :=
      not_not.mpr (UInt64.toNat_inj.mp (h.first (UInt64.lt_iff_toNat_lt.mp hcells) hpos))
    rw [Buffer.read_ok hpos]
    exact refuseIf_passes hzero _
  · rfl

theorem offset_passes {i : ℕ} (hi : i + 1 < b.offsets.entries 8) : b.checkOffset i ⟨⟩ = .ok ⟨⟩ := by
  have hle : ¬b.offsets.entry 8 (i + 1) < b.offsets.entry 8 i := by
    rw [UInt64.lt_iff_toNat_lt]
    exact Nat.not_lt.mpr (h.mono i hi)
  unfold checkOffset
  rw [Buffer.read_ok hi, Buffer.read_ok (by omega)]
  exact refuseIf_passes hle _

end OffsetsOrdered

theorem connectivitySize_passes (hm : b.numCells.toNat + 1 = b.offsets.entries 8)
    (hsize : b.connectivity.size = (UInt64.ofNat b.totalNodeRefs * 8).toNat) :
    b.checkConnectivitySize = .ok ⟨⟩ := by
  have htotal : b.readTotalNodeRefs = .ok (UInt64.ofNat b.totalNodeRefs) := by
    unfold readTotalNodeRefs totalNodeRefs
    split
    · rename_i hzero
      rw [if_pos (by simp [hzero])]
      rfl
    · rename_i hne
      have hpos : b.numCells.toNat ≠ 0 := fun h => hne (UInt64.toNat_inj.mp h)
      rw [Buffer.read_ok (by omega), if_neg hpos, offset, UInt64.ofNat_toNat]
  unfold checkConnectivitySize
  rw [htotal]
  exact refuseIf_passes (not_not.mpr hsize) _

theorem node_passes {i j : ℕ} (hbad : ¬b.BadCell i) (hlo : b.offset i ≤ j) (hhi : j < b.offset (i + 1))
    (hj : j < b.connectivity.entries 8) : b.checkNode j ⟨⟩ = .ok ⟨⟩ := by
  have hrange : ¬b.connectivity.entry 8 j ≥ b.numNodes := by
    intro hge
    exact hbad (.inr (.inr ⟨j, hlo, hhi, hj, UInt64.le_iff_toNat_le.mp hge⟩))
  unfold checkNode
  rw [Buffer.read_ok hj]
  exact refuseIf_passes hrange _

theorem checkCell_eq {i : ℕ} (hbad : ¬b.BadCell i) (htypes : i < b.types.entries 2)
    (hoffsets : i + 1 < b.offsets.entries 8) (hle : b.offset i ≤ b.offset (i + 1)) :
    b.checkCell i ⟨⟩ =
      forRange b.checkNode (b.offset (i + 1) - b.offset i) (b.offset i) ⟨⟩ := by
  have htype : (b.elementType i).numNodes ≠ 0 := fun h => hbad (.inl h)
  have hknown : ¬((b.elementType i).numNodes = 0 ∨ b.elementType i = .unknown) := by
    rintro (h | h)
    · exact htype h
    · rw [h] at htype
      exact htype rfl
  have hsize : ¬(b.offsets.entry 8 (i + 1) - b.offsets.entry 8 i).toNat ≠ (b.elementType i).numNodes := by
    intro h
    rw [toNat_sub_offset hle] at h
    exact hbad (.inr (.inl h))
  unfold checkCell
  rw [Buffer.read_ok htypes, Buffer.read_ok hoffsets, Buffer.read_ok (by omega : i < _)]
  show (refuseIf ((b.elementType i).numNodes = 0 ∨ b.elementType i = .unknown) _ >>= _) = _
  rw [refuseIf_passes hknown]
  show (refuseIf ((b.offsets.entry 8 (i + 1) - b.offsets.entry 8 i).toNat ≠ (b.elementType i).numNodes) _
    >>= _) = _
  rw [refuseIf_passes hsize]
  rfl

theorem build_eq (hsizes : b.SizesMatch) (hordered : b.OffsetsOrdered)
    (hm : b.numCells.toNat + 1 = b.offsets.entries 8)
    (hsize : b.connectivity.size = (UInt64.ofNat b.totalNodeRefs * 8).toNat) (lim : ℕ)
    (granted : AllocSite → Bool) : b.build lim granted = (do
      forRange b.checkCell b.numCells.toNat 0 ⟨⟩
      b.reserveMesh lim granted
      let (mesh, lookup) ← b.addNodes lim granted
      forRange (b.addCell lim granted lookup) b.numCells.toNat 0 mesh) := by
  unfold build
  rw [hsizes.passes, hordered.first_passes (by omega),
    forRange_ok fun i _ hi => hordered.offset_passes (by omega), connectivitySize_passes hm hsize]
  rfl

theorem checkCells_pass (hordered : b.OffsetsOrdered) (hm : b.numCells.toNat + 1 = b.offsets.entries 8)
    (htypes : b.types.entries 2 = b.numCells.toNat) (htotal : b.totalNodeRefs ≤ b.connectivity.entries 8)
    (hgood : ∀ i < b.numCells.toNat, ¬b.BadCell i) :
    forRange b.checkCell b.numCells.toNat 0 ⟨⟩ = .ok ⟨⟩ := by
  refine forRange_ok fun i _ hi => ?_
  have hi : i < b.numCells.toNat := by omega
  have hreached := hordered.le_total hm hi
  have hbad := hgood i hi
  rw [checkCell_eq hbad (by omega) (by omega) (hordered.mono i (by omega))]
  exact forRange_ok fun j hlo hhi => node_passes hbad hlo (by omega) (by omega)

theorem reserveMesh_ends {lim : ℕ} : Ends (b.reserveMesh lim fun _ => true)
    (fun e => e = .threw .lengthError)
    (fun _ => (3 * b.numNodes).toNat ≤ lim / 8 ∧ (8 * b.numCells).toNat ≤ lim / 8) := by
  have hreserve : ∀ width n, Ends (reserve lim true width n) (fun e => e = .lengthError)
      (fun _ => n ≤ lim / width) := by
    intro width n
    unfold reserve
    split
    · exact Ends.error rfl
    · rename_i hle
      exact Ends.ok (Nat.not_lt.mp hle)
  have hall : Ends (do
      reserve lim true 8 (3 * b.numNodes).toNat
      reserve lim true 2 b.numCells.toNat
      reserve lim true 4 b.numCells.toNat
      reserve lim true 8 (b.numCells + 1).toNat
      reserve lim true 8 (8 * b.numCells).toNat) (fun e => e = .lengthError)
      (fun _ => (3 * b.numNodes).toNat ≤ lim / 8 ∧ (8 * b.numCells).toNat ≤ lim / 8) := by
    refine (hreserve _ _).bind fun _ hnodes => ?_
    refine (hreserve _ _).bind fun _ _ => (hreserve _ _).bind fun _ _ => ?_
    refine (hreserve _ _).bind fun _ _ => (hreserve _ _).mono fun _ hcells => ?_
    exact ⟨hnodes, hcells⟩
  unfold reserveMesh
  revert hall
  generalize (do
      reserve lim true 8 (3 * b.numNodes).toNat
      reserve lim true 2 b.numCells.toNat
      reserve lim true 4 b.numCells.toNat
      reserve lim true 8 (b.numCells + 1).toNat
      reserve lim true 8 (8 * b.numCells).toNat) = x
  intro hall
  cases x with
  | ok _ => exact hall
  | error e =>
    obtain rfl : e = .lengthError := hall
    exact Ends.error rfl

theorem build_too_large {lim : ℕ} (hlim : lim < 2 ^ 64) (hcells : 8 * (b.numCells.toNat + 1) < 2 ^ 64)
    (hlarge : ¬(3 * b.numNodes.toNat ≤ lim / 8 ∧ 8 * b.numCells.toNat ≤ lim / 8)) :
    (do
      b.reserveMesh lim fun _ => true
      let (mesh, lookup) ← b.addNodes lim fun _ => true
      forRange (b.addCell lim (fun _ => true) lookup) b.numCells.toNat 0 mesh) =
      .error (.threw .lengthError) := by
  have hreserve : Ends (b.reserveMesh lim fun _ => true) (fun e => e = .threw .lengthError)
      (fun _ => (3 * b.numNodes).toNat ≤ lim / 8 ∧ (8 * b.numCells).toNat ≤ lim / 8) :=
    reserveMesh_ends
  cases hmesh : b.reserveMesh lim fun _ => true with
  | error e =>
    rw [hmesh] at hreserve
    obtain rfl : e = .threw .lengthError := hreserve
    rfl
  | ok _ =>
    rw [hmesh] at hreserve
    obtain ⟨hn, hc⟩ : (3 * b.numNodes).toNat ≤ lim / 8 ∧ (8 * b.numCells).toNat ≤ lim / 8 := hreserve
    rw [UInt64.toNat_mul] at hn hc
    simp at hn hc
    -- only a wrapped count of coordinates is left, and that many nodes are too many
    have hwrapped : lim / 8 < b.numNodes.toNat := by omega
    have hnodes : b.addNodes lim (fun _ => true) = .error (.threw .lengthError) := by
      unfold addNodes
      rw [reserve, if_pos hwrapped]
      rfl
    rw [hnodes]
    rfl

theorem build_offsets_outside (hsizes : b.SizesMatch) (hordered : b.OffsetsOrdered)
    (hm : b.numCells.toNat + 1 ≠ b.offsets.entries 8) (lim : ℕ) (granted : AllocSite → Bool) :
    b.build lim granted = .error .outOfBounds := by
  have hle := hsizes.entries_le
  unfold build
  rw [hsizes.passes]
  by_cases hnone : b.offsets.entries 8 = 0
  · -- no offset at all, although the count says that there are some
    have hcells : b.numCells > 0 := by
      refine UInt64.lt_iff_toNat_lt.mpr (Nat.pos_of_ne_zero fun hzero => ?_)
      have hsize := hsizes.offsets
      rw [UInt64.toNat_mul, UInt64.toNat_add, hzero] at hsize
      unfold Buffer.entries at hnone
      simp at hsize
      omega
    have hfirst : b.checkFirstOffset = .error .outOfBounds := by
      unfold checkFirstOffset
      rw [if_pos hcells, Buffer.read_outside (by omega)]
      rfl
    rw [hfirst]
    rfl
  · have hloop : forRange b.checkOffset b.numCells.toNat 0 ⟨⟩ = .error .outOfBounds := by
      refine forRange_error (Nat.zero_le (b.offsets.entries 8 - 1)) (by omega)
        (fun j _ hj => hordered.offset_passes (by omega)) ?_
      unfold checkOffset
      rw [Buffer.read_outside (by omega)]
      rfl
    rw [hordered.first_passes (by omega), hloop]
    rfl

theorem checkCells_outside (hordered : b.OffsetsOrdered)
    (hm : b.numCells.toNat + 1 = b.offsets.entries 8) (htypes : b.types.entries 2 = b.numCells.toNat)
    (hgood : ∀ i < b.numCells.toNat, b.offset i ≤ b.connectivity.entries 8 → ¬b.BadCell i)
    (hmore : b.connectivity.entries 8 < b.totalNodeRefs) :
    forRange b.checkCell b.numCells.toNat 0 ⟨⟩ = .error .outOfBounds := by
  have hpos : b.numCells.toNat ≠ 0 := by
    intro hzero
    rw [totalNodeRefs, if_pos hzero] at hmore
    omega
  have hlast : b.connectivity.entries 8 < b.offset (b.numCells.toNat - 1 + 1) := by
    rw [totalNodeRefs, if_neg hpos] at hmore
    rwa [Nat.sub_add_cancel (by omega)]
  -- the first cell that reaches beyond the buffer
  have hexists : ∃ i, b.connectivity.entries 8 < b.offset (i + 1) := ⟨_, hlast⟩
  obtain ⟨i, hi⟩ : ∃ i, i = Nat.find hexists := ⟨_, rfl⟩
  have hbeyond : b.connectivity.entries 8 < b.offset (i + 1) := hi ▸ Nat.find_spec hexists
  have hbefore : ∀ k < i, b.offset (k + 1) ≤ b.connectivity.entries 8 := fun k hk =>
    Nat.not_lt.mp (Nat.find_min hexists (hi ▸ hk))
  have hilt : i < b.numCells.toNat := by
    have := Nat.find_min' hexists hlast
    omega
  have hstart : ∀ k ≤ i, b.offset k ≤ b.connectivity.entries 8 := by
    intro k hk
    cases k with
    | zero => rw [hordered.first (by omega) (by omega)]; omega
    | succ k => exact hbefore k (by omega)
  refine forRange_error (Nat.zero_le i) (by omega) (fun k _ hk => ?_) ?_
  · have hbad := hgood k (by omega) (hstart k (by omega))
    have hreached := hbefore k hk
    rw [checkCell_eq hbad (by omega) (by omega) (hordered.mono k (by omega))]
    exact forRange_ok fun j hlo hhi => node_passes hbad hlo (by omega) (by omega)
  · have hbad := hgood i hilt (hstart i (Nat.le_refl _))
    have hle := hstart i (Nat.le_refl _)
    rw [checkCell_eq hbad (by omega) (by omega) (hordered.mono i (by omega))]
    refine forRange_error hle (by omega)
      (fun j hlo hhi => node_passes hbad hlo (by omega) hhi) ?_
    unfold checkNode
    rw [Buffer.read_outside (Nat.le_refl _)]
    rfl

theorem not_fits_fails {lim : ℕ} (hlim : lim < 2 ^ 64) (h : ¬b.Fits lim) :
    ∃ e, b.build lim (fun _ => true) = .error e ∧ ¬Answered e := by
  unfold Fits at h
  push Not at h
  obtain ⟨hsizes, hordered, h⟩ := h
  by_cases hm : b.numCells.toNat + 1 = b.offsets.entries 8
  · obtain ⟨hsize, hgood, hlarge⟩ := h hm
    obtain ⟨hcells, htypes, -⟩ := hsizes.whole hm
    rw [build_eq hsizes hordered hm hsize]
    rcases Nat.lt_or_eq_of_le (connectivity_le hsize) with hmore | htotal
    · rw [checkCells_outside hordered hm htypes hgood hmore]
      exact ⟨.outOfBounds, rfl, not_false⟩
    · -- every reference is there, so it is the vectors that are too large
      have hall : forRange b.checkCell b.numCells.toNat 0 ⟨⟩ = .ok ⟨⟩ := by
        refine checkCells_pass hordered hm htypes (by omega) fun i hi => hgood i hi ?_
        have hle := hordered.mono i (by omega)
        have hreached := hordered.le_total hm hi
        omega
      have htoo := build_too_large hlim hcells fun hfit => hlarge htotal.symm hfit.1 |>.not_ge hfit.2
      rw [hall]
      exact ⟨_, htoo, not_false⟩
  · exact ⟨.outOfBounds, build_offsets_outside hsizes hordered hm lim _, not_false⟩

end Given

/-! ### The whole call -/

/-- Which descriptors the call can be given: the buffers fit, if there are any. -/
def Fits (lim : ℕ) (buffers : Option MeshBuffers) : Prop :=
  ∀ d ∈ buffers, ∀ b ∈ d.given, b.Fits lim

theorem writeErr_answered {α : Type} {code : StatusCode} {message : String} {halt : Halt}
    (h : writeErr (α := α) code message = .error halt) : Answered halt := by
  obtain rfl := Except.error.inj h
  trivial

/-- **Every read stays inside its buffer and every call is answered**, however the allocations go,
exactly on the descriptors that fit. -/
theorem mesh_from_buffers_answers_iff {lim : ℕ} (hlim : 8 ≤ lim) (hlim' : lim < 2 ^ 64)
    (buffers : Option MeshBuffers) :
    (∀ granted halt, souxmarMeshFromBuffers lim granted buffers = .error halt → Answered halt) ↔
      Fits lim buffers := by
  unfold souxmarMeshFromBuffers Fits
  cases buffers with
  | none => simpa using fun halt h => writeErr_answered h
  | some d =>
    cases hgiven : d.given with
    | none => simpa [hgiven] using fun halt h => writeErr_answered h
    | some b =>
      simp only [hgiven, Option.mem_some_iff, forall_eq']
      constructor
      · intro h
        by_contra hnot
        obtain ⟨e, he, hanswered⟩ := Given.not_fits_fails hlim' hnot
        exact hanswered (h _ e he)
      · intro hfits granted halt hhalt
        have hends := hfits.answered hlim hlim' granted
        rw [hhalt] at hends
        exact hends

instance exceptDecidableEq {ε α : Type*} [DecidableEq ε] [DecidableEq α] : DecidableEq (Except ε α)
  | .ok a, .ok b => decidable_of_iff (a = b) ⟨congrArg _, Except.ok.inj⟩
  | .error e, .error f => decidable_of_iff (e = f) ⟨congrArg _, Except.error.inj⟩
  | .ok _, .error _ => isFalse nofun
  | .error _, .ok _ => isFalse nofun

/-- One node and one cell, a vertex. -/
def vertexMesh : MeshBuffers where
  nodeCoords := some ⟨List.replicate 24 0⟩
  numNodes := 1
  cellTypes := some ⟨[1, 0]⟩
  cellConnectivity := some ⟨List.replicate 8 0⟩
  cellOffsets := some ⟨List.replicate 8 0 ++ 1 :: List.replicate 7 0⟩
  numCells := 1

theorem vertexMesh_answered : Fits (2 ^ 63 - 1) (some vertexMesh) ∧ ∀ granted halt,
    souxmarMeshFromBuffers (2 ^ 63 - 1) granted (some vertexMesh) = .error halt → Answered halt := by
  have hfits : Fits (2 ^ 63 - 1) (some vertexMesh) := by
    intro d hd b hb
    cases hd
    cases hb
    exact fun _ _ => ⟨by decide, fun _ => .inr ⟨by decide, by decide, by decide⟩⟩
  exact ⟨hfits, (mesh_from_buffers_answers_iff (by decide) (by decide) (some vertexMesh)).mpr hfits⟩

/-- Counts that wrap: a cell count whose offsets are not there, an offset whose references are not there,
and a node count for which no vector is large enough. -/
theorem wrapped_counts_not_answered :
    souxmarMeshFromBuffers (2 ^ 63 - 1) (fun _ => true)
      (some { vertexMesh with numCells := 2 ^ 63 + 1 }) = .error .outOfBounds ∧
    souxmarMeshFromBuffers (2 ^ 63 - 1) (fun _ => true)
      (some { vertexMesh with
        numCells := 2
        cellTypes := some ⟨[9, 0, 1, 0]⟩
        cellOffsets := some ⟨List.replicate 8 0 ++ 4 :: List.replicate 7 0 ++
          1 :: List.replicate 6 0 ++ [0x20]⟩ }) = .error .outOfBounds ∧
    souxmarMeshFromBuffers (2 ^ 63 - 1) (fun _ => true)
      (some { vertexMesh with numNodes := 2 ^ 61 + 1 }) = .error (.threw .lengthError) := by
  decide +kernel

end Souxmar.Core
