import Mathlib.Data.List.Nodup

/-!
# Least-recently-used caches

A cache of bounded size as a list of entries, the most recently used first. It carries its own bound, and that no
key is there twice.
-/

namespace Souxmar.Lib

@[ext] structure Lru (κ ν : Type*) where
  capacity : ℕ
  entries : List (κ × ν)
  nodup : (entries.map Prod.fst).Nodup
  bounded : entries.length ≤ capacity

namespace Lru

variable {κ ν : Type*}

def empty (capacity : ℕ) : Lru κ ν where
  capacity := capacity
  entries := []
  nodup := List.nodup_nil
  bounded := Nat.zero_le _

/-- Another capacity; what does not fit is dropped, the least recently used first. -/
def resize (capacity : ℕ) (c : Lru κ ν) : Lru κ ν where
  capacity := capacity
  entries := c.entries.take capacity
  nodup := by
    rw [List.map_take]
    exact c.nodup.sublist (List.take_sublist _ _)
  bounded := by rw [List.length_take]; exact Nat.min_le_left _ _

variable [DecidableEq κ]

def find (k : κ) (c : Lru κ ν) : Option ν := (c.entries.find? fun e => e.1 = k).map Prod.snd

/-- The entry of a key becomes the most recently used one. -/
def use (k : κ) (c : Lru κ ν) : Lru κ ν where
  capacity := c.capacity
  entries := c.entries.filter (fun e => e.1 = k) ++ c.entries.filter fun e => !decide (e.1 = k)
  nodup := (((List.filter_append_perm (fun e : κ × ν => decide (e.1 = k)) c.entries).map Prod.fst).nodup_iff).mpr
    c.nodup
  bounded := by
    rw [(List.filter_append_perm (fun e : κ × ν => decide (e.1 = k)) c.entries).length_eq]
    exact c.bounded

/-- A new entry; the least recently used one makes room for it. -/
def put (k : κ) (v : ν) (c : Lru κ ν) : Lru κ ν where
  capacity := c.capacity
  entries := ((k, v) :: c.entries.filter fun e => !decide (e.1 = k)).take c.capacity
  nodup := by
    rw [List.map_take]
    refine List.Nodup.sublist (List.take_sublist _ _) ?_
    rw [List.map_cons, List.nodup_cons]
    refine ⟨fun hmem => ?_, c.nodup.sublist (List.filter_sublist.map _)⟩
    obtain ⟨e, he, hkey⟩ := List.mem_map.mp hmem
    have hother := List.of_mem_filter he
    rw [hkey] at hother
    simp at hother
  bounded := by rw [List.length_take]; exact Nat.min_le_left _ _

@[simp] theorem capacity_use (k : κ) (c : Lru κ ν) : (c.use k).capacity = c.capacity := rfl

@[simp] theorem capacity_put (k : κ) (v : ν) (c : Lru κ ν) : (c.put k v).capacity = c.capacity := rfl

theorem find_eq_none_iff {k : κ} {c : Lru κ ν} : c.find k = none ↔ ∀ e ∈ c.entries, e.1 ≠ k := by
  unfold find
  rw [Option.map_eq_none_iff, List.find?_eq_none]
  simp

/-- A key that is not there is put in front of what is. -/
theorem entries_put_of_find_none {k : κ} {c : Lru κ ν} (h : c.find k = none) (v : ν) :
    (c.put k v).entries = ((k, v) :: c.entries).take c.capacity := by
  have hall : c.entries.filter (fun e => !decide (e.1 = k)) = c.entries := by
    rw [List.filter_eq_self]
    intro e he
    simpa using find_eq_none_iff.mp h e he
  show ((k, v) :: c.entries.filter fun e => !decide (e.1 = k)).take c.capacity = _
  rw [hall]

end Lru

end Souxmar.Lib
