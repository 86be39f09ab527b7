import Mathlib.Data.UInt
import Souxmar.Lib.Dict

/-!
# Time series

`time_series.cpp`: fields of a sequence of frames, loaded on demand and kept in a cache. The list of the cache owns
the entries; its nodes have addresses, and the index maps a key to the address of a node. The loader is given by
the caller: it may answer as it likes, and differently each time.
-/

namespace Souxmar.Core

open Souxmar.Lib

structure Key where
  frameIndex : UInt64
  fieldIndex : ℕ
deriving DecidableEq, Repr

structure CacheEntry (φ : Type) where
  node : ℕ
  key : Key
  field : φ
deriving DecidableEq, Repr

/-- How a call of the loader ends. -/
inductive Loaded (φ : Type)
  | field (f : φ)
  | null
  | threw

/-- What a loader answers may depend on the calls that were made before. -/
abbrev FrameLoader (φ : Type) := List (UInt64 × String) → UInt64 → String → Loaded φ

/-- What stays fixed in a series: the number of frames, the fields, and the loader, if there is one. -/
structure Series (φ : Type) where
  frameCount : UInt64
  fieldNames : List String
  loader : Option (FrameLoader φ)

structure TimeSeries (φ : Type) where
  window : UInt64
  lru : List (CacheEntry φ) := []
  index : Dict Key ℕ := ∅
  /-- The address of the next node. -/
  fresh : ℕ := 0
  /-- The calls of the loader so far. -/
  loads : List (UInt64 × String) := []

/-- An exception of the loader, or the field, if there is one. -/
abbrev Answer (φ : Type) := Except Unit (Option φ)

variable {φ : Type} (c : Series φ)

/-- `SIZE_MAX` is no index. -/
def Series.resolveField (name : String) : Option ℕ :=
  c.fieldNames.findIdx? (· = name)

namespace TimeSeries

/-- `lru.splice(lru.begin(), lru, it)`. -/
def touch (node : ℕ) (s : TimeSeries φ) : TimeSeries φ :=
  { s with lru := s.lru.filter (fun e => e.node = node) ++ s.lru.filter fun e => !decide (e.node = node) }

/-- The body of the loop that evicts. -/
def popBack (s : TimeSeries φ) : TimeSeries φ :=
  match s.lru.getLast? with
  | none => s
  | some back => { s with index := s.index.erase back.key, lru := s.lru.dropLast }

/-- The loop that evicts; it ends after at most as many rounds as there are entries. -/
def evictLoop : ℕ → TimeSeries φ → TimeSeries φ
  | 0, s => s
  | rounds + 1, s => if s.lru.length > s.window.toNat ∧ s.lru ≠ [] then evictLoop rounds s.popBack else s

def evictToWindow (s : TimeSeries φ) : TimeSeries φ := evictLoop s.lru.length s

def frameInternal (frameIndex : UInt64) (fieldName : String) (s : TimeSeries φ) : Answer φ × TimeSeries φ :=
  if frameIndex ≥ c.frameCount then (.ok none, s)
  else
    match c.resolveField fieldName with
    | none => (.ok none, s)
    | some fieldIdx =>
      let key : Key := ⟨frameIndex, fieldIdx⟩
      match s.index.lookup key with
      | some node => (.ok ((s.lru.find? fun e => e.node = node).map CacheEntry.field), s.touch node)
      | none =>
        match c.loader with
        | none => (.ok none, s)
        | some loader =>
          let result := loader s.loads frameIndex fieldName
          let s := { s with loads := s.loads ++ [(frameIndex, fieldName)] }
          match result with
          | .threw => (.error (), s)
          | .null => (.ok none, s)
          | .field field =>
            let entry : CacheEntry φ := ⟨s.fresh, key, field⟩
            if s.window = 0 then
              -- the entry is held for the caller, and is not in the index
              let s := { s with lru := [entry], index := ∅, fresh := s.fresh + 1 }
              (.ok (s.lru.head?.map CacheEntry.field), s)
            else
              let s := { s with
                lru := entry :: s.lru, index := s.index.emplace key entry.node, fresh := s.fresh + 1 }
              let s := s.evictToWindow
              (.ok (s.lru.head?.map CacheEntry.field), s)

def setCacheWindow (windowSize : UInt64) (s : TimeSeries φ) : TimeSeries φ :=
  { s with window := windowSize }.evictToWindow

/-- The frames and fields that the two loops of `cache_preload` ask for; the sum wraps. -/
def preloadRequests (startFrame count : UInt64) : List (UInt64 × String) :=
  if startFrame ≥ c.frameCount then []
  else
    let last := min (startFrame + count) c.frameCount
    (List.range' startFrame.toNat (last.toNat - startFrame.toNat)).flatMap fun f =>
      c.fieldNames.map fun name => (UInt64.ofNat f, name)

/-- The loops themselves, with the number of fields loaded so far. -/
def preloadLoop : List (UInt64 × String) → ℕ → TimeSeries φ → Except Unit ℕ × TimeSeries φ
  | [], loaded, s => (.ok loaded, s)
  | (f, name) :: requests, loaded, s =>
    match s.frameInternal c f name with
    | (.error e, s) => (.error e, s)
    | (.ok (some _), s) => preloadLoop requests (loaded + 1) s
    | (.ok none, s) => preloadLoop requests loaded s

def cachePreload (startFrame count : UInt64) (s : TimeSeries φ) : Except Unit ℕ × TimeSeries φ :=
  preloadLoop c (preloadRequests c startFrame count) 0 s

end TimeSeries

/-! ## Calls -/

inductive SeriesCall
  | frame (frameIndex : UInt64) (fieldName : String)
  | setCacheWindow (windowSize : UInt64)
  | cachePreload (startFrame count : UInt64)

inductive SeriesResult (φ : Type)
  | frame (answer : Answer φ)
  | done
  | preloaded (loaded : Except Unit ℕ)

def SeriesCall.perform : SeriesCall → TimeSeries φ → SeriesResult φ × TimeSeries φ
  | frame frameIndex fieldName, s =>
    let (answer, s) := s.frameInternal c frameIndex fieldName
    (.frame answer, s)
  | setCacheWindow windowSize, s => (.done, s.setCacheWindow windowSize)
  | cachePreload startFrame count, s =>
    let (loaded, s) := s.cachePreload c startFrame count
    (.preloaded loaded, s)

end Souxmar.Core
