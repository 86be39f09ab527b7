import Souxmar.Core.TimeSeries
import Souxmar.Lib.Lru
import Souxmar.Lib.Run

/-!
# The cache of a time series

`Reference` is a series on a least-recently-used cache whose capacity is the window. The series of the source
follows it, with its list and its index in step, unless an entry that is held while the window is zero is still
there when the window becomes positive, or the range of a preload wraps.
-/

namespace Souxmar.Core

open Souxmar.Lib

variable {φ : Type} (c : Series φ)

/-! ## The reference -/

structure Reference (φ : Type) where
  cache : Lru Key φ
  loads : List (UInt64 × String) := []

namespace Reference

def request (frameIndex : UInt64) (fieldName : String) (r : Reference φ) : Answer φ × Reference φ :=
  if frameIndex ≥ c.frameCount then (.ok none, r)
  else
    match c.resolveField fieldName with
    | none => (.ok none, r)
    | some fieldIdx =>
      let key : Key := ⟨frameIndex, fieldIdx⟩
      match r.cache.find key with
      | some field => (.ok (some field), { r with cache := r.cache.use key })
      | none =>
        match c.loader with
        | none => (.ok none, r)
        | some loader =>
          let result := loader r.loads frameIndex fieldName
          let r := { r with loads := r.loads ++ [(frameIndex, fieldName)] }
          match result with
          | .threw => (.error (), r)
          | .null => (.ok none, r)
          | .field field => (.ok (some field), { r with cache := r.cache.put key field })

/-- The frames from the start on, as many as are asked for and as there are. -/
def preloadRequests (startFrame count : UInt64) : List (UInt64 × String) :=
  let last := min (startFrame.toNat + count.toNat) c.frameCount.toNat
  (List.range' startFrame.toNat (last - startFrame.toNat)).flatMap fun f =>
    c.fieldNames.map fun name => (UInt64.ofNat f, name)

def preloadLoop : List (UInt64 × String) → ℕ → Reference φ → Except Unit ℕ × Reference φ
  | [], loaded, r => (.ok loaded, r)
  | (f, name) :: requests, loaded, r =>
    match r.request c f name with
    | (.error e, r) => (.error e, r)
    | (.ok (some _), r) => preloadLoop requests (loaded + 1) r
    | (.ok none, r) => preloadLoop requests loaded r

def perform : SeriesCall → Reference φ → SeriesResult φ × Reference φ
  | .frame frameIndex fieldName, r =>
    let (answer, r) := r.request c frameIndex fieldName
    (.frame answer, r)
  | .setCacheWindow windowSize, r => (.done, { r with cache := r.cache.resize windowSize.toNat })
  | .cachePreload startFrame count, r =>
    let (loaded, r) := preloadLoop c (preloadRequests c startFrame count) 0 r
    (.preloaded loaded, r)

end Reference

/-! ## List and index -/

/-- The list holds no key twice, and the index knows the node of each key. -/
structure Indexed (lru : List (CacheEntry φ)) (index : Dict Key ℕ) : Prop where
  keys : (lru.map CacheEntry.key).Nodup
  nodes : (lru.map CacheEntry.node).Nodup
  lookup : ∀ key node, index.lookup key = some node ↔ ∃ e ∈ lru, e.key = key ∧ e.node = node

section

variable {lru : List (CacheEntry φ)} {index : Dict Key ℕ}

theorem Indexed.node_eq_iff (h : Indexed lru index) {key : Key} {node : ℕ}
    (hlookup : index.lookup key = some node) {e : CacheEntry φ} (he : e ∈ lru) :
    e.node = node ↔ e.key = key := by
  obtain ⟨e', he', rfl, rfl⟩ := (h.lookup key node).mp hlookup
  constructor
  · intro hnode
    rw [List.inj_on_of_nodup_map h.nodes he he' hnode]
  · intro hkey
    rw [List.inj_on_of_nodup_map h.keys he he' hkey]

theorem Indexed.lookup_none_iff (h : Indexed lru index) (key : Key) :
    index.lookup key = none ↔ ∀ e ∈ lru, e.key ≠ key := by
  constructor
  · intro hnone e he hkey
    rw [(h.lookup key e.node).mpr ⟨e, he, hkey, rfl⟩] at hnone
    exact nomatch hnone
  · intro hall
    cases hlookup : index.lookup key with
    | none => rfl
    | some node =>
      obtain ⟨e, he, hkey, -⟩ := (h.lookup key node).mp hlookup
      exact absurd hkey (hall e he)

theorem Indexed.perm (h : Indexed lru index) {lru' : List (CacheEntry φ)} (hperm : lru'.Perm lru) :
    Indexed lru' index where
  keys := (hperm.map _).nodup_iff.mpr h.keys
  nodes := (hperm.map _).nodup_iff.mpr h.nodes
  lookup key node := by
    rw [h.lookup key node]
    simp only [hperm.mem_iff]

theorem Indexed.pop {back : CacheEntry φ} (h : Indexed (lru ++ [back]) index) :
    Indexed lru (index.erase back.key) := by
  have hkeys := h.keys
  have hnodes := h.nodes
  rw [List.map_append, List.nodup_append] at hkeys hnodes
  refine ⟨hkeys.1, hnodes.1, fun key node => ?_⟩
  have hother : ∀ e ∈ lru, e.key ≠ back.key := fun e he =>
    hkeys.2.2 _ (List.mem_map_of_mem he) _ (by simp)
  by_cases hkey : key = back.key
  · rw [hkey, AList.lookup_erase]
    refine ⟨(fun hnone => nomatch hnone), ?_⟩
    rintro ⟨e, he, hsame, -⟩
    exact absurd hsame (hother e he)
  · rw [AList.lookup_erase_ne hkey, h.lookup key node]
    constructor
    · rintro ⟨e, he, rfl, rfl⟩
      rcases List.mem_append.mp he with he | he
      · exact ⟨e, he, rfl, rfl⟩
      · rw [List.mem_singleton.mp he] at hkey
        exact absurd rfl hkey
    · rintro ⟨e, he, hsame⟩
      exact ⟨e, List.mem_append_left _ he, hsame⟩

theorem Indexed.push (h : Indexed lru index) {entry : CacheEntry φ}
    (hkey : index.lookup entry.key = none) (hnode : ∀ e ∈ lru, e.node ≠ entry.node) :
    Indexed (entry :: lru) (index.emplace entry.key entry.node) := by
  have hother := (h.lookup_none_iff entry.key).mp hkey
  refine ⟨?_, ?_, fun key node => ?_⟩
  · rw [List.map_cons, List.nodup_cons]
    refine ⟨fun hmem => ?_, h.keys⟩
    obtain ⟨e, he, hsame⟩ := List.mem_map.mp hmem
    exact hother e he hsame
  · rw [List.map_cons, List.nodup_cons]
    refine ⟨fun hmem => ?_, h.nodes⟩
    obtain ⟨e, he, hsame⟩ := List.mem_map.mp hmem
    exact hnode e he hsame
  · rw [Dict.lookup_emplace]
    by_cases hsame : key = entry.key
    · rw [if_pos hsame, hkey, Option.getD_none]
      constructor
      · intro hnode
        exact ⟨entry, List.mem_cons_self, hsame.symm, Option.some.inj hnode⟩
      · rintro ⟨e, he, hk, rfl⟩
        rcases List.mem_cons.mp he with rfl | he
        · rfl
        · exact absurd (hk.trans hsame) (hother e he)
    · rw [if_neg hsame, h.lookup key node]
      constructor
      · rintro ⟨e, he, hsame⟩
        exact ⟨e, List.mem_cons_of_mem _ he, hsame⟩
      · rintro ⟨e, he, hk, hn⟩
        rcases List.mem_cons.mp he with rfl | he
        · exact absurd hk.symm hsame
        · exact ⟨e, he, hk, hn⟩

end

/-! ## Eviction -/

theorem evictLoop_of_le (rounds : ℕ) {s : TimeSeries φ} (h : s.lru.length ≤ s.window.toNat) :
    s.evictLoop rounds = s := by
  cases rounds with
  | zero => rfl
  | succ rounds => rw [TimeSeries.evictLoop, if_neg fun hmore => by omega]

theorem evictLoop_spec (rounds : ℕ) {s : TimeSeries φ} (h : Indexed s.lru s.index)
    (hrounds : s.lru.length ≤ rounds + s.window.toNat) :
    ∃ index, s.evictLoop rounds = { s with lru := s.lru.take s.window.toNat, index := index } ∧
      Indexed (s.lru.take s.window.toNat) index := by
  induction rounds generalizing s with
  | zero =>
    have hall : s.lru.take s.window.toNat = s.lru := List.take_of_length_le (by omega)
    rw [hall]
    exact ⟨s.index, rfl, h⟩
  | succ rounds ih =>
    by_cases hle : s.lru.length ≤ s.window.toNat
    · have hall : s.lru.take s.window.toNat = s.lru := List.take_of_length_le hle
      rw [hall, evictLoop_of_le _ hle]
      exact ⟨s.index, rfl, h⟩
    · rcases List.eq_nil_or_concat s.lru with hnil | ⟨lru, back, hlru⟩
      · rw [hnil] at hle
        exact absurd (Nat.zero_le _) hle
      · have hmore : s.lru.length > s.window.toNat ∧ s.lru ≠ [] := by
          refine ⟨by omega, ?_⟩
          rw [hlru]
          simp
        have hpop : s.popBack = { s with lru := lru, index := s.index.erase back.key } := by
          unfold TimeSeries.popBack
          rw [hlru]
          simp
        have hlength : s.lru.length = lru.length + 1 := by rw [hlru]; simp
        have hkeep : lru.take s.window.toNat = s.lru.take s.window.toNat := by
          rw [hlru, List.concat_eq_append, List.take_append_of_le_length (by omega)]
        rw [hlru, List.concat_eq_append] at h
        obtain ⟨index, hloop, hindexed⟩ := @ih { s with lru := lru, index := s.index.erase back.key } h.pop
          (by show lru.length ≤ rounds + s.window.toNat; omega)
        rw [TimeSeries.evictLoop, if_pos hmore, hpop, hloop]
        refine ⟨index, ?_, ?_⟩
        · show TimeSeries.mk s.window (lru.take s.window.toNat) index s.fresh s.loads = _
          rw [hkeep]
        · rw [← hkeep]
          exact hindexed

/-! ## Following the reference -/

def CacheEntry.pair (e : CacheEntry φ) : Key × φ := (e.key, e.field)

/-- What the reference keeps is what the index reaches. -/
structure Follows (s : TimeSeries φ) (r : Reference φ) : Prop where
  loads : r.loads = s.loads
  capacity : r.cache.capacity = s.window.toNat
  entries : s.window ≠ 0 → r.cache.entries = s.lru.map CacheEntry.pair
  indexed : s.window ≠ 0 → Indexed s.lru s.index
  unindexed : s.window = 0 → (∀ key, s.index.lookup key = none) ∧ s.lru.length ≤ 1
  fresh : ∀ e ∈ s.lru, e.node < s.fresh

theorem find?_unique {α : Type} {l : List α} {p : α → Bool} {a : α} (ha : a ∈ l) (hp : p a = true)
    (hunique : ∀ b ∈ l, p b = true → b = a) : l.find? p = some a := by
  cases hfind : l.find? p with
  | none => exact absurd hp (List.find?_eq_none.mp hfind a ha)
  | some b => rw [hunique b (List.mem_of_find?_eq_some hfind) (List.find?_some hfind)]

section

variable {c} {s : TimeSeries φ} {r : Reference φ}

theorem Follows.start (window : UInt64) :
    Follows ({ window } : TimeSeries φ) { cache := Lru.empty window.toNat } := by
  refine ⟨rfl, rfl, fun _ => rfl, fun _ => ⟨List.nodup_nil, List.nodup_nil, fun key node => ?_⟩,
    fun _ => ⟨fun key => rfl, Nat.zero_le _⟩, fun e he => nomatch he⟩
  exact ⟨(fun hnone => nomatch hnone), fun ⟨e, he, _⟩ => nomatch he⟩

theorem Follows.entries_nil (h : Follows s r) (hwindow : s.window = 0) : r.cache.entries = [] := by
  have hbounded := r.cache.bounded
  rw [h.capacity, hwindow] at hbounded
  exact List.eq_nil_of_length_eq_zero (Nat.le_zero.mp hbounded)

theorem Follows.miss (h : Follows s r) {key : Key} (hlookup : s.index.lookup key = none) :
    r.cache.find key = none := by
  rw [Lru.find_eq_none_iff]
  intro e he
  by_cases hwindow : s.window = 0
  · rw [h.entries_nil hwindow] at he
    exact nomatch he
  · rw [h.entries hwindow] at he
    obtain ⟨entry, hentry, rfl⟩ := List.mem_map.mp he
    exact ((h.indexed hwindow).lookup_none_iff key).mp hlookup entry hentry

theorem Follows.hit (h : Follows s r) {key : Key} {node : ℕ} (hlookup : s.index.lookup key = some node) :
    s.window ≠ 0 ∧ ∃ field, (s.lru.find? fun e => e.node = node).map CacheEntry.field = some field ∧
      r.cache.find key = some field := by
  have hwindow : s.window ≠ 0 := by
    intro hzero
    rw [(h.unindexed hzero).1 key] at hlookup
    exact nomatch hlookup
  have hindexed := h.indexed hwindow
  obtain ⟨entry, hentry, hkey, hnode⟩ := (hindexed.lookup key node).mp hlookup
  refine ⟨hwindow, entry.field, ?_, ?_⟩
  · have hfind : (s.lru.find? fun e => e.node = node) = some entry := by
      refine find?_unique hentry (by simpa using hnode) fun e he hsame => ?_
      exact List.inj_on_of_nodup_map hindexed.nodes he hentry ((of_decide_eq_true hsame).trans hnode.symm)
    rw [hfind]
    rfl
  · have hfind : (r.cache.entries.find? fun e => e.1 = key) = some entry.pair := by
      rw [h.entries hwindow]
      refine find?_unique (List.mem_map_of_mem hentry) (decide_eq_true hkey) fun pair hpair hsame => ?_
      obtain ⟨e, he, rfl⟩ := List.mem_map.mp hpair
      rw [List.inj_on_of_nodup_map hindexed.keys he hentry ((of_decide_eq_true hsame).trans hkey.symm)]
    unfold Lru.find
    rw [hfind]
    rfl

theorem Follows.touch (h : Follows s r) {key : Key} {node : ℕ} (hlookup : s.index.lookup key = some node) :
    Follows (s.touch node) { r with cache := r.cache.use key } := by
  obtain ⟨hwindow, -⟩ := h.hit hlookup
  have hindexed := h.indexed hwindow
  have hperm : (s.touch node).lru.Perm s.lru :=
    List.filter_append_perm (fun e : CacheEntry φ => decide (e.node = node)) s.lru
  refine ⟨h.loads, h.capacity, fun _ => ?_, fun _ => hindexed.perm hperm, fun hzero => absurd hzero hwindow,
    fun e he => h.fresh e (hperm.mem_iff.mp he)⟩
  have hsame : ∀ e ∈ s.lru, decide (e.node = node) = decide (e.pair.1 = key) := fun e he =>
    decide_eq_decide.mpr (hindexed.node_eq_iff hlookup he)
  have hfront : s.lru.filter (fun e => decide (e.node = node)) =
      s.lru.filter fun e => decide (e.pair.1 = key) := List.filter_congr hsame
  have hrest : s.lru.filter (fun e => !decide (e.node = node)) =
      s.lru.filter fun e => !decide (e.pair.1 = key) :=
    List.filter_congr fun e he => congrArg Bool.not (hsame e he)
  show r.cache.entries.filter (fun e => e.1 = key) ++ r.cache.entries.filter (fun e => !decide (e.1 = key)) =
    (s.lru.filter (fun e => decide (e.node = node)) ++
      s.lru.filter fun e => !decide (e.node = node)).map CacheEntry.pair
  rw [h.entries hwindow, hfront, hrest, List.map_append, List.filter_map, List.filter_map]
  rfl

theorem Follows.store (h : Follows s r) {key : Key} (hlookup : s.index.lookup key = none)
    (hwindow : s.window ≠ 0) (field : φ) (loads : List (UInt64 × String)) :
    let s' : TimeSeries φ := { s with
      lru := ⟨s.fresh, key, field⟩ :: s.lru, index := s.index.emplace key s.fresh, fresh := s.fresh + 1
      loads := loads }
    s'.evictToWindow.lru.head?.map CacheEntry.field = some field ∧
      Follows s'.evictToWindow { cache := r.cache.put key field, loads := loads } := by
  intro s'
  have hindexed : Indexed s'.lru s'.index :=
    @Indexed.push φ s.lru s.index (h.indexed hwindow) ⟨s.fresh, key, field⟩ hlookup fun e he =>
      Nat.ne_of_lt (h.fresh e he)
  obtain ⟨index, hevict, hkept⟩ := evictLoop_spec s'.lru.length hindexed (Nat.le_add_right _ _)
  have hpositive : s.window.toNat ≠ 0 := fun hzero => hwindow (UInt64.toNat_inj.mp hzero)
  obtain ⟨k, hk⟩ := Nat.exists_eq_succ_of_ne_zero hpositive
  unfold TimeSeries.evictToWindow
  rw [hevict]
  refine ⟨?_, rfl, h.capacity, fun _ => ?_, fun _ => hkept, fun hzero => absurd hzero hwindow, ?_⟩
  · show ((s'.lru.take s.window.toNat).head?.map CacheEntry.field) = some field
    rw [hk]
    rfl
  · rw [Lru.entries_put_of_find_none (h.miss hlookup), h.capacity, h.entries hwindow]
    show _ = (s'.lru.take s.window.toNat).map CacheEntry.pair
    rw [List.map_take]
    rfl
  · intro e he
    show e.node < s.fresh + 1
    rcases List.mem_cons.mp (List.mem_of_mem_take he) with rfl | he
    · exact Nat.lt_succ_self _
    · exact Nat.lt_succ_of_lt (h.fresh e he)

theorem Follows.hold (h : Follows s r) (hwindow : s.window = 0) (entry : CacheEntry φ)
    (hentry : entry.node = s.fresh) (loads : List (UInt64 × String)) :
    Follows { s with lru := [entry], index := ∅, fresh := s.fresh + 1, loads := loads }
      { cache := r.cache.put entry.key entry.field, loads := loads } := by
  refine ⟨rfl, h.capacity, fun hne => absurd hwindow hne, fun hne => absurd hwindow hne,
    fun _ => ⟨fun key => rfl, Nat.le_refl 1⟩, fun e he => ?_⟩
  rw [List.mem_singleton.mp he, hentry]
  exact Nat.lt_succ_self _

theorem Follows.logged (h : Follows s r) (loads : List (UInt64 × String)) :
    Follows { s with loads := loads } { r with loads := loads } :=
  ⟨rfl, h.capacity, h.entries, h.indexed, h.unindexed, h.fresh⟩

/-- One request. -/
theorem Follows.request (h : Follows s r) (frameIndex : UInt64) (fieldName : String) :
    (s.frameInternal c frameIndex fieldName).1 = (r.request c frameIndex fieldName).1 ∧
    Follows (s.frameInternal c frameIndex fieldName).2 (r.request c frameIndex fieldName).2 := by
  unfold TimeSeries.frameInternal Reference.request
  by_cases hrange : frameIndex ≥ c.frameCount
  · rw [if_pos hrange, if_pos hrange]
    exact ⟨rfl, h⟩
  rw [if_neg hrange, if_neg hrange]
  cases c.resolveField fieldName with
  | none => exact ⟨rfl, h⟩
  | some fieldIdx =>
    dsimp only
    cases hlookup : s.index.lookup ⟨frameIndex, fieldIdx⟩ with
    | some node =>
      obtain ⟨-, field, hcode, href⟩ := h.hit hlookup
      rw [href]
      exact ⟨congrArg Except.ok hcode, h.touch hlookup⟩
    | none =>
      rw [h.miss hlookup]
      dsimp only
      cases c.loader with
      | none => exact ⟨rfl, h⟩
      | some loader =>
        dsimp only
        rw [h.loads]
        cases loader s.loads frameIndex fieldName with
        | threw => exact ⟨rfl, h.logged _⟩
        | null => exact ⟨rfl, h.logged _⟩
        | field field =>
          dsimp only
          by_cases hwindow : s.window = 0
          · rw [if_pos hwindow]
            exact ⟨rfl, h.hold hwindow ⟨s.fresh, ⟨frameIndex, fieldIdx⟩, field⟩ rfl _⟩
          · rw [if_neg hwindow]
            obtain ⟨hanswer, hfollows⟩ :=
              h.store hlookup hwindow field (s.loads ++ [(frameIndex, fieldName)])
            exact ⟨congrArg Except.ok hanswer, hfollows⟩

theorem Follows.preloadLoop (h : Follows s r) (requests : List (UInt64 × String)) (loaded : ℕ) :
    (s.preloadLoop c requests loaded).1 = (r.preloadLoop c requests loaded).1 ∧
    Follows (s.preloadLoop c requests loaded).2 (r.preloadLoop c requests loaded).2 := by
  induction requests generalizing s r loaded with
  | nil => exact ⟨rfl, h⟩
  | cons request requests ih =>
    obtain ⟨f, name⟩ := request
    obtain ⟨hanswer, hfollows⟩ := h.request (c := c) f name
    rw [TimeSeries.preloadLoop, Reference.preloadLoop]
    revert hanswer hfollows
    generalize s.frameInternal c f name = code
    generalize r.request c f name = reference
    obtain ⟨answer, s'⟩ := code
    obtain ⟨answer', r'⟩ := reference
    rintro (rfl : answer = answer') hfollows
    cases answer with
    | error e => exact ⟨rfl, hfollows⟩
    | ok field =>
      cases field with
      | none => exact ih hfollows loaded
      | some f => exact ih hfollows (loaded + 1)

theorem Follows.setCacheWindow (h : Follows s r) {windowSize : UInt64}
    (hheld : s.window = 0 → s.lru ≠ [] → windowSize = 0) :
    Follows (s.setCacheWindow windowSize) { r with cache := r.cache.resize windowSize.toNat } := by
  unfold TimeSeries.setCacheWindow TimeSeries.evictToWindow
  by_cases hwindow : s.window = 0
  · obtain ⟨hunindexed, hone⟩ := h.unindexed hwindow
    by_cases hnil : s.lru = []
    · have hsame : TimeSeries.evictLoop s.lru.length { s with window := windowSize } =
          { s with window := windowSize } := evictLoop_of_le _ (by rw [hnil]; exact Nat.zero_le _)
      rw [hsame]
      refine ⟨h.loads, rfl, fun _ => ?_, fun _ => ⟨?_, ?_, fun key node => ?_⟩,
        fun _ => ⟨hunindexed, by rw [hnil]; exact Nat.zero_le _⟩, h.fresh⟩
      · show r.cache.entries.take windowSize.toNat = s.lru.map CacheEntry.pair
        rw [h.entries_nil hwindow, hnil, List.take_nil]
        rfl
      · rw [hnil]
        exact List.nodup_nil
      · rw [hnil]
        exact List.nodup_nil
      · rw [hunindexed key, hnil]
        exact ⟨(fun hnone => nomatch hnone), fun ⟨e, he, _⟩ => nomatch he⟩
    · obtain ⟨entry, hentry⟩ : ∃ entry, s.lru = [entry] := by
        cases hlru : s.lru with
        | nil => exact absurd hlru hnil
        | cons entry rest =>
          rw [hlru, List.length_cons] at hone
          exact ⟨entry, by rw [List.eq_nil_of_length_eq_zero (by omega : rest.length = 0)]⟩
      have hzero := hheld hwindow hnil
      have hgone : TimeSeries.evictLoop s.lru.length { s with window := windowSize } =
          { s with window := windowSize, lru := [], index := s.index.erase entry.key } := by
        rw [hzero, hentry]
        rfl
      rw [hgone]
      refine ⟨h.loads, rfl, fun hne => absurd hzero hne, fun hne => absurd hzero hne,
        fun _ => ⟨fun key => ?_, Nat.zero_le _⟩, fun e he => nomatch he⟩
      show (s.index.erase entry.key).lookup key = none
      by_cases hkey : key = entry.key
      · rw [hkey, AList.lookup_erase]
      · rw [AList.lookup_erase_ne hkey, hunindexed key]
  · have hindexed : Indexed s.lru s.index := h.indexed hwindow
    obtain ⟨index, hevict, hkept⟩ := @evictLoop_spec φ s.lru.length { s with window := windowSize } hindexed
      (Nat.le_add_right _ _)
    show Follows (TimeSeries.evictLoop s.lru.length { s with window := windowSize }) _
    rw [hevict]
    refine ⟨h.loads, rfl, fun _ => ?_, fun _ => hkept, fun hzero => ⟨fun key => ?_, ?_⟩, fun e he =>
      h.fresh e (List.mem_of_mem_take he)⟩
    · show r.cache.entries.take windowSize.toNat = (s.lru.take windowSize.toNat).map CacheEntry.pair
      rw [h.entries hwindow, List.map_take]
    · rw [hkept.lookup_none_iff key]
      intro e he
      rw [show windowSize = 0 from hzero] at he
      exact nomatch he
    · show (s.lru.take windowSize.toNat).length ≤ 1
      rw [show windowSize = 0 from hzero]
      exact Nat.zero_le _

end

/-! ## Every call -/

/-- The list holds no key twice and is what the index reaches, except for an entry that is held while the window
is zero; with a positive window there is never more than it allows. -/
structure Consistent (s : TimeSeries φ) : Prop where
  keys : (s.lru.map CacheEntry.key).Nodup
  lookup : ∀ key node, s.index.lookup key = some node ↔
    s.window ≠ 0 ∧ ∃ e ∈ s.lru, e.key = key ∧ e.node = node
  occupancy : s.window ≠ 0 → s.lru.length ≤ s.window.toNat

/-- The call ends as it does on the reference, with the same calls of the loader, and leaves the list and the index in
step; a preload asks for its range. -/
structure Agrees (s : TimeSeries φ) (r : Reference φ) (call : SeriesCall) : Prop where
  result : (call.perform c s).1 = (Reference.perform c call r).1
  loads : (call.perform c s).2.loads = (Reference.perform c call r).2.loads
  consistent : Consistent (call.perform c s).2
  range : ∀ startFrame count, call = .cachePreload startFrame count →
    TimeSeries.preloadRequests c startFrame count = Reference.preloadRequests c startFrame count

/-- The window does not become positive while an entry is held without being cached, and the range of a preload does
not wrap. -/
def Kept (s : TimeSeries φ) : SeriesCall → Prop
  | .frame _ _ => True
  | .setCacheWindow windowSize => s.window = 0 → s.lru ≠ [] → windowSize = 0
  | .cachePreload startFrame count =>
    c.fieldNames ≠ [] → startFrame < c.frameCount → startFrame.toNat + count.toNat < 2 ^ 64

def seriesStep (p : TimeSeries φ × Reference φ) (call : SeriesCall) : TimeSeries φ × Reference φ :=
  ((call.perform c p.1).2, (Reference.perform c call p.2).2)

section

variable {c} {s : TimeSeries φ} {r : Reference φ}

theorem Follows.consistent (h : Follows s r) : Consistent s := by
  by_cases hwindow : s.window = 0
  · obtain ⟨hunindexed, hone⟩ := h.unindexed hwindow
    refine ⟨?_, fun key node => ?_, fun hne => absurd hwindow hne⟩
    · cases hlru : s.lru with
      | nil => exact List.nodup_nil
      | cons e rest =>
        rw [hlru, List.length_cons] at hone
        rw [List.eq_nil_of_length_eq_zero (by omega : rest.length = 0)]
        exact List.nodup_singleton _
    · rw [hunindexed key]
      exact ⟨(fun hnone => nomatch hnone), fun hpositive => absurd hwindow hpositive.1⟩
  · refine ⟨(h.indexed hwindow).keys, fun key node => ?_, fun _ => ?_⟩
    · rw [(h.indexed hwindow).lookup key node]
      exact (and_iff_right hwindow).symm
    · have hbounded := r.cache.bounded
      rw [h.entries hwindow, List.length_map, h.capacity] at hbounded
      exact hbounded

theorem toNat_min (a b : UInt64) : (min a b).toNat = min a.toNat b.toNat := by
  show (if a ≤ b then a else b).toNat = _
  split_ifs with hle
  · rw [UInt64.le_iff_toNat_le] at hle
    exact (Nat.min_eq_left hle).symm
  · rw [UInt64.le_iff_toNat_le] at hle
    exact (Nat.min_eq_right (by omega)).symm

theorem preloadRequests_eq_iff (startFrame count : UInt64) :
    TimeSeries.preloadRequests c startFrame count = Reference.preloadRequests c startFrame count ↔
      (c.fieldNames ≠ [] → startFrame < c.frameCount → startFrame.toNat + count.toNat < 2 ^ 64) := by
  unfold TimeSeries.preloadRequests Reference.preloadRequests
  have hcount := c.frameCount.toNat_lt
  by_cases hrange : startFrame ≥ c.frameCount
  · have hnone : min (startFrame.toNat + count.toNat) c.frameCount.toNat - startFrame.toNat = 0 := by
      have hle := UInt64.le_iff_toNat_le.mp hrange
      omega
    have hno : ¬startFrame < c.frameCount := UInt64.not_lt.mpr hrange
    rw [if_pos hrange]
    dsimp only
    rw [hnone]
    exact iff_of_true rfl fun _ hlt => absurd hlt hno
  · have hlt : startFrame.toNat < c.frameCount.toNat := by
      have hle := mt UInt64.le_iff_toNat_le.mpr hrange
      omega
    rw [if_neg hrange]
    dsimp only
    rw [toNat_min, UInt64.toNat_add]
    by_cases hsum : startFrame.toNat + count.toNat < 2 ^ 64
    · rw [Nat.mod_eq_of_lt hsum]
      exact iff_of_true rfl fun _ _ => hsum
    · by_cases hnames : c.fieldNames = []
      · have hnil : ∀ l : List ℕ, (l.flatMap fun _ => ([] : List (UInt64 × String))) = [] := fun l =>
          List.flatMap_eq_nil_iff.mpr fun _ _ => rfl
        rw [hnames]
        simp only [List.map_nil, hnil]
        exact iff_of_true trivial fun hsome => absurd rfl hsome
      · have hcountLt := count.toNat_lt
        have hwrapped : min ((startFrame.toNat + count.toNat) % 2 ^ 64) c.frameCount.toNat -
            startFrame.toNat = 0 := by omega
        have hsome : min (startFrame.toNat + count.toNat) c.frameCount.toNat - startFrame.toNat =
            (min (startFrame.toNat + count.toNat) c.frameCount.toNat - startFrame.toNat - 1) + 1 := by omega
        obtain ⟨name, names, hnames'⟩ := List.exists_cons_of_ne_nil hnames
        refine iff_of_false ?_ fun hfits => hsum (hfits hnames (UInt64.lt_iff_toNat_lt.mpr hlt))
        rw [hwrapped, hsome, hnames', List.range'_succ]
        simp

theorem Follows.step (h : Follows s r) {call : SeriesCall} (hkept : Kept c s call) :
    Agrees c s r call ∧ Follows (call.perform c s).2 (Reference.perform c call r).2 := by
  have hnext : (call.perform c s).1 = (Reference.perform c call r).1 ∧
      Follows (call.perform c s).2 (Reference.perform c call r).2 := by
    cases call with
    | frame frameIndex fieldName =>
      obtain ⟨hanswer, hfollows⟩ := h.request (c := c) frameIndex fieldName
      exact ⟨congrArg SeriesResult.frame hanswer, hfollows⟩
    | setCacheWindow windowSize => exact ⟨rfl, h.setCacheWindow hkept⟩
    | cachePreload startFrame count =>
      obtain ⟨hloaded, hfollows⟩ := h.preloadLoop (c := c) (Reference.preloadRequests c startFrame count) 0
      have hrange := (preloadRequests_eq_iff (c := c) startFrame count).mpr hkept
      rw [SeriesCall.perform, Reference.perform, TimeSeries.cachePreload, hrange]
      exact ⟨congrArg SeriesResult.preloaded hloaded, hfollows⟩
  refine ⟨⟨hnext.1, hnext.2.loads.symm, hnext.2.consistent, fun startFrame count hcall => ?_⟩, hnext.2⟩
  subst hcall
  exact (preloadRequests_eq_iff startFrame count).mpr hkept

theorem Follows.kept (h : Follows s r) {call : SeriesCall} (hagrees : Agrees c s r call) : Kept c s call := by
  cases call with
  | frame => trivial
  | setCacheWindow windowSize =>
    intro hwindow hheld
    by_contra hpositive
    obtain ⟨hunindexed, hone⟩ := h.unindexed hwindow
    obtain ⟨entry, rest, hlru⟩ := List.exists_cons_of_ne_nil hheld
    have hroom : windowSize.toNat ≠ 0 := fun hzero => hpositive (UInt64.toNat_inj.mp hzero)
    have hsame : s.setCacheWindow windowSize = { s with window := windowSize } :=
      evictLoop_of_le _ (show s.lru.length ≤ windowSize.toNat by omega)
    have hconsistent : Consistent (s.setCacheWindow windowSize) := hagrees.consistent
    rw [hsame] at hconsistent
    have hlookup := (hconsistent.lookup entry.key entry.node).mpr
      ⟨hpositive, entry, by rw [hlru]; exact List.mem_cons_self, rfl, rfl⟩
    rw [show s.index.lookup entry.key = none from hunindexed entry.key] at hlookup
    exact nomatch hlookup
  | cachePreload startFrame count =>
    exact (preloadRequests_eq_iff startFrame count).mp (hagrees.range startFrame count rfl)

end

/-- Over any calls a series does what its reference does, and keeps its list and its index in step, if and only if
the window never becomes positive while an entry is held and no range of a preload wraps. -/
theorem series_refines_iff (window : UInt64) (calls : List SeriesCall) :
    Along (seriesStep c) (fun _ p call => Agrees c p.1 p.2 call) []
        ({ window }, { cache := Lru.empty window.toNat }) calls ↔
      Along (seriesStep c) (fun _ p call => Kept c p.1 call) []
        ({ window }, { cache := Lru.empty window.toNat }) calls := by
  constructor
  · exact Along.of_invariant (P := fun _ (p : TimeSeries φ × Reference φ) => Follows p.1 p.2)
      (fun _ p call h hagrees => (h.step (h.kept hagrees)).2) (fun _ p call h hagrees => h.kept hagrees)
      (Follows.start window)
  · exact Along.of_invariant (P := fun _ (p : TimeSeries φ × Reference φ) => Follows p.1 p.2)
      (fun _ p call h hkept => (h.step hkept).2) (fun _ p call h hkept => (h.step hkept).1)
      (Follows.start window)

/-- Two frames of one field, always found. -/
def sampleSeries : Series ℕ where
  frameCount := 2
  fieldNames := ["u"]
  loader := some fun _ _ _ => .field 7

/-- A field is loaded with the window zero, and twice more after it was set to one. -/
def heldEntryCalls : List SeriesCall := [.frame 0 "u", .setCacheWindow 1, .frame 0 "u", .frame 0 "u"]

/-- The field is loaded three times, where the cache loads it twice; a preload of all frames from the second on asks
for none. -/
theorem held_entry_breaks_cache :
    (run (seriesStep sampleSeries) ({ window := 0 }, { cache := Lru.empty 0 }) heldEntryCalls).1.loads.length = 3 ∧
    (run (seriesStep sampleSeries) ({ window := 0 }, { cache := Lru.empty 0 }) heldEntryCalls).2.loads.length = 2 ∧
    TimeSeries.preloadRequests sampleSeries 1 (2 ^ 64 - 1) = [] ∧
    Reference.preloadRequests sampleSeries 1 (2 ^ 64 - 1) = [(1, "u")] := by
  decide +kernel

end Souxmar.Core
