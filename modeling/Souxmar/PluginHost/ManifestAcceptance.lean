import Souxmar.Lib.Loop
import Souxmar.PluginHost.PluginManifest

/-!
# Which plugin manifests are accepted

The grammars that the recognisers are for, and the documents that `parse_manifest` accepts. It accepts two
kinds too many: an ABI version that is 1 only in its low 32 bits, and a version with more than three numbers
in front of a pre-release tail.
-/

namespace Souxmar.PluginHost

open Souxmar.Lib

/-! ## Grammars -/

/-- A reverse-DNS name: letters, digits, dots, hyphens and underscores, with a dot, but not at the ends. -/
structure ReverseDns (id : String) : Prop where
  dot : '.' ∈ id.toList
  chars : ∀ c ∈ id.toList, isAlnum c = true ∨ c = '.' ∨ c = '-' ∨ c = '_'
  head : id.toList.head? ≠ some '.'
  last : id.toList.getLast? ≠ some '.'

def IsNumber (part : List Char) : Prop := part ≠ [] ∧ ∀ c ∈ part, c.isDigit = true

/-- So many numbers with dots between them, and what follows them. -/
def Numbers (l : List Char) (count : ℕ) (tail : List Char) : Prop :=
  ∃ (first : List Char) (more : List (List Char)), IsNumber first ∧ (∀ part ∈ more, IsNumber part) ∧
    l = first ++ more.flatMap (List.cons '.') ++ tail ∧ count = more.length + 1

/-- A pre-release or build tail, which is not looked into. -/
def IsTail (tail : List Char) : Prop := tail.head? = some '-' ∨ tail.head? = some '+'

/-- `major.minor.patch[-pre][+build]`. -/
def SemVer (v : String) : Prop :=
  ∃ tail, Numbers v.toList 3 tail ∧ (tail = [] ∨ IsTail tail)

/-- More than three numbers, with a tail behind them. -/
def MoreNumbers (v : String) : Prop :=
  ∃ count tail, 3 < count ∧ Numbers v.toList count tail ∧ IsTail tail

/-- `<namespace>.<name>` with a namespace of the list. -/
def InAllowedNamespace (capability : String) : Prop :=
  ∃ ns ∈ kAllowedNamespaces, ∃ name ≠ [], capability.toList = ns.toList ++ '.' :: name

/-! ## The recognisers -/

theorem isAlnum_range {c : Char} (h : isAlnum c = true) : 0x30 ≤ c.toNat ∧ c.toNat ≤ 0x7A := by
  change ((decide (c.val ≥ 65 ∧ c.val ≤ 90) || (decide (c.val ≥ 97) && decide (c.val ≤ 122))) ||
    (decide (c.val ≥ 48) && decide (c.val ≤ 57))) = true at h
  simp only [Bool.or_eq_true, Bool.and_eq_true, decide_eq_true_eq, ge_iff_le, UInt32.le_iff_toNat_le] at h
  have hval : c.toNat = c.val.toNat := rfl
  simp at h
  omega

theorem idChar_iff (c : Char) : (c.toNat ≤ 0x20 || c.toNat = 0x7F || c = '/' || c = '\\' ||
    !(isAlnum c || c = '.' || c = '-' || c = '_')) = false ↔
      isAlnum c = true ∨ c = '.' ∨ c = '-' ∨ c = '_' := by
  constructor
  · intro h
    simp only [Bool.or_eq_false_iff, Bool.not_eq_false', Bool.or_eq_true, decide_eq_true_eq] at h
    tauto
  · rintro (h | rfl | rfl | rfl)
    · have hrange := isAlnum_range h
      have hslash : c ≠ '/' := by
        rintro rfl
        exact absurd h (by decide)
      have hback : c ≠ '\\' := by
        rintro rfl
        exact absurd h (by decide)
      have hlow : ¬c.toNat ≤ 0x20 := by omega
      have hhigh : ¬c.toNat = 0x7F := by omega
      simp [h, hslash, hback, hlow, hhigh]
    · decide
    · decide
    · decide

theorem unless_iff {p : Prop} [Decidable p] {b : Bool} :
    (if p then false else b) = true ↔ ¬p ∧ b = true := by
  by_cases h : p <;> simp [h]

theorem pluginIdLooksValid_iff (id : String) : pluginIdLooksValid id = true ↔ ReverseDns id := by
  simp only [pluginIdLooksValid, unless_iff, List.any_eq_true, not_exists, not_and, Bool.not_eq_true,
    idChar_iff, and_true]
  constructor
  · rintro ⟨-, hdot, hchars, hends⟩
    simp only [Bool.or_eq_false_iff, decide_eq_false_iff_not] at hends
    exact ⟨by simpa using hdot, hchars, hends.1, hends.2⟩
  · intro h
    refine ⟨?_, by simpa using h.dot, h.chars, by simp [h.head, h.last]⟩
    rw [String.isEmpty_eq_false_iff]
    rintro rfl
    exact absurd h.dot (by decide)

/-! ### Versions -/

/-- How the loop may end behind so many dots. -/
def Stops (dots : ℕ) (tail : List Char) : Prop := (tail = [] ∧ dots = 2) ∨ (IsTail tail ∧ 2 ≤ dots)

/-- What the loop accepts from a place in the middle: the rest of a part, more parts, and an end. -/
def Continues (dots : ℕ) (seen : Bool) (l : List Char) : Prop :=
  ∃ (first : List Char) (more : List (List Char)) (tail : List Char),
    l = first ++ more.flatMap (List.cons '.') ++ tail ∧ (∀ c ∈ first, c.isDigit = true) ∧
      (first ≠ [] ∨ seen = true) ∧ (∀ part ∈ more, IsNumber part) ∧ Stops (dots + more.length) tail

theorem continues_nil {dots : ℕ} {seen : Bool} : Continues dots seen [] ↔ dots = 2 ∧ seen = true := by
  constructor
  · rintro ⟨first, more, tail, hl, -, hseen, -, hstops⟩
    simp only [List.nil_eq, List.append_eq_nil_iff, List.flatMap_eq_nil_iff] at hl
    obtain ⟨⟨rfl, hmore⟩, rfl⟩ := hl
    have hnone : more = [] := List.eq_nil_iff_forall_not_mem.mpr fun part hpart => by
      simpa using hmore part hpart
    subst hnone
    rcases hstops with ⟨-, hdots⟩ | ⟨htail, -⟩
    · exact ⟨by simpa using hdots, by simpa using hseen⟩
    · simp [IsTail] at htail
  · rintro ⟨rfl, rfl⟩
    exact ⟨[], [], [], rfl, by simp, Or.inr rfl, by simp, Or.inl ⟨rfl, rfl⟩⟩

theorem continues_dot {dots : ℕ} {seen : Bool} {cs : List Char} :
    Continues dots seen ('.' :: cs) ↔ seen = true ∧ Continues (dots + 1) false cs := by
  constructor
  · rintro ⟨first, more, tail, hl, hfirst, hseen, hmore, hstops⟩
    rcases first with _ | ⟨d, first⟩
    · rcases more with _ | ⟨part, more⟩
      · -- with no part left, the dot would be the tail
        obtain rfl : '.' :: cs = tail := by simpa using hl
        rcases hstops with ⟨h, -⟩ | ⟨h, -⟩
        · simp at h
        · simp [IsTail] at h
      · obtain ⟨hpart, hmore⟩ := List.forall_mem_cons.mp hmore
        refine ⟨by simpa using hseen, part, more, tail, by simpa using hl, hpart.2, Or.inl hpart.1,
          hmore, ?_⟩
        rw [List.length_cons] at hstops
        rwa [Nat.add_assoc, Nat.add_comm 1]
    · obtain rfl : '.' = d := by
        simp only [List.cons_append, List.cons.injEq] at hl
        exact hl.1
      exact absurd (hfirst '.' (by simp)) (by decide)
  · rintro ⟨rfl, first, more, tail, rfl, hfirst, hseen, hmore, hstops⟩
    refine ⟨[], first :: more, tail, by simp, by simp, Or.inr rfl, ?_, ?_⟩
    · exact List.forall_mem_cons.mpr ⟨⟨by simpa using hseen, hfirst⟩, hmore⟩
    · rw [List.length_cons, Nat.add_comm more.length, ← Nat.add_assoc]
      exact hstops

theorem continues_tail {dots : ℕ} {seen : Bool} {c : Char} {cs : List Char} (hc : c = '-' ∨ c = '+') :
    Continues dots seen (c :: cs) ↔ 2 ≤ dots ∧ seen = true := by
  have hdigit : c.isDigit = false := by rcases hc with rfl | rfl <;> decide
  have hdot : c ≠ '.' := by rcases hc with rfl | rfl <;> decide
  constructor
  · rintro ⟨first, more, tail, hl, hfirst, hseen, -, hstops⟩
    rcases first with _ | ⟨d, first⟩
    · rcases more with _ | ⟨part, more⟩
      · rcases hstops with ⟨rfl, -⟩ | ⟨-, hdots⟩
        · simp at hl
        · exact ⟨by simpa using hdots, by simpa using hseen⟩
      · simp only [List.nil_append, List.flatMap_cons, List.cons_append, List.cons.injEq] at hl
        exact absurd hl.1 hdot
    · simp only [List.cons_append, List.cons.injEq] at hl
      have hd := hfirst d (by simp)
      rw [← hl.1, hdigit] at hd
      exact absurd hd (by decide)
  · rintro ⟨hdots, rfl⟩
    refine ⟨[], [], c :: cs, rfl, by simp, Or.inr rfl, by simp, Or.inr ⟨?_, by simpa using hdots⟩⟩
    rcases hc with rfl | rfl
    · exact Or.inl rfl
    · exact Or.inr rfl

theorem continues_digit {dots : ℕ} {seen : Bool} {c : Char} {cs : List Char} (hdot : c ≠ '.')
    (hc : ¬(c = '-' ∨ c = '+')) :
    Continues dots seen (c :: cs) ↔ c.isDigit = true ∧ Continues dots true cs := by
  constructor
  · rintro ⟨first, more, tail, hl, hfirst, hseen, hmore, hstops⟩
    rcases first with _ | ⟨d, first⟩
    · rcases more with _ | ⟨part, more⟩
      · obtain rfl : c :: cs = tail := by simpa using hl
        rcases hstops with ⟨h, -⟩ | ⟨h, -⟩
        · simp at h
        · exact absurd (by simpa [IsTail] using h) hc
      · simp only [List.nil_append, List.flatMap_cons, List.cons_append, List.cons.injEq] at hl
        exact absurd hl.1 hdot
    · simp only [List.cons_append, List.cons.injEq] at hl
      obtain ⟨rfl, rfl⟩ := hl
      obtain ⟨hd, hfirst⟩ := List.forall_mem_cons.mp hfirst
      exact ⟨hd, first, more, tail, rfl, hfirst, Or.inr rfl, hmore, hstops⟩
  · rintro ⟨hd, first, more, tail, rfl, hfirst, -, hmore, hstops⟩
    exact ⟨c :: first, more, tail, rfl, List.forall_mem_cons.mpr ⟨hd, hfirst⟩, Or.inl (by simp), hmore,
      hstops⟩

theorem versionLoop_iff (l : List Char) (dots : ℕ) (seen : Bool) :
    versionLoop dots seen l = true ↔ Continues dots seen l := by
  induction l generalizing dots seen with
  | nil => simp [versionLoop, continues_nil]
  | cons c cs ih =>
    rw [versionLoop]
    by_cases hdot : c = '.'
    · subst hdot
      rw [continues_dot, if_pos rfl, unless_iff, ih]
      simp
    · rw [if_neg hdot]
      by_cases htail : c = '-' ∨ c = '+'
      · rw [continues_tail htail, if_pos (by simpa using htail)]
        simp only [Bool.not_eq_true', Bool.or_eq_false_iff, decide_eq_false_iff_not, Bool.not_eq_false',
          not_lt]
      · rw [continues_digit hdot htail, if_neg (by simpa using htail), unless_iff, ih]
        simp

/-- The dots can be counted in the part in front of the tail. -/
theorem Numbers.count_eq {l tail : List Char} {count : ℕ} (h : Numbers l count tail)
    (htail : tail = [] ∨ IsTail tail) :
    count = (l.takeWhile fun c => c.isDigit || c = '.').count '.' + 1 := by
  obtain ⟨first, more, hfirst, hmore, rfl, rfl⟩ := h
  have hfront : ∀ c ∈ first ++ more.flatMap (List.cons '.'), (c.isDigit || c = '.') = true := by
    intro c hc
    rcases List.mem_append.mp hc with hc | hc
    · simp [hfirst.2 c hc]
    · obtain ⟨part, hpart, hc⟩ := List.mem_flatMap.mp hc
      rcases List.mem_cons.mp hc with rfl | hc
      · decide
      · simp [(hmore part hpart).2 c hc]
  have hrest : tail.takeWhile (fun c => c.isDigit || c = '.') = [] := by
    rcases tail with _ | ⟨c, tail⟩
    · rfl
    · have hc : c = '-' ∨ c = '+' := by simpa [IsTail] using htail
      rcases hc with rfl | rfl <;> rfl
  have hnone : ∀ part, IsNumber part → part.count '.' = 0 := by
    intro part hpart
    refine List.count_eq_zero.mpr fun hdot => ?_
    exact absurd (hpart.2 '.' hdot) (by decide)
  have hdots : (more.flatMap (List.cons '.')).count '.' = more.length := by
    induction more with
    | nil => rfl
    | cons part more ih =>
      obtain ⟨hpart, hmore⟩ := List.forall_mem_cons.mp hmore
      rw [List.flatMap_cons, List.count_append, List.count_cons_self, hnone part hpart,
        ih hmore (fun c hc => hfront c (by
          rw [List.flatMap_cons, List.mem_append, List.mem_append]
          rw [List.mem_append] at hc
          tauto)), List.length_cons]
      omega
  rw [List.takeWhile_append_of_pos hfront, hrest, List.append_nil, List.count_append,
    hnone first hfirst, hdots, Nat.zero_add]

theorem SemVer.not_moreNumbers {v : String} (h : SemVer v) : ¬MoreNumbers v := by
  obtain ⟨tail, hthree, htail⟩ := h
  rintro ⟨count, tail', hcount, hmore, htail'⟩
  have h3 := hthree.count_eq htail
  have hmany := hmore.count_eq (Or.inr htail')
  omega

theorem versionLooksValid_iff (v : String) :
    versionLooksValid v = true ↔ SemVer v ∨ MoreNumbers v := by
  have hempty : versionLooksValid v = versionLoop 0 false v.toList := by
    rw [versionLooksValid]
    split_ifs with h
    · rw [String.isEmpty_iff.mp h]
      rfl
    · rfl
  rw [hempty, versionLoop_iff]
  constructor
  · rintro ⟨first, more, tail, hl, hfirst, hseen, hmore, hstops⟩
    have hnumbers : Numbers v.toList (more.length + 1) tail :=
      ⟨first, more, ⟨by simpa using hseen, hfirst⟩, hmore, hl, rfl⟩
    rcases hstops with ⟨htail, hdots⟩ | ⟨htail, hdots⟩
    · rw [Nat.zero_add] at hdots
      rw [hdots] at hnumbers
      exact Or.inl ⟨tail, hnumbers, Or.inl htail⟩
    · rcases Nat.eq_or_lt_of_le hdots with heq | hlt
      · rw [Nat.zero_add] at heq
        rw [← heq] at hnumbers
        exact Or.inl ⟨tail, hnumbers, Or.inr htail⟩
      · exact Or.inr ⟨_, tail, by omega, hnumbers, htail⟩
  · rintro (⟨tail, ⟨first, more, hfirst, hmore, hl, hcount⟩, htail⟩ |
      ⟨count, tail, hcount, ⟨first, more, hfirst, hmore, hl, rfl⟩, htail⟩)
    · refine ⟨first, more, tail, hl, hfirst.2, Or.inl hfirst.1, hmore, ?_⟩
      rcases htail with htail | htail
      · exact Or.inl ⟨htail, by omega⟩
      · exact Or.inr ⟨htail, by omega⟩
    · exact ⟨first, more, tail, hl, hfirst.2, Or.inl hfirst.1, hmore, Or.inr ⟨htail, by omega⟩⟩

/-! ### Capabilities -/

theorem namespace_noDot : ∀ ns ∈ kAllowedNamespaces, ns ≠ "" ∧ '.' ∉ ns.toList := by decide

theorem isAllowedCapability_iff (capability : String) :
    isAllowedCapability capability = true ↔ InAllowedNamespace capability := by
  simp only [isAllowedCapability, unless_iff, Bool.or_eq_true, not_or, List.any_eq_true,
    decide_eq_true_eq]
  constructor
  · rintro ⟨⟨⟨hfound, -⟩, hname⟩, ns, hns, htake⟩
    have hlt : capability.toList.idxOf '.' < capability.toList.length :=
      lt_of_le_of_ne List.idxOf_le_length hfound
    refine ⟨ns, hns, capability.toList.drop (capability.toList.idxOf '.' + 1), ?_, ?_⟩
    · rw [Ne, List.drop_eq_nil_iff]
      omega
    · have hsplit := List.take_append_drop (capability.toList.idxOf '.') capability.toList
      rw [List.drop_eq_getElem_cons hlt, List.getElem_idxOf, htake] at hsplit
      exact hsplit.symm
  · rintro ⟨ns, hns, name, hname, hsplit⟩
    obtain ⟨hne, hnodot⟩ := namespace_noDot ns hns
    have hidx : capability.toList.idxOf '.' = ns.toList.length := by
      rw [hsplit, List.idxOf_append_of_notMem hnodot, List.idxOf_cons_self, Nat.add_zero]
    have hlen : capability.toList.length = ns.toList.length + (name.length + 1) := by
      rw [hsplit, List.length_append, List.length_cons]
    have hpos : 0 < name.length := List.length_pos_of_ne_nil hname
    have hns0 : ns.toList.length ≠ 0 := by simpa using hne
    refine ⟨⟨⟨by omega, by omega⟩, by omega⟩, ns, hns, ?_⟩
    rw [hidx, hsplit, List.take_left']
    rfl

/-! ## Documents -/

section

variable (valueInt64 : TomlNode → Option Int64) (tbl : TomlNode)

/-- The string fields that a manifest must have, with its version. -/
structure RequiredStrings (version : String) : Prop where
  id : ∃ s, tbl.atPath ["plugin", "id"] = some (.string s) ∧ ReverseDns s
  name : ∃ s, tbl.atPath ["plugin", "name"] = some (.string s)
  version : tbl.atPath ["plugin", "version"] = some (.string version)
  license : ∃ s, tbl.atPath ["plugin", "license"] = some (.string s)
  binaryFile : ∃ s, tbl.atPath ["plugin", "binary", "file"] = some (.string s)

def CapabilitiesOk : Prop :=
  ∃ items, tbl.atPath ["plugin", "capabilities", "provides"] = some (.array items) ∧ items ≠ [] ∧
    ∀ node ∈ items, ∃ s, node = .string s ∧ InAllowedNamespace s

def threadingKeywords : List String := ["reentrant", "single-threaded", "internal-parallel"]

def ThreadingOk : Prop :=
  ∀ node, tbl.atPath ["plugin", "threading", "model"] = some node →
    ∃ keyword ∈ threadingKeywords, node = .string keyword

/-- The optional fields have their types where they are written. -/
structure OptionalsTyped : Prop where
  minAbiMinor : ∀ node, tbl.atPath ["plugin", "min_souxmar_abi_minor"] = some node →
    (valueInt64 node).isSome = true
  tags : ∀ node, tbl.atPath ["plugin", "tags"] = some node →
    ∃ items, node = .array items ∧ ∀ item ∈ items, ∃ s, item = .string s

/-- A manifest is as it should be, but for its version and its ABI. -/
structure FieldsOk (version : String) (abi : Int64) : Prop where
  strings : RequiredStrings tbl version
  capabilities : CapabilitiesOk tbl
  threading : ThreadingOk tbl
  optionals : OptionalsTyped valueInt64 tbl
  abi : (tbl.atPath ["plugin", "abi"]).bind valueInt64 = some abi

/-- The manifests that a host of ABI version 1 should take. -/
def WellFormedManifest : Prop :=
  ∃ version abi, FieldsOk valueInt64 tbl version abi ∧ SemVer version ∧ abi = 1

/-- The manifests that pass although they should not: those with too many numbers in the version, and those
with an ABI version that becomes 1 when it is cut to 32 bits. -/
def Overlooked : Prop :=
  ∃ version abi, FieldsOk valueInt64 tbl version abi ∧ abi.toInt32 = 1 ∧
    (MoreNumbers version ∨ (SemVer version ∧ abi ≠ 1))

/-! ### What each reader accepts -/

theorem valueString_iff (node : TomlNode) (s : String) : node.valueString = some s ↔ node = .string s := by
  cases node <;> simp [TomlNode.valueString]

theorem getRequiredString_ok (path : List String) (s : String) :
    getRequiredString tbl path = .ok s ↔ tbl.atPath path = some (.string s) := by
  rw [getRequiredString]
  cases hnode : tbl.atPath path with
  | none => simp
  | some node =>
    rw [Option.some.injEq, ← valueString_iff]
    cases hstring : node.valueString with
    | none => simp [hstring]
    | some t => simp [hstring]

theorem checkPluginId_ok (id : String) : checkPluginId id = .ok () ↔ ReverseDns id := by
  rw [← pluginIdLooksValid_iff, checkPluginId]
  cases pluginIdLooksValid id with
  | false => simp
  | true => simp

theorem checkVersion_ok (version : String) :
    checkVersion version = .ok () ↔ SemVer version ∨ MoreNumbers version := by
  rw [← versionLooksValid_iff, checkVersion]
  cases versionLooksValid version with
  | false => simp
  | true => simp

theorem getAbi_ok (abi : Int32) : getAbi valueInt64 tbl = .ok abi ↔
    ∃ v, (tbl.atPath ["plugin", "abi"]).bind valueInt64 = some v ∧ v.toInt32 = abi := by
  rw [getAbi]
  cases tbl.atPath ["plugin", "abi"] with
  | none => simp
  | some node =>
    rw [Option.bind_some]
    cases hvalue : valueInt64 node with
    | none => simp [hvalue]
    | some v => simp [hvalue]

theorem getCapability_ok (node : TomlNode) :
    (∃ s, getCapability node = .ok s) ↔ ∃ s, node = .string s ∧ InAllowedNamespace s := by
  simp only [← valueString_iff, ← isAllowedCapability_iff, getCapability]
  cases node.valueString with
  | none => simp
  | some s => cases hallowed : isAllowedCapability s <;> simp [hallowed]

theorem getCapabilities_ok : (∃ capabilities, getCapabilities tbl = .ok capabilities) ↔ CapabilitiesOk tbl := by
  rw [getCapabilities, CapabilitiesOk]
  cases tbl.atPath ["plugin", "capabilities", "provides"] with
  | none => simp
  | some node =>
    cases node with
    | array items =>
      simp only [← getCapability_ok, ← mapM_ok_iff, Option.some.injEq, TomlNode.array.injEq, bind_ok_iff]
      constructor
      · rintro ⟨capabilities, read, hread, hcheck⟩
        refine ⟨items, rfl, ?_, read, hread⟩
        rintro rfl
        obtain rfl : [] = read := by simpa [pure, Except.pure] using hread
        simp at hcheck
      · rintro ⟨_, rfl, hne, read, hread⟩
        refine ⟨read, read, hread, ?_⟩
        obtain ⟨first, items, rfl⟩ := List.exists_cons_of_ne_nil hne
        rw [List.mapM_cons] at hread
        obtain ⟨b, -, hread⟩ := bind_ok_iff.mp hread
        obtain ⟨rest, -, hread⟩ := bind_ok_iff.mp hread
        obtain rfl : b :: rest = read := by simpa [pure, Except.pure] using hread
        simp
    | _ => simp

theorem threadingFromString_isSome (s : String) :
    (∃ threading, threadingFromString s = some threading) ↔ s ∈ threadingKeywords := by
  rw [threadingFromString, threadingKeywords]
  split_ifs <;> simp_all

theorem getThreading_ok : (∃ threading, getThreading tbl = .ok threading) ↔ ThreadingOk tbl := by
  rw [getThreading, ThreadingOk]
  cases tbl.atPath ["plugin", "threading", "model"] with
  | none => simp
  | some node =>
    simp only [Option.some.injEq, forall_eq', ← threadingFromString_isSome, ← valueString_iff]
    cases node.valueString with
    | none => simp
    | some s => cases hkeyword : threadingFromString s <;> simp [hkeyword]

theorem getMinAbiMinor_ok : (∃ v, getMinAbiMinor valueInt64 tbl = .ok v) ↔
    ∀ node, tbl.atPath ["plugin", "min_souxmar_abi_minor"] = some node →
      (valueInt64 node).isSome = true := by
  rw [getMinAbiMinor]
  cases tbl.atPath ["plugin", "min_souxmar_abi_minor"] with
  | none => simp
  | some node => cases hnode : valueInt64 node <;> simp [hnode]

theorem getTag_ok (node : TomlNode) : (∃ s, getTag node = .ok s) ↔ ∃ s, node = .string s := by
  simp only [← valueString_iff, getTag]
  cases node.valueString <;> simp

theorem getTags_ok : (∃ tags, getTags tbl = .ok tags) ↔
    ∀ node, tbl.atPath ["plugin", "tags"] = some node →
      ∃ items, node = .array items ∧ ∀ item ∈ items, ∃ s, item = .string s := by
  rw [getTags]
  cases tbl.atPath ["plugin", "tags"] with
  | none => simp
  | some node => cases node <;> simp [← getTag_ok, ← mapM_ok_iff]

theorem checkAbi_ok (abi : Int32) : checkAbi abi = .ok () ↔ abi = 1 := by
  rw [checkAbi]
  by_cases h : abi = 1 <;> simp [h]

theorem parseTable_ok : (∃ m, parseTable valueInt64 tbl = .ok m) ↔
    ∃ version abi, FieldsOk valueInt64 tbl version abi ∧ (SemVer version ∨ MoreNumbers version) ∧
      abi.toInt32 = 1 := by
  constructor
  · rintro ⟨m, h⟩
    simp only [parseTable, bind_ok_iff, getRequiredString_ok, getAbi_ok] at h
    obtain ⟨id, hid, name, hname, version, hversion, license, hlicense, ⟨⟩, hidOk, ⟨⟩, hversionOk,
      _, ⟨abi, habi, rfl⟩, binaryFile, hbinary, capabilities, hcapabilities, threading, hthreading,
      minor, hminor, tags, htags, ⟨⟩, habiOk, -⟩ := h
    exact ⟨version, abi,
      { strings :=
          { id := ⟨id, hid, (checkPluginId_ok id).mp hidOk⟩
            name := ⟨name, hname⟩
            version := hversion
            license := ⟨license, hlicense⟩
            binaryFile := ⟨binaryFile, hbinary⟩ }
        capabilities := (getCapabilities_ok tbl).mp ⟨capabilities, hcapabilities⟩
        threading := (getThreading_ok tbl).mp ⟨threading, hthreading⟩
        optionals :=
          { minAbiMinor := (getMinAbiMinor_ok valueInt64 tbl).mp ⟨minor, hminor⟩
            tags := (getTags_ok tbl).mp ⟨tags, htags⟩ }
        abi := habi },
      (checkVersion_ok version).mp hversionOk, (checkAbi_ok _).mp habiOk⟩
  · rintro ⟨version, abi, hfields, hversion, habi⟩
    obtain ⟨id, hid, hidOk⟩ := hfields.strings.id
    obtain ⟨name, hname⟩ := hfields.strings.name
    obtain ⟨license, hlicense⟩ := hfields.strings.license
    obtain ⟨binaryFile, hbinary⟩ := hfields.strings.binaryFile
    obtain ⟨capabilities, hcapabilities⟩ := (getCapabilities_ok tbl).mpr hfields.capabilities
    obtain ⟨threading, hthreading⟩ := (getThreading_ok tbl).mpr hfields.threading
    obtain ⟨minor, hminor⟩ := (getMinAbiMinor_ok valueInt64 tbl).mpr hfields.optionals.minAbiMinor
    obtain ⟨tags, htags⟩ := (getTags_ok tbl).mpr hfields.optionals.tags
    simp only [parseTable, bind_ok_iff, getRequiredString_ok, getAbi_ok]
    exact ⟨_, id, hid, name, hname, version, hfields.strings.version, license, hlicense,
      (), (checkPluginId_ok id).mpr hidOk, (), (checkVersion_ok version).mpr hversion,
      _, ⟨abi, hfields.abi, rfl⟩, binaryFile, hbinary, capabilities, hcapabilities, threading, hthreading,
      minor, hminor, tags, htags, (), (checkAbi_ok _).mpr habi, rfl⟩

theorem parseManifest_ok (toml : String → Except TomlError TomlNode) (tomlSource : String) :
    (∃ m, parseManifest toml valueInt64 tomlSource = .ok m) ↔
      ∃ tbl, toml tomlSource = .ok tbl ∧ ∃ m, parseTable valueInt64 tbl = .ok m := by
  rw [parseManifest]
  cases toml tomlSource with
  | error e => simp
  | ok tbl => simp

theorem FieldsOk.unique {version version' : String} {abi abi' : Int64}
    (h : FieldsOk valueInt64 tbl version abi) (h' : FieldsOk valueInt64 tbl version' abi') :
    version = version' ∧ abi = abi' := by
  have hversion := h.strings.version.symm.trans h'.strings.version
  have habi := h.abi.symm.trans h'.abi
  exact ⟨by simpa using hversion, by simpa using habi⟩

theorem parseTable_ok_iff : (∃ m, parseTable valueInt64 tbl = .ok m) ↔
    WellFormedManifest valueInt64 tbl ∨ Overlooked valueInt64 tbl := by
  rw [parseTable_ok]
  constructor
  · rintro ⟨version, abi, hfields, hversion | hmore, hcut⟩
    · by_cases habi : abi = 1
      · exact Or.inl ⟨version, abi, hfields, hversion, habi⟩
      · exact Or.inr ⟨version, abi, hfields, hcut, Or.inr ⟨hversion, habi⟩⟩
    · exact Or.inr ⟨version, abi, hfields, hcut, Or.inl hmore⟩
  · rintro (⟨version, abi, hfields, hversion, rfl⟩ | ⟨version, abi, hfields, hcut, hmore | ⟨hversion, -⟩⟩)
    · exact ⟨version, 1, hfields, Or.inl hversion, rfl⟩
    · exact ⟨version, abi, hfields, Or.inr hmore, hcut⟩
    · exact ⟨version, abi, hfields, Or.inl hversion, hcut⟩

theorem Overlooked.not_wellFormed (h : Overlooked valueInt64 tbl) :
    ¬WellFormedManifest valueInt64 tbl := by
  obtain ⟨version, abi, hfields, -, hslip⟩ := h
  rintro ⟨version', abi', hfields', hversion, habi⟩
  obtain ⟨rfl, rfl⟩ := hfields.unique valueInt64 tbl hfields'
  rcases hslip with hmore | ⟨-, hne⟩
  · exact hversion.not_moreNumbers hmore
  · exact hne habi

/-- A document is accepted exactly when it should be, unless it is one of those that are overlooked. -/
theorem accepts_wellFormed_iff (toml : String → Except TomlError TomlNode) (tomlSource : String) :
    ((∃ m, parseManifest toml valueInt64 tomlSource = .ok m) ↔
      ∃ tbl, toml tomlSource = .ok tbl ∧ WellFormedManifest valueInt64 tbl) ↔
      ∀ tbl, toml tomlSource = .ok tbl → ¬Overlooked valueInt64 tbl := by
  simp only [parseManifest_ok, parseTable_ok_iff]
  constructor
  · intro h tbl htbl hslip
    obtain ⟨tbl', htbl', hwell⟩ := h.mp ⟨tbl, htbl, Or.inr hslip⟩
    obtain rfl : tbl = tbl' := by
      rw [htbl] at htbl'
      exact Except.ok.inj htbl'
    exact hslip.not_wellFormed valueInt64 tbl hwell
  · intro h
    constructor
    · rintro ⟨tbl, htbl, hwell | hslip⟩
      · exact ⟨tbl, htbl, hwell⟩
      · exact absurd hslip (h tbl htbl)
    · rintro ⟨tbl, htbl, hwell⟩
      exact ⟨tbl, htbl, Or.inl hwell⟩

end

/-! ## An ABI version of another host -/

/-- A manifest that is right but for its ABI version. -/
def abiManifest (abi : Int64) : TomlNode :=
  .table [("plugin", .table
    [("id", .string "org.example.mesher"), ("name", .string "Mesher"), ("version", .string "1.0.0"),
     ("license", .string "MIT"), ("abi", .integer abi),
     ("binary", .table [("file", .string "mesher.so")]),
     ("capabilities", .table [("provides", .array [.string "mesher.tri"])])])]

/-- The 64-bit integers, for documents that write them as such. -/
def integerValue : TomlNode → Option Int64
  | .integer v => some v
  | _ => none

/-- `abi = 4294967297` is taken for ABI version 1. -/
theorem other_abi_accepted :
    ¬∀ (toml : String → Except TomlError TomlNode) (tomlSource : String),
      (∃ m, parseManifest toml integerValue tomlSource = .ok m) ↔
        ∃ tbl, toml tomlSource = .ok tbl ∧ WellFormedManifest integerValue tbl := by
  intro h
  have haccepted : ∃ m, parseManifest (fun _ => .ok (abiManifest 4294967297)) integerValue "" = .ok m := by
    refine ⟨{ id := "org.example.mesher", name := "Mesher", version := "1.0.0", abi := 1, license := "MIT",
              binaryFile := "mesher.so", capabilities := ["mesher.tri"] }, ?_⟩
    decide
  obtain ⟨tbl, htbl, version, abi, hfields, -, rfl⟩ := (h _ _).mp haccepted
  obtain rfl : abiManifest 4294967297 = tbl := Except.ok.inj htbl
  have habi : some (4294967297 : Int64) = some 1 := hfields.abi
  exact absurd habi (by decide)

end Souxmar.PluginHost
