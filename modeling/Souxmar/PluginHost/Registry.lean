import Mathlib.Data.Int.Notation
import Souxmar.Lib.Dict

/-!
# The capability registry

`Registry` of `registry.cpp`: every capability a plugin has registered, under its id. What a plugin
hands over is a vtable for its kind; the functions behind it are left open, as a type `φ k` for each
kind `k`. The five `add_*` functions share one body, `addCapability`, and so do the five C entry
points around them, `addC`.

Registration only ever adds: an entry that is there stays as it is (`find_addCapability`), and a new
one belongs to the plugin that is being registered.
-/

namespace Souxmar.PluginHost

open Souxmar.Lib

def abiVersionMajor : ℤ := 1

def abiVersionMinor : ℤ := 9

inductive ThreadingModel
  | reentrant
  | singleThreaded
  | internalParallel
deriving DecidableEq, Repr

inductive CapabilityKind
  | mesher
  | solver
  | writer
  | postproc
  | reader
deriving DecidableEq, Repr

/-- The function of a vtable that `add_*` insists on. -/
def CapabilityKind.fnName : CapabilityKind → String
  | .mesher => "mesh_fn"
  | .solver => "solve_fn"
  | .writer => "write_fn"
  | .postproc => "compute_fn"
  | .reader => "read_fn"

/-- The C entry point of a kind. -/
def CapabilityKind.addName : CapabilityKind → String
  | .mesher => "souxmar_registry_add_mesher"
  | .solver => "souxmar_registry_add_solver"
  | .writer => "souxmar_registry_add_writer"
  | .postproc => "souxmar_registry_add_postproc"
  | .reader => "souxmar_registry_add_reader"

/-- A vtable with its function pointer, which may be null. -/
structure Vtable (F : Type) where
  abiVersion : ℤ
  fn : Option F

variable (φ : CapabilityKind → Type)

structure CapabilityEntry where
  id : String
  pluginId : String
  kind : CapabilityKind
  abiVersion : ℤ
  threading : ThreadingModel
  vtable : Vtable (φ kind)
  userData : ℕ

structure Registry where
  entries : Dict String (CapabilityEntry φ) := ∅
  currentPluginId : String := ""
  currentPluginThreading : ThreadingModel := .singleThreaded

variable {φ}

namespace Registry

/-! ### Registration -/

/-- The body that the five `add_*` functions share; an error is the text of the `RegistryError`. -/
def addCapability (kind : CapabilityKind) (capabilityId pluginId : String)
    (vtable : Option (Vtable (φ kind))) (userData : ℕ) (threading : ThreadingModel)
    (r : Registry φ) : Except String Unit × Registry φ :=
  if capabilityId = "" then (.error "capability_id must not be empty", r)
  else
    match vtable with
    | none => (.error ("'" ++ capabilityId ++ "': vtable pointer is null"), r)
    | some vtable =>
      if vtable.abiVersion ≠ abiVersionMajor then
        (.error ("'" ++ capabilityId ++ "': vtable.abi_version = " ++ toString vtable.abiVersion ++
          ", host expects " ++ toString abiVersionMajor), r)
      else if vtable.fn.isNone then
        (.error ("'" ++ capabilityId ++ "': vtable." ++ kind.fnName ++ " is null"), r)
      else if capabilityId ∈ r.entries then
        (.error ("'" ++ capabilityId ++ "': capability already registered"), r)
      else
        (.ok (), { r with
          entries := r.entries.emplace capabilityId
            { id := capabilityId, pluginId, kind, abiVersion := vtable.abiVersion, threading
              vtable, userData } })

def addMesher (capabilityId pluginId : String) (vtable : Option (Vtable (φ .mesher)))
    (userData : ℕ) (threading : ThreadingModel) (r : Registry φ) :=
  addCapability .mesher capabilityId pluginId vtable userData threading r

def addSolver (capabilityId pluginId : String) (vtable : Option (Vtable (φ .solver)))
    (userData : ℕ) (threading : ThreadingModel) (r : Registry φ) :=
  addCapability .solver capabilityId pluginId vtable userData threading r

def addWriter (capabilityId pluginId : String) (vtable : Option (Vtable (φ .writer)))
    (userData : ℕ) (threading : ThreadingModel) (r : Registry φ) :=
  addCapability .writer capabilityId pluginId vtable userData threading r

def addPostproc (capabilityId pluginId : String) (vtable : Option (Vtable (φ .postproc)))
    (userData : ℕ) (threading : ThreadingModel) (r : Registry φ) :=
  addCapability .postproc capabilityId pluginId vtable userData threading r

def addReader (capabilityId pluginId : String) (vtable : Option (Vtable (φ .reader)))
    (userData : ℕ) (threading : ThreadingModel) (r : Registry φ) :=
  addCapability .reader capabilityId pluginId vtable userData threading r

/-- `add_mesher` to `add_reader`, by kind. -/
def add (kind : CapabilityKind) (capabilityId pluginId : String)
    (vtable : Option (Vtable (φ kind))) (userData : ℕ) (threading : ThreadingModel)
    (r : Registry φ) : Except String Unit × Registry φ :=
  match kind with
  | .mesher => addMesher capabilityId pluginId vtable userData threading r
  | .solver => addSolver capabilityId pluginId vtable userData threading r
  | .writer => addWriter capabilityId pluginId vtable userData threading r
  | .postproc => addPostproc capabilityId pluginId vtable userData threading r
  | .reader => addReader capabilityId pluginId vtable userData threading r

theorem add_eq (kind : CapabilityKind) (capabilityId pluginId : String)
    (vtable : Option (Vtable (φ kind))) (userData : ℕ) (threading : ThreadingModel)
    (r : Registry φ) :
    add kind capabilityId pluginId vtable userData threading r =
      addCapability kind capabilityId pluginId vtable userData threading r := by
  cases kind <;> rfl

/-! ### Lookup and removal -/

def find (r : Registry φ) (capabilityId : String) : Option (CapabilityEntry φ) :=
  r.entries.lookup capabilityId

def findThreading (r : Registry φ) (capabilityId : String) : Option ThreadingModel :=
  (r.find capabilityId).map CapabilityEntry.threading

def removePlugin (pluginId : String) (r : Registry φ) : Registry φ :=
  { r with entries := r.entries.filter fun _ e => e.pluginId ≠ pluginId }

theorem find_removePlugin (pluginId : String) (r : Registry φ) (capabilityId : String) :
    (r.removePlugin pluginId).find capabilityId =
      (r.find capabilityId).filter fun e => e.pluginId ≠ pluginId := by
  rw [find, removePlugin, Dict.lookup_filter, find]

theorem addCapability_cases (kind : CapabilityKind) (capabilityId pluginId : String)
    (vtable : Option (Vtable (φ kind))) (userData : ℕ) (threading : ThreadingModel)
    (r : Registry φ) :
    (addCapability kind capabilityId pluginId vtable userData threading r).2 = r ∨
      r.find capabilityId = none ∧ ∃ e : CapabilityEntry φ, e.pluginId = pluginId ∧
        (addCapability kind capabilityId pluginId vtable userData threading r).2 =
          { r with entries := r.entries.emplace capabilityId e } := by
  by_cases hempty : capabilityId = ""
  · exact Or.inl (by simp [addCapability, hempty])
  cases vtable with
  | none => exact Or.inl (by simp [addCapability, hempty])
  | some vtable =>
    by_cases habi : vtable.abiVersion ≠ abiVersionMajor
    · exact Or.inl (by simp [addCapability, hempty, habi])
    by_cases hfn : vtable.fn.isNone = true
    · exact Or.inl (by simp [addCapability, hempty, habi, hfn])
    by_cases hmem : capabilityId ∈ r.entries
    · exact Or.inl (by simp [addCapability, hempty, habi, hfn, hmem])
    · refine Or.inr ⟨AList.lookup_eq_none.mpr hmem, ⟨capabilityId, pluginId, kind,
        vtable.abiVersion, threading, vtable, userData⟩, rfl, ?_⟩
      simp only [addCapability, hempty, habi, hfn, hmem, Bool.false_eq_true, if_false]

/-- Registration keeps every entry, and what it adds belongs to the given plugin. -/
theorem find_addCapability (kind : CapabilityKind) (capabilityId pluginId : String)
    (vtable : Option (Vtable (φ kind))) (userData : ℕ) (threading : ThreadingModel)
    (r : Registry φ) (c : String) :
    (addCapability kind capabilityId pluginId vtable userData threading r).2.find c = r.find c ∨
      r.find c = none ∧
        ∃ e, (addCapability kind capabilityId pluginId vtable userData threading r).2.find c =
          some e ∧ e.pluginId = pluginId := by
  rcases addCapability_cases kind capabilityId pluginId vtable userData threading r with
    hsame | ⟨hnone, e, he, hadd⟩
  · exact Or.inl (by rw [hsame])
  by_cases hc : c = capabilityId
  · subst hc
    refine Or.inr ⟨hnone, e, ?_, he⟩
    rw [find] at hnone
    rw [hadd, find, Dict.lookup_emplace, if_pos rfl, hnone, Option.getD_none]
  · exact Or.inl (by rw [hadd, find, Dict.lookup_emplace, if_neg hc, find])

theorem addCapability_current (kind : CapabilityKind) (capabilityId pluginId : String)
    (vtable : Option (Vtable (φ kind))) (userData : ℕ) (threading : ThreadingModel)
    (r : Registry φ) :
    (addCapability kind capabilityId pluginId vtable userData threading r).2.currentPluginId =
      r.currentPluginId := by
  rcases addCapability_cases kind capabilityId pluginId vtable userData threading r with
    hsame | ⟨_, e, _, hadd⟩
  · rw [hsame]
  · rw [hadd]

/-! ### The C entry points -/

/-- `souxmar_status_t`, with the codes the registry uses. -/
structure Status where
  code : ℕ
  message : Option String
deriving DecidableEq, Repr

def Status.ok : Status := ⟨0, none⟩

/-- `SOUXMAR_E_INVALID_ARGUMENT`. -/
def Status.invalidArgument (message : String) : Status := ⟨1, some message⟩

/-- `SOUXMAR_E_PLUGIN_REJECTED`. -/
def Status.pluginRejected (message : String) : Status := ⟨9, some message⟩

end Registry

variable (φ) in
/-- One call of `souxmar_registry_add_*`; every pointer may be null. -/
structure AddRequest where
  registryNull : Bool := false
  kind : CapabilityKind
  capabilityId : Option String
  vtable : Option (Vtable (φ kind))
  userData : ℕ := 0

namespace Registry

/-- `souxmar_registry_add_*` and the `add_*_c` bridge behind it: the capability goes to the plugin
that is being registered, with its threading model. -/
def addC (q : AddRequest φ) (r : Registry φ) : Status × Registry φ :=
  if q.registryNull then (.invalidArgument (q.kind.addName ++ ": registry is NULL"), r)
  else
    match q.capabilityId with
    | none => (.invalidArgument q.kind.addName, r)
    | some capabilityId =>
      match add q.kind capabilityId r.currentPluginId q.vtable q.userData
        r.currentPluginThreading r with
      | (.ok (), r) => (.ok, r)
      | (.error message, r) => (.pluginRejected message, r)

theorem addC_snd (q : AddRequest φ) (r : Registry φ) :
    (r.addC q).2 = r ∨ ∃ capabilityId, (r.addC q).2 =
      (addCapability q.kind capabilityId r.currentPluginId q.vtable q.userData
        r.currentPluginThreading r).2 := by
  by_cases hnull : q.registryNull = true
  · exact Or.inl (by simp [addC, hnull])
  cases hcap : q.capabilityId with
  | none => exact Or.inl (by simp [addC, hnull, hcap])
  | some capabilityId =>
    refine Or.inr ⟨capabilityId, ?_⟩
    simp only [addC, hnull, hcap, add_eq, Bool.false_eq_true, if_false]
    split <;> rename_i heq <;> rw [heq]

theorem currentPluginId_addC (q : AddRequest φ) (r : Registry φ) :
    (r.addC q).2.currentPluginId = r.currentPluginId := by
  rcases addC_snd q r with hsame | ⟨capabilityId, hadd⟩
  · rw [hsame]
  · rw [hadd, addCapability_current]

theorem find_addC (q : AddRequest φ) (r : Registry φ) (c : String) :
    (r.addC q).2.find c = r.find c ∨
      r.find c = none ∧ ∃ e, (r.addC q).2.find c = some e ∧ e.pluginId = r.currentPluginId := by
  rcases addC_snd q r with hsame | ⟨capabilityId, hadd⟩
  · exact Or.inl (by rw [hsame])
  · rw [hadd]
    exact find_addCapability _ _ _ _ _ _ r c

end Registry

end Souxmar.PluginHost
