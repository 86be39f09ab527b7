import Souxmar.Lib.Run
import Souxmar.PluginHost.Registry

/-!
# Loading plugins

`PluginLoader::load` of `loader.cpp`, for any behaviour of the plugin: its register function is a
tree of calls to the registry that sees the status of each call, and ends by returning or throwing.
What the dynamic linker finds behind a path is a parameter.

A refused load takes back what the plugin had registered by removing everything under the plugin's
id. `load_refused_keeps_iff` says when that leaves the registry as it was: the load was refused
before the register function ran, or no entry was owned by that id already.
-/

namespace Souxmar.PluginHost

open Souxmar.Lib

variable (φ : CapabilityKind → Type)

/-- What a C++ function throws. -/
inductive Thrown
  | exception (what : Option String)
  | other
deriving DecidableEq, Repr

structure HostInfo where
  abiVersionMajor : ℤ
  abiVersionMinor : ℤ
  hostVersionString : String
  hostCapabilities : UInt64
deriving DecidableEq, Repr

/-- A register function, from some point on. -/
inductive Register
  | ret (rc : ℤ)
  | throws (e : Thrown)
  | add (q : AddRequest φ) (next : Registry.Status → Register)

/-- The fields of the plugin manifest that the loader reads. -/
structure Manifest where
  id : String
  abi : ℤ := 1
  threading : ThreadingModel := .singleThreaded
deriving DecidableEq, Repr

structure DiscoveredPlugin where
  binaryPath : String
  manifest : Manifest
deriving DecidableEq, Repr

/-- The dynamic linker: `dlopen` fails with the text of `dlerror`, or gives a library, in which the
register symbol may be missing. -/
abbrev Linker : Type := String → Except (Option String) (Option (HostInfo → Register φ))

structure LoadError where
  binaryPath : String
  message : String
deriving DecidableEq, Repr

structure LoadedPlugin where
  manifest : Manifest
  binaryPath : String
deriving DecidableEq, Repr

variable {φ}

inductive GuardOutcome
  | ok
  | cppException
  | unknown
deriving DecidableEq, Repr

structure GuardResult where
  outcome : GuardOutcome
  detail : String
deriving DecidableEq, Repr

/-- The register function inside `guard_call`: its outcome, its return code (`-1` when it threw)
and the registry it leaves. -/
def guardCall : Register φ → Registry φ → GuardResult × ℤ × Registry φ
  | .ret rc, r => (⟨.ok, ""⟩, rc, r)
  | .throws (.exception what), r => (⟨.cppException, what.getD "(empty what())"⟩, -1, r)
  | .throws .other, r => (⟨.unknown, "non-std exception"⟩, -1, r)
  | .add q next, r =>
    let (status, r) := r.addC q
    guardCall (next status) r

/-- The registry as the loader hands it to the register function. -/
def registering (d : DiscoveredPlugin) (r : Registry φ) : Registry φ :=
  { r with
    currentPluginId := d.manifest.id
    currentPluginThreading := d.manifest.threading }

def hostInfo (hostVersion : String) : HostInfo := ⟨abiVersionMajor, abiVersionMinor, hostVersion, 0⟩

def load (hostVersion : String) (linker : Linker φ) (d : DiscoveredPlugin) (r : Registry φ) :
    Except LoadError LoadedPlugin × Registry φ :=
  if d.manifest.abi ≠ abiVersionMajor then
    (.error ⟨d.binaryPath, "manifest declares ABI v" ++ toString d.manifest.abi ++
      ", host implements ABI v" ++ toString abiVersionMajor⟩, r)
  else
    match linker d.binaryPath with
    | .error dlerror =>
      (.error ⟨d.binaryPath, "dlopen failed: " ++ dlerror.getD "unknown"⟩, r)
    | .ok none =>
      (.error ⟨d.binaryPath, "missing exported symbol 'souxmar_plugin_register_v1'"⟩, r)
    | .ok (some register) =>
      let (guard, rc, r) := guardCall (register (hostInfo hostVersion)) (registering d r)
      let r := { r with currentPluginId := "", currentPluginThreading := .singleThreaded }
      if guard.outcome ≠ .ok then
        (.error ⟨d.binaryPath, "plugin's souxmar_plugin_register_v1 raised: " ++ guard.detail⟩,
          r.removePlugin d.manifest.id)
      else if rc ≠ 0 then
        (.error ⟨d.binaryPath, "plugin's souxmar_plugin_register_v1 returned non-zero (" ++
          toString rc ++ ")"⟩, r.removePlugin d.manifest.id)
      else (.ok ⟨d.manifest, d.binaryPath⟩, r)

/-! ### What the register function can do -/

/-- Whatever the register function does, the entries that were there stay, and the new ones belong
to the plugin that is being registered. -/
theorem guardCall_find (f : Register φ) (r : Registry φ) (c : String) :
    (guardCall f r).2.2.find c = r.find c ∨
      r.find c = none ∧
        ∃ e, (guardCall f r).2.2.find c = some e ∧ e.pluginId = r.currentPluginId := by
  induction f generalizing r with
  | ret rc => exact Or.inl rfl
  | throws e => cases e <;> exact Or.inl rfl
  | add q next ih =>
    have hcurrent := Registry.currentPluginId_addC q r
    have hrest := ih (r.addC q).1 (r.addC q).2
    rw [hcurrent] at hrest
    rcases Registry.find_addC q r c with hsame | ⟨hnone, e, he, howner⟩
    · rw [hsame] at hrest
      exact hrest
    · -- the entry this call stored stays
      refine Or.inr ⟨hnone, e, ?_, howner⟩
      rcases hrest with hrest | ⟨hgone, _⟩
      · exact hrest.trans he
      · rw [he] at hgone
        exact absurd hgone (by simp)

/-- The register function the loader gets to run, if the plugin is not refused before. -/
def registerOf (linker : Linker φ) (d : DiscoveredPlugin) : Option (HostInfo → Register φ) :=
  if d.manifest.abi ≠ abiVersionMajor then none
  else
    match linker d.binaryPath with
    | .error _ => none
    | .ok register => register

/-- The register function returns zero. -/
def Registers (hostVersion : String) (register : HostInfo → Register φ) (d : DiscoveredPlugin)
    (r : Registry φ) : Prop :=
  (guardCall (register (hostInfo hostVersion)) (registering d r)).1.outcome = .ok ∧
    (guardCall (register (hostInfo hostVersion)) (registering d r)).2.1 = 0

theorem load_of_registerOf_none {hostVersion : String} {linker : Linker φ} {d : DiscoveredPlugin}
    (h : registerOf linker d = none) (r : Registry φ) : (load hostVersion linker d r).2 = r := by
  unfold registerOf at h
  unfold load
  split_ifs at h ⊢
  · rfl
  · cases hlink : linker d.binaryPath with
    | error e => rfl
    | ok register =>
      rw [hlink] at h
      obtain rfl : register = none := h
      rfl

theorem load_of_registerOf {linker : Linker φ} {d : DiscoveredPlugin}
    {register : HostInfo → Register φ} (h : registerOf linker d = some register) :
    d.manifest.abi = abiVersionMajor ∧ linker d.binaryPath = .ok (some register) := by
  unfold registerOf at h
  split_ifs at h with habi
  refine ⟨not_not.mp habi, ?_⟩
  cases hlink : linker d.binaryPath with
  | error e => simp [hlink] at h
  | ok register' =>
    rw [hlink] at h
    obtain rfl : register' = some register := h
    rfl

theorem load_of_registers {hostVersion : String} {linker : Linker φ} {d : DiscoveredPlugin}
    {register : HostInfo → Register φ} (h : registerOf linker d = some register) {r : Registry φ}
    (hreg : Registers hostVersion register d r) :
    (load hostVersion linker d r).1 = .ok ⟨d.manifest, d.binaryPath⟩ ∧
      ∀ c, (load hostVersion linker d r).2.find c =
        (guardCall (register (hostInfo hostVersion)) (registering d r)).2.2.find c := by
  obtain ⟨habi, hlink⟩ := load_of_registerOf h
  obtain ⟨hok, hrc⟩ := hreg
  simp only [load, habi, hlink, hok, hrc, ne_eq, not_true_eq_false, if_false]
  exact ⟨trivial, fun _ => rfl⟩

theorem load_of_not_registers {hostVersion : String} {linker : Linker φ} {d : DiscoveredPlugin}
    {register : HostInfo → Register φ} (h : registerOf linker d = some register) {r : Registry φ}
    (hreg : ¬ Registers hostVersion register d r) :
    (∃ err, (load hostVersion linker d r).1 = .error err) ∧
      ∀ c, (load hostVersion linker d r).2.find c =
        ((guardCall (register (hostInfo hostVersion)) (registering d r)).2.2.removePlugin
          d.manifest.id).find c := by
  obtain ⟨habi, hlink⟩ := load_of_registerOf h
  simp only [load, habi, hlink, ne_eq, not_true_eq_false, if_false]
  by_cases hok : (guardCall (register (hostInfo hostVersion)) (registering d r)).1.outcome = .ok
  · have hrc : (guardCall (register (hostInfo hostVersion)) (registering d r)).2.1 ≠ 0 :=
      fun hrc => hreg ⟨hok, hrc⟩
    simp only [hok, hrc, not_true_eq_false, not_false_eq_true, if_false, if_true]
    exact ⟨⟨_, rfl⟩, fun _ => rfl⟩
  · simp only [hok, not_false_eq_true, if_true]
    exact ⟨⟨_, rfl⟩, fun _ => rfl⟩

/-! ### Refused loads -/

/-- No entry belongs to the plugin id yet. -/
def Unowned (pluginId : String) (r : Registry φ) : Prop :=
  ∀ c e, r.find c = some e → e.pluginId ≠ pluginId

theorem find_removePlugin_guardCall {f : Register φ} {r : Registry φ}
    (h : Unowned r.currentPluginId r) (c : String) :
    ((guardCall f r).2.2.removePlugin r.currentPluginId).find c = r.find c := by
  rw [Registry.find_removePlugin]
  rcases guardCall_find f r c with hsame | ⟨hnone, e, he, howner⟩
  · rw [hsame]
    cases hc : r.find c with
    | none => rfl
    | some e => simp [h c e hc]
  · rw [hnone, he]
    simp [howner]

/-- When a load is harmless: it is refused before the register function runs, or that function
returns zero, or no entry belongs to the plugin's id. -/
def LoadKeeps (hostVersion : String) (linker : Linker φ) (d : DiscoveredPlugin) (r : Registry φ) :
    Prop :=
  ∀ register, registerOf linker d = some register →
    Registers hostVersion register d r ∨ Unowned d.manifest.id r

theorem load_refused_iff (hostVersion : String) (linker : Linker φ) (d : DiscoveredPlugin)
    (r : Registry φ) :
    (∀ err, (load hostVersion linker d r).1 = .error err →
      ∀ c, (load hostVersion linker d r).2.find c = r.find c) ↔
        LoadKeeps hostVersion linker d r := by
  cases hfn : registerOf linker d with
  | none =>
    refine ⟨fun _ register h => by simp [hfn] at h, fun _ _ _ c => ?_⟩
    rw [load_of_registerOf_none hfn]
  | some register =>
    have hkeeps : LoadKeeps hostVersion linker d r ↔
        Registers hostVersion register d r ∨ Unowned d.manifest.id r := by
      simp [LoadKeeps, hfn]
    rw [hkeeps]
    by_cases hreg : Registers hostVersion register d r
    · obtain ⟨hok, _⟩ := load_of_registers hfn hreg
      exact ⟨fun _ => Or.inl hreg, fun _ err herr => by simp [hok] at herr⟩
    · obtain ⟨⟨err, herr⟩, hfind⟩ := load_of_not_registers hfn hreg
      constructor
      · intro h
        refine Or.inr fun c e hc howner => ?_
        have hkept := h err herr c
        rw [hfind, Registry.find_removePlugin, hc, Option.filter_eq_some_iff] at hkept
        simp [howner] at hkept
      · rintro (h | h) _ _ c
        · exact absurd h hreg
        · rw [hfind]
          exact find_removePlugin_guardCall (r := registering d r) h c

theorem find_load {hostVersion : String} {linker : Linker φ} {d : DiscoveredPlugin}
    {r : Registry φ} (h : LoadKeeps hostVersion linker d r) {c : String} {e : CapabilityEntry φ}
    (he : r.find c = some e) : (load hostVersion linker d r).2.find c = some e := by
  cases hres : (load hostVersion linker d r).1 with
  | error err => rw [(load_refused_iff hostVersion linker d r).mpr h err hres c, he]
  | ok plugin =>
    cases hfn : registerOf linker d with
    | none => rw [load_of_registerOf_none hfn, he]
    | some register =>
      by_cases hreg : Registers hostVersion register d r
      · rw [(load_of_registers hfn hreg).2]
        rcases guardCall_find (register (hostInfo hostVersion)) (registering d r) c with
          hsame | ⟨hnone, _⟩
        · rw [hsame]
          exact he
        · exact absurd (he.symm.trans hnone) (by simp)
      · obtain ⟨⟨err, herr⟩, _⟩ := load_of_not_registers hfn hreg
        simp [hres] at herr

/-- Loading a discovery list, plugin by plugin; refused ones are skipped. -/
def loadStep (hostVersion : String) (linker : Linker φ) (r : Registry φ) (d : DiscoveredPlugin) :
    Registry φ :=
  (load hostVersion linker d r).2

/-- **Exactly when a refused load leaves the registry alone**, and that a discovery list whose loads
are all harmless keeps every capability that was there at any point. -/
theorem load_refused_keeps_iff (hostVersion : String) (linker : Linker φ) :
    (∀ d r, (∀ err, (load hostVersion linker d r).1 = .error err →
      ∀ c, (load hostVersion linker d r).2.find c = r.find c) ↔
        LoadKeeps hostVersion linker d r) ∧
    (∀ ds r, Along (loadStep hostVersion linker) (fun _ r d => LoadKeeps hostVersion linker d r)
        [] r ds → ∀ c e, r.find c = some e →
      (run (loadStep hostVersion linker) r ds).find c = some e) := by
  refine ⟨load_refused_iff hostVersion linker, fun ds r hds c e he => ?_⟩
  exact Along.invariant (P := fun _ r => r.find c = some e)
    (fun _ _ _ hfind hkeeps => find_load hkeeps hfind) he hds

/-- Two plugins with one id: the first registers a mesher; the second registers it again, sees the
refusal and returns 1. After its load the mesher is gone. -/
theorem refused_duplicate_drops_first :
    let request : AddRequest (fun _ => Unit) :=
      { kind := .mesher, capabilityId := some "mesher.demo", vtable := some ⟨1, some ()⟩ }
    let linker : Linker (fun _ => Unit) := fun _ => .ok (some fun _ =>
      .add request fun status => .ret (if status.code = 0 then 0 else 1))
    let first := load "0.9.0" linker ⟨"/a/libdemo.so", { id := "com.example.demo" }⟩ {}
    let second := load "0.9.0" linker ⟨"/b/libdemo.so", { id := "com.example.demo" }⟩ first.2
    first.1.isOk = true ∧ (first.2.find "mesher.demo").isSome = true ∧
      second.1.isOk = false ∧ (second.2.find "mesher.demo").isSome = false := by
  decide

end Souxmar.PluginHost
