import Mathlib.Data.List.Count
import Mathlib.Data.List.Perm.Basic
import Souxmar.PluginHost.Discovery

/-!
# Start-up

The loop over the discovered plugins in `cmd_run`, `cmd_agent_chat`, `cmd_agent_invoke` and the sessions of
the bridge: every plugin is loaded into one registry, in the order in which it was found, and one that is
refused is passed over.

Plugins whose ids differ and whose register functions ask for different capabilities do not see each other.
`plugins_fare_alone` makes of the whole start-up what each plugin makes of an empty registry, however often
it is found; `startup_order_independent` is then about the order in which a file system lists directories.
-/

namespace Souxmar.PluginHost

open Souxmar.Lib

variable {φ : CapabilityKind → Type}

/-! ## What a register function can ask for -/

/-- Some call of the register function, in some course of it, names the capability. -/
def Register.Asks : Register φ → String → Prop
  | .ret _, _ => False
  | .throws _, _ => False
  | .add q next, c => q.capabilityId = some c ∨ ∃ status, (next status).Asks c

/-- The two registries have the same entries under these ids. -/
def AgreeAt (A : String → Prop) (r r' : Registry φ) : Prop := ∀ c, A c → r.find c = r'.find c

namespace Registry

theorem find_emplace (r : Registry φ) (k c : String) (e : CapabilityEntry φ) :
    find { r with entries := r.entries.emplace k e } c =
      if c = k then some ((r.find k).getD e) else r.find c := by
  rw [find, Dict.lookup_emplace, find, find]

theorem addCapability_agree {A : String → Prop} {r r' : Registry φ} (h : AgreeAt A r r')
    (kind : CapabilityKind) {capabilityId : String} (hA : A capabilityId) (pluginId : String)
    (vtable : Option (Vtable (φ kind))) (userData : ℕ) (threading : ThreadingModel) :
    (addCapability kind capabilityId pluginId vtable userData threading r).1 =
        (addCapability kind capabilityId pluginId vtable userData threading r').1 ∧
      AgreeAt A (addCapability kind capabilityId pluginId vtable userData threading r).2
        (addCapability kind capabilityId pluginId vtable userData threading r').2 := by
  have hmem : capabilityId ∈ r.entries ↔ capabilityId ∈ r'.entries := by
    rw [← AList.lookup_isSome, ← AList.lookup_isSome]
    exact (congrArg (fun e => Option.isSome e = true) (h capabilityId hA)).to_iff
  unfold addCapability
  by_cases hempty : capabilityId = ""
  · simp only [hempty, if_true]
    exact ⟨trivial, h⟩
  · simp only [hempty, if_false]
    cases vtable with
    | none => exact ⟨rfl, h⟩
    | some vtable =>
      dsimp only
      by_cases habi : vtable.abiVersion ≠ abiVersionMajor
      · rw [if_pos habi, if_pos habi]
        exact ⟨rfl, h⟩
      · rw [if_neg habi, if_neg habi]
        by_cases hfn : vtable.fn.isNone = true
        · rw [if_pos hfn, if_pos hfn]
          exact ⟨rfl, h⟩
        · rw [if_neg hfn, if_neg hfn]
          by_cases hin : capabilityId ∈ r.entries
          · rw [if_pos hin, if_pos (hmem.mp hin)]
            exact ⟨rfl, h⟩
          · rw [if_neg hin, if_neg (mt hmem.mpr hin)]
            refine ⟨rfl, fun c hc => ?_⟩
            rw [find_emplace, find_emplace, h capabilityId hA, h c hc]

theorem addCapability_other {c capabilityId : String} (hc : c ≠ capabilityId) (kind : CapabilityKind)
    (pluginId : String) (vtable : Option (Vtable (φ kind))) (userData : ℕ)
    (threading : ThreadingModel) (r : Registry φ) :
    (addCapability kind capabilityId pluginId vtable userData threading r).2.find c = r.find c := by
  rcases addCapability_cases kind capabilityId pluginId vtable userData threading r with
    hsame | ⟨-, e, -, hadd⟩
  · rw [hsame]
  · rw [hadd, find_emplace, if_neg hc]

theorem addC_agree {A : String → Prop} {r r' : Registry φ} (h : AgreeAt A r r')
    (hid : r.currentPluginId = r'.currentPluginId)
    (hthreading : r.currentPluginThreading = r'.currentPluginThreading) {q : AddRequest φ}
    (hA : ∀ c, q.capabilityId = some c → A c) :
    (r.addC q).1 = (r'.addC q).1 ∧ AgreeAt A (r.addC q).2 (r'.addC q).2 := by
  unfold addC
  by_cases hnull : q.registryNull = true
  · rw [if_pos hnull, if_pos hnull]
    exact ⟨rfl, h⟩
  · rw [if_neg hnull, if_neg hnull]
    cases hcap : q.capabilityId with
    | none => exact ⟨rfl, h⟩
    | some capabilityId =>
      dsimp only
      rw [add_eq, add_eq, ← hid, ← hthreading]
      obtain ⟨hstatus, hagree⟩ := addCapability_agree h q.kind (hA capabilityId hcap)
        r.currentPluginId q.vtable q.userData r.currentPluginThreading
      revert hstatus hagree
      cases addCapability q.kind capabilityId r.currentPluginId q.vtable q.userData
        r.currentPluginThreading r with
      | mk x s =>
        cases addCapability q.kind capabilityId r.currentPluginId q.vtable q.userData
          r.currentPluginThreading r' with
        | mk x' s' =>
          intro hstatus hagree
          obtain rfl : x = x' := hstatus
          cases x with
          | error message => exact ⟨rfl, hagree⟩
          | ok u => exact ⟨rfl, hagree⟩

theorem addC_other {c : String} {q : AddRequest φ} (hc : q.capabilityId ≠ some c) (r : Registry φ) :
    (r.addC q).2.find c = r.find c := by
  unfold addC
  by_cases hnull : q.registryNull = true
  · rw [if_pos hnull]
  · rw [if_neg hnull]
    cases hcap : q.capabilityId with
    | none => rfl
    | some capabilityId =>
      dsimp only
      rw [add_eq]
      have hne : c ≠ capabilityId := fun heq => hc (heq ▸ hcap)
      have hother := addCapability_other hne q.kind r.currentPluginId q.vtable q.userData
        r.currentPluginThreading r
      split <;> rename_i heq <;> rw [heq] at hother <;> exact hother

theorem currentPluginThreading_addC (q : AddRequest φ) (r : Registry φ) :
    (r.addC q).2.currentPluginThreading = r.currentPluginThreading := by
  rcases addC_snd q r with hsame | ⟨capabilityId, hadd⟩
  · rw [hsame]
  · rw [hadd]
    rcases addCapability_cases q.kind capabilityId r.currentPluginId q.vtable q.userData
      r.currentPluginThreading r with hsame | ⟨-, e, -, hadd⟩
    · rw [hsame]
    · rw [hadd]

end Registry

theorem guardCall_add (q : AddRequest φ) (next : Registry.Status → Register φ) (r : Registry φ) :
    guardCall (.add q next) r = guardCall (next (r.addC q).1) (r.addC q).2 := rfl

theorem guardCall_agree {A : String → Prop} {f : Register φ} (hA : ∀ c, f.Asks c → A c)
    {r r' : Registry φ} (h : AgreeAt A r r') (hid : r.currentPluginId = r'.currentPluginId)
    (hthreading : r.currentPluginThreading = r'.currentPluginThreading) :
    (guardCall f r).1 = (guardCall f r').1 ∧ (guardCall f r).2.1 = (guardCall f r').2.1 ∧
      AgreeAt A (guardCall f r).2.2 (guardCall f r').2.2 := by
  induction f generalizing r r' with
  | ret rc => exact ⟨rfl, rfl, h⟩
  | throws e => cases e <;> exact ⟨rfl, rfl, h⟩
  | add q next ih =>
    obtain ⟨hstatus, hagree⟩ := Registry.addC_agree h hid hthreading (q := q)
      fun c hc => hA c (.inl hc)
    rw [guardCall_add, guardCall_add, ← hstatus]
    refine ih (r.addC q).1 (fun c hc => hA c (.inr ⟨_, hc⟩)) hagree ?_ ?_
    · rw [Registry.currentPluginId_addC, Registry.currentPluginId_addC, hid]
    · rw [Registry.currentPluginThreading_addC, Registry.currentPluginThreading_addC, hthreading]

theorem guardCall_other {f : Register φ} {c : String} (hc : ¬f.Asks c) (r : Registry φ) :
    (guardCall f r).2.2.find c = r.find c := by
  induction f generalizing r with
  | ret rc => rfl
  | throws e => cases e <;> rfl
  | add q next ih =>
    rw [guardCall_add]
    exact (ih _ (fun h => hc (.inr ⟨_, h⟩)) _).trans (Registry.addC_other (fun h => hc (.inl h)) r)

/-! ## One load -/

section

variable (hostVersion : String) (linker : Linker φ)

/-- The register function of a plugin that is not refused before may ask for the capability. -/
def AsksFor (d : DiscoveredPlugin) (c : String) : Prop :=
  ∃ register, registerOf linker d = some register ∧ (register (hostInfo hostVersion)).Asks c

variable {hostVersion linker}

theorem load_agree {A : String → Prop} {d : DiscoveredPlugin}
    (hA : ∀ c, AsksFor hostVersion linker d c → A c) {r r' : Registry φ} (h : AgreeAt A r r') :
    (load hostVersion linker d r).1 = (load hostVersion linker d r').1 ∧
      AgreeAt A (load hostVersion linker d r).2 (load hostVersion linker d r').2 := by
  unfold load
  by_cases habi : d.manifest.abi ≠ abiVersionMajor
  · rw [if_pos habi, if_pos habi]
    exact ⟨rfl, h⟩
  rw [if_neg habi, if_neg habi]
  cases hlink : linker d.binaryPath with
  | error e => exact ⟨rfl, h⟩
  | ok found =>
    cases found with
    | none => exact ⟨rfl, h⟩
    | some register =>
      have hregister : registerOf linker d = some register := by
        rw [registerOf, if_neg habi, hlink]
      have hregistering : AgreeAt A (registering d r) (registering d r') := h
      obtain ⟨hguard, hrc, hagree⟩ := guardCall_agree (f := register (hostInfo hostVersion))
        (fun c hc => hA c ⟨register, hregister, hc⟩) hregistering rfl rfl
      dsimp only
      rw [← hguard, ← hrc]
      split_ifs
      · refine ⟨rfl, fun c hc => ?_⟩
        rw [Registry.find_removePlugin, Registry.find_removePlugin]
        exact congrArg _ (hagree c hc)
      · refine ⟨rfl, fun c hc => ?_⟩
        rw [Registry.find_removePlugin, Registry.find_removePlugin]
        exact congrArg _ (hagree c hc)
      · exact ⟨rfl, hagree⟩

theorem load_find (hostVersion : String) (linker : Linker φ) (d : DiscoveredPlugin) (r : Registry φ) :
    (load hostVersion linker d r).2 = r ∨ ∃ register, registerOf linker d = some register ∧
      ((∀ c, (load hostVersion linker d r).2.find c =
          (guardCall (register (hostInfo hostVersion)) (registering d r)).2.2.find c) ∨
        ∀ c, (load hostVersion linker d r).2.find c =
          ((guardCall (register (hostInfo hostVersion)) (registering d r)).2.2.find c).filter
            fun e => e.pluginId ≠ d.manifest.id) := by
  cases hregister : registerOf linker d with
  | none => exact .inl (load_of_registerOf_none hregister r)
  | some register =>
    refine .inr ⟨register, rfl, ?_⟩
    by_cases hregisters : Registers hostVersion register d r
    · exact .inl (load_of_registers hregister hregisters).2
    · refine .inr fun c => ?_
      rw [(load_of_not_registers hregister hregisters).2, Registry.find_removePlugin]

theorem load_other {d : DiscoveredPlugin} {r : Registry φ} {c : String}
    (hc : ¬AsksFor hostVersion linker d c)
    (howner : ∀ e, r.find c = some e → e.pluginId ≠ d.manifest.id) :
    (load hostVersion linker d r).2.find c = r.find c := by
  rcases load_find hostVersion linker d r with
    hsame | ⟨register, hregister, hfind | hfind⟩
  · rw [hsame]
  · rw [hfind]
    exact guardCall_other (fun h => hc ⟨register, hregister, h⟩) _
  · rw [hfind, guardCall_other (fun h => hc ⟨register, hregister, h⟩) _]
    show (r.find c).filter _ = r.find c
    cases hentry : r.find c with
    | none => rfl
    | some e => simp [howner e hentry]

theorem load_new {d : DiscoveredPlugin} {r : Registry φ} {c : String} {e : CapabilityEntry φ}
    (h : (load hostVersion linker d r).2.find c = some e) :
    r.find c = some e ∨ AsksFor hostVersion linker d c ∧ e.pluginId = d.manifest.id := by
  rcases load_find hostVersion linker d r with
    hsame | ⟨register, hregister, hfind⟩
  · rw [hsame] at h
    exact .inl h
  · have hguard : (guardCall (register (hostInfo hostVersion)) (registering d r)).2.2.find c = some e := by
      rcases hfind with hfind | hfind
      · rw [← hfind, h]
      · rw [hfind] at h
        exact (Option.filter_eq_some_iff.mp h).1
    by_cases hasks : (register (hostInfo hostVersion)).Asks c
    · rcases guardCall_find (register (hostInfo hostVersion)) (registering d r) c with
        hsame | ⟨-, e', he', howner⟩
      · exact .inl (hsame.symm.trans hguard)
      · obtain rfl := Option.some.inj (he'.symm.trans hguard)
        exact .inr ⟨⟨register, hregister, hasks⟩, howner⟩
    · exact .inl ((guardCall_other hasks (registering d r)).symm.trans hguard)

end

/-! ## The loop -/

/-- What the loop builds: the registry, the plugins it keeps, and the warnings. -/
structure Startup (φ : CapabilityKind → Type) where
  registry : Registry φ := {}
  livePlugins : List LoadedPlugin := []
  refused : List LoadError := []

section

variable (hostVersion : String) (linker : Linker φ)

def startupStep (s : Startup φ) (d : DiscoveredPlugin) : Startup φ :=
  match load hostVersion linker d s.registry with
  | (.ok plugin, r) => { s with registry := r, livePlugins := s.livePlugins ++ [plugin] }
  | (.error e, r) => { s with registry := r, refused := s.refused ++ [e] }

/-- Plugins one after the other, from an empty registry. -/
def startup (ds : List DiscoveredPlugin) : Startup φ := run (startupStep hostVersion linker) {} ds

/-- The ids differ, and no capability is asked for by both. -/
def Independent (d d' : DiscoveredPlugin) : Prop :=
  d.manifest.id ≠ d'.manifest.id ∧
    ∀ c, AsksFor hostVersion linker d c → ¬AsksFor hostVersion linker d' c

/-- The handle that a load of the plugin gives. -/
def DiscoveredPlugin.handle (d : DiscoveredPlugin) : LoadedPlugin := ⟨d.manifest, d.binaryPath⟩

theorem DiscoveredPlugin.handle_inj {d d' : DiscoveredPlugin} (h : d.handle = d'.handle) : d = d' := by
  obtain ⟨binaryPath, manifest⟩ := d
  obtain ⟨binaryPath', manifest'⟩ := d'
  simp only [DiscoveredPlugin.handle, LoadedPlugin.mk.injEq] at h
  rw [h.1, h.2]

variable {hostVersion linker}

theorem load_fst (hostVersion : String) (linker : Linker φ) (d : DiscoveredPlugin) (r : Registry φ) :
    (load hostVersion linker d r).1 = .ok d.handle ∨ ∃ e, (load hostVersion linker d r).1 = .error e := by
  cases hregister : registerOf linker d with
  | none =>
    unfold registerOf at hregister
    unfold load
    split_ifs at hregister ⊢ with habi
    · exact .inr ⟨_, rfl⟩
    · cases hlink : linker d.binaryPath with
      | error e => exact .inr ⟨_, rfl⟩
      | ok found =>
        rw [hlink] at hregister
        obtain rfl : found = none := hregister
        exact .inr ⟨_, rfl⟩
  | some register =>
    by_cases hregisters : Registers hostVersion register d r
    · exact .inl (load_of_registers hregister hregisters).1
    · exact .inr (load_of_not_registers hregister hregisters).1

theorem startupStep_registry (s : Startup φ) (d : DiscoveredPlugin) :
    (startupStep hostVersion linker s d).registry = (load hostVersion linker d s.registry).2 := by
  unfold startupStep
  split <;> rename_i heq <;> rw [heq]

theorem startupStep_livePlugins (s : Startup φ) (d : DiscoveredPlugin) :
    (startupStep hostVersion linker s d).livePlugins =
      s.livePlugins ++ (load hostVersion linker d s.registry).1.toOption.toList := by
  unfold startupStep
  split <;> rename_i heq <;> rw [heq]
  · rfl
  · exact (List.append_nil _).symm

theorem load_toList (hostVersion : String) (linker : Linker φ) (d : DiscoveredPlugin) (r : Registry φ) :
    (load hostVersion linker d r).1.toOption.toList = [d.handle] ∨
      (load hostVersion linker d r).1.toOption.toList = [] := by
  rcases load_fst hostVersion linker d r with hok | ⟨e, herr⟩
  · rw [hok]
    exact .inl rfl
  · rw [herr]
    exact .inr rfl

/-! ### Each plugin for itself -/

/-- The loads of one plugin. -/
def loadsOf (d : DiscoveredPlugin) (ds : List DiscoveredPlugin) : List DiscoveredPlugin :=
  ds.filter (· = d)

theorem loadsOf_append_self (past : List DiscoveredPlugin) (d : DiscoveredPlugin) :
    loadsOf d (past ++ [d]) = loadsOf d past ++ [d] := by
  simp [loadsOf]

theorem loadsOf_append_ne (past : List DiscoveredPlugin) {d d' : DiscoveredPlugin} (h : d' ≠ d) :
    loadsOf d (past ++ [d']) = loadsOf d past := by
  simp [loadsOf, h]

/-- After `past`, each of the plugins stands as if only it had been loaded, as often as it was. -/
structure Apart (hostVersion : String) (linker : Linker φ) (all past : List DiscoveredPlugin)
    (s : Startup φ) : Prop where
  registry : ∀ d ∈ all, AgreeAt (AsksFor hostVersion linker d) s.registry
    (startup hostVersion linker (loadsOf d past)).registry
  livePlugins : ∀ d, s.livePlugins.filter (· = d.handle) =
    (startup hostVersion linker (loadsOf d past)).livePlugins
  owned : ∀ c e, s.registry.find c = some e →
    ∃ d ∈ past, AsksFor hostVersion linker d c ∧ e.pluginId = d.manifest.id

theorem startup_append_singleton (past : List DiscoveredPlugin) (d : DiscoveredPlugin) :
    startup hostVersion linker (past ++ [d]) =
      startupStep hostVersion linker (startup hostVersion linker past) d := run_append ..

theorem Apart.step {all past : List DiscoveredPlugin} {s : Startup φ}
    (h : Apart hostVersion linker all past s) (hpast : past ⊆ all) {d' : DiscoveredPlugin}
    (hd' : d' ∈ all)
    (hindependent : ∀ d ∈ all, ∀ d' ∈ all, d ≠ d' → Independent hostVersion linker d d') :
    Apart hostVersion linker all (past ++ [d']) (startupStep hostVersion linker s d') := by
  refine ⟨fun d hd => ?_, fun d => ?_, fun c e he => ?_⟩
  · rw [startupStep_registry]
    by_cases heq : d' = d
    · subst heq
      rw [loadsOf_append_self, startup_append_singleton, startupStep_registry]
      exact (load_agree (fun _ hc => hc) (h.registry d' hd)).2
    · rw [loadsOf_append_ne _ heq]
      intro c hc
      have hind := hindependent d hd d' hd' (Ne.symm heq)
      rw [load_other (hind.2 c hc) fun e he => ?_]
      · exact h.registry d hd c hc
      · -- the entry belongs to the one plugin that asks for it
        obtain ⟨owner, howner, hasks, hid⟩ := h.owned c e he
        by_cases hsame : owner = d
        · rw [hid, hsame]
          exact hind.1
        · exact absurd hc ((hindependent owner (hpast howner) d hd hsame).2 c hasks)
  · rw [startupStep_livePlugins, List.filter_append, h.livePlugins d]
    by_cases heq : d' = d
    · subst heq
      rw [loadsOf_append_self, startup_append_singleton, startupStep_livePlugins,
        (load_agree (fun _ hc => hc) (h.registry d' hd')).1]
      congr 1
      rcases load_toList hostVersion linker d' (startup hostVersion linker (loadsOf d' past)).registry with
        hlist | hlist <;> simp [hlist]
    · have hhandle : d'.handle ≠ d.handle := fun hsame => heq (DiscoveredPlugin.handle_inj hsame)
      rw [loadsOf_append_ne _ heq]
      rcases load_toList hostVersion linker d' s.registry with hlist | hlist <;> simp [hlist, hhandle]
  · rw [startupStep_registry] at he
    rcases load_new he with hold | ⟨hasks, hid⟩
    · obtain ⟨d, hd, hd'⟩ := h.owned c e hold
      exact ⟨d, List.mem_append_left _ hd, hd'⟩
    · exact ⟨d', List.mem_append_right _ (List.mem_singleton_self d'), hasks, hid⟩

theorem apart_startup {all : List DiscoveredPlugin}
    (hindependent : ∀ d ∈ all, ∀ d' ∈ all, d ≠ d' → Independent hostVersion linker d d')
    {past : List DiscoveredPlugin} (hpast : past ⊆ all) :
    Apart hostVersion linker all past (startup hostVersion linker past) := by
  induction past using List.reverseRecOn with
  | nil => exact ⟨fun d _ c _ => rfl, fun d => rfl, fun c e he => by cases he⟩
  | append_singleton past d ih =>
    rw [startup_append_singleton]
    exact (ih fun x hx => hpast (List.mem_append_left _ hx)).step
      (fun x hx => hpast (List.mem_append_left _ hx))
      (hpast (List.mem_append_right _ (List.mem_singleton_self d))) hindependent

/-! ### Sample plugins -/

end

/-- A register function that asks for one mesher, and fails when that is refused. -/
def registerMesher (capability : String) : HostInfo → Register fun _ => Unit := fun _ =>
  .add { kind := .mesher, capabilityId := some capability, vtable := some ⟨1, some ()⟩ } fun status =>
    .ret (if status.code = 0 then 0 else 1)

def gridPlugin : DiscoveredPlugin := ⟨"/plugins/grid/libgrid.so", { id := "org.example.grid" }⟩

def tetPlugin : DiscoveredPlugin := ⟨"/plugins/tet/libtet.so", { id := "org.example.tet" }⟩

/-- The two libraries. -/
def sampleLinker : Linker fun _ => Unit := fun path =>
  if path = gridPlugin.binaryPath then .ok (some (registerMesher "mesher.grid"))
  else if path = tetPlugin.binaryPath then .ok (some (registerMesher "mesher.tet"))
  else .error none

theorem asksFor_registerMesher {linker : Linker fun _ => Unit} {hostVersion c capability : String}
    {d : DiscoveredPlugin} (hlink : linker d.binaryPath = .ok (some (registerMesher capability)))
    (h : AsksFor hostVersion linker d c) : c = capability := by
  obtain ⟨register, hregister, hasks⟩ := h
  obtain ⟨-, hfound⟩ := load_of_registerOf hregister
  obtain rfl := Option.some.inj (Except.ok.inj (hlink.symm.trans hfound))
  rcases hasks with hcap | ⟨status, hnever⟩
  · exact (Option.some.inj hcap).symm
  · exact hnever.elim

theorem sample_independent : ∀ d ∈ [gridPlugin, tetPlugin], ∀ d' ∈ [gridPlugin, tetPlugin], d ≠ d' →
    Independent "0.9.0" sampleLinker d d' := by
  have hgrid : sampleLinker gridPlugin.binaryPath = .ok (some (registerMesher "mesher.grid")) := rfl
  have htet : sampleLinker tetPlugin.binaryPath = .ok (some (registerMesher "mesher.tet")) := rfl
  intro d hd d' hd' hne
  simp only [List.mem_cons, List.not_mem_nil, or_false] at hd hd'
  rcases hd with rfl | rfl <;> rcases hd' with rfl | rfl
  · exact absurd rfl hne
  · refine ⟨by decide, fun c hc hc' => ?_⟩
    obtain rfl := asksFor_registerMesher hgrid hc
    exact absurd (asksFor_registerMesher htet hc') (by decide)
  · refine ⟨by decide, fun c hc hc' => ?_⟩
    obtain rfl := asksFor_registerMesher htet hc
    exact absurd (asksFor_registerMesher hgrid hc') (by decide)
  · exact absurd rfl hne

section

variable {hostVersion : String} {linker : Linker φ}

/-- **Plugins fare alone.** When no two of the plugins that are found have one id or ask for one
capability, the registry after the start-up has the entries that each of them has in a registry of its
own, and the same of its loads succeed; a plugin that is found twice is loaded twice there, too. -/
theorem plugins_fare_alone {ds : List DiscoveredPlugin}
    (hindependent : ∀ d ∈ ds, ∀ d' ∈ ds, d ≠ d' → Independent hostVersion linker d d') :
    (∀ c e, (startup hostVersion linker ds).registry.find c = some e ↔
      ∃ d ∈ ds, (startup hostVersion linker (loadsOf d ds)).registry.find c = some e) ∧
    ∀ d, (startup hostVersion linker ds).livePlugins.filter (· = d.handle) =
      (startup hostVersion linker (loadsOf d ds)).livePlugins := by
  have hapart := apart_startup hindependent (List.Subset.refl ds)
  refine ⟨fun c e => ⟨fun he => ?_, ?_⟩, hapart.livePlugins⟩
  · obtain ⟨d, hd, hasks, -⟩ := hapart.owned c e he
    exact ⟨d, hd, (hapart.registry d hd c hasks).symm.trans he⟩
  · rintro ⟨d, hd, he⟩
    have hsubset : loadsOf d ds ⊆ ds := List.filter_sublist.subset
    have halone := apart_startup hindependent hsubset
    obtain ⟨owner, howner, hasks, -⟩ := halone.owned c e he
    obtain rfl : owner = d := of_decide_eq_true (List.mem_filter.mp howner).2
    exact (hapart.registry owner hd c hasks).trans he

end

/-- The grid mesher is found under two search paths. Its second load is refused and takes away what the
first has registered; the other plugin is not concerned. -/
theorem plugins_fare_alone_repeated :
    let s := startup "0.9.0" sampleLinker [gridPlugin, tetPlugin, gridPlugin]
    (s.registry.find "mesher.grid").isSome = false ∧ (s.registry.find "mesher.tet").isSome = true := by
  have hsubset : [gridPlugin, tetPlugin, gridPlugin] ⊆ [gridPlugin, tetPlugin] := by decide
  obtain ⟨hfind, -⟩ := plugins_fare_alone fun d hd d' hd' =>
    sample_independent d (hsubset hd) d' (hsubset hd')
  constructor
  · cases hentry : (startup "0.9.0" sampleLinker [gridPlugin, tetPlugin, gridPlugin]).registry.find
      "mesher.grid" with
    | none => rfl
    | some e =>
      obtain ⟨d, hd, he⟩ := (hfind _ _).mp hentry
      simp only [List.mem_cons, List.not_mem_nil, or_false] at hd
      rcases hd with rfl | rfl | rfl <;> cases he
  · have htet : ∃ e, (startup "0.9.0" sampleLinker
        (loadsOf tetPlugin [gridPlugin, tetPlugin, gridPlugin])).registry.find "mesher.tet" = some e :=
      ⟨_, rfl⟩
    obtain ⟨e, he⟩ := htet
    rw [(hfind _ e).mpr ⟨tetPlugin, by simp, he⟩]
    rfl

/-! ## The order of directories -/

/-- Discovery, and then the loop. -/
def startupFrom (env : HostEnvironment) (toml : TomlLibrary) (fs : FileSystem) (hostVersion : String)
    (linker : Linker φ) (searchPaths : List String) : Startup φ :=
  startup hostVersion linker ((discoverPlugins env toml fs searchPaths).loaded.map FoundPlugin.forLoader)

section

variable {hostVersion : String} {linker : Linker φ}

theorem startup_perm {ds ds' : List DiscoveredPlugin} (hperm : ds.Perm ds')
    (hindependent : ∀ d ∈ ds, ∀ d' ∈ ds, d ≠ d' → Independent hostVersion linker d d') :
    (∀ c, (startup hostVersion linker ds).registry.find c =
        (startup hostVersion linker ds').registry.find c) ∧
      (startup hostVersion linker ds).livePlugins.Perm (startup hostVersion linker ds').livePlugins := by
  have hloads : ∀ d, loadsOf d ds = loadsOf d ds' := fun d => by
    rw [loadsOf, loadsOf, List.filter_eq, List.filter_eq, hperm.count_eq]
  have hapart := apart_startup hindependent (List.Subset.refl ds)
  have hapart' := apart_startup hindependent hperm.symm.subset
  constructor
  · intro c
    by_cases hasks : ∃ d ∈ ds, AsksFor hostVersion linker d c
    · obtain ⟨d, hd, hasks⟩ := hasks
      rw [hapart.registry d hd c hasks, hapart'.registry d hd c hasks, hloads d]
    · have hnone : ∀ s : Startup φ, (∀ e, s.registry.find c = some e →
          ∃ d ∈ ds, AsksFor hostVersion linker d c ∧ e.pluginId = d.manifest.id) →
          s.registry.find c = none := by
        intro s howned
        rw [Option.eq_none_iff_forall_ne_some]
        intro e he
        obtain ⟨d, hd, hc, -⟩ := howned e he
        exact hasks ⟨d, hd, hc⟩
      rw [hnone _ (hapart.owned c), hnone _ fun e he => ?_]
      obtain ⟨d, hd, hd'⟩ := hapart'.owned c e he
      exact ⟨d, hperm.symm.subset hd, hd'⟩
  · rw [List.perm_iff_count]
    intro plugin
    obtain ⟨d, rfl⟩ : ∃ d : DiscoveredPlugin, d.handle = plugin :=
      ⟨⟨plugin.binaryPath, plugin.manifest⟩, rfl⟩
    have hsame := hapart.livePlugins d
    rw [hloads d, ← hapart'.livePlugins d, List.filter_eq, List.filter_eq] at hsame
    simpa using congrArg List.length hsame

theorem pluginsUnder_perm {env : HostEnvironment} {toml : TomlLibrary} {fs : FileSystem}
    {entries : String → Option (List DirectoryEntry)} {root : String}
    (hlisting : Option.Rel List.Perm (fs.entries root) (entries root))
    (hanswered : ∀ es, fs.entries root = some es → ∀ e ∈ es, (e.check fs).answered = true) :
    (pluginsUnder env toml fs root).Perm (pluginsUnder env toml { fs with entries } root) := by
  have hother : pluginsUnder env toml { fs with entries } root =
      (((entries root).getD []).takeWhile fun e => (e.check fs).answered).filterMap (pluginAt env toml fs) :=
    rfl
  rw [hother, pluginsUnder]
  cases hes : fs.entries root with
  | none =>
    rw [hes] at hlisting
    cases hlisting' : entries root with
    | none => exact List.Perm.refl _
    | some es' =>
      rw [hlisting'] at hlisting
      cases hlisting
  | some es =>
    rw [hes] at hlisting
    cases hlisting' : entries root with
    | none =>
      rw [hlisting'] at hlisting
      cases hlisting
    | some es' =>
      rw [hlisting'] at hlisting
      cases hlisting with
      | some hperm =>
        have hall := hanswered es hes
        have hall' : ∀ e ∈ es', (e.check fs).answered = true := fun e he => hall e (hperm.symm.subset he)
        rw [Option.getD_some, Option.getD_some, List.takeWhile_eq_self_iff.mpr hall,
          List.takeWhile_eq_self_iff.mpr hall']
        exact hperm.filterMap _

end

section

variable {hostVersion : String} {linker : Linker φ} {env : HostEnvironment} {toml : TomlLibrary}
  {fs : FileSystem}

/-- **Start-up does not depend on the order of directories.** When no test of a path fails and the plugins
that are found are independent, every order in which the file system may list the search paths gives the
same capabilities and keeps the same plugins. -/
theorem startup_order_independent {searchPaths : List String}
    (hanswered : ∀ root ∈ searchPaths, ∀ es, fs.entries root = some es →
      ∀ e ∈ es, (e.check fs).answered = true)
    (hindependent : ∀ p ∈ (discoverPlugins env toml fs searchPaths).loaded,
      ∀ p' ∈ (discoverPlugins env toml fs searchPaths).loaded, p.forLoader ≠ p'.forLoader →
        Independent hostVersion linker p.forLoader p'.forLoader)
    {entries : String → Option (List DirectoryEntry)}
    (hlisting : ∀ root ∈ searchPaths, Option.Rel List.Perm (fs.entries root) (entries root)) :
    (∀ c, (startupFrom env toml fs hostVersion linker searchPaths).registry.find c =
      (startupFrom env toml { fs with entries } hostVersion linker searchPaths).registry.find c) ∧
    (startupFrom env toml fs hostVersion linker searchPaths).livePlugins.Perm
      (startupFrom env toml { fs with entries } hostVersion linker searchPaths).livePlugins := by
  refine startup_perm (List.Perm.map _ ?_) ?_
  · rw [discoverPlugins_loaded, discoverPlugins_loaded]
    exact List.Perm.flatMap_left _ fun root hroot =>
      pluginsUnder_perm (hlisting root hroot) (hanswered root hroot)
  · intro d hd d' hd'
    obtain ⟨p, hp, rfl⟩ := List.mem_map.mp hd
    obtain ⟨p', hp', rfl⟩ := List.mem_map.mp hd'
    exact hindependent p hp p' hp'

end

/-! ### A sample directory -/

/-- A manifest of a plugin with one mesher, as text and as toml++ reads it. -/
def manifestText (id binaryFile capability : String) : String :=
  "[plugin]\nid = \"" ++ id ++ "\"\nname = \"Mesher\"\nversion = \"1.0.0\"\nabi = 1\n" ++
    "license = \"MIT\"\nbinary.file = \"" ++ binaryFile ++ "\"\ncapabilities.provides = [\"" ++
    capability ++ "\"]\n"

def manifestTable (id binaryFile capability : String) : TomlNode :=
  .table [("plugin", .table
    [("id", .string id), ("name", .string "Mesher"), ("version", .string "1.0.0"),
     ("abi", .integer 1), ("license", .string "MIT"),
     ("binary", .table [("file", .string binaryFile)]),
     ("capabilities", .table [("provides", .array [.string capability])])])]

def gridText : String := manifestText "org.example.grid" "libgrid.so" "mesher.grid"

def tetText : String := manifestText "org.example.tet" "libtet.so" "mesher.tet"

def sampleToml : TomlLibrary where
  parse text :=
    if text = gridText then .ok (manifestTable "org.example.grid" "libgrid.so" "mesher.grid")
    else if text = tetText then .ok (manifestTable "org.example.tet" "libtet.so" "mesher.tet")
    else .error { description := "error" }
  valueInt64
    | .integer v => some v
    | _ => none

def gridEntry : DirectoryEntry := ⟨"/plugins/grid", .yes⟩

def tetEntry : DirectoryEntry := ⟨"/plugins/tet", .yes⟩

/-- Two plugins under one search path. -/
def sampleFiles : FileSystem where
  entries path := if path = "/plugins" then some [gridEntry, tetEntry] else none
  pathExists path :=
    if path ∈ ["/plugins/grid/souxmar-plugin.toml", gridPlugin.binaryPath,
      "/plugins/tet/souxmar-plugin.toml", tetPlugin.binaryPath] then .yes else .no
  read path :=
    if path = "/plugins/grid/souxmar-plugin.toml" then some gridText
    else if path = "/plugins/tet/souxmar-plugin.toml" then some tetText
    else none

/-- The same directory, listed the other way round. -/
def otherListing (path : String) : Option (List DirectoryEntry) :=
  if path = "/plugins" then some [tetEntry, gridEntry] else none

theorem sample_found :
    (discoverPlugins {} sampleToml sampleFiles ["/plugins"]).loaded.map FoundPlugin.forLoader =
      [gridPlugin, tetPlugin] := by
  decide +kernel

theorem startup_order_independent_listing :
    (startupFrom {} sampleToml sampleFiles "0.9.0" sampleLinker ["/plugins"]).registry.find "mesher.tet" =
        (startupFrom {} sampleToml { sampleFiles with entries := otherListing } "0.9.0" sampleLinker
          ["/plugins"]).registry.find "mesher.tet" ∧
      (startupFrom {} sampleToml sampleFiles "0.9.0" sampleLinker ["/plugins"]).livePlugins.Perm
        (startupFrom {} sampleToml { sampleFiles with entries := otherListing } "0.9.0" sampleLinker
          ["/plugins"]).livePlugins := by
  refine And.imp_left (fun hfind => hfind _)
    (startup_order_independent (fun root hroot es hes e he => ?_) (fun p hp p' hp' hne => ?_)
      fun root hroot => ?_)
  · obtain rfl := List.mem_singleton.mp hroot
    obtain rfl : [gridEntry, tetEntry] = es := Option.some.inj hes
    simp only [List.mem_cons, List.not_mem_nil, or_false] at he
    rcases he with rfl | rfl <;> decide
  · have hmem := List.mem_map_of_mem (f := FoundPlugin.forLoader) hp
    have hmem' := List.mem_map_of_mem (f := FoundPlugin.forLoader) hp'
    rw [sample_found] at hmem hmem'
    exact sample_independent _ hmem _ hmem' hne
  · obtain rfl := List.mem_singleton.mp hroot
    exact .some (List.Perm.swap ..)

end Souxmar.PluginHost
