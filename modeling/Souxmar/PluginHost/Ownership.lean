import Souxmar.PluginHost.Loader

/-!
# Ownership by plugin handles

A `LoadedPlugin` is a movable handle. Its destructor removes what the registry has under its plugin id; the
defaulted move assignment drops the handle it overwrites without running that destructor. The handles of a
program are objects under numbers, each of them holding a handle or moved from.
-/

namespace Souxmar.PluginHost

open Souxmar.Lib

variable {φ : CapabilityKind → Type}

/-! ## Handles -/

/-- What a `LoadedPlugin` object points to. Every load gets a number of its own. -/
structure Handle where
  serial : ℕ
  plugin : LoadedPlugin
deriving DecidableEq, Repr

variable (φ) in
/-- The registry and the objects of the program. The owner of a capability is the load that registered it;
the code does not keep it. -/
structure Host where
  registry : Registry φ := {}
  objects : Dict ℕ (Option Handle) := ∅
  owner : String → Option ℕ := fun _ => none
  next : ℕ := 0

variable (φ) in
inductive HandleOp
  | load (object : ℕ) (linker : Linker φ) (d : DiscoveredPlugin)
  | moveConstruct (source target : ℕ)
  | moveAssign (source target : ℕ)
  | destroy (object : ℕ)

def Host.held (s : Host φ) (object : ℕ) : Option Handle := (s.objects.lookup object).join

/-- A new object takes over the handle of another. -/
def Host.move (source target : ℕ) (s : Host φ) : Host φ :=
  { s with objects := (s.objects.insert target (s.held source)).insert source none }

/-- A new object holds what was loaded, and owns the capabilities that are new. -/
def Host.loaded (object : ℕ) (plugin : LoadedPlugin) (registry : Registry φ) (s : Host φ) : Host φ where
  registry := registry
  objects := s.objects.insert object (some ⟨s.next, plugin⟩)
  owner := fun c => if (s.registry.find c).isNone then some s.next else s.owner c
  next := s.next + 1

/-- A load into an object that exists, and a move from or to one that does not, are no operations of a
program. -/
def hostStep (hostVersion : String) (s : Host φ) : HandleOp φ → Host φ
  | .load object linker d =>
    if object ∈ s.objects then s
    else
      match load hostVersion linker d s.registry with
      | (.error _, registry) => { s with registry }
      | (.ok plugin, registry) => s.loaded object plugin registry
  | .moveConstruct source target =>
    if source ∈ s.objects ∧ target ∉ s.objects then s.move source target else s
  | .moveAssign source target =>
    -- the `Impl` of the target goes without its plugin being removed or its library closed
    if source ∈ s.objects ∧ target ∈ s.objects ∧ source ≠ target then s.move source target else s
  | .destroy object =>
    match s.held object with
    | none => { s with objects := s.objects.erase object }
    | some handle =>
      { s with
        registry := s.registry.removePlugin handle.plugin.manifest.id
        objects := s.objects.erase object }

/-! ## Ownership -/

/-- Every capability was registered by a handle that is alive. -/
def LiveOwners (s : Host φ) : Prop :=
  ∀ c e, s.registry.find c = some e → ∃ object handle, s.held object = some handle ∧
    s.owner c = some handle.serial

/-- The handle that an operation destroys or overwrites. -/
def ended (s : Host φ) : HandleOp φ → Option Handle
  | .moveAssign source target =>
    if source ∈ s.objects ∧ target ∈ s.objects ∧ source ≠ target then s.held target else none
  | .destroy object => s.held object
  | _ => none

/-- Exactly the entries of the handle go. -/
def RemovesOwn (hostVersion : String) (s : Host φ) (op : HandleOp φ) : Prop :=
  ∀ handle, ended s op = some handle → ∀ c, (hostStep hostVersion s op).registry.find c =
    (s.registry.find c).filter fun _ => s.owner c ≠ some handle.serial

/-- A handle that is destroyed owns all that is registered under its plugin id, and one that is overwritten
owns nothing. -/
def EndsCleanly (s : Host φ) : HandleOp φ → Prop
  | .destroy object => ∀ handle, s.held object = some handle → ∀ c e, s.registry.find c = some e →
      e.pluginId = handle.plugin.manifest.id → s.owner c = some handle.serial
  | .moveAssign source target => ∀ handle, ended s (.moveAssign source target) = some handle →
      ∀ c e, s.registry.find c = some e → s.owner c ≠ some handle.serial
  | _ => True

/-- The objects and the registry of a program that has kept to its handles. -/
structure Owned (s : Host φ) : Prop where
  live : LiveOwners s
  ids : ∀ object handle c e, s.held object = some handle → s.registry.find c = some e →
    s.owner c = some handle.serial → e.pluginId = handle.plugin.manifest.id
  distinct : ∀ object other handle handle', s.held object = some handle → s.held other = some handle' →
    handle.serial = handle'.serial → object = other
  fresh : ∀ object handle, s.held object = some handle → handle.serial < s.next

/-! ## Loads -/

theorem find_of_load_error {hostVersion : String} {linker : Linker φ} {d : DiscoveredPlugin}
    {r : Registry φ} {err : LoadError} (h : (load hostVersion linker d r).1 = .error err) {c : String}
    {e : CapabilityEntry φ} (he : (load hostVersion linker d r).2.find c = some e) : r.find c = some e := by
  cases hfn : registerOf linker d with
  | none => rwa [load_of_registerOf_none hfn] at he
  | some register =>
    by_cases hreg : Registers hostVersion register d r
    · rw [(load_of_registers hfn hreg).1] at h
      exact nomatch h
    · rw [(load_of_not_registers hfn hreg).2, Registry.find_removePlugin,
        Option.filter_eq_some_iff] at he
      obtain ⟨he, hother⟩ := he
      rcases guardCall_find (register (hostInfo hostVersion)) (registering d r) c with
        hsame | ⟨-, e', he', howner⟩
      · rwa [hsame] at he
      · rw [he'] at he
        rw [← Option.some.inj he, howner] at hother
        exact absurd rfl (of_decide_eq_true hother)

theorem find_of_load_ok {hostVersion : String} {linker : Linker φ} {d : DiscoveredPlugin}
    {r : Registry φ} {plugin : LoadedPlugin} (h : (load hostVersion linker d r).1 = .ok plugin)
    (c : String) : (load hostVersion linker d r).2.find c = r.find c ∨ r.find c = none ∧
      ∃ e, (load hostVersion linker d r).2.find c = some e ∧ e.pluginId = plugin.manifest.id := by
  cases hfn : registerOf linker d with
  | none => exact .inl (by rw [load_of_registerOf_none hfn])
  | some register =>
    by_cases hreg : Registers hostVersion register d r
    · obtain ⟨hplugin, hfind⟩ := load_of_registers hfn hreg
      rw [hplugin] at h
      obtain rfl := Except.ok.inj h
      rw [hfind]
      exact guardCall_find (register (hostInfo hostVersion)) (registering d r) c
    · obtain ⟨⟨err, herr⟩, -⟩ := load_of_not_registers hfn hreg
      rw [herr] at h
      exact nomatch h

/-! ## One operation -/

section

variable {s : Host φ} {object source target : ℕ}

@[simp] theorem held_insert_self (handle : Option Handle) :
    ({ s with objects := s.objects.insert object handle } : Host φ).held object = handle := by
  simp [Host.held]

theorem held_move (hne : source ≠ target) (other : ℕ) : (s.move source target).held other =
    if other = source then none else if other = target then s.held source else s.held other := by
  unfold Host.held Host.move
  dsimp only
  split_ifs with hsource htarget
  · rw [hsource, AList.lookup_insert]
    rfl
  · rw [htarget, AList.lookup_insert_ne (Ne.symm hne), AList.lookup_insert]
    rfl
  · rw [AList.lookup_insert_ne hsource, AList.lookup_insert_ne htarget]

theorem held_erase (other : ℕ) : ({ s with objects := s.objects.erase object } : Host φ).held other =
    if other = object then none else s.held other := by
  unfold Host.held
  split_ifs with hother
  · rw [hother, AList.lookup_erase]
    rfl
  · rw [AList.lookup_erase_ne hother]

theorem held_of_move (hne : source ≠ target) {other : ℕ} {handle : Handle}
    (h : (s.move source target).held other = some handle) :
    ∃ before, s.held before = some handle ∧ before ≠ target ∧
      other = if before = source then target else before := by
  rw [held_move hne] at h
  split_ifs at h with hsource htarget
  · exact ⟨source, h, hne, by rw [if_pos rfl, htarget]⟩
  · exact ⟨other, h, htarget, by rw [if_neg hsource]⟩

theorem Owned.move (h : Owned s) (hne : source ≠ target)
    (hclean : ∀ handle, s.held target = some handle → ∀ c e, s.registry.find c = some e →
      s.owner c ≠ some handle.serial) : Owned (s.move source target) := by
  refine ⟨fun c e he => ?_, fun other handle c e hheld he howner => ?_,
    fun other another handle handle' hheld hheld' hserial => ?_, fun other handle hheld => ?_⟩
  · obtain ⟨holder, handle, hheld, howner⟩ := h.live c e he
    by_cases hsource : holder = source
    · exact ⟨target, handle, by rw [held_move hne, if_neg (Ne.symm hne), if_pos rfl, ← hsource, hheld],
        howner⟩
    · have htarget : holder ≠ target := by
        rintro rfl
        exact hclean handle hheld c e he howner
      exact ⟨holder, handle, by rw [held_move hne, if_neg hsource, if_neg htarget, hheld], howner⟩
  · obtain ⟨before, hbefore, -, -⟩ := held_of_move hne hheld
    exact h.ids before handle c e hbefore he howner
  · obtain ⟨before, hbefore, -, rfl⟩ := held_of_move hne hheld
    obtain ⟨before', hbefore', -, rfl⟩ := held_of_move hne hheld'
    rw [h.distinct before before' handle handle' hbefore hbefore' hserial]
  · obtain ⟨before, hbefore, -, -⟩ := held_of_move hne hheld
    exact h.fresh before handle hbefore

theorem Owned.drop (h : Owned s) {registry : Registry φ} (hkept : ∀ c e, registry.find c = some e →
      s.registry.find c = some e ∧ ∀ handle, s.held object = some handle →
        s.owner c ≠ some handle.serial) :
    Owned { s with registry, objects := s.objects.erase object } := by
  have hheld : ∀ {other : ℕ} {handle : Handle},
      ({ s with registry, objects := s.objects.erase object } : Host φ).held other = some handle →
        s.held other = some handle := by
    intro other handle hheld
    have herase := (@held_erase φ { s with registry } object other).symm.trans hheld
    split_ifs at herase
    exact herase
  refine ⟨fun c e he => ?_, fun other handle c e hother he howner => ?_,
    fun other another handle handle' hother hanother hserial => ?_, fun other handle hother => ?_⟩
  · obtain ⟨hbefore, hfree⟩ := hkept c e he
    obtain ⟨holder, handle, hholder, howner⟩ := h.live c e hbefore
    have hne : holder ≠ object := by
      rintro rfl
      exact hfree handle hholder howner
    refine ⟨holder, handle, ?_, howner⟩
    exact (@held_erase φ { s with registry } object holder).trans
      ((if_neg hne).trans hholder)
  · exact h.ids other handle c e (hheld hother) (hkept c e he).1 howner
  · exact h.distinct other another handle handle' (hheld hother) (hheld hanother) hserial
  · exact h.fresh other handle (hheld hother)

theorem Owned.destroy (h : Owned s) (hostVersion : String) :
    Owned (hostStep hostVersion s (.destroy object)) := by
  rw [hostStep]
  cases hheld : s.held object with
  | none =>
    refine h.drop fun c e he => ⟨he, fun handle hhandle => ?_⟩
    rw [hheld] at hhandle
    exact nomatch hhandle
  | some handle =>
    refine h.drop fun c e he => ?_
    rw [Registry.find_removePlugin, Option.filter_eq_some_iff] at he
    obtain ⟨he, hother⟩ := he
    refine ⟨he, fun handle' hhandle howner => ?_⟩
    obtain rfl : handle = handle' := Option.some.inj (hheld.symm.trans hhandle)
    exact of_decide_eq_true hother (h.ids object handle c e hheld he howner)

theorem removesOwn_destroy_iff (h : Owned s) (hostVersion : String) :
    RemovesOwn hostVersion s (.destroy object) ↔ EndsCleanly s (.destroy object) := by
  unfold RemovesOwn EndsCleanly
  refine forall₂_congr fun handle hheld => forall_congr' fun c => ?_
  have hheld : s.held object = some handle := hheld
  have hfind : (hostStep hostVersion s (.destroy object)).registry.find c =
      (s.registry.find c).filter fun e => e.pluginId ≠ handle.plugin.manifest.id := by
    rw [hostStep, hheld]
    exact Registry.find_removePlugin _ _ _
  rw [hfind]
  cases he : s.registry.find c with
  | none => simp
  | some e =>
    have hid := h.ids object handle c e hheld he
    by_cases howner : s.owner c = some handle.serial
    · simp [howner, hid howner]
    · by_cases hsame : e.pluginId = handle.plugin.manifest.id <;> simp [howner, hsame, Option.filter]

theorem removesOwn_moveAssign_iff (hostVersion : String) :
    RemovesOwn hostVersion s (.moveAssign source target) ↔ EndsCleanly s (.moveAssign source target) := by
  unfold RemovesOwn EndsCleanly
  refine forall₂_congr fun handle hended => forall_congr' fun c => ?_
  have hsame : (hostStep hostVersion s (.moveAssign source target)).registry = s.registry := by
    rw [hostStep]
    split_ifs <;> rfl
  rw [hsame]
  cases he : s.registry.find c with
  | none => simp
  | some e => by_cases howner : s.owner c = some handle.serial <;> simp [howner, Option.filter]

theorem held_loaded {plugin : LoadedPlugin} {registry : Registry φ} (other : ℕ) :
    (s.loaded object plugin registry).held other =
      if other = object then some ⟨s.next, plugin⟩ else s.held other := by
  unfold Host.held Host.loaded
  dsimp only
  split_ifs with hother
  · rw [hother, AList.lookup_insert]
    rfl
  · rw [AList.lookup_insert_ne hother]

theorem Owned.loaded (h : Owned s) (hobject : object ∉ s.objects) {plugin : LoadedPlugin}
    {registry : Registry φ} (hfind : ∀ c, registry.find c = s.registry.find c ∨ s.registry.find c = none ∧
      ∃ e, registry.find c = some e ∧ e.pluginId = plugin.manifest.id) :
    Owned (s.loaded object plugin registry) := by
  have hempty : s.held object = none := by
    unfold Host.held
    rw [AList.lookup_eq_none.mpr hobject]
    rfl
  have howners : ∀ c, (s.loaded object plugin registry).owner c =
      if (s.registry.find c).isNone then some s.next else s.owner c := fun _ => rfl
  have hregistry : (s.loaded object plugin registry).registry = registry := rfl
  refine ⟨fun c e he => ?_, fun other handle c e hother he howner => ?_,
    fun other another handle handle' hother hanother hserial => ?_, fun other handle hother => ?_⟩
  · rw [howners]
    rcases hfind c with hsame | ⟨hnone, -⟩
    · rw [hregistry, hsame] at he
      obtain ⟨holder, handle, hholder, howner⟩ := h.live c e he
      have hne : holder ≠ object := by
        rintro rfl
        rw [hempty] at hholder
        exact nomatch hholder
      exact ⟨holder, handle, by rw [held_loaded, if_neg hne, hholder], by rw [he]; exact howner⟩
    · exact ⟨object, ⟨s.next, plugin⟩, by rw [held_loaded, if_pos rfl], by rw [hnone]; rfl⟩
  · rw [held_loaded] at hother
    rw [howners] at howner
    rw [hregistry] at he
    rcases hfind c with hsame | ⟨hnone, e', he', hid⟩
    · rw [hsame] at he
      rw [he] at howner
      have howner : s.owner c = some handle.serial := howner
      split_ifs at hother
      · -- no entry that was there belongs to the new handle
        obtain rfl := Option.some.inj hother
        obtain ⟨holder, handle', hholder, howner'⟩ := h.live c e he
        have hserial := Option.some.inj (howner'.symm.trans howner)
        have hlt := h.fresh holder handle' hholder
        dsimp only at hserial
        omega
      · exact h.ids other handle c e hother he howner
    · rw [hnone] at howner
      have hserial : s.next = handle.serial := Option.some.inj howner
      split_ifs at hother
      · obtain rfl := Option.some.inj hother
        rw [he'] at he
        rw [← Option.some.inj he]
        exact hid
      · have hlt := h.fresh other handle hother
        omega
  · rw [held_loaded] at hother hanother
    split_ifs at hother hanother with hsame hsame' hsame'
    · rw [hsame, hsame']
    · have hlt := h.fresh another handle' hanother
      rw [← hserial, ← Option.some.inj hother] at hlt
      exact absurd hlt (lt_irrefl _)
    · have hlt := h.fresh other handle hother
      rw [hserial, ← Option.some.inj hanother] at hlt
      exact absurd hlt (lt_irrefl _)
    · exact h.distinct other another handle handle' hother hanother hserial
  · have hnext : (s.loaded object plugin registry).next = s.next + 1 := rfl
    rw [held_loaded] at hother
    rw [hnext]
    split_ifs at hother
    · rw [← Option.some.inj hother]
      exact Nat.lt_succ_self _
    · have hlt := h.fresh other handle hother
      omega

theorem Owned.load (h : Owned s) (hostVersion : String) (linker : Linker φ) (d : DiscoveredPlugin) :
    Owned (hostStep hostVersion s (.load object linker d)) := by
  rw [hostStep]
  split_ifs with hobject
  · exact h
  · rcases hload : PluginHost.load hostVersion linker d s.registry with ⟨err | plugin, registry⟩
    · have herr : (PluginHost.load hostVersion linker d s.registry).1 = .error err := by rw [hload]
      have hfind : ∀ {c e}, registry.find c = some e → s.registry.find c = some e := by
        intro c e he
        refine find_of_load_error herr ?_
        rwa [hload]
      exact ⟨fun c e he => h.live c e (hfind he),
        fun other handle c e hheld he => h.ids other handle c e hheld (hfind he), h.distinct, h.fresh⟩
    · have hok : (PluginHost.load hostVersion linker d s.registry).1 = .ok plugin := by rw [hload]
      have hfind := find_of_load_ok hok
      rw [hload] at hfind
      exact h.loaded hobject hfind

theorem Owned.step (h : Owned s) (hostVersion : String) (op : HandleOp φ) (hclean : EndsCleanly s op) :
    Owned (hostStep hostVersion s op) := by
  cases op with
  | load object linker d => exact h.load hostVersion linker d
  | moveConstruct source target =>
    rw [hostStep]
    split_ifs with hobjects
    · have hne : source ≠ target := by
        rintro rfl
        exact hobjects.2 hobjects.1
      refine h.move hne fun handle hheld => ?_
      unfold Host.held at hheld
      rw [AList.lookup_eq_none.mpr hobjects.2] at hheld
      exact nomatch hheld
    · exact h
  | moveAssign source target =>
    rw [hostStep]
    split_ifs with hobjects
    · refine h.move hobjects.2.2 fun handle hheld => hclean handle ?_
      exact (if_pos hobjects).trans hheld
    · exact h
  | destroy object => exact h.destroy hostVersion

theorem removesOwn_iff (h : Owned s) (hostVersion : String) (op : HandleOp φ) :
    RemovesOwn hostVersion s op ↔ EndsCleanly s op := by
  cases op with
  | load | moveConstruct => exact iff_of_true (fun _ hended => nomatch hended) trivial
  | moveAssign source target => exact removesOwn_moveAssign_iff hostVersion
  | destroy object => exact removesOwn_destroy_iff h hostVersion

end

/-! ## Sequences of operations -/

/-- **Ownership by handles.** In a sequence of loads, moves and destructions every capability belongs to a
live handle after each of them, and the handle that goes takes exactly its own with it, if and only if every
destroyed handle owns all that is registered under its plugin id and every overwritten one owns nothing. -/
theorem ownership_iff (hostVersion : String) (ops : List (HandleOp φ)) :
    Along (hostStep hostVersion) (fun _ s op => LiveOwners (hostStep hostVersion s op) ∧
        RemovesOwn hostVersion s op) [] {} ops ↔
      Along (hostStep hostVersion) (fun _ s op => EndsCleanly s op) [] {} ops := by
  have hstart : Owned ({} : Host φ) := by
    refine ⟨?_, ?_, ?_, ?_⟩
    · intro c e he
      exact nomatch he
    · intro object handle c e hheld
      exact nomatch hheld
    · intro object other handle handle' hheld
      exact nomatch hheld
    · intro object handle hheld
      exact nomatch hheld
  constructor
  · exact Along.of_invariant (P := fun _ s => Owned s)
      (fun _ s op h hkeeps => h.step hostVersion op ((removesOwn_iff h hostVersion op).mp hkeeps.2))
      (fun _ s op h hkeeps => (removesOwn_iff h hostVersion op).mp hkeeps.2) hstart
  · exact Along.of_invariant (P := fun _ s => Owned s)
      (fun _ s op h hclean => h.step hostVersion op hclean)
      (fun _ s op h hclean => ⟨(h.step hostVersion op hclean).live,
        (removesOwn_iff h hostVersion op).mpr hclean⟩) hstart

/-- A plugin is loaded into an object, which another plugin's handle is then assigned to: the mesher of the
first stays. -/
theorem overwritten_handle_leaves_entries :
    let request : AddRequest (fun _ => Unit) :=
      { kind := .mesher, capabilityId := some "mesher.demo", vtable := some ⟨1, some ()⟩ }
    let linker : Linker (fun _ => Unit) := fun path =>
      .ok (some fun _ => if path = "/a/libdemo.so" then .add request fun _ => .ret 0 else .ret 0)
    ¬RemovesOwn "0.9.0" (run (hostStep "0.9.0") {}
      [.load 0 linker ⟨"/a/libdemo.so", { id := "com.example.demo" }⟩,
        .load 1 linker ⟨"/b/libother.so", { id := "com.example.other" }⟩]) (.moveAssign 1 0) := by
  intro request linker hremoves
  have hgone := hremoves ⟨0, ⟨{ id := "com.example.demo" }, "/a/libdemo.so"⟩⟩ (by decide)
    "mesher.demo"
  exact absurd (congrArg Option.isSome hgone) (by decide)

end Souxmar.PluginHost
