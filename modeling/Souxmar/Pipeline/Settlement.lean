import Souxmar.Pipeline.CacheKey
import Souxmar.Pipeline.ParallelSafety

/-!
# What a run comes to

A stage comes to what the caches had for it before the run, and otherwise to what its plugin answers (`Settled`). That
says nothing of the order of the stages and of what the run itself puts into the caches. The sequential runner comes to
it (`runPipeline_comes`).

The worlds that the plugins may lead to are those of `W`, and in all of them the plugins and the disk cache answer
alike.
-/

set_option linter.dupNamespace false

namespace Souxmar.Pipeline

open Souxmar.Lib

variable {ω π : Type}

/-! ## The content hashes -/

/-- The hashes of the stages, each from those before it. -/
def contentHashes (d : Dispatcher ω π) (world : ω) :
    List Stage → List (String × ContentHash) → List (String × ContentHash)
  | [], hashes => hashes
  | stage :: stages, hashes =>
    contentHashes d world stages (hashes ++ [(stage.id, (evaluation d stage hashes world).key)])

/-- The hash of a stage in a run that goes through the stages in this order. -/
def Pipeline.hashOf (p : Pipeline) (d : Dispatcher ω π) (world : ω) (order : List ℕ) (i : ℕ) : ContentHash :=
  ((contentHashes d world (p.inOrder order) []).lookup (p.stageId i)).getD default

theorem contentHashes_append (d : Dispatcher ω π) (world : ω) (stages stages' : List Stage)
    (hashes : List (String × ContentHash)) : contentHashes d world (stages ++ stages') hashes =
      contentHashes d world stages' (contentHashes d world stages hashes) := by
  induction stages generalizing hashes with
  | nil => rfl
  | cons stage stages ih => exact ih _

theorem lookup_contentHashes (d : Dispatcher ω π) (world : ω) (stages : List Stage)
    {hashes : List (String × ContentHash)} {id : String} {k : ContentHash} (h : hashes.lookup id = some k) :
    (contentHashes d world stages hashes).lookup id = some k := by
  induction stages generalizing hashes with
  | nil => exact h
  | cons stage stages ih => exact ih (lookup_append_isSome h)

theorem lookup_contentHashes_none (d : Dispatcher ω π) (world : ω) {stages : List Stage}
    {hashes : List (String × ContentHash)} {id : String} (hstages : ∀ stage ∈ stages, stage.id ≠ id)
    (h : hashes.lookup id = none) : (contentHashes d world stages hashes).lookup id = none := by
  induction stages generalizing hashes with
  | nil => exact h
  | cons stage stages ih =>
    obtain ⟨hstage, hrest⟩ := List.forall_mem_cons.mp hstages
    have hne : (id == stage.id) = false := beq_eq_false_iff_ne.mpr fun heq => hstage heq.symm
    exact ih hrest (by rw [List.lookup_append, h]; simp [List.lookup_cons, hne])

namespace Pipeline

variable {p : Pipeline} {order before after : List ℕ} {i : ℕ} {stage : Stage}

theorem mem_inOrder : stage ∈ p.inOrder order ↔ ∃ i ∈ order, p.stages[i]? = some stage := List.mem_filterMap

theorem inOrder_split (hstage : p.stages[i]? = some stage) :
    p.inOrder (before ++ i :: after) = p.inOrder before ++ stage :: p.inOrder after := by
  rw [inOrder, List.filterMap_append, List.filterMap_cons, hstage]
  rfl

theorem Ordered.stage_inj (hp : p.Ordered order) {j : ℕ} {stage' : Stage} (hstage : p.stages[i]? = some stage)
    (hstage' : p.stages[j]? = some stage') (hid : stage.id = stage'.id) : i = j := by
  have hi := hp.ids i stage hstage
  rw [hid, hp.ids j stage' hstage'] at hi
  exact (Option.some.inj hi).symm

theorem Ordered.lookup_hashes (hp : p.Ordered order) (d : Dispatcher ω π) (world : ω) (hi : i ∉ before)
    (hstage : p.stages[i]? = some stage) :
    (contentHashes d world (p.inOrder (before ++ i :: after)) []).lookup stage.id =
      some (evaluation d stage (contentHashes d world (p.inOrder before) []) world).key := by
  have hnone : (contentHashes d world (p.inOrder before) []).lookup stage.id = none := by
    refine lookup_contentHashes_none d world (fun t ht hid => hi ?_) rfl
    obtain ⟨j, hj, ht⟩ := mem_inOrder.mp ht
    exact hp.stage_inj hstage ht hid.symm ▸ hj
  rw [inOrder_split hstage, contentHashes_append]
  refine lookup_contentHashes d world (p.inOrder after) ?_
  rw [List.lookup_append, hnone]
  simp

theorem Ordered.hashOf_eq (hp : p.Ordered order) (d : Dispatcher ω π) (world : ω)
    (horder : order = before ++ i :: after) (hstage : p.stages[i]? = some stage) :
    p.hashOf d world order i = (evaluation d stage (contentHashes d world (p.inOrder before) []) world).key := by
  have hnodup : order.Nodup := hp.perm.nodup_iff.mpr List.nodup_range
  rw [horder] at hnodup
  have hi : i ∉ before := fun hmem => (List.disjoint_of_nodup_append hnodup) hmem List.mem_cons_self
  rw [hashOf, stageId_eq hstage, horder, hp.lookup_hashes d world hi hstage, Option.getD_some]

theorem Ordered.lookup_before (hp : p.Ordered order) (d : Dispatcher ω π) (world : ω) (horder : order = before ++ after)
    (hi : i ∈ before) (hstage : p.stages[i]? = some stage) :
    (contentHashes d world (p.inOrder before) []).lookup stage.id = some (p.hashOf d world order i) := by
  obtain ⟨front, back, rfl⟩ := List.mem_iff_append.mp hi
  have horder' : order = front ++ i :: (back ++ after) := by
    rw [horder, List.append_assoc, List.cons_append]
  have hnodup : order.Nodup := hp.perm.nodup_iff.mpr List.nodup_range
  rw [horder'] at hnodup
  have hfront : i ∉ front := fun hmem => (List.disjoint_of_nodup_append hnodup) hmem List.mem_cons_self
  rw [hp.lookup_hashes d world hfront hstage, hp.hashOf_eq d world horder' hstage]

end Pipeline

/-! ## Plugins and disks that answer alike in all worlds -/

/-- What a plugin answers depends on the capability, the input and the outputs that the input refers to. -/
structure Steady (W : ω → Prop) (d : Dispatcher ω π) : Prop where
  stays : ∀ capabilityId input upstream world, W world → W (d.dispatch capabilityId input upstream world).2
  answers : ∀ capabilityId input (upstream upstream' : Outputs π) world world', W world → W world' →
    (∀ id ∈ collectStageRefs input, upstream.lookup id = upstream'.lookup id) →
      (d.dispatch capabilityId input upstream world).1 = (d.dispatch capabilityId input upstream' world').1
  extra : ∀ capabilityId input world world', W world → W world' →
    d.cacheKeyExtra capabilityId input world = d.cacheKeyExtra capabilityId input world'

/-- A blob of the disk cache is read alike, and as what it was made from if at all. -/
structure SteadyDisk (W : ω → Prop) (options : RunOptions ω π) : Prop where
  reads : ∀ deserialize, options.reader = some deserialize → ∀ blob world world', W world → W world' →
    deserialize blob world = deserialize blob world'
  lossless : ∀ serialize deserialize, options.writer = some serialize → options.reader = some deserialize →
    Lossless serialize deserialize

theorem Steady.key_congr {W : ω → Prop} {d : Dispatcher ω π} (hd : Steady W d) {stage : Stage}
    {upstream upstream' : List (String × ContentHash)} {world world' : ω} (hw : W world) (hw' : W world')
    (h : ∀ id ∈ collectStageRefs stage.input, upstream.lookup id = upstream'.lookup id) :
    (evaluation d stage upstream world).key = (evaluation d stage upstream' world').key := by
  have hcontext : (evaluation d stage upstream world).context = (evaluation d stage upstream' world').context := by
    unfold Evaluation.context evaluation
    rw [hd.extra stage.plugin stage.input world world' hw hw']
  unfold Evaluation.key
  rw [hcontext]
  refine hashInputs_congr _ stage.input fun id hid => ?_
  have hlookup : (evaluation d stage upstream world).upstream.lookup id =
      (evaluation d stage upstream' world').upstream.lookup id := h id hid
  rw [upstreamBytes, upstreamBytes, hlookup]

/-! ## What a stage comes to -/

/-- What a run starts from. -/
structure Course (ω π : Type) where
  p : Pipeline
  d : Dispatcher ω π
  options : RunOptions ω π
  start : Store ω π
  order : List ℕ
  W : ω → Prop
  ordered : p.Ordered order
  steady : Steady W d
  disk : SteadyDisk W options
  inside : W start.world

namespace Course

variable (c : Course ω π)

def key (i : ℕ) : ContentHash := c.p.hashOf c.d c.start.world c.order i

/-- What the caches have for a hash before the run. -/
def consult (k : ContentHash) : Option π := (lookupCache c.options k c.start).1

/-- Stages with one hash have one capability and one input. -/
def Telling : Prop :=
  ∀ i j stage stage', c.p.stages[i]? = some stage → c.p.stages[j]? = some stage' → c.key i = c.key j →
    stage.plugin = stage'.plugin ∧ stage.input = stage'.input

/-- What the `i`-th stage comes to. -/
structure Settled (outcome : ℕ → Except DispatchError (Option π)) (i : ℕ) (stage : Stage) : Prop where
  served : ∀ q, c.consult (c.key i) = some q → outcome i = .ok (some q)
  dispatched : c.consult (c.key i) = none → ∃ upstream world, c.W world ∧
    (∀ id ∈ collectStageRefs stage.input, ∀ j, c.p.idToIndex id = some j →
      upstream.lookup id = (outcome j).toOption) ∧
    (c.d.dispatch stage.plugin stage.input upstream world).1 = outcome i

/-- Another stage has the hash of this one. -/
def Shares (i : ℕ) : Prop := ∃ j < c.p.stages.length, j ≠ i ∧ c.key j = c.key i

/-- A stage result that tells what the stage came to. -/
structure Recounts (outcome : ℕ → Except DispatchError (Option π)) (i : ℕ) (sr : StageRunResult) : Prop where
  stageId : sr.stageId = c.p.stageId i
  contentHash : sr.contentHash = c.key i
  failed : ∀ err, outcome i = .error err → sr.status = .failed ∧ sr.error = some err
  done : ∀ payload, outcome i = .ok payload → sr.error = none ∧
    (sr.status = .cached ∧ ((c.consult (c.key i)).isSome = true ∨ c.Shares i) ∨
      sr.status = .executed ∧ c.consult (c.key i) = none)

/-- A run result that tells what every stage came to. -/
structure Comes (outcome : ℕ → Except DispatchError (Option π)) (result : RunResult π) : Prop where
  valid : result.status ≠ .validationFailed
  failed : result.status = .stageFailed ↔ ∃ i < c.p.stages.length, ∃ err, outcome i = .error err
  recounted : ∀ i < c.p.stages.length, ∃ sr ∈ result.stageResults, c.Recounts outcome i sr
  recounts : ∀ sr ∈ result.stageResults, ∃ i < c.p.stages.length, c.Recounts outcome i sr
  outputs : ∀ i < c.p.stages.length, result.outputs.lookup (c.p.stageId i) = (outcome i).toOption
  others : ∀ id, (∀ i < c.p.stages.length, c.p.stageId i ≠ id) → result.outputs.lookup id = none

/-! ## The hashes and the outcomes -/

section

variable {c} {outcome outcome' : ℕ → Except DispatchError (Option π)} {i j : ℕ} {stage stage' : Stage}

theorem exists_split (hstage : c.p.stages[i]? = some stage) : ∃ before after, c.order = before ++ i :: after :=
  List.mem_iff_append.mp (c.ordered.perm.mem_iff.mpr (List.mem_range.mpr (List.getElem?_eq_some_iff.mp hstage).1))

theorem exists_ref (hstage : c.p.stages[i]? = some stage) {id : String} (hid : id ∈ collectStageRefs stage.input) :
    ∃ j t, c.p.idToIndex id = some j ∧ c.p.stages[j]? = some t ∧ t.id = id := by
  obtain ⟨-, j, hj⟩ := c.ordered.refs stage (List.mem_of_getElem? hstage) id hid
  obtain ⟨t, ht, hid⟩ := Pipeline.getElem?_of_idToIndex hj
  exact ⟨j, t, hj, ht, hid⟩

theorem key_of_upstream (hstage : c.p.stages[i]? = some stage) {upstream : List (String × ContentHash)} {world : ω}
    (hworld : c.W world) (h : ∀ id ∈ collectStageRefs stage.input, ∀ j, c.p.idToIndex id = some j →
      upstream.lookup id = some (c.key j)) : (evaluation c.d stage upstream world).key = c.key i := by
  obtain ⟨before, after, horder⟩ := c.exists_split hstage
  rw [key, c.ordered.hashOf_eq c.d c.start.world horder hstage]
  refine c.steady.key_congr hworld c.inside fun id hid => ?_
  obtain ⟨j, hj, hindex, t, ht, rfl⟩ := c.ordered.ref_before horder hstage hid
  rw [h t.id hid j hindex, c.ordered.lookup_before c.d c.start.world horder hj ht]
  rfl

theorem Settled.outcome_of_upstream (h : c.Settled outcome i stage) (hstage : c.p.stages[i]? = some stage)
    (hmiss : c.consult (c.key i) = none) {upstream : Outputs π} {world : ω} (hworld : c.W world)
    (hupstream : ∀ id ∈ collectStageRefs stage.input, ∀ j, c.p.idToIndex id = some j →
      upstream.lookup id = (outcome j).toOption) :
    (c.d.dispatch stage.plugin stage.input upstream world).1 = outcome i := by
  obtain ⟨upstream', world', hworld', hupstream', hout⟩ := h.dispatched hmiss
  rw [← hout]
  refine c.steady.answers _ _ _ _ _ _ hworld hworld' fun id hid => ?_
  obtain ⟨j, -, hj, -⟩ := c.exists_ref hstage hid
  rw [hupstream id hid j hj, hupstream' id hid j hj]

theorem Settled.same_outcome (htelling : c.Telling) (h : c.Settled outcome i stage) (h' : c.Settled outcome j stage')
    (hstage : c.p.stages[i]? = some stage) (hstage' : c.p.stages[j]? = some stage') (hkey : c.key i = c.key j) :
    outcome i = outcome j := by
  cases hconsult : c.consult (c.key i) with
  | some q => rw [h.served q hconsult, h'.served q (hkey ▸ hconsult)]
  | none =>
    obtain ⟨hplugin, hinput⟩ := htelling i j stage stage' hstage hstage' hkey
    obtain ⟨upstream, world, hworld, hupstream, hout⟩ := h'.dispatched (hkey ▸ hconsult)
    rw [← hout, ← hplugin, ← hinput]
    refine (h.outcome_of_upstream hstage hconsult hworld fun id hid k hk => ?_).symm
    exact hupstream id (hinput ▸ hid) k hk

theorem Settled.transfer (htelling : c.Telling) (h : c.Settled outcome j stage') (hstage : c.p.stages[i]? = some stage)
    (hstage' : c.p.stages[j]? = some stage') (hkey : c.key i = c.key j) (heq : outcome i = outcome j) :
    c.Settled outcome i stage where
  served q hq := heq.trans (h.served q (hkey ▸ hq))
  dispatched hmiss := by
    obtain ⟨hplugin, hinput⟩ := htelling i j stage stage' hstage hstage' hkey
    obtain ⟨upstream, world, hworld, hupstream, hout⟩ := h.dispatched (hkey ▸ hmiss)
    refine ⟨upstream, world, hworld, fun id hid => hupstream id (hinput ▸ hid), ?_⟩
    rw [hplugin, hinput, hout, heq]

theorem Settled.congr (h : c.Settled outcome i stage) (hself : outcome' i = outcome i)
    (hrefs : ∀ id ∈ collectStageRefs stage.input, ∀ j, c.p.idToIndex id = some j → outcome' j = outcome j) :
    c.Settled outcome' i stage where
  served q hq := hself.trans (h.served q hq)
  dispatched hmiss := by
    obtain ⟨upstream, world, hworld, hupstream, hout⟩ := h.dispatched hmiss
    refine ⟨upstream, world, hworld, fun id hid j hj => ?_, hout.trans hself.symm⟩
    rw [hupstream id hid j hj, hrefs id hid j hj]

theorem Recounts.congr {sr : StageRunResult} (h : c.Recounts outcome i sr) (hself : outcome' i = outcome i) :
    c.Recounts outcome' i sr where
  stageId := h.stageId
  contentHash := h.contentHash
  failed err herr := h.failed err (hself ▸ herr)
  done payload hpayload := h.done payload (hself ▸ hpayload)

end

/-! ## The caches of a run -/

/-- What may be served under a hash: what was there before the run, or what a stage of `stored` came to. -/
def Offered (outcome : ℕ → Except DispatchError (Option π)) (stored : ℕ → Prop) (k : ContentHash) (q : π) : Prop :=
  c.consult k = some q ∨ ∃ j, stored j ∧ c.key j = k ∧ outcome j = .ok (some q)

/-- A blob that is found on disk under a hash. -/
def OnDisk (outcome : ℕ → Except DispatchError (Option π)) (stored : ℕ → Prop) (k : ContentHash) (blob : List UInt8) :
    Prop :=
  c.start.disk.getBytes k = some blob ∨ c.consult k = none ∧ ∃ serialize q, c.options.writer = some serialize ∧
    serialize q = some blob ∧ c.Offered outcome stored k q

/-- The caches have what they had, and what the stages of `stored` came to. -/
structure Keeps (outcome : ℕ → Except DispatchError (Option π)) (stored : ℕ → Prop) (cache : Cache π)
    (disk : DiskCache) : Prop where
  kept : ∀ k q, c.start.cache.get k = some q → cache.get k = some q
  memory : c.options.useCache = true → ∀ k q, cache.get k = some q → c.Offered outcome stored k q
  blobs : ∀ k blob, disk.getBytes k = some blob → c.OnDisk outcome stored k blob
  found : ∀ k, disk.getBytes k = none → c.start.disk.getBytes k = none

section

variable {c} {outcome outcome' : ℕ → Except DispatchError (Option π)} {stored stored' : ℕ → Prop} {cache : Cache π}
  {disk : DiskCache} {k : ContentHash} {i : ℕ} {stage : Stage} {q : π}

theorem consult_off (h : c.options.useCache = false) (k : ContentHash) : c.consult k = none := by
  unfold consult lookupCache
  rw [h]
  rfl

theorem consult_memory (h : c.options.useCache = true) (hget : c.start.cache.get k = some q) :
    c.consult k = some q := by
  unfold consult lookupCache
  rw [h, hget]
  rfl

theorem consult_disk (h : c.options.useCache = true) (hget : c.start.cache.get k = none) :
    c.consult k = c.options.reader.bind fun deserialize =>
      (c.start.disk.getBytes k).bind fun blob => deserialize blob c.start.world := by
  unfold consult lookupCache
  rw [h, hget]
  cases c.options.reader with
  | none => rfl
  | some deserialize =>
    cases hread : (c.start.disk.getBytes k).bind fun blob => deserialize blob c.start.world with
    | none => simp [hread]
    | some rehydrated => simp [hread]

theorem memory_of_miss (h : c.options.useCache = true) (hmiss : c.consult k = none) : c.start.cache.get k = none := by
  cases hget : c.start.cache.get k with
  | none => rfl
  | some q =>
    rw [c.consult_memory h hget] at hmiss
    cases hmiss

theorem Offered.congr (h : c.Offered outcome stored k q) (hout : ∀ j, stored j → outcome' j = outcome j) :
    c.Offered outcome' stored k q :=
  h.imp_right fun ⟨j, hj, hkey, heq⟩ => ⟨j, hj, hkey, (hout j hj).trans heq⟩

theorem Offered.mono (h : c.Offered outcome stored k q) (hstored : ∀ j, stored j → stored' j) :
    c.Offered outcome stored' k q :=
  h.imp_right fun ⟨j, hj, hkey, hout⟩ => ⟨j, hstored j hj, hkey, hout⟩

theorem OnDisk.mono {blob : List UInt8} (h : c.OnDisk outcome stored k blob) (hstored : ∀ j, stored j → stored' j) :
    c.OnDisk outcome stored' k blob :=
  h.imp_right fun ⟨hmiss, serialize, q, hwriter, hblob, hoffered⟩ =>
    ⟨hmiss, serialize, q, hwriter, hblob, hoffered.mono hstored⟩

theorem Offered.outcome_eq (htelling : c.Telling) (h : c.Offered outcome stored (c.key i) q)
    (hsettled : c.Settled outcome i stage) (hstage : c.p.stages[i]? = some stage)
    (hstored : ∀ j, stored j → ∃ stage', c.p.stages[j]? = some stage' ∧ c.Settled outcome j stage') :
    outcome i = .ok (some q) := by
  rcases h with hconsult | ⟨j, hj, hkey, hout⟩
  · exact hsettled.served q hconsult
  · obtain ⟨stage', hstage', hsettled'⟩ := hstored j hj
    rw [hsettled.same_outcome htelling hsettled' hstage hstage' hkey.symm, hout]

theorem OnDisk.read {blob : List UInt8} (h : c.OnDisk outcome stored k blob) (huse : c.options.useCache = true)
    (hget : c.start.cache.get k = none) {deserialize : List UInt8 → ω → Option π}
    (hreader : c.options.reader = some deserialize) {world : ω} (hworld : c.W world) :
    (∀ q, deserialize blob world = some q → c.Offered outcome stored k q) ∧
      (deserialize blob world = none → c.consult k = none) := by
  rcases h with hblob | ⟨hmiss, serialize, q, hwriter, hblob, hoffered⟩
  · have hconsult : c.consult k = deserialize blob world := by
      rw [c.consult_disk huse hget, hreader, hblob]
      exact c.disk.reads deserialize hreader blob _ _ c.inside hworld
    exact ⟨fun q hq => .inl (hconsult.trans hq), fun hnone => hconsult.trans hnone⟩
  · refine ⟨fun q' hq' => ?_, fun _ => hmiss⟩
    obtain rfl := c.disk.lossless serialize deserialize hwriter hreader q blob world q' hblob hq'
    exact hoffered

theorem Keeps.congr (h : c.Keeps outcome stored cache disk) (hout : ∀ j, stored j → outcome' j = outcome j) :
    c.Keeps outcome' stored cache disk where
  kept := h.kept
  memory huse k q hget := (h.memory huse k q hget).congr hout
  blobs k blob hget := (h.blobs k blob hget).imp_right fun ⟨hmiss, serialize, q, hwriter, hblob, hoffered⟩ =>
    ⟨hmiss, serialize, q, hwriter, hblob, hoffered.congr hout⟩
  found := h.found

theorem Keeps.mono (h : c.Keeps outcome stored cache disk) (hstored : ∀ j, stored j → stored' j) :
    c.Keeps outcome stored' cache disk where
  kept := h.kept
  memory huse k q hget := (h.memory huse k q hget).mono hstored
  blobs k blob hget := (h.blobs k blob hget).mono hstored
  found := h.found

theorem Keeps.put (h : c.Keeps outcome stored cache disk) (hoffered : c.Offered outcome stored k q)
    (hget : c.start.cache.get k = none) : c.Keeps outcome stored (cache.put k (some q)) disk where
  kept k' q' hq' := by
    rw [Cache.get_put, if_neg fun heq => ?_]
    · exact h.kept k' q' hq'
    · rw [heq, hget] at hq'
      cases hq'
  memory huse k' q' hq' := by
    rw [Cache.get_put] at hq'
    split_ifs at hq' with hk
    · obtain rfl := Option.some.inj hq'
      exact hk ▸ hoffered
    · exact h.memory huse k' q' hq'
  blobs := h.blobs
  found := h.found

/-- And on disk, where nothing was that could be read. -/
theorem Keeps.putBytes (h : c.Keeps outcome stored cache disk) (hoffered : c.Offered outcome stored k q)
    (hmiss : c.consult k = none) {serialize : π → Option (List UInt8)} (hwriter : c.options.writer = some serialize)
    {blob : List UInt8} (hblob : serialize q = some blob) (succeeds : Bool) :
    c.Keeps outcome stored cache (disk.putBytes k blob succeeds) where
  kept := h.kept
  memory := h.memory
  blobs k' blob' hget := by
    rw [DiskCache.getBytes_putBytes] at hget
    split_ifs at hget with hk
    · obtain rfl := Option.some.inj hget
      exact .inr ⟨hk.2 ▸ hmiss, serialize, q, hwriter, hblob, hk.2 ▸ hoffered⟩
    · exact h.blobs k' blob' hget
  found k' hget := by
    rw [DiskCache.getBytes_putBytes] at hget
    split_ifs at hget with hk
    exact h.found k' hget

theorem Keeps.miss (h : c.Keeps outcome stored cache disk) (huse : c.options.useCache = true)
    (hget : c.start.cache.get k = none) (hnone : (c.options.reader.bind fun _ => disk.getBytes k) = none) :
    c.consult k = none := by
  rw [c.consult_disk huse hget]
  cases hreader : c.options.reader with
  | none => rfl
  | some deserialize =>
    rw [hreader] at hnone
    rw [h.found k hnone]
    rfl

theorem Keeps.lookup {st : Store ω π} (h : c.Keeps outcome stored st.cache st.disk) (hworld : c.W st.world) :
    (∀ q st', lookupCache c.options k st = (some q, st') → c.Offered outcome stored k q ∧ st'.world = st.world ∧
      c.Keeps outcome stored st'.cache st'.disk) ∧
      ((lookupCache c.options k st).1 = none → c.consult k = none) := by
  have hmemory : st.cache.get k = none → c.start.cache.get k = none := by
    intro hnone
    cases hget : c.start.cache.get k with
    | none => rfl
    | some q =>
      rw [h.kept k q hget] at hnone
      cases hnone
  refine ⟨fun q st' hlook => ?_, fun hlook => ?_⟩
  · have huse : c.options.useCache = true := by
      by_contra hoff
      unfold lookupCache at hlook
      rw [Bool.not_eq_true] at hoff
      rw [hoff] at hlook
      cases hlook
    rcases lookupCache_some hlook with ⟨hget, rfl⟩ | ⟨deserialize, blob, hreader, hget, hread, hmiss, rfl⟩
    · exact ⟨h.memory huse k q hget, rfl, h⟩
    · have hoffered := ((h.blobs k blob hget).read huse (hmemory hmiss) hreader hworld).1 q hread
      exact ⟨hoffered, rfl, h.put hoffered (hmemory hmiss)⟩
  · cases huse : c.options.useCache with
    | false => exact c.consult_off huse k
    | true =>
      unfold lookupCache at hlook
      rw [huse] at hlook
      cases hget : st.cache.get k with
      | some q =>
        rw [hget] at hlook
        exact nomatch hlook
      | none =>
        rw [hget] at hlook
        cases hreader : c.options.reader with
        | none => rw [c.consult_disk huse (hmemory hget), hreader]; rfl
        | some deserialize =>
          rw [hreader] at hlook
          cases hblob : st.disk.getBytes k with
          | none =>
            refine h.miss huse (hmemory hget) ?_
            rw [hreader]
            exact hblob
          | some blob =>
            refine ((h.blobs k blob hblob).read huse (hmemory hget) hreader hworld).2 ?_
            rw [hblob] at hlook
            cases hread : deserialize blob st.world with
            | none => rfl
            | some q =>
              simp only [Option.bind_some, hread] at hlook
              cases hlook

end

/-! ## The sequential runner -/

/-- The stages of `before` are settled, and the loop and the caches tell of them. -/
structure Settling (outcome : ℕ → Except DispatchError (Option π)) (before : List ℕ) (loop : Loop π)
    (st : Store ω π) : Prop where
  settled : ∀ j ∈ before, ∃ stage, c.p.stages[j]? = some stage ∧ c.Settled outcome j stage
  hashes : loop.upstreamHashes = contentHashes c.d c.start.world (c.p.inOrder before) []
  outputs : ∀ j ∈ before, loop.outputs.lookup (c.p.stageId j) = (outcome j).toOption
  others : ∀ id, (∀ j ∈ before, c.p.stageId j ≠ id) → loop.outputs.lookup id = none
  results : List.Forall₂ (c.Recounts outcome) before loop.stageResults
  failed : loop.encounteredFailure = true ↔ ∃ j ∈ before, ∃ err, outcome j = .error err
  world : c.W st.world
  caches : c.Keeps outcome (· ∈ before) st.cache st.disk

section

variable {c} {outcome : ℕ → Except DispatchError (Option π)} {stored : ℕ → Prop} {before after : List ℕ} {i : ℕ}
  {stage : Stage} {loop loop' : Loop π} {st st' : Store ω π}

theorem keeps_start (outcome : ℕ → Except DispatchError (Option π)) (stored : ℕ → Prop) :
    c.Keeps outcome stored c.start.cache c.start.disk where
  kept _ _ h := h
  memory huse _ _ h := .inl (c.consult_memory huse h)
  blobs _ _ h := .inl h
  found _ h := h

theorem Keeps.storePayload (h : c.Keeps outcome stored st.cache st.disk) {k : ContentHash}
    (hmiss : c.consult k = none) {o : Option π} (hoffered : ∀ q, o = some q → c.Offered outcome stored k q)
    (succeeds : Bool) : c.Keeps outcome stored (storePayload c.options succeeds k o st).cache
      (storePayload c.options succeeds k o st).disk := by
  unfold Pipeline.storePayload
  cases o with
  | none => exact h
  | some q =>
    cases huse : c.options.useCache with
    | false => exact h
    | true =>
      have hput := h.put (hoffered q rfl) (c.memory_of_miss huse hmiss)
      dsimp only [Bool.not_true, Bool.false_eq_true, if_false]
      cases hblob : c.options.writer.bind fun serialize => serialize q with
      | none => exact hput
      | some blob =>
        obtain ⟨serialize, hwriter, hser⟩ := Option.bind_eq_some_iff.mp hblob
        exact hput.putBytes (hoffered q rfl) hmiss hwriter hser succeeds

theorem not_mem_before (horder : c.order = before ++ i :: after) : i ∉ before := by
  have hnodup : c.order.Nodup := c.ordered.perm.nodup_iff.mpr List.nodup_range
  rw [horder] at hnodup
  exact fun hmem => (List.disjoint_of_nodup_append hnodup) hmem List.mem_cons_self

theorem update_before (horder : c.order = before ++ i :: after) (outcome : ℕ → Except DispatchError (Option π))
    (x : Except DispatchError (Option π)) {j : ℕ} (hj : j ∈ before) : Function.update outcome i x j = outcome j := by
  have hne : j ≠ i := fun heq => c.not_mem_before horder (heq ▸ hj)
  exact Function.update_of_ne hne x outcome

theorem Settling.settled_update (h : c.Settling outcome before loop st) (horder : c.order = before ++ i :: after)
    (x : Except DispatchError (Option π)) {j : ℕ} (hj : j ∈ before) :
    ∃ t, c.p.stages[j]? = some t ∧ c.Settled (Function.update outcome i x) j t := by
  obtain ⟨t, ht, hsettled⟩ := h.settled j hj
  refine ⟨t, ht, hsettled.congr (c.update_before horder outcome x hj) fun id hid k hk => ?_⟩
  obtain ⟨front, back, hsplit⟩ := List.mem_iff_append.mp hj
  have horder' : c.order = front ++ j :: (back ++ i :: after) := by
    rw [horder, hsplit, List.append_assoc, List.cons_append]
  obtain ⟨k', hk', hindex, -⟩ := c.ordered.ref_before horder' ht hid
  rw [hk] at hindex
  obtain rfl := Option.some.inj hindex
  exact c.update_before horder outcome x (hsplit ▸ List.mem_append_left _ hk')

theorem Settling.next (h : c.Settling outcome before loop st) (horder : c.order = before ++ i :: after)
    (hstage : c.p.stages[i]? = some stage) {x : Except DispatchError (Option π)}
    (hsettled : c.Settled (Function.update outcome i x) i stage) {r : StageRunResult}
    (hsr : c.Recounts (Function.update outcome i x) i r)
    (hhashes : loop'.upstreamHashes = loop.upstreamHashes ++ [(stage.id, c.key i)])
    (houtputs : ∀ id, loop'.outputs.lookup id = if id = stage.id then x.toOption else loop.outputs.lookup id)
    (hresults : loop'.stageResults = loop.stageResults ++ [r])
    (hfailed : loop'.encounteredFailure = true ↔ loop.encounteredFailure = true ∨ ∃ err, x = .error err)
    (hworld : c.W st'.world)
    (hcaches : c.Keeps (Function.update outcome i x) (· ∈ before ++ [i]) st'.cache st'.disk) :
    c.Settling (Function.update outcome i x) (before ++ [i]) loop' st' := by
  have hnot : ∀ j ∈ before, j ≠ i := fun j hj heq => c.not_mem_before horder (heq ▸ hj)
  have hother : ∀ j ∈ before, Function.update outcome i x j = outcome j :=
    fun j hj => c.update_before horder outcome x hj
  have hid : c.p.stageId i = stage.id := Pipeline.stageId_eq hstage
  refine ⟨fun j hj => ?_, ?_, fun j hj => ?_, fun id hid' => ?_, ?_, ?_, hworld, hcaches⟩
  · rcases List.mem_append.mp hj with hj | hj
    · exact h.settled_update horder x hj
    · obtain rfl := List.mem_singleton.mp hj
      exact ⟨stage, hstage, hsettled⟩
  · rw [hhashes, h.hashes, Pipeline.inOrder_split hstage, contentHashes_append,
      key, c.ordered.hashOf_eq c.d c.start.world horder hstage]
    rfl
  · rw [houtputs]
    rcases List.mem_append.mp hj with hj | hj
    · obtain ⟨t, ht, -⟩ := h.settled j hj
      have hne : c.p.stageId j ≠ stage.id := by
        rw [Pipeline.stageId_eq ht]
        exact fun heq => hnot j hj (c.ordered.stage_inj ht hstage heq)
      rw [if_neg hne, hother j hj, h.outputs j hj]
    · obtain rfl := List.mem_singleton.mp hj
      rw [if_pos hid, Function.update_self]
  · have hne : id ≠ stage.id := fun heq =>
      hid' i (List.mem_append_right _ (List.mem_singleton.mpr rfl)) (hid.trans heq.symm)
    rw [houtputs, if_neg hne]
    exact h.others id fun j hj => hid' j (List.mem_append_left _ hj)
  · rw [hresults]
    refine List.rel_append ?_ (.cons hsr .nil)
    have hmem : ∀ {js : List ℕ} {srs : List StageRunResult}, (∀ j ∈ js, j ∈ before) →
        List.Forall₂ (c.Recounts outcome) js srs →
          List.Forall₂ (c.Recounts (Function.update outcome i x)) js srs := by
      intro js srs hjs hall
      induction hall with
      | nil => exact .nil
      | cons hhead _ ih =>
        obtain ⟨hj, hrest⟩ := List.forall_mem_cons.mp hjs
        exact .cons (hhead.congr (hother _ hj)) (ih hrest)
    exact hmem (fun _ hj => hj) h.results
  · rw [hfailed, h.failed]
    constructor
    · rintro (⟨j, hj, err, herr⟩ | ⟨err, herr⟩)
      · exact ⟨j, List.mem_append_left _ hj, err, (hother j hj).trans herr⟩
      · exact ⟨i, List.mem_append_right _ (List.mem_singleton.mpr rfl), err, by rw [Function.update_self, herr]⟩
    · rintro ⟨j, hj, err, herr⟩
      rcases List.mem_append.mp hj with hj | hj
      · exact .inl ⟨j, hj, err, by rw [← hother j hj, herr]⟩
      · obtain rfl := List.mem_singleton.mp hj
        rw [Function.update_self] at herr
        exact .inr ⟨err, herr⟩

theorem Settling.upstream (h : c.Settling outcome before loop st) (horder : c.order = before ++ i :: after)
    (hstage : c.p.stages[i]? = some stage) (x : Except DispatchError (Option π)) :
    ∀ id ∈ collectStageRefs stage.input, ∀ j, c.p.idToIndex id = some j →
      loop.outputs.lookup id = (Function.update outcome i x j).toOption := by
  intro id hid j hj
  obtain ⟨j', hj', hindex, t, ht, rfl⟩ := c.ordered.ref_before horder hstage hid
  rw [hj] at hindex
  obtain rfl := Option.some.inj hindex
  have hne : j ≠ i := fun heq => c.not_mem_before horder (heq ▸ hj')
  rw [Function.update_of_ne hne, ← h.outputs j hj', Pipeline.stageId_eq ht]

theorem Settling.key_eq (h : c.Settling outcome before loop st) (horder : c.order = before ++ i :: after)
    (hstage : c.p.stages[i]? = some stage) : (evaluation c.d stage loop.upstreamHashes st.world).key = c.key i := by
  rw [key, c.ordered.hashOf_eq c.d c.start.world horder hstage, h.hashes]
  exact c.steady.key_congr h.world c.inside fun _ _ => rfl

theorem Settling.fresh (h : c.Settling outcome before loop st) (horder : c.order = before ++ i :: after)
    (hstage : c.p.stages[i]? = some stage) : loop.outputs.lookup stage.id = none :=
  h.others stage.id fun j hj heq => by
    obtain ⟨t, ht, -⟩ := h.settled j hj
    rw [Pipeline.stageId_eq ht] at heq
    exact c.not_mem_before horder (c.ordered.stage_inj ht hstage heq ▸ hj)

section

/-! One round of the sequential runner, by how the stage comes out. -/

variable {putSucceeds : ContentHash → Bool}

theorem Settling.served (htelling : c.Telling) (h : c.Settling outcome before loop st)
    (horder : c.order = before ++ i :: after) (hstage : c.p.stages[i]? = some stage)
    (hskip : (loop.encounteredFailure && c.options.stopOnFirstFailure) = false) {q : π} {st' : Store ω π}
    (hlook : lookupCache c.options (c.key i) st = (some q, st')) :
    c.Settling (Function.update outcome i (.ok (some q))) (before ++ [i])
      (runStage c.d c.options putSucceeds stage loop st).1 (runStage c.d c.options putSucceeds stage loop st).2 := by
  have hkey := h.key_eq horder hstage
  have hother : ∀ j ∈ before, Function.update outcome i (.ok (some q)) j = outcome j :=
    fun j hj => c.update_before horder outcome _ hj
  obtain ⟨hoffered, hworld, hkeeps⟩ := (h.caches.lookup (k := c.key i) h.world).1 q st' hlook
  rw [runStage_served hskip rfl (by rw [hkey]; exact hlook), hkey]
  have hsettled : c.Settled (Function.update outcome i (.ok (some q))) i stage := by
    rcases hoffered with hconsult | ⟨j, hj, hkey', hout⟩
    · refine ⟨fun q' hq' => ?_, fun hmiss => ?_⟩
      · rw [hconsult] at hq'
        rw [Function.update_self, Option.some.inj hq']
      · rw [hconsult] at hmiss
        cases hmiss
    · obtain ⟨t, ht, hsettled'⟩ := h.settled_update horder (.ok (some q)) hj
      refine hsettled'.transfer htelling hstage ht hkey'.symm ?_
      rw [Function.update_self, hother j hj, hout]
  have hserved : (c.consult (c.key i)).isSome = true ∨ c.Shares i := by
    rcases hoffered with hconsult | ⟨j, hj, hkey', -⟩
    · exact .inl (by rw [hconsult]; rfl)
    · obtain ⟨t, ht, -⟩ := h.settled j hj
      exact .inr ⟨j, (List.getElem?_eq_some_iff.mp ht).1, fun heq => c.not_mem_before horder (heq ▸ hj), hkey'⟩
  refine h.next horder hstage hsettled (r := ⟨stage.id, .cached, c.key i, none⟩)
    ⟨(Pipeline.stageId_eq hstage).symm, rfl, ?_, ?_⟩ rfl ?_ rfl ?_ (hworld ▸ h.world)
    ((hkeeps.congr hother).mono fun j hj => List.mem_append_left _ hj)
  · intro err herr
    rw [Function.update_self] at herr
    cases herr
  · exact fun _ _ => ⟨rfl, .inl ⟨rfl, hserved⟩⟩
  · intro id
    show (loop.outputs.emplace stage.id (some q)).lookup id = _
    rw [Dict.lookup_emplace, h.fresh horder hstage]
    rfl
  · exact ⟨.inl, fun h => h.elim id fun ⟨_, herr⟩ => nomatch herr⟩

/-- A stage that the caches do not have is settled by its dispatch. -/
theorem Settling.dispatched (h : c.Settling outcome before loop st) (horder : c.order = before ++ i :: after)
    (hstage : c.p.stages[i]? = some stage) (hconsult : c.consult (c.key i) = none)
    {dr : Except DispatchError (Option π)} {world : ω}
    (hd : c.d.dispatch stage.plugin stage.input loop.outputs st.world = (dr, world)) :
    c.W world ∧ c.Settled (Function.update outcome i dr) i stage := by
  constructor
  · have hstays := c.steady.stays stage.plugin stage.input loop.outputs st.world h.world
    rw [hd] at hstays
    exact hstays
  · refine ⟨fun q hq => ?_, fun _ => ⟨loop.outputs, st.world, h.world, h.upstream horder hstage dr, ?_⟩⟩
    · rw [hconsult] at hq
      cases hq
    · rw [hd, Function.update_self]

theorem Settling.fails (h : c.Settling outcome before loop st) (horder : c.order = before ++ i :: after)
    (hstage : c.p.stages[i]? = some stage)
    (hskip : (loop.encounteredFailure && c.options.stopOnFirstFailure) = false)
    (hmiss : (lookupCache c.options (c.key i) st).1 = none) {err : DispatchError} {world : ω}
    (hd : c.d.dispatch stage.plugin stage.input loop.outputs st.world = (.error err, world)) :
    c.Settling (Function.update outcome i (.error err)) (before ++ [i])
      (runStage c.d c.options putSucceeds stage loop st).1 (runStage c.d c.options putSucceeds stage loop st).2 := by
  have hkey := h.key_eq horder hstage
  have hother : ∀ j ∈ before, Function.update outcome i (.error err) j = outcome j :=
    fun j hj => c.update_before horder outcome _ hj
  have hconsult := (h.caches.lookup (k := c.key i) h.world).2 hmiss
  obtain ⟨hworld, hsettled⟩ := h.dispatched horder hstage hconsult hd
  rw [runStage_failed hskip rfl (by rw [hkey]; exact hmiss) hd, hkey]
  refine h.next horder hstage hsettled (r := ⟨stage.id, .failed, c.key i, some err⟩)
    ⟨(Pipeline.stageId_eq hstage).symm, rfl, ?_, ?_⟩ rfl ?_ rfl ?_ hworld
    ((h.caches.congr hother).mono fun j hj => List.mem_append_left _ hj)
  · intro err' herr
    rw [Function.update_self] at herr
    cases herr
    exact ⟨rfl, rfl⟩
  · intro payload hpayload
    rw [Function.update_self] at hpayload
    cases hpayload
  · intro id
    show loop.outputs.lookup id = _
    split_ifs with heq
    · rw [heq, h.fresh horder hstage]
      rfl
    · rfl
  · exact ⟨fun _ => .inr ⟨err, rfl⟩, fun _ => rfl⟩

theorem Settling.executes (h : c.Settling outcome before loop st) (horder : c.order = before ++ i :: after)
    (hstage : c.p.stages[i]? = some stage)
    (hskip : (loop.encounteredFailure && c.options.stopOnFirstFailure) = false)
    (hmiss : (lookupCache c.options (c.key i) st).1 = none) {payload : Option π} {world : ω}
    (hd : c.d.dispatch stage.plugin stage.input loop.outputs st.world = (.ok payload, world)) :
    c.Settling (Function.update outcome i (.ok payload)) (before ++ [i])
      (runStage c.d c.options putSucceeds stage loop st).1 (runStage c.d c.options putSucceeds stage loop st).2 := by
  have hkey := h.key_eq horder hstage
  have hother : ∀ j ∈ before, Function.update outcome i (.ok payload) j = outcome j :=
    fun j hj => c.update_before horder outcome _ hj
  have hconsult := (h.caches.lookup (k := c.key i) h.world).2 hmiss
  obtain ⟨hworld, hsettled⟩ := h.dispatched horder hstage hconsult hd
  rw [runStage_executed hskip rfl (by rw [hkey]; exact hmiss) hd, hkey]
  have hcaches : c.Keeps (Function.update outcome i (.ok payload)) (· ∈ before ++ [i])
      ({ st with world } : Store ω π).cache ({ st with world } : Store ω π).disk :=
    (h.caches.congr hother).mono fun j hj => List.mem_append_left _ hj
  have hstored := hcaches.storePayload hconsult (o := payload) (fun q hq => .inr
    ⟨i, List.mem_append_right _ (List.mem_singleton.mpr rfl), rfl, by rw [Function.update_self, hq]⟩)
    (putSucceeds (c.key i))
  refine h.next horder hstage hsettled (r := ⟨stage.id, .executed, c.key i, none⟩)
    ⟨(Pipeline.stageId_eq hstage).symm, rfl, ?_, ?_⟩ rfl ?_ rfl ?_ ?_ hstored
  · intro err herr
    rw [Function.update_self] at herr
    cases herr
  · exact fun _ _ => ⟨rfl, .inr ⟨rfl, hconsult⟩⟩
  · intro id
    show (loop.outputs.emplace stage.id payload).lookup id = _
    rw [Dict.lookup_emplace, h.fresh horder hstage]
    rfl
  · exact ⟨.inl, fun h => h.elim id fun ⟨_, herr⟩ => nomatch herr⟩
  · show c.W (storePayload c.options (putSucceeds (c.key i)) (c.key i) payload { st with world }).world
    unfold storePayload
    cases payload with
    | none => exact hworld
    | some q =>
      dsimp only
      split_ifs
      · exact hworld
      · split <;> exact hworld

end

theorem Settling.step (htelling : c.Telling) (h : c.Settling outcome before loop st)
    (horder : c.order = before ++ i :: after) (hstage : c.p.stages[i]? = some stage)
    (hskip : (loop.encounteredFailure && c.options.stopOnFirstFailure) = false) (putSucceeds : ContentHash → Bool) :
    ∃ outcome', c.Settling outcome' (before ++ [i]) (runStage c.d c.options putSucceeds stage loop st).1
      (runStage c.d c.options putSucceeds stage loop st).2 := by
  rcases hlook : lookupCache c.options (c.key i) st with ⟨found, st'⟩
  cases found with
  | some q => exact ⟨_, h.served htelling horder hstage hskip hlook⟩
  | none =>
    have hmiss : (lookupCache c.options (c.key i) st).1 = none := by rw [hlook]
    rcases hd : c.d.dispatch stage.plugin stage.input loop.outputs st.world with ⟨dr, world⟩
    cases dr with
    | error err => exact ⟨_, h.fails horder hstage hskip hmiss hd⟩
    | ok payload => exact ⟨_, h.executes horder hstage hskip hmiss hd⟩

/-- The sequential runner comes to what the stages are settled to. -/
theorem runPipeline_comes (c : Course ω π) (hvalid : c.p.validate = .ok c.order) (htelling : c.Telling)
    {putSucceeds : ContentHash → Bool} (hstop : c.options.stopOnFirstFailure = false ∨
      (runPipeline c.p c.d c.options putSucceeds c.start).1.status = .success) :
    ∃ outcome, (∀ i stage, c.p.stages[i]? = some stage → c.Settled outcome i stage) ∧
      c.Comes outcome (runPipeline c.p c.d c.options putSucceeds c.start).1 := by
  have hrun : (c.options.stopOnFirstFailure = true ∧ (runStages c.d c.options putSucceeds (c.p.inOrder c.order) {}
      c.start).1.encounteredFailure = true) ∨ ∃ outcome, c.Settling outcome c.order
        (runStages c.d c.options putSucceeds (c.p.inOrder c.order) {} c.start).1
        (runStages c.d c.options putSucceeds (c.p.inOrder c.order) {} c.start).2 := by
    refine runStages_inOrder c.ordered (P := fun before loop st =>
      (c.options.stopOnFirstFailure = true ∧ loop.encounteredFailure = true) ∨
        ∃ outcome, c.Settling outcome before loop st) ?_ (.inr ⟨fun _ => .ok none, ?_⟩)
    · rintro before i after stage loop st horder hstage h
      cases hskip : (loop.encounteredFailure && c.options.stopOnFirstFailure) with
      | true =>
        obtain ⟨hfailed, hoption⟩ := Bool.and_eq_true_iff.mp hskip
        rw [runStage_skipped hskip]
        exact .inl ⟨hoption, hfailed⟩
      | false =>
        rcases h with ⟨hoption, hfailed⟩ | ⟨outcome, h⟩
        · rw [hoption, hfailed] at hskip
          cases hskip
        · exact .inr (h.step htelling horder hstage hskip putSucceeds)
    · exact ⟨fun _ h => (nomatch h), rfl, fun _ h => (nomatch h), fun _ _ => rfl, .nil,
        ⟨fun h => (nomatch h), fun ⟨_, h, _⟩ => nomatch h⟩, c.inside, c.keeps_start _ _⟩
  unfold runPipeline at hstop ⊢
  rw [hvalid] at hstop ⊢
  dsimp only at hstop ⊢
  have hmem : ∀ i, i ∈ c.order ↔ i < c.p.stages.length := fun i => c.ordered.perm.mem_iff.trans List.mem_range
  rcases hrun with ⟨hoption, hfailed⟩ | ⟨outcome, h⟩
  · rw [hoption, hfailed] at hstop
    rcases hstop with hstop | hstop <;> cases hstop
  · refine ⟨outcome, fun i stage hstage => ?_, ?_, ?_, fun i hi => ?_, fun sr hsr => ?_, fun i hi => ?_,
      fun id hid => ?_⟩
    · obtain ⟨t, ht, hsettled⟩ := h.settled i ((hmem i).mpr (List.getElem?_eq_some_iff.mp hstage).1)
      rw [hstage] at ht
      exact Option.some.inj ht ▸ hsettled
    · split_ifs <;> exact fun heq => nomatch heq
    · have hiff : (∃ i < c.p.stages.length, ∃ err, outcome i = .error err) ↔
          ∃ j ∈ c.order, ∃ err, outcome j = .error err := exists_congr fun i => by rw [hmem i]
      rw [hiff, ← h.failed]
      split_ifs with hfailed
      · exact ⟨fun _ => hfailed, fun _ => rfl⟩
      · exact ⟨fun heq => (nomatch heq), fun heq => absurd heq hfailed⟩
    · obtain ⟨n, hn, heq⟩ := List.getElem_of_mem ((hmem i).mpr hi)
      have hn' : n < (runStages c.d c.options putSucceeds (c.p.inOrder c.order) {} c.start).1.stageResults.length :=
        h.results.length_eq ▸ hn
      refine ⟨_, List.getElem_mem hn', ?_⟩
      have hrec := List.Forall₂.get h.results hn hn'
      rw [← heq]
      exact hrec
    · obtain ⟨n, hn, heq⟩ := List.getElem_of_mem hsr
      have hn' : n < c.order.length := h.results.length_eq ▸ hn
      have hrec := List.Forall₂.get h.results hn' hn
      refine ⟨c.order[n], (hmem _).mp (List.getElem_mem hn'), ?_⟩
      rw [← heq]
      exact hrec
    · exact h.outputs i ((hmem i).mpr hi)
    · exact h.others id fun j hj => hid j ((hmem j).mp hj)

end

end Course

end Souxmar.Pipeline
