import Souxmar.Pipeline.Runner

/-!
# The registry dispatcher

`registry_dispatcher.cpp`: stages are routed by the namespace of their capability to the five kinds of
plugins of the registry, and stage outputs that name a file can be kept on disk.

The world of a run is its files: what a path names. Meshes, geometries and fields are opaque handles,
and a plugin is any function of what it is handed and of the files.
-/

namespace Souxmar.Pipeline

open Souxmar.Lib Souxmar.PluginHost

/-- The file a path names, if there is one. -/
abbrev Files : Type := String → Option (List UInt8)

/-! ## What plugins are handed and give back -/

/-- `target_size` is the bit pattern of a double. -/
structure MesherOptions where
  targetSize : UInt64 := 0
  optimize : ℤ := 0
  elementOrder : ℤ := 1
  randomSeed : ℤ := -1
deriving DecidableEq, Repr

/-- The options of solvers and of postprocessors. -/
structure SolverOptions where
  randomSeed : ℤ := -1
  tolerance : UInt64 := 0
  maxIterations : ℤ := 0
deriving DecidableEq, Repr

/-- A plugin call inside `guard_call`: it threw, or it returned a status and its out-parameters. -/
inductive PluginCall (α : Type)
  | raised (detail : String)
  | returned (code : ℤ) (message : Option String) (out : α)

section

variable (M G F : Type)

/-- The entry points of the plugin kinds, by the types of their handles. -/
def PluginFn : CapabilityKind → Type
  | .mesher => Option G → MesherOptions → ℕ → Files → PluginCall (Option M) × Files
  | .solver => M → Value → SolverOptions → ℕ → Files → PluginCall (Option F) × Files
  | .writer => M → Option F → Value → ℕ → Files → PluginCall Unit × Files
  | .postproc => M → F → Value → SolverOptions → ℕ → Files → PluginCall (Option F) × Files
  | .reader => String → Value → ℕ → Files → PluginCall (Option M × Option G) × Files

abbrev PluginRegistry : Type := Registry (PluginFn M G F)

/-- `StageOutput`: its kind, with the one member that the kind says is set. -/
inductive StageOutput
  | none
  | mesh (m : M)
  | geometry (g : G)
  | field (f : F)
  | path (p : String)
deriving DecidableEq, Repr

end

variable {M G F : Type}

namespace StageOutput

/-- The byte of `StageOutput::Kind`. -/
def kind : StageOutput M G F → UInt8
  | none => 0
  | mesh _ => 1
  | geometry _ => 2
  | field _ => 3
  | path _ => 4

def asMesh : StageOutput M G F → Option M
  | mesh m => some m
  | _ => Option.none

def asGeometry : StageOutput M G F → Option G
  | geometry g => some g
  | _ => Option.none

def asField : StageOutput M G F → Option F
  | field f => some f
  | _ => Option.none

end StageOutput

/-- The entry point and user data of a capability of the kind, if it is registered as one.
Registration has checked that the entry point is there. -/
def findVtable (kind : CapabilityKind) (r : PluginRegistry M G F) (capabilityId : String) :
    Option (PluginFn M G F kind × ℕ) :=
  match r.find capabilityId with
  | none => none
  | some entry =>
    if h : entry.kind = kind then (h ▸ entry.vtable).fn.map fun fn => (fn, entry.userData) else none

/-! ## Helpers -/

def startsWith (pre s : String) : Bool := pre.toList.isPrefixOf s.toList

/-- A double truncated to an integer, as `static_cast` does where the result fits. -/
def truncate (bits : UInt64) : ℤ :=
  let exponent := ((bits >>> 52) &&& 0x7FF).toNat
  let mantissa := 2 ^ 52 + (bits &&& 0xFFFFFFFFFFFFF).toNat
  let magnitude : ℕ :=
    if exponent < 1075 then mantissa / 2 ^ (1075 - exponent) else mantissa * 2 ^ (exponent - 1075)
  if exponent = 0 then 0 else if bits >>> 63 = 1 then -magnitude else magnitude

def numberOr (input : Value) (key : String) (default : UInt64) : UInt64 :=
  match input.find key with
  | some (.number bits) => bits
  | _ => default

def intOr (input : Value) (key : String) (default : ℤ) : ℤ :=
  match input.find key with
  | some (.number bits) => truncate bits
  | _ => default

/-- The handle that an upstream stage produced, if its output is of the expected kind. -/
def upstreamAs {α : Type} (expected : StageOutput M G F → Option α)
    (upstream : Outputs (StageOutput M G F)) (stageId : String) : Option α :=
  (upstream.lookup stageId).join.bind expected

def extractStageRef (input : Value) (key : String) : Option String :=
  match input.find key with
  | some (.stage stageId) => some stageId
  | _ => none

/-- The checks behind every plugin call, with the role of the capability for the error texts. -/
def checkCall {α : Type} (role capabilityId : String) :
    PluginCall α → Except DispatchError α
  | .raised detail => .error ⟨role ++ " '" ++ capabilityId ++ "' raised: " ++ detail⟩
  | .returned code message out =>
    if code ≠ 0 then
      .error ⟨role ++ " '" ++ capabilityId ++ "' returned error " ++ toString code ++ ": " ++
        message.getD "(no message)"⟩
    else .ok out

def noCapability (role capabilityId : String) : DispatchError :=
  ⟨"no " ++ role ++ " capability registered as '" ++ capabilityId ++ "'"⟩

/-- The handle under a required key: the stage it refers to must have produced one. -/
def requiredUpstream {α : Type} (role capabilityId key : String)
    (expected : StageOutput M G F → Option α) (article : String) (input : Value)
    (upstream : Outputs (StageOutput M G F)) : Except DispatchError α :=
  match extractStageRef input key with
  | none =>
    .error ⟨role ++ " '" ++ capabilityId ++ "' input is missing required '" ++ key ++
      ": \x7bfrom: ...\x7d'"⟩
  | some stageId =>
    match upstreamAs expected upstream stageId with
    | none =>
      .error ⟨"stage referenced by '" ++ key ++ "' (" ++ stageId ++ ") did not produce a " ++ article⟩
    | some handle => .ok handle

/-- The handle under an optional key. -/
def optionalUpstream {α : Type} (key : String) (expected : StageOutput M G F → Option α)
    (article : String) (input : Value) (upstream : Outputs (StageOutput M G F)) :
    Except DispatchError (Option α) :=
  match extractStageRef input key with
  | none => .ok none
  | some stageId =>
    match upstreamAs expected upstream stageId with
    | none =>
      .error ⟨"stage referenced by '" ++ key ++ "' (" ++ stageId ++ ") did not produce a " ++ article⟩
    | some handle => .ok (some handle)

def solverOptions (input : Value) : SolverOptions :=
  { tolerance := numberOr input "tolerance" 0
    maxIterations := intOr input "max_iterations" 0
    randomSeed := intOr input "random_seed" (-1) }

/-! ## Reader paths -/

/-- The parts of a path between its slashes. -/
def pathParts : List Char → List (List Char)
  | [] => [[]]
  | c :: cs =>
    if c = '/' then [] :: pathParts cs
    else
      match pathParts cs with
      | part :: parts => (c :: part) :: parts
      | [] => [[c]]

/-- The walk of `lexically_normal` over the parts of a path: the names kept so far, last first, and
whether a slash follows them. -/
def normalizeParts (rooted : Bool) : List (List Char) → List (List Char) → Bool →
    List (List Char) × Bool
  | [], names, slash => (names, slash)
  | part :: parts, names, _ =>
    if part = [] ∨ part = ['.'] then normalizeParts rooted parts names true
    else if part = ['.', '.'] then
      match names with
      | [] =>
        if rooted then normalizeParts rooted parts [] true
        else normalizeParts rooted parts [part] false
      | name :: rest =>
        if name = ['.', '.'] then normalizeParts rooted parts (part :: names) false
        else normalizeParts rooted parts rest true
    else normalizeParts rooted parts (part :: names) false

/-- `path::lexically_normal` on a POSIX path. -/
def lexicallyNormal (path : List Char) : List Char :=
  if path = [] then []
  else
    let rooted := path.head? = some '/'
    let (names, slash) := normalizeParts rooted (pathParts path) [] false
    let root := if rooted then ['/'] else []
    let body := List.intercalate ['/'] names.reverse
    let trailing :=
      if slash ∧ names ≠ [] ∧ names.head? ≠ some ['.', '.'] then ['/'] else []
    let normal := root ++ body ++ trailing
    if normal = [] then ['.'] else normal

/-- `base / p` for a relative `p`. -/
def joinPath (base p : List Char) : List Char :=
  if base = [] ∨ base.getLast? = some '/' then base ++ p else base ++ '/' :: p

/-- A relative reader path is resolved against the directory of the pipeline file. -/
def resolveReaderPath (baseDir path : String) : String :=
  if baseDir.isEmpty then path
  else if path.toList.head? = some '/' then path
  else String.ofList (lexicallyNormal (joinPath baseDir.toList path.toList))

/-! ## Dispatch -/

section

variable (r : PluginRegistry M G F) (capabilityId : String) (input : Value)
  (upstream : Outputs (StageOutput M G F)) (files : Files)

/-- The result of a stage: an error, or its output. -/
abbrev Dispatched (M G F : Type) : Type := Except DispatchError (StageOutput M G F) × Files

def mesherOptions (input : Value) : MesherOptions :=
  { targetSize := numberOr input "target_size" 0
    optimize :=
      match input.find "optimize" with
      | some (.boolean b) => if b then 1 else 0
      | _ => 0
    elementOrder := intOr input "element_order" 1 }

def dispatchMesher : Dispatched M G F :=
  match findVtable .mesher r capabilityId with
  | none => (.error (noCapability "mesher" capabilityId), files)
  | some (meshFn, userData) =>
    match optionalUpstream "geometry" StageOutput.asGeometry "Geometry" input upstream with
    | .error err => (.error err, files)
    | .ok geometry =>
      let (call, files) := meshFn geometry (mesherOptions input) userData files
      match checkCall "mesher" capabilityId call with
      | .error err => (.error err, files)
      | .ok none => (.error ⟨"mesher '" ++ capabilityId ++ "' returned OK but no mesh"⟩, files)
      | .ok (some mesh) => (.ok (.mesh mesh), files)

/-- A field that a solver or a postprocessor gives back. -/
def fieldOutput (role : String) (call : PluginCall (Option F)) :
    Except DispatchError (StageOutput M G F) :=
  match checkCall role capabilityId call with
  | .error err => .error err
  | .ok none => .error ⟨role ++ " '" ++ capabilityId ++ "' returned OK but no field"⟩
  | .ok (some field) => .ok (.field field)

def dispatchSolver : Dispatched M G F :=
  match findVtable .solver r capabilityId with
  | none => (.error (noCapability "solver" capabilityId), files)
  | some (solveFn, userData) =>
    match requiredUpstream "solver" capabilityId "mesh" StageOutput.asMesh "Mesh" input upstream with
    | .error err => (.error err, files)
    | .ok mesh =>
      let (call, files) := solveFn mesh input (solverOptions input) userData files
      (fieldOutput capabilityId "solver" call, files)

/-- The `path` input of a stage, if it is a string. -/
def pathInput (input : Value) : Option String := (input.find "path").bind Value.tryString

def dispatchWriter : Dispatched M G F :=
  match findVtable .writer r capabilityId with
  | none => (.error (noCapability "writer" capabilityId), files)
  | some (writeFn, userData) =>
    match requiredUpstream "writer" capabilityId "mesh" StageOutput.asMesh "Mesh" input upstream with
    | .error err => (.error err, files)
    | .ok mesh =>
      match optionalUpstream "field" StageOutput.asField "Field" input upstream with
      | .error err => (.error err, files)
      | .ok field =>
        let (call, files) := writeFn mesh field input userData files
        match checkCall "writer" capabilityId call with
        | .error err => (.error err, files)
        | .ok () => (.ok (.path ((pathInput input).getD "")), files)

def dispatchPostproc : Dispatched M G F :=
  match findVtable .postproc r capabilityId with
  | none => (.error (noCapability "postproc" capabilityId), files)
  | some (computeFn, userData) =>
    match requiredUpstream "postproc" capabilityId "mesh" StageOutput.asMesh "Mesh" input upstream with
    | .error err => (.error err, files)
    | .ok mesh =>
      match requiredUpstream "postproc" capabilityId "field" StageOutput.asField "Field" input
          upstream with
      | .error err => (.error err, files)
      | .ok field =>
        let (call, files) := computeFn mesh field input (solverOptions input) userData files
        (fieldOutput capabilityId "postproc" call, files)

/-- A reader must fill exactly one of its two out-parameters. -/
def readerOutput (call : PluginCall (Option M × Option G)) :
    Except DispatchError (StageOutput M G F) :=
  match checkCall "reader" capabilityId call with
  | .error err => .error err
  | .ok (some mesh, none) => .ok (.mesh mesh)
  | .ok (none, some geometry) => .ok (.geometry geometry)
  | .ok (outMesh, outGeometry) =>
    .error ⟨"reader '" ++ capabilityId ++ "' must fill exactly one of out_mesh / out_geometry (got mesh=" ++
      toString outMesh.isSome ++ ", geometry=" ++ toString outGeometry.isSome ++ ")"⟩

def dispatchReader (baseDir : String) : Dispatched M G F :=
  match findVtable .reader r capabilityId with
  | none => (.error (noCapability "reader" capabilityId), files)
  | some (readFn, userData) =>
    match pathInput input with
    | none =>
      (.error ⟨"reader '" ++ capabilityId ++ "' input is missing required string `path`"⟩, files)
    | some path =>
      let (call, files) := readFn (resolveReaderPath baseDir path) input userData files
      (readerOutput capabilityId call, files)

/-- `RegistryDispatcher::dispatch`: route by namespace prefix. -/
def dispatch (baseDir : String) : Dispatched M G F :=
  if startsWith "mesher." capabilityId then dispatchMesher r capabilityId input upstream files
  else if startsWith "solver." capabilityId then dispatchSolver r capabilityId input upstream files
  else if startsWith "writer." capabilityId then dispatchWriter r capabilityId input upstream files
  else if startsWith "postproc." capabilityId then
    dispatchPostproc r capabilityId input upstream files
  else if startsWith "reader." capabilityId then dispatchReader r capabilityId input files baseDir
  else
    (.error ⟨"unsupported capability namespace for '" ++ capabilityId ++
      "' (known namespaces: mesher.*, solver.*, writer.*, postproc.*, reader.*)"⟩, files)

/-- Readers only: a digest of the file behind `path`, or a marker when it cannot be read. -/
def cacheKeyExtra (baseDir : String) : String :=
  if !startsWith "reader." capabilityId then ""
  else
    match pathInput input with
    | none => ""
    | some path =>
      match files (resolveReaderPath baseDir path) with
      | some data => (hashFile data).hex
      | none => "unreadable"

def pluginVersion : String :=
  match r.find capabilityId with
  | some e => "abi" ++ toString e.abiVersion
  | none => ""

def pluginId : String :=
  match r.find capabilityId with
  | some e => e.pluginId
  | none => capabilityId

/-- A capability that nobody registered is treated as single-threaded. -/
def pluginThreading : ThreadingModel := (r.findThreading capabilityId).getD .singleThreaded

end

/-- Every output of the registry dispatcher is a pointer that is not null. -/
def registryDispatcher (r : PluginRegistry M G F) (baseDir : String) :
    Dispatcher Files (StageOutput M G F) where
  dispatch capabilityId input upstream files :=
    let (result, files) := dispatch r capabilityId input upstream files baseDir
    (result.map some, files)
  cacheKeyExtra capabilityId input files := cacheKeyExtra capabilityId input files baseDir
  pluginVersion := pluginVersion r
  pluginId := pluginId r
  pluginThreading := pluginThreading r

/-! ## Stage outputs on disk -/

/-- Only the output of a writer is kept: its path, behind a kind byte and a length. -/
def serializeStageOutput : StageOutput M G F → Option (List UInt8)
  | .path path =>
    some ((StageOutput.path path : StageOutput M G F).kind ::
      (u64Bytes (UInt64.ofNat path.utf8ByteSize) ++ bytesOf path))
  | _ => none

/-- A blob of a path whose file is there. -/
def deserializeStageOutput (blob : List UInt8) (files : Files) : Option (StageOutput M G F) :=
  if blob.length < 9 then none
  else if blob.head? ≠ some 4 then none
  else
    let len := ofBytes ((blob.drop 1).take 8)
    if blob.length ≠ 9 + len then none
    else
      match String.fromUTF8? ⟨(blob.drop 9).toArray⟩ with
      | none => none
      | some path => if (files path).isSome then some (.path path) else none

end Souxmar.Pipeline
