import Mathlib.Algebra.Field.Basic
import Mathlib.Algebra.Order.Floor.Defs
import Mathlib.Data.Rat.Cast.Defs
import Mathlib.Algebra.Order.Group.Unbundled.Abs
import Mathlib.Data.List.Sort
import Mathlib.Logic.Function.Basic

/-!
# Slicing

The planar slicer of `slicer.cpp` in exact arithmetic over an ordered field: a triangle against a plane, the welding of
endpoints, the chaining into contours, and the sweep over the layers. `sqrt` is a parameter. Ids of nodes, segments and
triangles are 32 bits wide.
-/

namespace Souxmar.Am.Slicer

structure Point2 (K : Type*) where
  u : K
  v : K
deriving DecidableEq

/-- A point in the coordinates of the frame. -/
structure Vertex (K : Type*) where
  u : K
  v : K
  h : K
deriving DecidableEq

structure Triangle (K : Type*) where
  p0 : Vertex K
  p1 : Vertex K
  p2 : Vertex K
deriving DecidableEq

def Triangle.vertices {K : Type*} (t : Triangle K) : List (Vertex K) := [t.p0, t.p1, t.p2]

def Triangle.edges {K : Type*} (t : Triangle K) : List (Vertex K × Vertex K) := [(t.p0, t.p1), (t.p1, t.p2), (t.p2, t.p0)]

structure Contour (K : Type*) where
  points : List (Point2 K)
  closed : Bool
  hole : Bool
  perimeter : K
  signedArea : K

structure LayerSlice (K : Type*) where
  h : K
  contours : List (Contour K) := []
  openContours : ℕ := 0
  coplanarTriangles : ℕ := 0
  vertexTouches : ℕ := 0
  degenerateDropped : ℕ := 0
  duplicateDropped : ℕ := 0

structure Tolerances (K : Type*) where
  planeEps : K
  weldTol : K

def kNoSeg : ℕ := 2 ^ 32 - 1

def kNoNode : ℕ := 2 ^ 32 - 1

section

variable {K : Type*} [Field K] [LinearOrder K]

/-! ## One triangle -/

def distance (sqrt : K → K) (a b : Point2 K) : K :=
  let du := b.u - a.u
  let dv := b.v - a.v
  sqrt (du * du + dv * dv)

/-- Adds a point unless it is there already. -/
def pushPoint (sqrt : K → K) (weldTol : K) (pts : List (Point2 K)) (p : Point2 K) : List (Point2 K) :=
  if pts.any fun q => decide (distance sqrt q p ≤ weldTol) then pts
  else if pts.length < 3 then pts ++ [p]
  else pts

/-- The height of a vertex over the plane, zero within the tolerance. -/
def snapped (h eps : K) (p : Vertex K) : K :=
  let di := p.h - h
  if |di| ≤ eps then 0 else di

/-- The vertices in the plane. -/
def vertexPoints (d : Vertex K → K) (t : Triangle K) : List (Point2 K) :=
  t.vertices.filterMap fun p => if d p = 0 then some ⟨p.u, p.v⟩ else none

def edgePoint (d : Vertex K → K) (e : Vertex K × Vertex K) : Point2 K :=
  let s := d e.1 / (d e.1 - d e.2)
  ⟨e.1.u + s * (e.2.u - e.1.u), e.1.v + s * (e.2.v - e.1.v)⟩

/-- The points of the edges with their ends on the two sides. -/
def edgePoints (d : Vertex K → K) (t : Triangle K) : List (Point2 K) :=
  t.edges.filterMap fun e =>
    if (d e.1 > 0 ∧ d e.2 < 0) ∨ (d e.1 < 0 ∧ d e.2 > 0) then some (edgePoint d e) else none

/-- The counters behind one triangle and its segment. -/
def intersectTriangle (sqrt : K → K) (t : Triangle K) (h eps weldTol : K) (ls : LayerSlice K) :
    LayerSlice K × Option (Point2 K × Point2 K) :=
  let d := snapped h eps
  if ∀ p ∈ t.vertices, d p = 0 then ({ ls with coplanarTriangles := ls.coplanarTriangles + 1 }, none)
  else
    match (vertexPoints d t ++ edgePoints d t).foldl (pushPoint sqrt weldTol) [] with
    | [_] => ({ ls with vertexTouches := ls.vertexTouches + 1 }, none)
    | [a, b] => (ls, some (a, b))
    | _ => (ls, none)

/-! ## Welding -/

structure WeldGrid (K : Type*) where
  cell : K
  tol : K
  buckets : ℤ × ℤ → List ℕ
  points : List (Point2 K)

variable [FloorRing K]

def quantise (x cellSize : K) : ℤ :=
  let s := x / cellSize
  if ¬s > -9.0e15 then -9000000000000000
  else if ¬s < 9.0e15 then 9000000000000000
  else ⌊s⌋

def WeldGrid.keyOf (g : WeldGrid K) (p : Point2 K) : ℤ × ℤ := (quantise p.u g.cell, quantise p.v g.cell)

omit [FloorRing K] in
def WeldGrid.close (g : WeldGrid K) (p : Point2 K) (idx : ℕ) : Bool :=
  let q := g.points.getD idx ⟨0, 0⟩
  let du := q.u - p.u
  let dv := q.v - p.v
  decide (du * du + dv * dv ≤ g.tol * g.tol)

/-- The points of the neighbourhood within the tolerance. -/
def WeldGrid.near (g : WeldGrid K) (p : Point2 K) : List ℕ :=
  let key := g.keyOf p
  ([-1, 0, 1].flatMap fun di => [-1, 0, 1].flatMap fun dj => g.buckets (key.1 + di, key.2 + dj)).filter (g.close p)

def WeldGrid.weld (g : WeldGrid K) (p : Point2 K) : WeldGrid K × ℕ :=
  let best := (g.near p).foldl (fun best idx => if idx < best then idx else best) kNoNode
  if best ≠ kNoNode then (g, best)
  else
    let id := g.points.length % 2 ^ 32
    let key := g.keyOf p
    ({ g with points := g.points ++ [p], buckets := Function.update g.buckets key (g.buckets key ++ [id]) }, id)

structure WeldedSeg where
  a : ℕ
  b : ℕ
deriving DecidableEq

/-- What the welding loop keeps. -/
structure Welding (K : Type*) where
  grid : WeldGrid K
  segs : List WeldedSeg
  seen : List (ℕ × ℕ)
  ls : LayerSlice K

def weldStep (s : Welding K) (raw : Point2 K × Point2 K) : Welding K :=
  let first := s.grid.weld raw.1
  let second := first.1.weld raw.2
  let a := first.2
  let b := second.2
  let key := (min a b, max a b)
  if a = b then { s with grid := second.1, ls := { s.ls with degenerateDropped := s.ls.degenerateDropped + 1 } }
  else if key ∈ s.seen then
    { s with grid := second.1, ls := { s.ls with duplicateDropped := s.ls.duplicateDropped + 1 } }
  else { s with grid := second.1, segs := s.segs ++ [⟨a, b⟩], seen := s.seen ++ [key] }

def weldAll (raw : List (Point2 K × Point2 K)) (weldTol : K) (ls : LayerSlice K) : Welding K :=
  let grid : WeldGrid K := ⟨if weldTol > 0 then weldTol else 1e-12, weldTol, fun _ => [], []⟩
  raw.foldl weldStep ⟨grid, [], [], ls⟩

end

/-! ## Chaining -/

/-- The segments at a node, in segment order. -/
def incident (segs : List WeldedSeg) (node : ℕ) : List ℕ :=
  segs.zipIdx.flatMap fun t =>
    (if t.1.a = node then [t.2 % 2 ^ 32] else []) ++ (if t.1.b = node then [t.2 % 2 ^ 32] else [])

/-- The first unused segment at a node. -/
def pick (segs : List WeldedSeg) (used : ℕ → Bool) (node : ℕ) : ℕ :=
  ((incident segs node).find? fun s => !used s).getD kNoSeg

def other (segs : List WeldedSeg) (s node : ℕ) : ℕ :=
  let seg := segs.getD s ⟨0, 0⟩
  if seg.a = node then seg.b else seg.a

structure Chain where
  used : ℕ → Bool
  nodes : List ℕ
  closed : Bool

/-- The walk from the back of the chain. -/
def walkForward (segs : List WeldedSeg) : ℕ → Chain → Option Chain
  | 0, _ => none
  | fuel + 1, c =>
    let cur := c.nodes.getLastD 0
    if cur = c.nodes.headD 0 then some { c with nodes := c.nodes.dropLast, closed := true }
    else
      let nxt := pick segs c.used cur
      if nxt = kNoSeg then some c
      else walkForward segs fuel ⟨Function.update c.used nxt true, c.nodes ++ [other segs nxt cur], false⟩

/-- The walk from its front. -/
def walkBackward (segs : List WeldedSeg) : ℕ → Chain → Option Chain
  | 0, _ => none
  | fuel + 1, c =>
    let cur := c.nodes.headD 0
    let nxt := pick segs c.used cur
    if nxt = kNoSeg then some c
    else
      let o := other segs nxt cur
      if o = c.nodes.getLastD 0 then some ⟨Function.update c.used nxt true, c.nodes, true⟩
      else walkBackward segs fuel ⟨Function.update c.used nxt true, o :: c.nodes, false⟩

/-- The chain of a segment. Each round of a walk uses a segment. -/
def traceFrom (segs : List WeldedSeg) (used : ℕ → Bool) (s0 : ℕ) : Option Chain :=
  let seg := segs.getD s0 ⟨0, 0⟩
  match walkForward segs (segs.length + 1) ⟨Function.update used s0 true, [seg.a, seg.b], false⟩ with
  | none => none
  | some c => if c.closed then some c else walkBackward segs (segs.length + 1) c

/-- The loop over the segments: what is used, and the chains so far. -/
def traceStep (segs : List WeldedSeg) (st : (ℕ → Bool) × List Chain) (s0 : ℕ) : Option ((ℕ → Bool) × List Chain) :=
  if st.1 s0 = true then some st
  else (traceFrom segs st.1 s0).map fun c => (c.used, st.2 ++ [c])

def traceAll (segs : List WeldedSeg) : Option (List Chain) :=
  ((List.range segs.length).foldlM (traceStep segs) (fun _ => false, [])).map Prod.snd

/-- A chain that is dropped. -/
def Chain.degenerate (c : Chain) : Bool := (c.closed && decide (c.nodes.length < 3)) || decide (c.nodes.length < 2)

section

variable {K : Type*} [Field K] [LinearOrder K]

def shoelace (pts : List (Point2 K)) : K :=
  let n := pts.length
  0.5 * ((List.range n).map fun i =>
    let a := pts.getD i ⟨0, 0⟩
    let b := pts.getD ((i + 1) % n) ⟨0, 0⟩
    a.u * b.v - b.u * a.v).sum

def contourOf (sqrt : K → K) (points : List (Point2 K)) (closed : Bool) : Contour K where
  points := points
  closed := closed
  hole := false
  perimeter :=
    ((List.range (points.length - 1)).map fun i =>
      distance sqrt (points.getD i ⟨0, 0⟩) (points.getD (i + 1) ⟨0, 0⟩)).sum +
      if closed then distance sqrt (points.getLastD ⟨0, 0⟩) (points.headD ⟨0, 0⟩) else 0
  signedArea := shoelace points

def addChain (sqrt : K → K) (points : List (Point2 K)) (ls : LayerSlice K) (c : Chain) : LayerSlice K :=
  if c.degenerate then { ls with degenerateDropped := ls.degenerateDropped + 1 }
  else
    { ls with
      openContours := if c.closed then ls.openContours else ls.openContours + 1
      contours := ls.contours ++ [contourOf sqrt (c.nodes.map fun id => points.getD id ⟨0, 0⟩) c.closed] }

/-! ## Holes and order -/

/-- The even-odd crossing test. -/
def pointInRing (q : Point2 K) (ring : List (Point2 K)) : Bool :=
  let n := ring.length
  (List.range n).foldl
    (fun inside i =>
      let a := ring.getD i ⟨0, 0⟩
      let b := ring.getD ((i + n - 1) % n) ⟨0, 0⟩
      if decide (a.v > q.v) ≠ decide (b.v > q.v) then
        if q.u < (b.u - a.u) * (q.v - a.v) / (b.v - a.v) + a.u then !inside else inside
      else inside) false

def lower (p q : Point2 K) : Prop := p.v < q.v ∨ (p.v = q.v ∧ p.u < q.u)

instance (p q : Point2 K) : Decidable (lower p q) := inferInstanceAs (Decidable (_ ∨ _))

/-- The index of the lowest point. -/
def lowestIndex (pts : List (Point2 K)) : ℕ :=
  (List.range' 1 (pts.length - 1)).foldl
    (fun start k => if lower (pts.getD k ⟨0, 0⟩) (pts.getD start ⟨0, 0⟩) then k else start) 0

/-- One round of the hole classification: depth, orientation and first point of a closed contour. -/
def classifyAt (cs : List (Contour K)) (i : ℕ) : List (Contour K) :=
  match cs[i]? with
  | none => cs
  | some ci =>
    if ci.closed = false then cs
    else
      let depth := (cs.zipIdx.filter fun t =>
        t.2 ≠ i ∧ t.1.closed = true ∧ pointInRing (ci.points.getD 0 ⟨0, 0⟩) t.1.points = true).length
      let hole := decide (depth % 2 = 1)
      let turn := (hole = false ∧ ci.signedArea < 0) ∨ (hole = true ∧ ci.signedArea > 0)
      let points := if turn then ci.points.reverse else ci.points
      cs.set i
        { ci with
          hole := hole
          signedArea := if turn then -ci.signedArea else ci.signedArea
          points := points.rotate (lowestIndex points) }

def lowest (c : Contour K) : Point2 K := c.points.foldl (fun best p => if lower p best then p else best) (c.points.headD ⟨0, 0⟩)

/-- The first coordinates that differ. -/
def pointsLess : List (Point2 K × Point2 K) → Option Bool
  | [] => none
  | (p, q) :: rest =>
    if p.v ≠ q.v then some (decide (p.v < q.v))
    else if p.u ≠ q.u then some (decide (p.u < q.u))
    else pointsLess rest

def contourLess (a b : Contour K) : Bool :=
  let la := lowest a
  let lb := lowest b
  if la.v ≠ lb.v then decide (la.v < lb.v)
  else if la.u ≠ lb.u then decide (la.u < lb.u)
  else if a.points.length ≠ b.points.length then decide (a.points.length < b.points.length)
  else (pointsLess (a.points.zip b.points)).getD (!a.closed && b.closed)

def classify (contours : List (Contour K)) : List (Contour K) :=
  ((List.range contours.length).foldl classifyAt contours).insertionSort fun a b => contourLess b a = false

variable [FloorRing K]

/-- `chain_layer`. -/
def chainLayer (sqrt : K → K) (raw : List (Point2 K × Point2 K)) (weldTol : K) (ls : LayerSlice K) :
    Option (LayerSlice K) :=
  let w := weldAll raw weldTol ls
  if w.segs = [] then some w.ls
  else
    (traceAll w.segs).map fun chains =>
      let ls := chains.foldl (addChain sqrt w.grid.points) w.ls
      { ls with contours := classify ls.contours }

/-! ## The sweep -/

structure SliceSet (K : Type*) where
  h0 : K
  dh : K
  layers : List (LayerSlice K) := []
  closedContours : ℕ := 0
  openContours : ℕ := 0
  coplanarTriangles : ℕ := 0
  vertexTouches : ℕ := 0
  degenerateDropped : ℕ := 0
  duplicateDropped : ℕ := 0

/-- The triangles against one plane, in this order. -/
def intersectAll (sqrt : K → K) (tol : Tolerances K) (h : K) (ts : List (Triangle K)) :
    LayerSlice K × List (Point2 K × Point2 K) :=
  ts.foldl
    (fun st t =>
      let result := intersectTriangle sqrt t h tol.planeEps tol.weldTol st.1
      (result.1, st.2 ++ result.2.toList)) ({ h := h }, [])

/-- One plane: its triangles are intersected and their segments chained. -/
def slicePlane (sqrt : K → K) (tol : Tolerances K) (h : K) (ts : List (Triangle K)) : Option (LayerSlice K) :=
  let result := intersectAll sqrt tol h ts
  chainLayer sqrt result.2 tol.weldTol result.1

omit [FloorRing K] in
def lowestHeight (t : Triangle K) : K := min t.p0.h (min t.p1.h t.p2.h)

omit [FloorRing K] in
def highestHeight (t : Triangle K) : K := max t.p0.h (max t.p1.h t.p2.h)

/-- The triangles that the sweep still has to take up and the ones it has. -/
structure Sweep where
  pending : List ℕ
  active : List ℕ

/-- The sweep at the next plane. -/
def Sweep.moveTo (hLo hHi : ℕ → K) (s : Sweep) (h : K) : Sweep :=
  ⟨s.pending.dropWhile fun i => decide (hLo i ≤ h),
    (s.active ++ s.pending.takeWhile fun i => decide (hLo i ≤ h)).filter fun i => ¬hHi i < h⟩

def addLayer (out : SliceSet K) (ls : LayerSlice K) : SliceSet K :=
  { out with
    layers := out.layers ++ [ls]
    coplanarTriangles := out.coplanarTriangles + ls.coplanarTriangles
    vertexTouches := out.vertexTouches + ls.vertexTouches
    degenerateDropped := out.degenerateDropped + ls.degenerateDropped
    duplicateDropped := out.duplicateDropped + ls.duplicateDropped
    openContours := out.openContours + ls.openContours
    closedContours := out.closedContours + (ls.contours.filter fun c => c.closed).length }

/-- The order of the sweep: lowest height, then index. -/
def sweepOrder (hLo : ℕ → K) (count : ℕ) : List ℕ :=
  ((List.range count).map (· % 2 ^ 32)).insertionSort fun a b =>
    ¬if hLo b ≠ hLo a then hLo b < hLo a else b < a

def planeHeight (h0 dh : K) (k : ℕ) : K := h0 + k * dh

def sliceUniform (sqrt : K → K) (triangles : List (Triangle K)) (h0 dh : K) (numLayers : ℕ) (tol : Tolerances K) :
    Option (SliceSet K) :=
  if numLayers = 0 ∨ ¬dh > 0 then some { h0 := h0, dh := dh }
  else if triangles = [] then
    some { h0 := h0, dh := dh, layers := (List.range numLayers).map fun k => { h := planeHeight h0 dh k } }
  else
    let origin : Vertex K := ⟨0, 0, 0⟩
    let zero : Triangle K := ⟨origin, origin, origin⟩
    let hLo := fun i => lowestHeight (triangles.getD i zero) - tol.planeEps
    let hHi := fun i => highestHeight (triangles.getD i zero) + tol.planeEps
    ((List.range numLayers).foldlM
      (fun (st : Sweep × SliceSet K) k =>
        let h := planeHeight h0 dh k
        let sweep := st.1.moveTo hLo hHi h
        (slicePlane sqrt tol h (sweep.active.map fun i => triangles.getD i zero)).map fun ls =>
          (sweep, addLayer st.2 ls))
      (⟨sweepOrder hLo triangles.length, []⟩, { h0 := h0, dh := dh })).map Prod.snd

end

end Souxmar.Am.Slicer
