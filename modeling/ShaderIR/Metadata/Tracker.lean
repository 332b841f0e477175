import ShaderIR.Violation

/-! Who refers to a replaceable node. Each location that holds the node is stamped when it is
registered; locations are listed in the order of their stamps. A location that moves keeps its
stamp. Nodes that are not replaceable are not tracked. -/

namespace ShaderIR

/-- The stamped locations of one node. -/
structure Stamps where
  stampOf : Std.ExtTreeMap Location Nat := ∅
  next : Nat := 0

namespace Stamps

/-- Puts a stamped location before the first one with a later stamp. -/
def insertOrdered (x : Location × Nat) : List (Location × Nat) → List (Location × Nat)
  | [] => [x]
  | y :: ys => if x.2 ≤ y.2 then x :: y :: ys else y :: insertOrdered x ys

def locations (s : Stamps) : List Location :=
  (s.stampOf.toList.foldr insertOrdered []).map Prod.fst

def contains (s : Stamps) (l : Location) : Bool := s.stampOf.contains l

def size (s : Stamps) : Nat := s.stampOf.size

def add (s : Stamps) (l : Location) : Stamps := ⟨s.stampOf.insert l s.next, s.next + 1⟩

def erase (s : Stamps) (l : Location) : Stamps := { s with stampOf := s.stampOf.erase l }

def move (s : Stamps) (stamp : Nat) (old new : Location) : Stamps :=
  { s with stampOf := (s.stampOf.erase old).insert new stamp }

end Stamps

/-- The tracked locations of every replaceable node. -/
structure Tracker where
  nodes : Std.ExtTreeMap NodeId Stamps := ∅

namespace Tracker

def put (t : Tracker) (n : NodeId) (s : Stamps) : Tracker := ⟨t.nodes.insert n s⟩

def isReplaceable (t : Tracker) (n : NodeId) : Bool := t.nodes.contains n

/-- The stamps of a node; a node that is not replaceable has none. -/
def stamps (t : Tracker) (n : NodeId) : Stamps := t.nodes[n]?.getD {}

def isTracked (t : Tracker) (l : Location) (n : NodeId) : Bool := (t.stamps n).contains l

def count (t : Tracker) (n : NodeId) : Nat := (t.stamps n).size

def tracked (t : Tracker) (n : NodeId) : List Location := (t.stamps n).locations

/-- Starts to track a node; a node that is tracked already keeps its locations. -/
def makeReplaceable (t : Tracker) (n : NodeId) : Tracker :=
  if t.isReplaceable n then t else t.put n {}

/-- Records that a location holds a node. The answer is whether the node is replaceable. -/
def track (t : Tracker) (l : Location) (n : NodeId) : Except Violation (Bool × Tracker) :=
  match t.nodes[n]? with
  | none => .ok (false, t)
  | some s => if s.contains l then .error (.doubleTrack l n) else .ok (true, t.put n (s.add l))

/-- Forgets that a location holds a node. The answer is whether it was known. -/
def untrack (t : Tracker) (l : Location) (n : NodeId) : Bool × Tracker :=
  match t.nodes[n]? with
  | none => (false, t)
  | some s => if s.contains l then (true, t.put n (s.erase l)) else (false, t)

def retrack (t : Tracker) (old : Location) (n : NodeId) (new : Location) :
    Except Violation (Bool × Tracker) :=
  match t.nodes[n]? with
  | none => .ok (false, t)
  | some s =>
    if old = new then .ok (true, t)
    else if s.contains new then .error (.trackedLocationOccupied new n)
    else match s.stampOf[old]? with
      | none => .error (.missingTrackedLocation old n)
      | some stamp => .ok (true, t.put n (s.move stamp old new))

/-- Empties the list of a node, which stays replaceable. -/
def take (t : Tracker) (n : NodeId) : List Location × Tracker :=
  match t.nodes[n]? with
  | none => ([], t)
  | some s => (s.locations, t.put n { s with stampOf := ∅ })

/-- Stops tracking a node and says how many locations still held it. -/
def resolve (t : Tracker) (n : NodeId) : Nat × Tracker := (t.count n, ⟨t.nodes.erase n⟩)

end Tracker

end ShaderIR
