import ShaderIR.Metadata.Tracking

/-! Handles: free-standing references that follow a replaceable node. -/

namespace ShaderIR.Edit

/-- A new handle that holds something, not tracked yet. -/
def pushHandle (target : Option NodeId) : Edit HandleId :=
  modifyGet fun s =>
    (s.metadata.handles.next,
      s.modifyMetadata fun md => { md with handles := md.handles.push target })

def putHandle (h : HandleId) (target : Option NodeId) : Edit Unit :=
  modify (·.modifyMetadata fun md => { md with handles := md.handles.set h target })

def trackHandle (target : Option NodeId) : Edit HandleId := do
  expectNode target
  let h ← pushHandle target
  trackOption (.handle h) target
  return h

def resetHandle (h : HandleId) (target : Option NodeId) : Edit Unit := do
  let old ← Query.handle h
  if old = target then return
  expectNode target
  untrackOption (.handle h) old
  putHandle h target
  trackOption (.handle h) target

/-- Moves what a handle holds into a new one, at the same place among the tracked locations. -/
def moveHandle (h : HandleId) : Edit HandleId := do
  let target ← Query.handle h
  let moved ← pushHandle target
  putHandle h none
  retrackOption (.handle h) (.handle moved) target
  return moved

def releaseHandle (h : HandleId) : Edit Unit := do
  untrackOption (.handle h) (← Query.handle h)
  modify (·.modifyMetadata fun md => { md with handles := md.handles.erase h })

end ShaderIR.Edit
