import ShaderIR.Metadata.Tracking

/-! Metadata attached to instructions, functions and globals, one node under each tag. -/

namespace ShaderIR

namespace Query

def tagName (tag : TagId) : Query String := fun s =>
  match s.metadata.tags[tag.index]? with
  | some name => .ok name
  | none => .error .unknownIndex

end Query

def setAttachment (tag : TagId) (n : Option NodeId) :
    List (TagId × NodeId) → List (TagId × NodeId)
  | [] => (n.map (tag, ·)).toList
  | a :: rest =>
    if a.1 = tag then (n.map (tag, ·)).toList ++ rest else a :: setAttachment tag n rest

namespace Edit

def internTag (name : String) : Edit TagId := do
  let tags := (← get).metadata.tags
  match tags.findIdx? (· == name) with
  | some i => return ⟨i⟩
  | none =>
    modify (·.modifyMetadata fun md => { md with tags := md.tags ++ [name] })
    return ⟨tags.length⟩

/-- Attaches a node to a value under a tag; nothing removes the attachment. -/
def setMetadata (v : ValueId) (tag : TagId) (n : Option NodeId) : Edit Unit := do
  let kind ← Query.kind v
  if kind ≠ .instruction ∧ kind ≠ .function ∧ kind ≠ .global then
    throw (.unsupported (.attachments kind))
  let old ← Query.attachment v tag
  if old = n then return
  expectNode n
  untrackOption (.attachment v tag) old
  modifyValue v fun d => { d with attachments := setAttachment tag n d.attachments }
  trackOption (.attachment v tag) n

end Edit

end ShaderIR
