import ShaderIR.Metadata.Location
import ShaderIR.Text.Quoted
import ShaderIR.Value

/-! What a verification finds, and how it is reported. -/

namespace ShaderIR

inductive Defect
  | edgeOwnerMismatch (user : ValueId) (slot : Nat) (recordedUser : ValueId) (recordedSlot : Nat)
  | danglingOperand (user : ValueId) (slot : Nat) (target : ValueId)
  | foreignEdge (value : ValueId) (target : Option ValueId)
  | brokenLinks (value : ValueId)
  | useCountMismatch (value : ValueId) (listed actual : Nat)
  | containerMismatch (container : String) (child : ValueId)
  | unlistedChild (container : String) (child : ValueId)
  | unregisteredName (value : ValueId) (name scope : String)
  | staleSymbol (scope : String) (hash : UInt64) (value : ValueId)
  | trackedLocationMismatch (location : Location) (target : NodeId) (actual : Option NodeId)
  deriving DecidableEq

def Defect.message : Defect → String
  | .edgeOwnerMismatch user slot recordedUser recordedSlot =>
    user.text ++ " operand " ++ toString slot ++ " is backed by an edge of " ++
      recordedUser.text ++ " operand " ++ toString recordedSlot
  | .danglingOperand user slot target =>
    user.text ++ " operand " ++ toString slot ++ " points at destroyed value " ++ target.text
  | .foreignEdge value target =>
    "use list of " ++ value.text ++ " holds an edge targeting " ++ Index.optionText target
  | .brokenLinks value => "use list of " ++ value.text ++ " is not properly linked"
  | .useCountMismatch value listed actual =>
    value.text ++ " lists " ++ toString listed ++ " use(s) but " ++ toString actual ++
      " operand slot(s) point at it"
  | .containerMismatch container child =>
    child.text ++ " is listed in " ++ container ++ " but its parent link disagrees"
  | .unlistedChild container child =>
    child.text ++ " names " ++ container ++ " as its parent but is not listed there"
  | .unregisteredName value name scope =>
    value.text ++ " named " ++ Text.quoted name ++ " is not registered in " ++ scope
  | .staleSymbol scope hash value =>
    scope ++ " maps hash 0x" ++ Text.hex hash.toNat ++ " to " ++ value.text ++
      ", which does not own that name"
  | .trackedLocationMismatch location target actual =>
    location.text ++ " is tracked on " ++ target.text ++ " but holds " ++
      Index.optionText actual

/-- The defects of a store in the order in which they were found. -/
abbrev Report := List Defect

def Report.text (r : Report) : String :=
  if r.isEmpty then "verification passed"
  else toString r.length ++ " error(s) found:\n" ++
    String.join (r.map fun d => "  - " ++ d.message ++ "\n")

end ShaderIR
