import ShaderIR.Metadata.Location
import ShaderIR.Metadata.Node
import ShaderIR.Value

/-! What can go wrong. A violation breaks a rule of the store; a fault is whatever stops an
operation. What an operation had done before it stopped stays done. -/

namespace ShaderIR

inductive Violation
  | destroyWithUses (value : ValueId) (kind : ValueKind) (uses : Nat)
  | destroyWrappedValue (value : ValueId) (node : NodeId)
  | staleValue (value : ValueId)
  | staleNode (node : NodeId)
  | staleModule (module : ModuleId)
  | staleHandle (holder : HandleId)
  | wrongKind (value : ValueId) (expected found : ValueKind)
  | notAFunctionType (ty : TypeId)
  | typeMismatch (old new : ValueId)
  | operandOutOfRange (user : ValueId) (slot count : Nat)
  | immutableConstant (value : ValueId)
  | unnameableValue (value : ValueId) (kind : ValueKind)
  | alreadyOwned (value : ValueId)
  | notOwned (value : ValueId)
  | selfAnchor (value : ValueId)
  | scopeLeak (scope : String) (residual : Nat)
  | doubleTrack (location : Location) (target : NodeId)
  | missingTrackedLocation (location : Location) (target : NodeId)
  | trackedLocationOccupied (location : Location) (target : NodeId)
  | notReplaceable (node : NodeId)
  | nodeStillTracked (node : NodeId) (uses : Nat)
  | immutableNode (node : NodeId)
  | nodeOperandOutOfRange (node : NodeId) (position count : Nat)
  deriving DecidableEq

def Violation.message : Violation → String
  | .destroyWithUses value kind uses =>
    "cannot destroy " ++ kind.text ++ " " ++ value.text ++ ": " ++ toString uses ++
      " use(s) remain"
  | .destroyWrappedValue value node =>
    "cannot destroy " ++ value.text ++ ": still wrapped by metadata " ++ node.text
  | .staleValue value => "use of destroyed value " ++ value.text
  | .staleNode node => "use of erased metadata " ++ node.text
  | .staleModule module => "use of erased module " ++ module.text
  | .staleHandle holder => "use of released metadata handle " ++ holder.text
  | .wrongKind value expected found =>
    "expected " ++ expected.text ++ " for " ++ value.text ++ ", found " ++ found.text
  | .notAFunctionType ty => ty.text ++ " is not a function type"
  | .typeMismatch old new =>
    "replace_all_uses_with: " ++ new.text ++ " has a different type than " ++ old.text
  | .operandOutOfRange user slot count =>
    "operand index " ++ toString slot ++ " out of range for " ++ user.text ++ " with " ++
      toString count ++ " operand(s)"
  | .immutableConstant value =>
    "operands of constant " ++ value.text ++ " only change through replace_all_uses_with"
  | .unnameableValue value kind => kind.text ++ " " ++ value.text ++ " cannot have a name"
  | .alreadyOwned value => value.text ++ " already belongs to a container; remove it first"
  | .notOwned value => value.text ++ " is not inside a container"
  | .selfAnchor value => "cannot move " ++ value.text ++ " before itself"
  | .scopeLeak scope residual =>
    scope ++ " torn down with " ++ toString residual ++ " registered symbol(s)"
  | .doubleTrack location target => location.text ++ " is already tracked on " ++ target.text
  | .missingTrackedLocation location target =>
    location.text ++ " is not tracked on " ++ target.text
  | .trackedLocationOccupied location target =>
    location.text ++ " is already occupied on " ++ target.text
  | .notReplaceable node => "metadata " ++ node.text ++ " is not replaceable"
  | .nodeStillTracked node uses =>
    "metadata " ++ node.text ++ " still has " ++ toString uses ++ " tracked reference(s)"
  | .immutableNode node =>
    "uniqued metadata " ++ node.text ++ " cannot be edited in place"
  | .nodeOperandOutOfRange node position count =>
    "operand index " ++ toString position ++ " out of range for " ++ node.text ++ " with " ++
      toString count ++ " operand(s)"

inductive Unsupported
  | wrapping (kind : ValueKind)
  | attachments (kind : ValueKind)
  | operandEdits (kind : NodeKind)
  | other (what : String)
  deriving DecidableEq

def Unsupported.message : Unsupported → String
  | .wrapping kind => "metadata wrapping of " ++ kind.text ++ " values"
  | .attachments kind => "metadata attachments on " ++ kind.text ++ " values"
  | .operandEdits kind => "operand edits on " ++ kind.text ++ " metadata"
  | .other what => what

inductive Fault
  | violation (broken : Violation)
  | unsupported (what : Unsupported)
  /-- A type or an attachment kind that was never handed out. -/
  | unknownIndex
  /-- A scope has used up its renaming counters. -/
  | counterExhausted
  /-- A replacement nested deeper than any store allows. -/
  | nestingExhausted
  deriving DecidableEq

end ShaderIR
