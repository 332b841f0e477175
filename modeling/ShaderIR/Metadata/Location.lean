import ShaderIR.Index

/-! The places that hold a reference to a metadata node. -/

namespace ShaderIR

inductive Location
  /-- An operand of a tuple. -/
  | operand (node : NodeId) (position : Nat)
  /-- The payload of a value that wraps a node. -/
  | wrapper (value : ValueId)
  | handle (holder : HandleId)
  | attachment (value : ValueId) (tag : TagId)
  deriving DecidableEq

inductive Owner
  | node (node : NodeId)
  | wrapper (value : ValueId)
  | unowned
  deriving DecidableEq

namespace Location

def text : Location → String
  | .operand node position => "operand " ++ toString position ++ " of " ++ node.text
  | .wrapper value => "wrapper " ++ value.text
  | .handle h => h.text
  | .attachment value tag => tag.text ++ " attachment of " ++ value.text

def owner : Location → Owner
  | .operand node _ => .node node
  | .wrapper value => .wrapper value
  | .handle _ | .attachment _ _ => .unowned

def code : Location → List Nat
  | .operand node position => [0, node.index, position]
  | .wrapper value => [1, value.index]
  | .handle h => [2, h.index]
  | .attachment value tag => [3, value.index, tag.index]

instance : Key Location where
  code := Location.code
  code_inj {a b} h := by
    cases a <;> cases b <;> simp_all [code, Index.index_inj]

end Location

end ShaderIR
