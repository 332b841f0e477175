import ShaderIR.Index

/-! Metadata nodes. A uniqued node is interned by content and never edited, a distinct node is
itself, and a temporary node is a forward declaration. -/

namespace ShaderIR

inductive NodeKind
  | string | value | tuple
  deriving DecidableEq, Repr

def NodeKind.text : NodeKind → String
  | .string => "string"
  | .value => "value"
  | .tuple => "tuple"

/-- How a node is owned. -/
inductive Storage
  | uniqued | distinct | temporary
  deriving DecidableEq, Repr

def Storage.text : Storage → String
  | .uniqued => "uniqued"
  | .distinct => "distinct"
  | .temporary => "temporary"

/-- What a node holds, by which uniqued nodes are interned. -/
inductive Content
  | string (text : String)
  | value (wrapped : ValueId)
  | tuple (operands : List (Option NodeId))
  deriving DecidableEq

structure Node where
  storage : Storage
  content : Content
  deriving DecidableEq

namespace Content

def kind : Content → NodeKind
  | .string _ => .string
  | .value _ => .value
  | .tuple _ => .tuple

def operands : Content → List (Option NodeId)
  | .tuple ops => ops
  | _ => []

def code : Content → List Nat
  | .string text => 0 :: text.toList.map Char.toNat
  | .value wrapped => [1, wrapped.index]
  | .tuple ops => 2 :: ops.map fun op => Key.optional (op.map Index.index)

theorem operandCode_inj {a b : Option NodeId}
    (h : Key.optional (a.map Index.index) = Key.optional (b.map Index.index)) : a = b := by
  have hi := Key.optional_inj h
  cases a <;> cases b <;> simp_all [Index.index_inj]

instance : Key Content where
  code := Content.code
  code_inj {a b} h := by
    cases a <;> cases b <;> obtain ⟨hd, tl⟩ := List.cons.inj h <;>
      first
        | exact absurd hd (by decide)
        | skip
    · rw [String.toList_inj.1 ((List.map_inj_right fun _ _ hc => Char.toNat_inj.1 hc).1 tl)]
    · rw [Index.index_inj.1 (List.cons.inj tl).1]
    · rw [(List.map_inj_right fun _ _ hop => operandCode_inj hop).1 tl]

end Content

end ShaderIR
