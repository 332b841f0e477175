import ShaderIR.Index

/-! Constants and the content by which they are interned. -/

namespace ShaderIR

/-- What a constant is. A block address has its function and block as operands. -/
inductive ConstantData
  | int (value : Int64)
  | null
  | undefined
  | blockAddress
  deriving DecidableEq

/-- The content of a constant: no two live constants share one. -/
inductive ConstantKey
  | scalar (ty : TypeId) (data : ConstantData)
  | blockAddress (function block : ValueId)
  deriving DecidableEq

def ConstantData.code : ConstantData → List Nat
  | .int value => [0, value.toBitVec.toNat]
  | .null => [1]
  | .undefined => [2]
  | .blockAddress => [3]

theorem ConstantData.code_inj {a b : ConstantData} (h : a.code = b.code) : a = b := by
  cases a <;> cases b <;> simp_all [code, ← BitVec.toNat_eq, Int64.toBitVec_inj]

def ConstantKey.code : ConstantKey → List Nat
  | .scalar ty data => 0 :: ty.index :: data.code
  | .blockAddress function block => [1, function.index, block.index]

instance : Key ConstantKey where
  code := ConstantKey.code
  code_inj {a b} h := by
    cases a <;> cases b <;>
      simp_all only [ConstantKey.code, List.cons.injEq, Index.index_inj, true_and, and_true,
        false_and, Nat.zero_ne_one, Nat.one_ne_zero]
    rw [ConstantData.code_inj h.2]

end ShaderIR
