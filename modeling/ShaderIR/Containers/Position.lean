import ShaderIR.Value

/-! Places in the child list of a container. -/

namespace ShaderIR

/-- Puts a value right before an anchor; at the end without one, or if it is not in the list. -/
def insertBefore (v : ValueId) (anchor : Option ValueId) : List ValueId → List ValueId
  | [] => [v]
  | w :: rest => if anchor = some w then v :: w :: rest else w :: insertBefore v anchor rest

def without (v : ValueId) (vs : List ValueId) : List ValueId := vs.filter (· ≠ v)

theorem insertBefore_none (v : ValueId) (vs : List ValueId) :
    insertBefore v none vs = vs ++ [v] := by
  induction vs with
  | nil => rfl
  | cons w rest ih => simp only [insertBefore, reduceCtorEq, if_false, ih, List.cons_append]

theorem insertBefore_append (v a : ValueId) (before rest : List ValueId) (h : a ∉ before) :
    insertBefore v (some a) (before ++ a :: rest) = before ++ v :: a :: rest := by
  induction before with
  | nil => simp only [List.nil_append, insertBefore, if_true]
  | cons w before ih =>
    rw [List.mem_cons, not_or] at h
    simp only [List.cons_append, insertBefore, Option.some.injEq, if_neg h.1, ih h.2]

end ShaderIR
