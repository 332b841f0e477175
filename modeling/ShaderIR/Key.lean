import Std.Data.ExtTreeMap

/-! Keys of finite maps. A key type tells its values apart by a list of numbers and is ordered by
that list; look-ups after an insertion or a removal are then decided by equality of keys. -/

namespace ShaderIR

/-- A type whose values are told apart by a list of numbers. -/
class Key (α : Type) where
  code : α → List Nat
  code_inj : ∀ {a b : α}, code a = code b → a = b

instance (priority := low) Key.instOrd {α : Type} [Key α] : Ord α where
  compare a b := compare (Key.code a) (Key.code b)

instance Key.instTransOrd {α : Type} [Key α] : Std.TransOrd α where
  eq_swap {a b} :=
    @Std.OrientedCmp.eq_swap (List Nat) compare inferInstance (Key.code a) (Key.code b)
  isLE_trans {a b c} :=
    @Std.TransCmp.isLE_trans (List Nat) compare inferInstance (Key.code a) (Key.code b)
      (Key.code c)

instance Key.instLawfulEqOrd {α : Type} [Key α] : Std.LawfulEqOrd α where
  compare_self {a} :=
    @Std.ReflCmp.compare_self (List Nat) compare inferInstance (Key.code a)
  eq_of_compare {a b} h := Key.code_inj
    (@Std.LawfulEqCmp.eq_of_compare (List Nat) compare inferInstance (Key.code a) (Key.code b) h)

/-- The code of an optional number: nothing is zero, a number is its successor. -/
def Key.optional : Option Nat → Nat
  | none => 0
  | some n => n + 1

theorem Key.optional_inj {a b : Option Nat} (h : optional a = optional b) : a = b := by
  cases a <;> cases b <;> simp_all [optional]

section Maps

variable {κ α : Type} [Ord κ] [Std.TransOrd κ] [Std.LawfulEqOrd κ] [DecidableEq κ]

theorem getElem?_insert_eq_ite (t : Std.ExtTreeMap κ α) (k : κ) (x : α) (a : κ) :
    (t.insert k x)[a]? = if k = a then some x else t[a]? := by
  rw [Std.ExtTreeMap.getElem?_insert]
  by_cases h : k = a <;> simp [h, Std.LawfulEqCmp.compare_eq_iff_eq]

theorem getElem?_erase_eq_ite (t : Std.ExtTreeMap κ α) (k a : κ) :
    (t.erase k)[a]? = if k = a then none else t[a]? := by
  rw [Std.ExtTreeMap.getElem?_erase]
  by_cases h : k = a <;> simp [h, Std.LawfulEqCmp.compare_eq_iff_eq]

end Maps

end ShaderIR
