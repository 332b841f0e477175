import ShaderIR.Index

/-! Symbol tables. A table maps the hash of a name to the value that owns it, so two names with
one hash are the same name. A newcomer whose hash is taken is renamed: a separator and the least
unused counter follow its name, and the counter never goes back. The hash is a parameter. -/

namespace ShaderIR

structure SymbolTable where
  separator : String
  entries : Std.ExtTreeMap UInt64 ValueId := ∅
  lastUnique : Nat := 0

namespace SymbolTable

variable (hash : String → UInt64)

def counterLimit : Nat := Nat.pow 2 32

def find? (t : SymbolTable) (h : UInt64) : Option ValueId := t.entries[h]?

def lookup (t : SymbolTable) (name : String) : Option ValueId := t.find? (hash name)

def insert (t : SymbolTable) (h : UInt64) (v : ValueId) : SymbolTable :=
  { t with entries := t.entries.insert h v }

def erase (t : SymbolTable) (h : UInt64) : SymbolTable :=
  { t with entries := t.entries.erase h }

def size (t : SymbolTable) : Nat := t.entries.size

/-- The entries in the order of their hashes. -/
def toList (t : SymbolTable) : List (UInt64 × ValueId) := t.entries.toList

/-- The registered values in the order of their indices. -/
def values (t : SymbolTable) : List ValueId :=
  (t.toList.map Prod.snd).mergeSort fun v w => v.index ≤ w.index

def candidate (t : SymbolTable) (name : String) (n : Nat) : String :=
  name ++ t.separator ++ toString n

/-- The first of the next counters whose candidate is free. -/
def freeCounter? (t : SymbolTable) (name : String) : Nat → Nat → Option Nat
  | 0, _ => none
  | tries + 1, n =>
    match t.find? (hash (t.candidate name (n + 1))) with
    | none => some (n + 1)
    | some _ => freeCounter? t name tries (n + 1)

/-- Registers a value under a name and returns the name that it got, or nothing when every
counter is used up. -/
def claim (t : SymbolTable) (name : String) (v : ValueId) : Option String × SymbolTable :=
  match t.find? (hash name) with
  | none => (some name, t.insert (hash name) v)
  | some _ =>
    match t.freeCounter? hash name (counterLimit - 1 - t.lastUnique) t.lastUnique with
    | none => (none, { t with lastUnique := max t.lastUnique (counterLimit - 1) })
    | some n =>
      let renamed := t.candidate name n
      (some renamed, { t.insert (hash renamed) v with lastUnique := n })

theorem find?_insert (t : SymbolTable) (h : UInt64) (v : ValueId) (k : UInt64) :
    (t.insert h v).find? k = if h = k then some v else t.find? k :=
  getElem?_insert_eq_ite ..

theorem find?_erase (t : SymbolTable) (h k : UInt64) :
    (t.erase h).find? k = if h = k then none else t.find? k :=
  getElem?_erase_eq_ite ..

end SymbolTable

end ShaderIR
