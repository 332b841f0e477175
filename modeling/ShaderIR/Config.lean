/-! Options fixed when a store is made. -/

namespace ShaderIR

/-- What erasing a block does with the block addresses that point at it. -/
inductive BlockAddressPolicy
  /-- Put a null constant in their place and destroy them. -/
  | nullifyUsers
  /-- Treat them like any other use. -/
  | reject
  deriving DecidableEq, Repr

structure Config where
  /-- Stands between a taken name and its counter. -/
  nameSeparator : String := "."
  /-- Refuse to erase a scope whose symbol table is not empty. -/
  verifyScopeTeardown : Bool := true
  blockAddressPolicy : BlockAddressPolicy := .nullifyUsers
  deriving DecidableEq, Repr

end ShaderIR
