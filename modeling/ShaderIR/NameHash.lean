/-! The hash of a name. The bytes of the name are folded into two words, sixteen at a time, by a
full product of two words whose halves are combined; short names read their ends twice. -/

namespace ShaderIR.NameHash

def firstSeed : UInt64 := 0x243f6a8885a308d3
def secondSeed : UInt64 := 0x13198a2e03707344
def salt : UInt64 := 0xa4093822299f31d0
def factor : UInt64 := 0xf1357aea2e62a9c5

def mix (x y : UInt64) : UInt64 :=
  let p := x.toNat * y.toNat
  UInt64.ofNat p ^^^ UInt64.ofNat (p / Nat.pow 2 64)

def word (n : Nat) (bytes : List UInt8) : UInt64 :=
  (bytes.take n).foldr (fun b w => w <<< 8 ||| b.toUInt64) 0

def absorb : Nat → List UInt8 → UInt64 × UInt64 → UInt64 × UInt64
  | 0, _, s => s
  | k + 1, bytes, (s, t) =>
    absorb k (bytes.drop 16) (t, mix (s ^^^ word 8 bytes) (salt ^^^ word 8 (bytes.drop 8)))

def fold (bytes : List UInt8) : UInt64 × UInt64 :=
  let n := bytes.length
  if 16 < n then
    let (s, t) := absorb ((n - 1) / 16) bytes (firstSeed, secondSeed)
    (s ^^^ word 8 (bytes.drop (n - 16)), t ^^^ word 8 (bytes.drop (n - 8)))
  else if 8 ≤ n then
    (firstSeed ^^^ word 8 bytes, secondSeed ^^^ word 8 (bytes.drop (n - 8)))
  else if 4 ≤ n then
    (firstSeed ^^^ word 4 bytes, secondSeed ^^^ word 4 (bytes.drop (n - 4)))
  else if 0 < n then
    (firstSeed ^^^ word 1 bytes,
      secondSeed ^^^ (word 1 (bytes.drop (n - 1)) <<< 8 ||| word 1 (bytes.drop (n / 2))))
  else (firstSeed, secondSeed)

def ofBytes (bytes : List UInt8) : UInt64 :=
  let (s, t) := fold bytes
  mix s t ^^^ UInt64.ofNat bytes.length

def rotate (h : UInt64) : UInt64 := h <<< 26 ||| h >>> 38

end NameHash

/-- The hash by which naming scopes tell names apart unless a store has another one. -/
def nameHash (name : String) : UInt64 :=
  let h := NameHash.ofBytes (name.toList.flatMap String.utf8EncodeChar) * NameHash.factor
  NameHash.rotate ((h + 0xff) * NameHash.factor)

end ShaderIR
