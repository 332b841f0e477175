/-! Little-endian numbers in a list of bytes. Bytes past the end of the list read as zero. -/

namespace ShaderIR.Bytes

def ofFlag (b : Bool) : List UInt8 := [if b then 1 else 0]

def ofWord16 (x : UInt16) : List UInt8 := [x.toUInt8, (x >>> 8).toUInt8]

def ofWord32 (x : UInt32) : List UInt8 :=
  [x.toUInt8, (x >>> 8).toUInt8, (x >>> 16).toUInt8, (x >>> 24).toUInt8]

def padTo (n : Nat) (bytes : List UInt8) : List UInt8 :=
  bytes ++ List.replicate (n - bytes.length) 0

def byteAt (bytes : List UInt8) (i : Nat) : UInt8 := bytes[i]?.getD 0

def flagAt (bytes : List UInt8) (i : Nat) : Bool := byteAt bytes i ≠ 0

def word16At (bytes : List UInt8) (i : Nat) : UInt16 :=
  (byteAt bytes i).toUInt16 ||| (byteAt bytes (i + 1)).toUInt16 <<< 8

def word32At (bytes : List UInt8) (i : Nat) : UInt32 :=
  (byteAt bytes i).toUInt32 ||| (byteAt bytes (i + 1)).toUInt32 <<< 8 |||
    (byteAt bytes (i + 2)).toUInt32 <<< 16 ||| (byteAt bytes (i + 3)).toUInt32 <<< 24

theorem length_ofFlag (b : Bool) : (ofFlag b).length = 1 := rfl

theorem length_ofWord16 (x : UInt16) : (ofWord16 x).length = 2 := rfl

theorem length_ofWord32 (x : UInt32) : (ofWord32 x).length = 4 := rfl

theorem length_padTo {n : Nat} {bytes : List UInt8} (h : bytes.length ≤ n) :
    (padTo n bytes).length = n := by
  rw [padTo, List.length_append, List.length_replicate]
  omega

end ShaderIR.Bytes
