import GseNetwork.Core.Types
import GseNetwork.Foundation.SelfDelimiting

namespace GseNetwork.Core

open Foundation.BigEndian

def rlpDataImmLenStart : UInt8 := 0x80
def rlpListStart : UInt8 := 0xc0
def rlpDataImmLenCount : ℕ := 56
def rlpDataIndLenZero : UInt8 := 0xb7
def rlpListImmLenCount : ℕ := 56
def rlpListIndLenZero : UInt8 := 0xf7

abbrev RLP := Bytes

namespace RLP

def isNull (d : RLP) : Bool := d.isEmpty

def byteAt (d : RLP) (i : ℕ) : UInt8 := d.getD i 0

def isData (d : RLP) : Bool := !isNull d && decide (byteAt d 0 < rlpListStart)

def isList (d : RLP) : Bool := !isNull d && decide (rlpListStart ≤ byteAt d 0)

def isSingleByte (d : RLP) : Bool := !isNull d && decide (byteAt d 0 < rlpDataImmLenStart)

def requireGood (d : RLP) : Except Exception Unit :=
  if isNull d then .error ⟨.badRLP, ""⟩
  else if byteAt d 0 ≠ rlpDataImmLenStart + 1 then .ok ()
  else if d.length < 2 then .error ⟨.badRLP, ""⟩
  else if byteAt d 1 < rlpDataImmLenStart then .error ⟨.badRLP, ""⟩
  else .ok ()

def isInt (d : RLP) : Except Exception Bool := do
  if isNull d then return false
  requireGood d
  let n := byteAt d 0
  if n < rlpDataImmLenStart then return n ≠ 0
  else if n = rlpDataImmLenStart then return true
  else if n ≤ rlpDataIndLenZero then
    if d.length ≤ 1 then throw ⟨.badRLP, ""⟩
    return byteAt d 1 ≠ 0
  else if n < rlpListStart then
    let i := 1 + (n - rlpDataIndLenZero).toNat
    if d.length ≤ i then throw ⟨.badRLP, ""⟩
    return byteAt d i ≠ 0
  else return false

/-- The length that follows the first byte in `lengthSize` bytes. -/
def indirectLength (d : RLP) (lengthSize minimum : ℕ) : Except Exception ℕ := do
  if d.length ≤ lengthSize then throw ⟨.badRLP, ""⟩
  if byteAt d 1 = 0 then throw ⟨.badRLP, ""⟩
  let ret := fromBigEndian ((d.drop 1).take lengthSize)
  if ret < minimum then throw ⟨.badRLP, ""⟩
  if 2 ^ 64 - 1 - 0x100 ≤ ret then throw ⟨.undersizeRLP, ""⟩
  return ret

def length (d : RLP) : Except Exception ℕ := do
  if isNull d then return 0
  requireGood d
  let n := byteAt d 0
  if n < rlpDataImmLenStart then return 1
  else if n ≤ rlpDataIndLenZero then return (n - rlpDataImmLenStart).toNat
  else if n < rlpListStart then
    indirectLength d (n - rlpDataIndLenZero).toNat rlpDataImmLenCount
  else if n ≤ rlpListIndLenZero then return (n - rlpListStart).toNat
  else indirectLength d (n - rlpListIndLenZero).toNat rlpListImmLenCount

def lengthSize (d : RLP) : ℕ :=
  if isData d && decide (rlpDataIndLenZero < byteAt d 0) then
    (byteAt d 0 - rlpDataIndLenZero).toNat
  else if isList d && decide (rlpListIndLenZero < byteAt d 0) then
    (byteAt d 0 - rlpListIndLenZero).toNat
  else 0

def payloadOffset (d : RLP) : ℕ := if isSingleByte d then 0 else 1 + lengthSize d

def actualSize (d : RLP) : Except Exception ℕ := do
  if isNull d then return 0
  if isSingleByte d then return 1
  return payloadOffset d + (← length d)

/-- `bytesConstRef::cropped`: out of bounds gives the empty reference. -/
def cropped (d : Bytes) (start count : ℕ) : Bytes :=
  if start ≤ d.length ∧ start + count ≤ d.length then (d.drop start).take count else []

def payload (d : RLP) : Except Exception Bytes := do
  let l ← length d
  if List.length d < l then throw ⟨.badRLP, ""⟩
  return cropped d (payloadOffset d) l

def ofPrefix (d : Bytes) : Except Exception RLP := do
  if d.length < (← actualSize d) then throw ⟨.undersizeRLP, ""⟩
  return d

def ofBytes (d : Bytes) : Except Exception RLP := do
  if (← actualSize d) < d.length then throw ⟨.oversizeRLP, ""⟩
  ofPrefix d

def sizeAsEncoded (d : Bytes) : Except Exception ℕ := do
  actualSize (← ofPrefix d)

def itemsOf (d : RLP) : Except Exception (List RLP) := do
  let p ← payload d
  Foundation.SelfDelimiting.split sizeAsEncoded p.length p

def itemCount (d : RLP) : Except Exception ℕ := do
  if isList d then return (← itemsOf d).length
  else return 0

/-- Walks `i` items into a payload; past the end the item is empty. -/
def walk : ℕ → Bytes → Except Exception Bytes
  | 0, p => do return p.take (← sizeAsEncoded p)
  | i + 1, p => do
    let n ← sizeAsEncoded p
    if n = 0 then return []
    walk i (p.drop n)

def item (d : RLP) (i : ℕ) : Except Exception RLP := do
  ofPrefix (← walk i (← payload d))

def toInt (maxSize : ℕ) (d : RLP) : Except Exception ℕ := do
  requireGood d
  if !(← isInt d) || isList d || isNull d then throw ⟨.badCast, ""⟩
  let p ← payload d
  if maxSize < p.length then throw ⟨.badCast, ""⟩
  return fromBigEndian p

def toInt64 (d : RLP) : Except Exception Int64 := do
  return (UInt64.ofNat (← toInt 8 d)).toInt64

def toPositiveInt64 (d : RLP) : Except Exception Int64 := do
  let i ← toInt64 d
  if i < 0 then throw ⟨.badCast, ""⟩
  return i

def toHash (size : ℕ) (d : RLP) : Except Exception (BitVec (8 * size)) := do
  requireGood d
  let p ← payload d
  if !isData d || p.length ≠ size then throw ⟨.badCast, ""⟩
  return BitVec.ofNat (8 * size) (fromBigEndian p)

end RLP

end GseNetwork.Core
