import GseNetwork.Vm.Instruction
import GseNetwork.Foundation.Effect
import GseNetwork.Foundation.BinarySearch

namespace GseNetwork.Vm

open GseNetwork.Core GseNetwork.Foundation GseNetwork.Foundation.BinarySearch

abbrev U256 := BitVec 256

structure Schedule where
  haveDelegateCall : Bool := true
  eip150Mode : Bool := false
  eip158Mode : Bool := false
  haveBitwiseShifting : Bool := false
  haveRevert : Bool := false
  haveReturnData : Bool := false
  haveStaticCall : Bool := false
  haveCreate2 : Bool := false
  haveExtcodehash : Bool := false

def Schedule.suicideChargesNewAccountGas (x : Schedule) : Bool := x.eip150Mode

def Schedule.zeroValueTransferChargesNewAccountGas (x : Schedule) : Bool := !x.eip158Mode

/-- What leaves the interpreter as an exception: its own ones with their texts, a failed
allocation, and what the host throws. -/
inductive VmException
  | badInstruction (what : String)
  | badJump (what : String)
  | badStack (what : String)
  | bufferOverrun (what : String)
  | badOverflow (what : String)
  | outOfGas (what : String)
  | disallowedStateChange (what : String)
  | badAlloc
  | host (what : String)
  deriving DecidableEq

inductive ExceptionType
  | BadInstruction
  | BadJump
  | BadStack
  | RevertInstruction
  | BufferOverrun
  | BadOverflow
  | OutOfGas
  | DisallowedStateChange

/-- Why an execution ends other than by returning. An access outside `m_code` or `m_stack` is
undefined behaviour; it is not checked by the code, here it ends the execution. -/
inductive Failure
  | exception (e : VmException)
  | outsideCode (pc : ℕ)
  | outsideStack (place : ℤ)
  deriving DecidableEq

structure Arguments where
  senderAddress : Address := 0
  codeAddress : Address := 0
  receiveAddress : Address := 0
  valueTransfer : U256 := 0
  apparentValue : U256 := 0
  data : Bytes := []
  staticCall : Bool := false

/-- `VMInterface` with the schedule: the data of the execution, and the virtual functions as
computations on a state of the host, any of which may throw. -/
structure Host (σ : Type) where
  schedule : Schedule
  sha3 : Bytes → H256
  /-- Whether the memory can be resized to so many bytes. -/
  allocates : ℕ → Bool
  contract : Address
  caller : Address
  origin : Address
  value : U256
  data : Bytes
  code : Bytes
  depth : ℕ
  staticCall : Bool
  author : Address
  timestamp : Int64
  number : Int64
  store : U256 → Eff σ VmException U256
  setStore : U256 → U256 → Eff σ VmException Unit
  balance : Address → Eff σ VmException U256
  codeAt : Address → Eff σ VmException Bytes
  codeSizeAt : Address → Eff σ VmException ℕ
  codeHashAt : Address → Eff σ VmException H256
  exist : Address → Eff σ VmException Bool
  suicide : Address → Eff σ VmException Unit
  create : U256 → Bytes → Instruction → U256 → Eff σ VmException (Bytes × Address)
  /-- The answer is whether the status is `VM_SUCCESS`. -/
  call : Arguments → Eff σ VmException Bool
  blockHash : U256 → Eff σ VmException H256
  onOp : Option (ℕ → ℕ → Instruction → ℕ → Eff σ VmException Unit)

inductive Entry
  | initEntry
  | interpret
  | create
  | call
  deriving DecidableEq

/-- The members of `VM`. The two stack pointers are places of `m_stack`, which grows downwards
from place 1024; `extVM` is the state of the host. -/
structure VM (σ : Type) where
  extVM : σ
  code : Bytes := []
  jumpDests : List ℕ := []
  memory : Bytes := []
  stack : Vector U256 1024 := Vector.replicate 1024 0
  SP : ℤ := 1024
  SPP : ℤ := 1024
  returnResult : Bytes := []
  output : Bytes := []
  OP : Instruction := .STOP
  PC : ℕ := 0
  newMemSize : ℕ := 0
  copyMemSize : ℕ := 0
  steps : ℕ := 0
  next : Option Entry := none

abbrev VmM (σ : Type) := Eff (VM σ) Failure

namespace VM

variable {σ α : Type}

section Access

def readStack (place : ℤ) : VmM σ U256 := fun s ↦
  if 0 ≤ place ∧ place < 1024 then (.ok ((s.stack[place.toNat]?).getD 0), s)
  else (.error (.outsideStack place), s)

def writeStack (place : ℤ) (x : U256) : VmM σ Unit := fun s ↦
  if 0 ≤ place ∧ place < 1024 then
    (.ok (), { s with stack := s.stack.setIfInBounds place.toNat x })
  else (.error (.outsideStack place), s)

def sp (i : ℕ) : VmM σ U256 := fun s ↦ readStack (s.SP + i) s

def setSp (i : ℕ) (x : U256) : VmM σ Unit := fun s ↦ writeStack (s.SP + i) x s

def setSpp (x : U256) : VmM σ Unit := fun s ↦ writeStack s.SPP x s

def readCode (pc : ℕ) : VmM σ UInt8 := fun s ↦
  match s.code[pc]? with
  | some byte => (.ok byte, s)
  | none => (.error (.outsideCode pc), s)

def ext (m : Eff σ VmException α) : VmM σ α := fun s ↦
  match m s.extVM with
  | (.ok a, x) => (.ok a, { s with extVM := x })
  | (.error e, x) => (.error (.exception e), { s with extVM := x })

end Access

def throwException (type : ExceptionType) : VmM σ α := Eff.throw (.exception (match type with
  | .BadInstruction => .badInstruction "BadInstruction"
  | .BadJump => .badJump "BadJump"
  | .BadStack => .badStack "BadStack"
  | .RevertInstruction => .badInstruction "RevertInstruction"
  | .BufferOverrun => .bufferOverrun "BufferOverrun"
  | .BadOverflow => .badOverflow "BadOverflow"
  | .OutOfGas => .outOfGas "OutOfGas"
  | .DisallowedStateChange => .disallowedStateChange "DisallowedStateChange"))

variable (host : Host σ)

section Memory

def slice (b : Bytes) (offset size : ℕ) : Bytes := (b.drop offset).take size

def splice (b : Bytes) (offset : ℕ) (data : Bytes) : Bytes :=
  b.take offset ++ data ++ b.drop (offset + data.length)

theorem getD_append_zeros (b : Bytes) (n i : ℕ) :
    (b ++ List.replicate n 0).getD i 0 = b.getD i 0 := by
  rcases lt_or_ge i b.length with h | h
  · rw [List.getD_append _ _ _ _ h]
  · rw [List.getD_append_right _ _ _ _ h, List.getD_eq_default _ _ h]
    rcases lt_or_ge (i - b.length) n with hi | hi
    · rw [List.getD_replicate _ hi]
    · rw [List.getD_eq_default _ _ (by rw [List.length_replicate]; exact hi)]

def toInt63 (n : ℕ) : VmM σ ℕ :=
  if 0x7FFFFFFFFFFFFFFF < n then throwException .OutOfGas else pure n

def memNeed (offset size : U256) : VmM σ ℕ :=
  toInt63 (if size ≠ 0 then offset.toNat + size.toNat else 0)

/-- `updateMem`: the memory grows to a whole number of words, with zeros. -/
def updateMem (newMem : ℕ) : VmM σ Unit := do
  let newMemSize := (newMem + 31) / 32 * 32
  Eff.modify fun s ↦ { s with newMemSize := newMemSize }
  let s ← Eff.get
  if s.memory.length < newMemSize then
    if host.allocates newMemSize then
      Eff.modify fun s ↦ { s with
        memory := s.memory ++ List.replicate (newMemSize - s.memory.length) 0 }
    else Eff.throw (.exception .badAlloc)
  else pure ()

def low64 (x : U256) : ℕ := x.toNat % 2 ^ 64

def low32 (x : U256) : ℕ := x.toNat % 2 ^ 32

def copyToMemory (data : Bytes) (k : ℕ) : VmM σ Unit := do
  let offset := low64 (← sp k)
  let bigIndex := (← sp (k + 1)).toNat
  let index := bigIndex % 2 ^ 64
  let size := low64 (← sp (k + 2))
  let sizeToBeCopied :=
    if data.length < bigIndex + size then
      if data.length < bigIndex then 0 else data.length - index
    else size
  Eff.modify fun s ↦ { s with
    memory := splice s.memory offset
      (slice data index sizeToBeCopied ++ List.replicate (size - sizeToBeCopied) 0) }

end Memory

section Code

/-- The loop of `optimize` that collects the jump destinations, at most `fuel` rounds. The
instructions that only the interpreter may generate are overwritten. -/
def scanLoop (nBytes : ℕ) : ℕ → ℕ → Bytes × List ℕ → Bytes × List ℕ
  | 0, _, r => r
  | fuel + 1, pc, (code, jumpDests) =>
    if pc < nBytes then
      match Instruction.ofByte (code.getD pc 0) with
      | .PUSHC | .JUMPC | .JUMPCI => scanLoop nBytes fuel (pc + 1) (code.set pc 0xfe, jumpDests)
      | .JUMPDEST => scanLoop nBytes fuel (pc + 1) (code, jumpDests ++ [pc])
      | .PUSH n => scanLoop nBytes fuel (pc + (n + 1) + 1) (code, jumpDests)
      | _ => scanLoop nBytes fuel (pc + 1) (code, jumpDests)
    else (code, jumpDests)

def copyCode (extra : ℕ) (s : VM σ) : VM σ := { s with code := host.code ++ List.replicate extra 0 }

def optimize (s : VM σ) : VM σ :=
  let s := copyCode host 33 s
  let (code, jumpDests) :=
    scanLoop host.code.length host.code.length 0 (s.code, s.jumpDests)
  { s with code := code, jumpDests := jumpDests }

def initEntry (s : VM σ) : VM σ := optimize host { s with next := some .interpret }

def verifyJumpDest (dest : U256) : VmM σ ℕ := do
  let s ← Eff.get
  if dest.toNat ≤ 0x7FFFFFFFFFFFFFFF ∧ binarySearch s.jumpDests dest.toNat = true then
    pure dest.toNat
  else throwException .BadJump

end Code

section Fetch

def onOperation : VmM σ Unit :=
  match host.onOp with
  | none => pure ()
  | some onOp => do
    Eff.modify fun s ↦ { s with steps := s.steps + 1 }
    let s ← Eff.get
    ext (onOp s.steps s.PC s.OP ((s.newMemSize - s.memory.length) / 32))

def adjustStack (removed added : ℕ) : VmM σ Unit := do
  Eff.modify fun s ↦ { s with SP := s.SPP, SPP := s.SPP + removed }
  let s ← Eff.get
  if 1024 < s.SPP then throwException .BadStack
  else do
    Eff.modify fun s ↦ { s with SPP := s.SPP - added }
    let s ← Eff.get
    if s.SPP < 0 then throwException .BadStack else pure ()

def fetchInstruction : VmM σ Unit := do
  let s ← Eff.get
  let byte ← readCode s.PC
  Eff.modify fun s ↦ { s with OP := Instruction.ofByte byte }
  adjustStack (Instruction.ofByte byte).args (Instruction.ofByte byte).ret
  Eff.modify fun s ↦ { s with newMemSize := s.memory.length, copyMemSize := 0 }

end Fetch

end VM

end GseNetwork.Vm
