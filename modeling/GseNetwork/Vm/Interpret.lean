import GseNetwork.Vm.Machine

namespace GseNetwork.Vm

open GseNetwork.Core GseNetwork.Foundation GseNetwork.Foundation.BigEndian

def u2s (x : U256) : ℤ := x.toInt

def s2u (x : ℤ) : U256 := BitVec.ofInt 256 x

def ofBool (b : Bool) : U256 := if b then 1 else 0

def asAddress (x : U256) : Address := x.setWidth 160

def fromAddress (x : Address) : U256 := x.setWidth 256

section Words

/-- The loop of `exp256`; the exponent is halved in every round. -/
def expLoop : ℕ → U256 → U256 → U256 → U256
  | 0, result, _, _ => result
  | fuel + 1, result, base, exponent =>
    if exponent = 0 then result
    else expLoop fuel (if exponent &&& 1 = 1 then result * base else result) (base * base)
      (exponent >>> 1)

def exp256 (base exponent : U256) : U256 := expLoop 256 1 base exponent

def divWord (x y : U256) : U256 := if y ≠ 0 then x / y else 0

def sdivWord (x y : U256) : U256 := if y ≠ 0 then s2u ((u2s x).tdiv (u2s y)) else 0

def modWord (x y : U256) : U256 := if y ≠ 0 then x % y else 0

def smodWord (x y : U256) : U256 := if y ≠ 0 then s2u ((u2s x).tmod (u2s y)) else 0

def byteWord (x y : U256) : U256 :=
  if x.toNat < 32 then (y >>> (8 * (31 - x.toNat))) &&& 0xff else 0

def shlWord (x y : U256) : U256 := if 256 ≤ x.toNat then 0 else y <<< x.toNat

def shrWord (x y : U256) : U256 := if 256 ≤ x.toNat then 0 else y >>> x.toNat

def sarWord (x shiftee : U256) : U256 :=
  let negative := shiftee &&& ((1 : U256) <<< 255) ≠ 0
  if 256 ≤ x.toNat then if negative then BitVec.allOnes 256 else 0
  else if negative then (shiftee >>> x.toNat) ||| (BitVec.allOnes 256 <<< (256 - x.toNat))
  else shiftee >>> x.toNat

def addmodWord (x y z : U256) : U256 :=
  if z ≠ 0 then BitVec.ofNat 256 ((x.toNat + y.toNat) % z.toNat) else 0

def mulmodWord (x y z : U256) : U256 :=
  if z ≠ 0 then BitVec.ofNat 256 (x.toNat * y.toNat % z.toNat) else 0

def signextendWord (x number : U256) : U256 :=
  let testBit := x.toNat * 8 + 7
  let mask := ((1 : U256) <<< testBit) - 1
  if number.getLsbD testBit then number ||| ~~~mask else number &&& mask

def dataWord (data : Bytes) (offset : ℕ) : U256 :=
  BitVec.ofNat 256 (fromBigEndian ((List.range 32).map fun j ↦ data.getD (offset + j) 0))

end Words

inductive Leave
  | break
  | continue

namespace VM

variable {σ : Type} (host : Host σ)

section Macros

def BREAK : VmM σ Leave := pure .break

def NEXT : VmM σ Leave := do
  Eff.modify fun s ↦ { s with PC := s.PC + 1 }
  pure .break

def CONTINUE : VmM σ Leave := pure .continue

def setNext (next : Option Entry) : VmM σ Unit := Eff.modify fun s ↦ { s with next := next }

def require (flag : Bool) : VmM σ Unit :=
  if flag then pure () else throwException .BadInstruction

/-- `if (m_extVM.m_staticCall) throwException(DisallowedStateChange)`. -/
def requireNonStatic : VmM σ Unit :=
  if host.staticCall then throwException .DisallowedStateChange else pure ()

end Macros

section Families

def pushes (value : VmM σ U256) : VmM σ Leave := do
  onOperation host
  let x ← value
  setSpp x
  NEXT

def unary (f : U256 → VmM σ U256) : VmM σ Leave := pushes host do f (← sp 0)

def binary (f : U256 → U256 → U256) : VmM σ Leave :=
  pushes host do return f (← sp 0) (← sp 1)

def ternary (f : U256 → U256 → U256 → U256) : VmM σ Leave :=
  pushes host do return f (← sp 0) (← sp 1) (← sp 2)

def pushesState (f : VM σ → U256) : VmM σ Leave := pushes host do return f (← Eff.get)

/-- The copying cases: `k` is the place of the offset, `data` what is copied. -/
def copies (k : ℕ) (data : VmM σ Bytes) : VmM σ Leave := do
  let copyMemSize ← toInt63 (← sp (k + 2)).toNat
  Eff.modify fun s ↦ { s with copyMemSize := copyMemSize }
  updateMem host (← memNeed (← sp k) (← sp (k + 2)))
  copyToMemory (← data) k
  NEXT

def logs : VmM σ Leave := do
  onOperation host
  requireNonStatic host
  NEXT

end Families

section Cases

def mload : VmM σ Leave := do
  onOperation host
  updateMem host ((← toInt63 (← sp 0).toNat) + 32)
  let offset := low32 (← sp 0)
  let s ← Eff.get
  setSpp (BitVec.ofNat 256 (fromBigEndian (slice s.memory offset 32)))
  NEXT

def stores (size : ℕ) (data : U256 → Bytes) : VmM σ Leave := do
  onOperation host
  updateMem host ((← toInt63 (← sp 0).toNat) + size)
  let offset := low32 (← sp 0)
  let value ← sp 1
  Eff.modify fun s ↦ { s with memory := splice s.memory offset (data value) }
  NEXT

def mstore : VmM σ Leave := stores host 32 fun value ↦ toBigEndian 32 value.toNat

def mstore8 : VmM σ Leave := stores host 1 fun value ↦ [UInt8.ofNat (value &&& 0xff).toNat]

def returns : VmM σ Leave := do
  onOperation host
  Eff.modify fun s ↦ { s with copyMemSize := 0 }
  updateMem host (← memNeed (← sp 0) (← sp 1))
  let b := low64 (← sp 0)
  let size := low64 (← sp 1)
  Eff.modify fun s ↦ { s with output := slice s.memory b size, memory := [] }
  setNext none
  BREAK

def reverts : VmM σ Leave := do
  require host.schedule.haveRevert
  onOperation host
  Eff.modify fun s ↦ { s with copyMemSize := 0 }
  updateMem host (← memNeed (← sp 0) (← sp 1))
  let _ ← sp 0
  let _ ← sp 1
  Eff.modify fun s ↦ { s with memory := [] }
  throwException .RevertInstruction

def suicides : VmM σ Leave := do
  onOperation host
  requireNonStatic host
  let dest := asAddress (← sp 0)
  let balance ← ext (host.balance host.contract)
  if balance ≠ 0 ∨ host.schedule.zeroValueTransferChargesNewAccountGas = true then
    if host.schedule.suicideChargesNewAccountGas then
      let _ ← ext (host.exist dest)
  ext (host.suicide dest)
  setNext none
  BREAK

def calls (op : Instruction) : VmM σ Leave := do
  onOperation host
  match op with
  | .DELEGATECALL => require host.schedule.haveDelegateCall
  | .STATICCALL => require host.schedule.haveStaticCall
  | .CALL =>
    if host.staticCall then
      if (← sp 2) ≠ 0 then throwException .DisallowedStateChange
  | _ => pure ()
  setNext (some .call)
  BREAK

def sha3 : VmM σ Leave := do
  onOperation host
  updateMem host (← memNeed (← sp 0) (← sp 1))
  let inOff := low64 (← sp 0)
  let inSize := low64 (← sp 1)
  let s ← Eff.get
  setSpp (host.sha3 (slice s.memory inOff inSize))
  NEXT

def signextend : VmM σ Leave := do
  onOperation host
  let x ← sp 0
  if x.toNat < 31 then
    setSp 1 (signextendWord x (← sp 1))
  NEXT

def calldataload : VmM σ Leave := do
  onOperation host
  let x ← sp 0
  setSp 0 (if host.data.length ≤ x.toNat then 0 else dataWord host.data x.toNat)
  NEXT

def returndatacopy : VmM σ Leave := do
  onOperation host
  require host.schedule.haveReturnData
  let endOfAccess := (← sp 1).toNat + (← sp 2).toNat
  let s ← Eff.get
  if s.returnResult.length < endOfAccess then throwException .BufferOverrun
  else copies host 0 do return (← Eff.get).returnResult

def pushBytes : ℕ → U256 → VmM σ U256
  | 0, x => pure x
  | n + 1, x => do
    let s ← Eff.get
    let byte ← readCode s.PC
    Eff.modify fun s ↦ { s with PC := s.PC + 1 }
    pushBytes n ((x <<< 8) ||| BitVec.ofNat 256 byte.toNat)

def push (n : Fin 32) : VmM σ Leave := do
  onOperation host
  setSpp 0
  Eff.modify fun s ↦ { s with PC := s.PC + 1 }
  let x ← pushBytes (n + 1) 0
  setSpp x
  CONTINUE

def jump : VmM σ Leave := do
  onOperation host
  let pc ← verifyJumpDest (← sp 0)
  Eff.modify fun s ↦ { s with PC := pc }
  CONTINUE

def jumpi : VmM σ Leave := do
  onOperation host
  if (← sp 1) ≠ 0 then do
    let pc ← verifyJumpDest (← sp 0)
    Eff.modify fun s ↦ { s with PC := pc }
  else Eff.modify fun s ↦ { s with PC := s.PC + 1 }
  CONTINUE

def dup (n : Fin 16) : VmM σ Leave := pushes host (sp n)

def swap (n : Fin 16) : VmM σ Leave := do
  onOperation host
  let x ← sp 0
  let y ← sp (n + 1)
  setSp 0 y
  setSp (n + 1) x
  NEXT

def backSP : VmM σ Unit := Eff.modify fun s ↦ { s with SP := s.SP - 1 }

def interpretCase (op : Instruction) : VmM σ Leave :=
  match op with
  | .CREATE2 => do
    onOperation host
    require host.schedule.haveCreate2
    requireNonStatic host
    setNext (some .create)
    BREAK
  | .CREATE => do
    onOperation host
    requireNonStatic host
    setNext (some .create)
    BREAK
  | .DELEGATECALL | .STATICCALL | .CALL | .CALLCODE => calls host op
  | .RETURN => returns host
  | .REVERT => reverts host
  | .SUICIDE => suicides host
  | .STOP => do
    onOperation host
    setNext none
    BREAK
  | .MLOAD => mload host
  | .MSTORE => mstore host
  | .MSTORE8 => mstore8 host
  | .SHA3 => sha3 host
  | .LOG _ => logs host
  | .EXP => binary host exp256
  | .ADD => binary host (· + ·)
  | .MUL => binary host (· * ·)
  | .SUB => binary host (· - ·)
  | .DIV => binary host divWord
  | .SDIV => do
    onOperation host
    setSpp (sdivWord (← sp 0) (← sp 1))
    backSP
    NEXT
  | .MOD => binary host modWord
  | .SMOD => binary host smodWord
  | .NOT => unary host fun x ↦ pure (~~~x)
  | .LT => binary host fun x y ↦ ofBool (x.toNat < y.toNat)
  | .GT => binary host fun x y ↦ ofBool (x.toNat > y.toNat)
  | .SLT => binary host fun x y ↦ ofBool (u2s x < u2s y)
  | .SGT => binary host fun x y ↦ ofBool (u2s x > u2s y)
  | .EQ => binary host fun x y ↦ ofBool (x = y)
  | .ISZERO => unary host fun x ↦ pure (ofBool (x = 0))
  | .AND => binary host (· &&& ·)
  | .OR => binary host (· ||| ·)
  | .XOR => binary host (· ^^^ ·)
  | .BYTE => binary host byteWord
  | .SHL => do
    require host.schedule.haveBitwiseShifting
    binary host shlWord
  | .SHR => do
    require host.schedule.haveBitwiseShifting
    binary host shrWord
  | .SAR => do
    require host.schedule.haveBitwiseShifting
    binary host sarWord
  | .ADDMOD => ternary host addmodWord
  | .MULMOD => ternary host mulmodWord
  | .SIGNEXTEND => signextend host
  | .ADDRESS => pushesState host fun _ ↦ fromAddress host.contract
  | .ORIGIN => pushesState host fun _ ↦ fromAddress host.origin
  | .BALANCE => unary host fun x ↦ ext (host.balance (asAddress x))
  | .CALLER => pushesState host fun _ ↦ fromAddress host.caller
  | .CALLVALUE => pushesState host fun _ ↦ host.value
  | .CALLDATALOAD => calldataload host
  | .CALLDATASIZE => pushesState host fun _ ↦ BitVec.ofNat 256 host.data.length
  | .RETURNDATASIZE => do
    require host.schedule.haveReturnData
    pushesState host fun s ↦ BitVec.ofNat 256 s.returnResult.length
  | .CODESIZE => pushesState host fun _ ↦ BitVec.ofNat 256 host.code.length
  | .EXTCODESIZE => unary host fun x ↦ do
    return BitVec.ofNat 256 (← ext (host.codeSizeAt (asAddress x)))
  | .CALLDATACOPY => do
    onOperation host
    copies host 0 (pure host.data)
  | .RETURNDATACOPY => returndatacopy host
  | .EXTCODEHASH => do
    onOperation host
    require host.schedule.haveExtcodehash
    setSpp (← ext (host.codeHashAt (asAddress (← sp 0))))
    NEXT
  | .CODECOPY => do
    onOperation host
    copies host 0 (pure host.code)
  | .EXTCODECOPY => do
    onOperation host
    copies host 1 do ext (host.codeAt (asAddress (← sp 0)))
  | .GASPRICE | .DIFFICULTY | .GASLIMIT | .GAS => pushesState host fun _ ↦ 0
  | .BLOCKHASH => unary host fun x ↦ ext (host.blockHash x)
  | .COINBASE => pushesState host fun _ ↦ fromAddress host.author
  | .TIMESTAMP => pushesState host fun _ ↦ s2u host.timestamp.toInt
  | .NUMBER => pushesState host fun _ ↦ s2u host.number.toInt
  | .POP => do
    onOperation host
    backSP
    NEXT
  | .PUSH n => push host n
  | .JUMP => jump host
  | .JUMPI => jumpi host
  | .DUP n => dup host n
  | .SWAP n => swap host n
  | .SLOAD => unary host fun x ↦ ext (host.store x)
  | .SSTORE => do
    onOperation host
    requireNonStatic host
    ext (host.setStore (← sp 0) (← sp 1))
    NEXT
  | .PC => pushesState host fun s ↦ BitVec.ofNat 256 s.PC
  | .MSIZE => pushesState host fun s ↦ BitVec.ofNat 256 s.memory.length
  | .JUMPDEST => do
    onOperation host
    NEXT
  | _ => throwException .BadInstruction

/-- One round of the `for (;;)` of `interpret`. The `break` of a case ends the `switch`, after which
nothing stands in the loop: like a `continue` it leads to the next round. -/
def round : VmM σ Unit := do
  fetchInstruction
  let s ← Eff.get
  match ← interpretCase host s.OP with
  | .break => pure ()
  | .continue => pure ()

end Cases

section Calls

def create : VmM σ Unit := do
  setNext (some .interpret)
  let endowment ← sp 0
  let initOff ← sp 1
  let initSize ← sp 2
  let s ← Eff.get
  let salt ← match s.OP with
    | .CREATE2 => sp 3
    | _ => pure 0
  updateMem host (← memNeed initOff initSize)
  Eff.modify fun s ↦ { s with returnResult := [] }
  let balance ← ext (host.balance host.contract)
  if endowment.toNat ≤ balance.toNat ∧ host.depth < 1024 then do
    let s ← Eff.get
    let (output, address) ← ext (host.create endowment
      (slice s.memory (low64 initOff) (low64 initSize)) s.OP salt)
    setSpp (fromAddress address)
    Eff.modify fun s ↦ { s with returnResult := output }
  else setSpp 0
  Eff.modify fun s ↦ { s with PC := s.PC + 1 }

/-- `callSetup`, with the range of the output if the call is made. -/
def callSetup (op : Instruction) : VmM σ (Option (Arguments × ℕ × ℕ)) := do
  let haveValueArg := match op with
    | .CALL | .CALLCODE => true
    | _ => false
  let destinationAddr := asAddress (← sp 1)
  match op with
  | .CALL =>
    if !(← ext (host.exist destinationAddr)) then
      let _ ← sp 2
  | _ => pure ()
  let value ← if haveValueArg then sp 2 else pure 0
  let sizesOffset := if haveValueArg then 3 else 2
  let inputOffset ← sp sizesOffset
  let inputSize ← sp (sizesOffset + 1)
  let outputOffset ← sp (sizesOffset + 2)
  let outputSize ← sp (sizesOffset + 3)
  let inputMemNeed ← memNeed inputOffset inputSize
  let outputMemNeed ← memNeed outputOffset outputSize
  Eff.modify fun s ↦ { s with newMemSize := max inputMemNeed outputMemNeed }
  updateMem host (max inputMemNeed outputMemNeed)
  let balance ← ext (host.balance host.contract)
  if value.toNat ≤ balance.toNat ∧ host.depth < 1024 then do
    let s ← Eff.get
    return some ({
      staticCall := (match op with | .STATICCALL => true | _ => host.staticCall)
      codeAddress := destinationAddr
      valueTransfer := value
      apparentValue := (match op with | .DELEGATECALL => host.value | _ => value)
      senderAddress := (match op with | .DELEGATECALL => host.caller | _ => host.contract)
      receiveAddress := (match op with
        | .CALL | .STATICCALL => destinationAddr
        | _ => host.contract)
      data := slice s.memory (low64 inputOffset) (low64 inputSize) },
      low64 outputOffset, low64 outputSize)
  else return none

/-- `VM::call`. The output of the call is overwritten with the memory it should go to. -/
def call : VmM σ Unit := do
  setNext (some .interpret)
  Eff.modify fun s ↦ { s with returnResult := [] }
  let s ← Eff.get
  match ← callSetup host s.OP with
  | some (callParams, outOff, outSize) => do
    let success ← ext (host.call callParams)
    Eff.modify fun s ↦ { s with returnResult := slice s.memory outOff outSize }
    setSpp (ofBool success)
  | none => setSpp 0
  Eff.modify fun s ↦ { s with PC := s.PC + 1 }

end Calls

end VM

/-- Where an execution is: in the loop of `exec` before a call of `m_next`, in `interpret` before
the next fetch, or at its end. -/
inductive Control
  | entry
  | loop
  | returned
  | failed (f : Failure)

structure Machine (σ : Type) where
  vm : VM σ
  control : Control

namespace Machine

open VM

variable {σ : Type} (host : Host σ)

/-- A call of `m_next` that returns: the loop of `exec` goes on while `m_next` is set. -/
def afterCall (r : Except Failure Unit × VM σ) : Machine σ :=
  match r with
  | (.ok (), s) => { vm := s, control := if s.next.isSome then .entry else .returned }
  | (.error f, s) => { vm := s, control := .failed f }

def afterRound (r : Except Failure Unit × VM σ) : Machine σ :=
  match r with
  | (.ok (), s) => { vm := s, control := .loop }
  | (.error f, s) => { vm := s, control := .failed f }

def step (m : Machine σ) : Machine σ :=
  match m.control with
  | .entry =>
    match m.vm.next with
    | some .initEntry => afterCall (.ok (), initEntry host m.vm)
    | some .interpret => { m with control := .loop }
    | some .create => afterCall (create host m.vm)
    | some .call => afterCall (call host m.vm)
    | none => { m with control := .returned }
  | .loop => afterRound (round host m.vm)
  | .returned | .failed _ => m

def exec (extVM : σ) : Machine σ where
  vm := { extVM := extVM, next := some .initEntry }
  control := .entry

def run (extVM : σ) (n : ℕ) : Machine σ := (step host)^[n] (exec extVM)

end Machine

end GseNetwork.Vm
