import GseNetwork.Core.Types

namespace GseNetwork.Vm

/-- `enum class Instruction`. The numbered families carry their index from zero on; a byte that the
enumeration does not name is a value of it all the same. -/
inductive Instruction
  | STOP | ADD | MUL | SUB | DIV | SDIV | MOD | SMOD | ADDMOD | MULMOD | EXP | SIGNEXTEND | LT
  | GT | SLT | SGT | EQ | ISZERO | AND | OR | XOR | NOT | BYTE | SHL | SHR | SAR | SHA3
  | ADDRESS | BALANCE | ORIGIN | CALLER | CALLVALUE | CALLDATALOAD | CALLDATASIZE | CALLDATACOPY
  | CODESIZE | CODECOPY | GASPRICE | EXTCODESIZE | EXTCODECOPY | RETURNDATASIZE | RETURNDATACOPY
  | EXTCODEHASH | BLOCKHASH | COINBASE | TIMESTAMP | NUMBER | DIFFICULTY | GASLIMIT | POP
  | MLOAD | MSTORE | MSTORE8 | SLOAD | SSTORE | JUMP | JUMPI | PC | MSIZE | GAS | JUMPDEST
  | PUSHC | JUMPC | JUMPCI | JUMPTO | JUMPIF | JUMPSUB | JUMPV | JUMPSUBV | BEGINSUB | BEGINDATA
  | RETURNSUB | PUTLOCAL | GETLOCAL | XADD | XMUL | XSUB | XDIV | XSDIV | XMOD | XSMOD | XLT
  | XGT | XSLT | XSGT | XEQ | XISZERO | XAND | XOOR | XXOR | XNOT | XSHL | XSHR | XSAR | XROL
  | XROR | XPUSH | XMLOAD | XMSTORE | XSLOAD | XSSTORE | XVTOWIDE | XWIDETOV | XGET | XPUT
  | XSWIZZLE | XSHUFFLE | CREATE | CALL | CALLCODE | RETURN | DELEGATECALL | CREATE2
  | STATICCALL | REVERT | INVALID | SUICIDE
  | PUSH (n : Fin 32) | DUP (n : Fin 16) | SWAP (n : Fin 16) | LOG (n : Fin 5)
  | unnamed (byte : UInt8)

namespace Instruction

def ofOpcode : ℕ → Option Instruction
  | 0x00 => some .STOP
  | 0x01 => some .ADD
  | 0x02 => some .MUL
  | 0x03 => some .SUB
  | 0x04 => some .DIV
  | 0x05 => some .SDIV
  | 0x06 => some .MOD
  | 0x07 => some .SMOD
  | 0x08 => some .ADDMOD
  | 0x09 => some .MULMOD
  | 0x0a => some .EXP
  | 0x0b => some .SIGNEXTEND
  | 0x10 => some .LT
  | 0x11 => some .GT
  | 0x12 => some .SLT
  | 0x13 => some .SGT
  | 0x14 => some .EQ
  | 0x15 => some .ISZERO
  | 0x16 => some .AND
  | 0x17 => some .OR
  | 0x18 => some .XOR
  | 0x19 => some .NOT
  | 0x1a => some .BYTE
  | 0x1b => some .SHL
  | 0x1c => some .SHR
  | 0x1d => some .SAR
  | 0x20 => some .SHA3
  | 0x30 => some .ADDRESS
  | 0x31 => some .BALANCE
  | 0x32 => some .ORIGIN
  | 0x33 => some .CALLER
  | 0x34 => some .CALLVALUE
  | 0x35 => some .CALLDATALOAD
  | 0x36 => some .CALLDATASIZE
  | 0x37 => some .CALLDATACOPY
  | 0x38 => some .CODESIZE
  | 0x39 => some .CODECOPY
  | 0x3a => some .GASPRICE
  | 0x3b => some .EXTCODESIZE
  | 0x3c => some .EXTCODECOPY
  | 0x3d => some .RETURNDATASIZE
  | 0x3e => some .RETURNDATACOPY
  | 0x3f => some .EXTCODEHASH
  | 0x40 => some .BLOCKHASH
  | 0x41 => some .COINBASE
  | 0x42 => some .TIMESTAMP
  | 0x43 => some .NUMBER
  | 0x44 => some .DIFFICULTY
  | 0x45 => some .GASLIMIT
  | 0x50 => some .POP
  | 0x51 => some .MLOAD
  | 0x52 => some .MSTORE
  | 0x53 => some .MSTORE8
  | 0x54 => some .SLOAD
  | 0x55 => some .SSTORE
  | 0x56 => some .JUMP
  | 0x57 => some .JUMPI
  | 0x58 => some .PC
  | 0x59 => some .MSIZE
  | 0x5a => some .GAS
  | 0x5b => some .JUMPDEST
  | 0xac => some .PUSHC
  | 0xad => some .JUMPC
  | 0xae => some .JUMPCI
  | 0xb0 => some .JUMPTO
  | 0xb1 => some .JUMPIF
  | 0xb2 => some .JUMPSUB
  | 0xb3 => some .JUMPV
  | 0xb4 => some .JUMPSUBV
  | 0xb5 => some .BEGINSUB
  | 0xb6 => some .BEGINDATA
  | 0xb7 => some .RETURNSUB
  | 0xb8 => some .PUTLOCAL
  | 0xb9 => some .GETLOCAL
  | 0xc1 => some .XADD
  | 0xc2 => some .XMUL
  | 0xc3 => some .XSUB
  | 0xc4 => some .XDIV
  | 0xc5 => some .XSDIV
  | 0xc6 => some .XMOD
  | 0xc7 => some .XSMOD
  | 0xd0 => some .XLT
  | 0xd1 => some .XGT
  | 0xd2 => some .XSLT
  | 0xd3 => some .XSGT
  | 0xd4 => some .XEQ
  | 0xd5 => some .XISZERO
  | 0xd6 => some .XAND
  | 0xd7 => some .XOOR
  | 0xd8 => some .XXOR
  | 0xd9 => some .XNOT
  | 0xdb => some .XSHL
  | 0xdc => some .XSHR
  | 0xdd => some .XSAR
  | 0xde => some .XROL
  | 0xdf => some .XROR
  | 0xe0 => some .XPUSH
  | 0xe1 => some .XMLOAD
  | 0xe2 => some .XMSTORE
  | 0xe4 => some .XSLOAD
  | 0xe5 => some .XSSTORE
  | 0xe6 => some .XVTOWIDE
  | 0xe7 => some .XWIDETOV
  | 0xe8 => some .XGET
  | 0xe9 => some .XPUT
  | 0xea => some .XSWIZZLE
  | 0xeb => some .XSHUFFLE
  | 0xf0 => some .CREATE
  | 0xf1 => some .CALL
  | 0xf2 => some .CALLCODE
  | 0xf3 => some .RETURN
  | 0xf4 => some .DELEGATECALL
  | 0xf5 => some .CREATE2
  | 0xfa => some .STATICCALL
  | 0xfd => some .REVERT
  | 0xfe => some .INVALID
  | 0xff => some .SUICIDE
  | _ => none

def ofByte (byte : UInt8) : Instruction :=
  if h : 0x60 ≤ byte.toNat ∧ byte.toNat < 0x80 then .PUSH ⟨byte.toNat - 0x60, by omega⟩
  else if h : 0x80 ≤ byte.toNat ∧ byte.toNat < 0x90 then .DUP ⟨byte.toNat - 0x80, by omega⟩
  else if h : 0x90 ≤ byte.toNat ∧ byte.toNat < 0xa0 then .SWAP ⟨byte.toNat - 0x90, by omega⟩
  else if h : 0xa0 ≤ byte.toNat ∧ byte.toNat < 0xa5 then .LOG ⟨byte.toNat - 0xa0, by omega⟩
  else (ofOpcode byte.toNat).getD (.unnamed byte)

/-- `instructionInfo`: how many items an instruction takes from the stack and how many it puts
back. -/
def info : Instruction → ℕ × ℕ
  | .STOP | .JUMPDEST | .BEGINSUB | .BEGINDATA | .XADD | .INVALID => (0, 0)
  | .ADDRESS | .ORIGIN | .CALLER | .CALLVALUE | .CALLDATASIZE | .CODESIZE | .GASPRICE
  | .RETURNDATASIZE | .COINBASE | .TIMESTAMP | .NUMBER | .DIFFICULTY | .GASLIMIT | .PC | .MSIZE
  | .GAS | .PUSHC | .GETLOCAL => (0, 1)
  | .POP | .JUMP | .JUMPC | .JUMPTO | .JUMPSUB | .JUMPV | .JUMPSUBV | .RETURNSUB | .PUTLOCAL
  | .SUICIDE => (1, 0)
  | .ISZERO | .NOT | .BALANCE | .CALLDATALOAD | .EXTCODESIZE | .EXTCODEHASH | .BLOCKHASH
  | .MLOAD | .SLOAD | .XAND | .XPUSH | .XMLOAD | .XSLOAD | .XVTOWIDE | .XWIDETOV => (1, 1)
  | .MSTORE | .MSTORE8 | .SSTORE | .JUMPI | .JUMPCI | .JUMPIF | .XMSTORE | .XSSTORE | .RETURN
  | .REVERT => (2, 0)
  | .ADD | .MUL | .SUB | .DIV | .SDIV | .MOD | .SMOD | .EXP | .SIGNEXTEND | .LT | .GT | .SLT
  | .SGT | .EQ | .AND | .OR | .XOR | .BYTE | .SHL | .SHR | .SAR | .SHA3 | .XMUL | .XSUB | .XDIV
  | .XSDIV | .XMOD | .XSMOD | .XLT | .XGT | .XSLT | .XSGT | .XEQ | .XISZERO | .XOOR | .XXOR
  | .XNOT | .XSHL | .XSHR | .XSAR | .XROL | .XROR | .XGET | .XSWIZZLE => (2, 1)
  | .CALLDATACOPY | .CODECOPY | .RETURNDATACOPY => (3, 0)
  | .ADDMOD | .MULMOD | .XPUT | .XSHUFFLE | .CREATE => (3, 1)
  | .EXTCODECOPY => (4, 0)
  | .CREATE2 => (4, 1)
  | .DELEGATECALL | .STATICCALL => (6, 1)
  | .CALL | .CALLCODE => (7, 1)
  | .PUSH _ => (0, 1)
  | .DUP n => (n + 1, n + 2)
  | .SWAP n => (n + 2, n + 2)
  | .LOG n => (n + 2, 0)
  | .unnamed _ => (0, 0)

def args (op : Instruction) : ℕ := op.info.1

def ret (op : Instruction) : ℕ := op.info.2

end Instruction

end GseNetwork.Vm
