import GseNetwork.Chain.Messages
import GseNetwork.Core.SignedContent

namespace GseNetwork.Chain

open GseNetwork.Core Foundation.BigEndian Foundation.SelfDelimiting RLP

namespace HeaderConfirmation

def contentFields (x : HeaderConfirmation) : List Bytes :=
  [encodeInt x.chainID.toNat, encodeInt x.number.toNat, encodeHash 32 x.blockID,
    encodeInt x.timestamp.toInt, encodeHash 20 x.producer]

def Produced (x : HeaderConfirmation) : Prop := ∃ d, ofRLP d = .ok x

variable {x y : HeaderConfirmation}

end HeaderConfirmation

section Content

variable (cast : ℤ → Except Exception UInt8)

end Content

end GseNetwork.Chain
