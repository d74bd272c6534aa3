import GseNetwork.Chain.BlockChain

namespace GseNetwork.Chain.Valid

open GseNetwork.Core GseNetwork.Foundation.BigEndian

variable (env : Env)

def toAddress (pubKey : Public) : Address :=
  (env.sha3 (toBigEndian 64 pubKey.toNat)).setWidth 160

def validTransaction (tx : Transaction) : Bool :=
  toAddress env (env.recover tx.signature (tx.getHash env.sha3)) == tx.sender

def validBlock (block : Block) : Bool :=
  toAddress env (env.recover block.blockHeader.signature (block.getHash env.sha3)) ==
    block.getProducer && block.transactions.all (validTransaction env)

def validConfirmation (hc : HeaderConfirmation) : Bool :=
  toAddress env (env.recover hc.signature (hc.getHash env.sha3)) == hc.producer

/-- The confirmation carries a signature of its producer: `recover` answers with a key of that
address, and not with the null key that stands for an invalid signature. -/
def Signed (hc : HeaderConfirmation) : Prop :=
  validConfirmation env hc = true ∧ env.recover hc.signature (hc.getHash env.sha3) ≠ 0

end GseNetwork.Chain.Valid
