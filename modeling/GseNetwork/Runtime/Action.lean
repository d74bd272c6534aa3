import GseNetwork.Storage.Repository

namespace GseNetwork.Runtime

open GseNetwork.Core GseNetwork.Foundation GseNetwork.Storage

section Actions

variable (sha3 : Bytes → H256) (db : DatabaseController)

def vote (tx : Transaction) : RepoM Unit := do
  Repository.clearVote db tx.sender
  Repository.burn db tx.sender transactionFee
  let ballot ← Eff.ofExcept (Ballot.ofRLP tx.data)
  Eff.forEach ballot fun i ↦ Repository.voteIncrease db tx.sender i.address i.value

def transfer (tx : Transaction) : RepoM Unit := do
  Repository.burn db tx.sender transactionFee
  Repository.transfer db tx.sender tx.recipient tx.value

def beenProducer (timestamp : Int64) (tx : Transaction) : RepoM Unit := do
  Repository.burn db tx.sender transactionFee
  let target ← Repository.getProducer db tx.sender
  if target.isEmpty then do
    Repository.burn db tx.sender producerCost
    Repository.putProducer (Producer.new tx.sender timestamp)
  else pure ()

def execute (timestamp : Int64) (tx : Transaction) : RepoM Unit :=
  if tx.type = Transaction.voteType then vote db tx
  else if tx.type = Transaction.transferType then transfer db tx
  else if tx.type = Transaction.beenProducerType then beenProducer db timestamp tx
  else pure ()

def excute (timestamp : Int64) (tx : Transaction) : RepoM Unit := do
  execute db timestamp tx
  Repository.putTransaction sha3 tx

/-- `CorrelatorFilter::run`: the transactions of a block, one after the other. -/
def run (block : Block) : RepoM Unit :=
  Eff.forEach block.transactions fun tx ↦ excute sha3 db block.getTimestamp tx

end Actions

end GseNetwork.Runtime
