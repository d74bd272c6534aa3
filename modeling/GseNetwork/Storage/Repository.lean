import GseNetwork.Foundation.Effect
import GseNetwork.Foundation.ReadThrough
import GseNetwork.Storage.Database

namespace GseNetwork.Storage

open GseNetwork.Core GseNetwork.Foundation GseNetwork.Foundation.ReadThrough
open Std (ExtTreeMap)

def accountTable : Table Address Account where
  key := Account.address
  isEmpty := Account.isEmpty
  assign := Account.assign
  blank := emptyAccount
  missing := id

def producerTable : Table Address Producer where
  key := Producer.address
  isEmpty := Producer.isEmpty
  assign _ producer := producer
  blank := emptyProducer
  missing _ := emptyProducer

def transactionTable (sha3 : Bytes → H256) : Table TxID Transaction where
  key := Transaction.getHash sha3
  isEmpty tx := tx.equal sha3 emptyTransaction
  assign _ tx := tx
  blank := emptyTransaction
  missing _ := emptyTransaction

/-- One repository: the block it was made for and its three caches. The parent of a repository
is the next one in the stack; the last one reads the database. -/
structure Repository where
  block : Block
  cacheAccount : ExtTreeMap Address Account := ∅
  cacheProducer : ExtTreeMap Address Producer := ∅
  cacheTransaction : ExtTreeMap TxID Transaction := ∅

abbrev RepoM := Eff (List Repository) Exception

namespace Repository

def setAccounts (stack : List Repository) (caches : List (ExtTreeMap Address Account)) :
    List Repository :=
  List.zipWith (fun r m ↦ { r with cacheAccount := m }) stack caches

def setProducers (stack : List Repository) (caches : List (ExtTreeMap Address Producer)) :
    List Repository :=
  List.zipWith (fun r m ↦ { r with cacheProducer := m }) stack caches

def setTransactions (stack : List Repository) (caches : List (ExtTreeMap TxID Transaction)) :
    List Repository :=
  List.zipWith (fun r m ↦ { r with cacheTransaction := m }) stack caches

section Operations

variable (sha3 : Bytes → H256) (db : DatabaseController)

def getAccount (address : Address) : RepoM Account := fun stack ↦
  let r := accountTable.get db.getAccount (stack.map cacheAccount) address
  (r.1, setAccounts stack r.2)

def putAccount (account : Account) : RepoM Unit := fun stack ↦
  (.ok (), setAccounts stack (accountTable.putTop account (stack.map cacheAccount)))

def getProducer (address : Address) : RepoM Producer := fun stack ↦
  let r := producerTable.get db.getProducer (stack.map cacheProducer) address
  (r.1, setProducers stack r.2)

def putProducer (producer : Producer) : RepoM Unit := fun stack ↦
  (.ok (), setProducers stack (producerTable.putTop producer (stack.map cacheProducer)))

def getTransaction (id : TxID) : RepoM Transaction := fun stack ↦
  let r := (transactionTable sha3).get db.getTransaction (stack.map cacheTransaction) id
  (r.1, setTransactions stack r.2)

def putTransaction (tx : Transaction) : RepoM Unit := fun stack ↦
  (.ok (), setTransactions stack
    ((transactionTable sha3).putTop tx (stack.map cacheTransaction)))

def blockTimestamp : RepoM Int64 := fun stack ↦
  (.ok ((stack.map fun r ↦ r.block.getTimestamp).headD 0), stack)

def getProducerList : List Repository → Except Exception (ExtTreeMap Address Producer)
  | [] => db.getProducerList
  | r :: rest => do
    let ret ← getProducerList rest
    return r.cacheProducer.toList.foldl (fun m i ↦ m.insert i.1 i.2) ret

def burn (target : Address) (value : UInt64) : RepoM Unit := do
  let account ← getAccount db target
  if account.isEmpty then
    Eff.throw (repositoryException ("burn - " ++ target.toHex ++ " is empty."))
  else if account.balance < value then
    Eff.throw (repositoryException ("burn - " ++ target.toHex ++ " not enough balance."))
  else putAccount { account with balance := account.balance - value }

def bonus (target : Address) (value : UInt64) : RepoM Unit := do
  let account ← getAccount db target
  if account.isEmpty then
    Eff.throw (repositoryException ("reward - " ++ target.toHex ++ " is empty."))
  else putAccount { account with balance := account.balance + value }

def transfer (sender recipient : Address) (value : UInt64) : RepoM Unit := do
  let source ← getAccount db sender
  let target ← getAccount db recipient
  if source.isEmpty then
    Eff.throw (repositoryException ("transfer - from:" ++ sender.toHex ++ " is empty."))
  else
    let timestamp ← blockTimestamp
    let target :=
      if target.isEmpty then target.assign (Account.new recipient 0 timestamp) else target
    if source.balance < value ∨ target.balance + value < value then
      Eff.throw (repositoryException
        ("transfer - from:" ++ sender.toHex ++ " to:" ++ recipient.toHex ++
        " not enough balance or overflow."))
    else do
      putAccount { source with balance := source.balance - value }
      putAccount { target with balance := target.balance + value }

def clearVote (address : Address) : RepoM Unit := do
  let account ← getAccount db address
  if account.isEmpty then
    Eff.throw (repositoryException ("Clear vote account (" ++ address.toHex ++ ") not exist"))
  else do
    Eff.forEach account.candidates.toList fun i ↦ do
      let producer ← getProducer db i.1
      if producer.isEmpty then
        Eff.throw (repositoryException ("Producer (" ++ i.1.toHex ++ ") not exist"))
      else putProducer (producer.eraseVoter address)
    putAccount account.clearVote

def voteIncrease (voter candidate : Address) (value : UInt64) : RepoM Unit := do
  let account ← getAccount db voter
  if account.isEmpty then Eff.throw (repositoryException "Voter account not exist")
  else do
    let producer ← getProducer db candidate
    if producer.isEmpty then Eff.throw (repositoryException "Vote not exist producer")
    else if account.balance - account.votes * 1000000 < value * 1000000 then
      Eff.throw (repositoryException ("Voter (" ++ voter.toHex ++ ") has not enough balance"))
    else do
      putAccount (account.addVoter candidate value)
      putProducer (producer.addVoter voter value)

end Operations

/-- What `commit` of the lowest repository puts into the database. -/
def commitWrites (r : Repository) : List DbWrite :=
  r.cacheAccount.toList.map (fun i ↦ .account i.2) ++
    r.cacheProducer.toList.map (fun i ↦ .producer i.2) ++
    r.cacheTransaction.toList.map (fun i ↦ .transaction i.2) ++
    [.block r.block, .blockIndex r.block]

end Repository

end GseNetwork.Storage
