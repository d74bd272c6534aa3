import GseNetwork.Foundation.Layers
import GseNetwork.Storage.Views

namespace GseNetwork.Storage

open GseNetwork.Core GseNetwork.Foundation GseNetwork.Foundation.ReadThrough
open Std (ExtTreeMap)

section Commit

variable {sha3 : Bytes → H256} {codec : Codec} {α : Type}

theorem putAll_append (db : DatabaseController) (l l' : List DbWrite) :
    db.putAll sha3 codec (l ++ l') = (db.putAll sha3 codec l).putAll sha3 codec l' :=
  List.foldl_append

theorem putAll_accounts (db : DatabaseController) (g : α → Account) (l : List α) :
    db.putAll sha3 codec (l.map fun i ↦ .account (g i)) = { db with
      accountStore := l.foldl (fun m i ↦ m.insert (g i).address (codec.account (g i)))
        db.accountStore } := by
  induction l generalizing db with
  | nil => rfl
  | cons i l ih => exact ih (db.put sha3 codec (.account (g i)))

theorem putAll_producers (db : DatabaseController) (g : α → Producer) (l : List α) :
    db.putAll sha3 codec (l.map fun i ↦ .producer (g i)) = { db with
      producerStore := l.foldl (fun m i ↦ m.insert (g i).address (codec.producer (g i)))
        db.producerStore } := by
  induction l generalizing db with
  | nil => rfl
  | cons i l ih => exact ih (db.put sha3 codec (.producer (g i)))

theorem putAll_transactions (db : DatabaseController) (g : α → Transaction) (l : List α) :
    db.putAll sha3 codec (l.map fun i ↦ .transaction (g i)) = { db with
      transactionStore := l.foldl (fun m i ↦ m.insert ((g i).getHash sha3)
        (codec.transaction (g i))) db.transactionStore } := by
  induction l generalizing db with
  | nil => rfl
  | cons i l ih => exact ih (db.put sha3 codec (.transaction (g i)))

theorem putAll_commitWrites (db : DatabaseController) (r : Repository) :
    db.putAll sha3 codec r.commitWrites = { db with
      accountStore := r.cacheAccount.toList.foldl
        (fun m i ↦ m.insert i.2.address (codec.account i.2)) db.accountStore
      producerStore := r.cacheProducer.toList.foldl
        (fun m i ↦ m.insert i.2.address (codec.producer i.2)) db.producerStore
      transactionStore := r.cacheTransaction.toList.foldl
        (fun m i ↦ m.insert (i.2.getHash sha3) (codec.transaction i.2)) db.transactionStore
      blockStore := db.blockStore.insert (r.block.getHash sha3) (codec.block r.block)
      blockIndexStore := db.blockIndexStore.insert r.block.getNumber (codec.block r.block) } := by
  unfold Repository.commitWrites
  rw [putAll_append, putAll_append, putAll_append, putAll_accounts, putAll_producers,
    putAll_transactions]
  rfl

end Commit

structure Ledger where
  account : Address → Account
  producer : Address → Producer
  transaction : TxID → Transaction

section Operations

inductive Query
  | account (address : Address)
  | producer (address : Address)
  | transaction (id : TxID)

inductive Access
  | get (query : Query)
  | putAccount (account : Account)
  | putProducer (producer : Producer)
  | putTransaction (tx : Transaction)

inductive Operation
  | addMemoryItem (block : Block)
  | top (access : Access)
  | read (layer : ℕ) (query : Query)
  | child (accesses : List Access)
  | cancelMemoryItem
  | commit

structure Layered where
  db : DatabaseController
  stack : List Repository

variable (sha3 : Bytes → H256)

def Query.run (db : DatabaseController) : Query → List Repository → List Repository
  | .account address, stack => (Repository.getAccount db address stack).2
  | .producer address, stack => (Repository.getProducer db address stack).2
  | .transaction id, stack => (Repository.getTransaction sha3 db id stack).2

def Access.run (db : DatabaseController) : Access → List Repository → List Repository
  | .get query, stack => query.run sha3 db stack
  | .putAccount account, stack => (Repository.putAccount account stack).2
  | .putProducer producer, stack => (Repository.putProducer producer stack).2
  | .putTransaction tx, stack => (Repository.putTransaction sha3 tx stack).2

def runAll (db : DatabaseController) (accesses : List Access) (stack : List Repository) :
    List Repository :=
  accesses.foldl (fun stack access ↦ access.run sha3 db stack) stack

/-- The operations on the stack. A child repository is dropped after its use; the commit is that
of the lowest repository, whose parent link is then cut. -/
def Operation.run (s : Layered) : Operation → Layered
  | .addMemoryItem block => { s with stack := { block := block } :: s.stack }
  | .top access => { s with stack := access.run sha3 s.db s.stack }
  | .read layer query =>
    { s with stack := s.stack.take layer ++ query.run sha3 s.db (s.stack.drop layer) }
  | .child accesses =>
    { s with stack := (runAll sha3 s.db accesses ({ block := emptyBlock } :: s.stack)).tail }
  | .cancelMemoryItem => { s with stack := s.stack.tail }
  | .commit => match s.stack.getLast? with
    | none => s
    | some bottom =>
      { db := s.db.putAll sha3 .faithful bottom.commitWrites, stack := s.stack.dropLast }

end Operations

section Specification

variable (sha3 : Bytes → H256)

def Access.apply (l : Ledger) : Access → Ledger
  | .get _ => l
  | .putAccount x => { l with account := Function.update l.account x.address x }
  | .putProducer p => { l with producer := Function.update l.producer p.address p }
  | .putTransaction tx =>
    { l with transaction := Function.update l.transaction (tx.getHash sha3) tx }

/-- The same on ledgers without caches: one for the database and one for each block on top of
it, each written to on its own. -/
def Operation.apply : List Ledger → Operation → List Ledger
  | l :: ls, .addMemoryItem _ => l :: l :: ls
  | l :: l' :: ls, .top access => access.apply sha3 l :: l' :: ls
  | _ :: l :: ls, .cancelMemoryItem => l :: ls
  | l :: l' :: ls, .commit => (l :: l' :: ls).dropLast
  | ls, _ => ls

end Specification

end GseNetwork.Storage
