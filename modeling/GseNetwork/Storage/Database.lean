import GseNetwork.Chain.BlockState
import GseNetwork.Core.Account

namespace GseNetwork.Storage

open GseNetwork.Core GseNetwork.Chain
open Std (ExtTreeMap)

structure Codec where
  account : Account → Except Exception Account
  producer : Producer → Except Exception Producer
  transaction : Transaction → Except Exception Transaction
  block : Block → Except Exception Block
  blockState : BlockState → Except Exception BlockState

def Codec.faithful : Codec where
  account := .ok
  producer := .ok
  transaction := .ok
  block := .ok
  blockState := .ok

structure Attributes where
  dbDirty : ℕ := 0
  currentBlockHeight : ℕ := 0
  prevProducerList : ProducerSnapshot := {}
  currentProducerList : ProducerSnapshot := {}
  solidifyActiveProducerList : ProducerSnapshot := {}
  deriving DecidableEq

inductive DbWrite
  | account (x : Account)
  | producer (x : Producer)
  | transaction (x : Transaction)
  | block (x : Block)
  | blockIndex (x : Block)
  | blockState (x : BlockState)
  | blockStateIndex (x : BlockState)
  | dbDirty (value : ℕ)
  | currentBlockHeight (value : ℕ)
  | prevProducerList (value : ProducerSnapshot)
  | currentProducerList (value : ProducerSnapshot)
  | solidifyActiveProducerList (value : ProducerSnapshot)

structure DatabaseController where
  accountStore : ExtTreeMap Address (Except Exception Account) := ∅
  producerStore : ExtTreeMap Address (Except Exception Producer) := ∅
  transactionStore : ExtTreeMap TxID (Except Exception Transaction) := ∅
  blockStore : ExtTreeMap BlockID (Except Exception Block) := ∅
  blockIndexStore : ExtTreeMap ℕ (Except Exception Block) := ∅
  blockStateStore : ExtTreeMap BlockID (Except Exception BlockState) := ∅
  blockStateIndexStore : ExtTreeMap ℕ (Except Exception BlockState) := ∅
  attributesStore : Attributes := {}

namespace DatabaseController

variable (db : DatabaseController)

def getAccount (address : Address) : Except Exception Account :=
  db.accountStore.getD address (.ok emptyAccount)

def getProducer (address : Address) : Except Exception Producer :=
  db.producerStore.getD address (.ok emptyProducer)

def getTransaction (key : TxID) : Except Exception Transaction :=
  db.transactionStore.getD key (.ok emptyTransaction)

def getBlock (key : BlockID) : Except Exception Block :=
  db.blockStore.getD key (.ok emptyBlock)

def getBlockByNumber (number : ℕ) : Except Exception Block :=
  db.blockIndexStore.getD number (.ok emptyBlock)

def getProducerList : Except Exception (ExtTreeMap Address Producer) :=
  db.producerStore.toList.foldlM (fun m i ↦ do
    let temp ← i.2
    return m.insert temp.address temp) ∅

def put (sha3 : Bytes → H256) (codec : Codec) : DbWrite → DatabaseController
  | .account x => { db with accountStore := db.accountStore.insert x.address (codec.account x) }
  | .producer x =>
    { db with producerStore := db.producerStore.insert x.address (codec.producer x) }
  | .transaction x =>
    { db with
      transactionStore := db.transactionStore.insert (x.getHash sha3) (codec.transaction x) }
  | .block x => { db with blockStore := db.blockStore.insert (x.getHash sha3) (codec.block x) }
  | .blockIndex x =>
    { db with blockIndexStore := db.blockIndexStore.insert x.getNumber (codec.block x) }
  | .blockState x =>
    { db with blockStateStore :=
        db.blockStateStore.insert (x.block.getHash sha3) (codec.blockState x) }
  | .blockStateIndex x =>
    { db with blockStateIndexStore :=
        db.blockStateIndexStore.insert x.blockNumber (codec.blockState x) }
  | .dbDirty value => { db with attributesStore.dbDirty := value }
  | .currentBlockHeight value => { db with attributesStore.currentBlockHeight := value }
  | .prevProducerList value => { db with attributesStore.prevProducerList := value }
  | .currentProducerList value => { db with attributesStore.currentProducerList := value }
  | .solidifyActiveProducerList value =>
    { db with attributesStore.solidifyActiveProducerList := value }

def putAll (sha3 : Bytes → H256) (codec : Codec) (writes : List DbWrite) : DatabaseController :=
  writes.foldl (fun db w ↦ db.put sha3 codec w) db

end DatabaseController

end GseNetwork.Storage
