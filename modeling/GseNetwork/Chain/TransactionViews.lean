import GseNetwork.Chain.Prevalidation
import GseNetwork.Chain.Moves

namespace GseNetwork.Chain

open GseNetwork.Core GseNetwork.Foundation GseNetwork.Storage GseNetwork.Foundation.ReadThrough
open BlockChain Relation

variable {env : Env} {s t u : BlockChain}

section Caches

variable {sha3 : Bytes → H256} {db : DatabaseController} {st st' : List Repository}

structure SameTail (st st' : List Repository) : Prop where
  length_eq : st'.length = st.length
  caches_eq : st'.tail.map Repository.cacheTransaction = st.tail.map Repository.cacheTransaction

theorem sameTail_of_caches
    (h : st'.map Repository.cacheTransaction = st.map Repository.cacheTransaction) :
    SameTail st st' := by
  refine ⟨?_, ?_⟩
  · rw [← List.length_map (f := Repository.cacheTransaction), h, List.length_map]
  · rw [List.map_tail, List.map_tail, h]

theorem framed_sameTail (db : DatabaseController) : Runtime.Framed db SameTail where
  refl st := ⟨rfl, rfl⟩
  trans st st' st'' h h' := ⟨h'.length_eq.trans h.length_eq, h'.caches_eq.trans h.caches_eq⟩
  getAccount a st := sameTail_of_caches
    (Repository.map_setAccounts (by rw [Table.length_get, List.length_map])).2.2.1
  getProducer a st := sameTail_of_caches
    (Repository.map_setProducers (by rw [Table.length_get, List.length_map])).2.2.1
  putAccount x st := sameTail_of_caches
    (Repository.map_setAccounts (by cases st <;> simp [Table.putTop])).2.2.1
  putProducer p st := sameTail_of_caches
    (Repository.map_setProducers (by cases st <;> simp [Table.putTop])).2.2.1

theorem sameTail_putTransaction (sha3 : Bytes → H256) (tx : Transaction) :
    Eff.Keeps SameTail (Repository.putTransaction sha3 tx) := by
  intro st
  cases st with
  | nil => exact ⟨rfl, rfl⟩
  | cons r rest =>
    have htail : (Repository.putTransaction sha3 tx (r :: rest)).2.tail = rest :=
      setTransactions_self rest
    refine ⟨?_, by rw [htail]; rfl⟩
    change (List.zipWith _ _ _).length = _
    rw [List.length_zipWith]
    simp [Table.putTop]

theorem sameTail_excute (sha3 : Bytes → H256) (db : DatabaseController) (timestamp : Int64)
    (tx : Transaction) : Eff.Keeps SameTail (Runtime.excute sha3 db timestamp tx) :=
  Eff.Keeps.bind (framed_sameTail db).trans ((framed_sameTail db).execute timestamp tx) fun _ ↦
    sameTail_putTransaction sha3 tx

end Caches

section Views

def UnderHash (sha3 : Bytes → H256) (id : TxID) (tx : Transaction) : Prop := tx.getHash sha3 = id

theorem underHash_stable (sha3 : Bytes → H256) : (transactionTable sha3).Stable (UnderHash sha3) :=
  ⟨fun _ _ h ↦ h, fun _ _ _ h ↦ h⟩

structure TxKeyed (env : Env) (s : BlockChain) : Prop where
  store : (transactionTable env.sha3).SoundStore s.dbc.getTransaction (UnderHash env.sha3)
  caches : Table.SoundStack (UnderHash env.sha3)
    ((stack s.memoryQueue).map Repository.cacheTransaction)

def txView (env : Env) (s : BlockChain) : TxID → Except Exception Transaction :=
  (transactionTable env.sha3).view s.dbc.getTransaction
    ((stack s.memoryQueue).map Repository.cacheTransaction)

theorem isExistInRepo_fst (tx : Transaction) : (isExistInRepo env tx s).1 =
    (txView env s (tx.getHash env.sha3)).map fun item ↦ !item.equal env.sha3 emptyTransaction := by
  unfold isExistInRepo
  rcases hrun : onRepo (fun db ↦ Repository.getTransaction env.sha3 db (tx.getHash env.sha3)) s
    with ⟨e | item, v⟩
  · rw [Eff.bind_error hrun, show txView env s (tx.getHash env.sha3) = .error e from
      congrArg Prod.fst hrun]
    rfl
  · rw [Eff.bind_ok hrun, show txView env s (tx.getHash env.sha3) = .ok item from
      congrArg Prod.fst hrun]
    rfl

theorem checkTransactionNotExisted_fst (id : TxID) :
    (Relay.checkTransactionNotExisted env id s).1 =
      (txView env s id).map fun item ↦ item.equal env.sha3 emptyTransaction := by
  unfold Relay.checkTransactionNotExisted
  rcases hrun : onRepo (fun db ↦ Repository.getTransaction env.sha3 db id) s with ⟨e | item, v⟩
  · rw [Eff.bind_error hrun, show txView env s id = .error e from congrArg Prod.fst hrun]
    rfl
  · rw [Eff.bind_ok hrun, show txView env s id = .ok item from congrArg Prod.fst hrun]
    rfl

structure KeepsTx (env : Env) (s t : BlockChain) : Prop where
  schedule_eq : t.schedule = s.schedule
  keyed : TxKeyed env s → TxKeyed env t
  view_eq : TxKeyed env s → txView env t = txView env s

theorem KeepsTx.refl (s : BlockChain) : KeepsTx env s s := ⟨rfl, id, fun _ ↦ rfl⟩

theorem KeepsTx.trans (h : KeepsTx env s t) (h' : KeepsTx env t u) : KeepsTx env s u where
  schedule_eq := h'.schedule_eq.trans h.schedule_eq
  keyed hs := h'.keyed (h.keyed hs)
  view_eq hs := (h'.view_eq (h.keyed hs)).trans (h.view_eq hs)

theorem keepsTx_of_eq (hdbc : t.dbc = s.dbc) (hqueue : t.memoryQueue = s.memoryQueue)
    (hschedule : t.schedule = s.schedule) : KeepsTx env s t := by
  refine ⟨hschedule, fun hs ↦ ⟨?_, ?_⟩, fun hs ↦ ?_⟩
  · rw [hdbc]
    exact hs.store
  · rw [hqueue]
    exact hs.caches
  · unfold txView
    rw [hdbc, hqueue]

theorem keepsTx_unstack {st : List Repository} (hlength : st.length = s.memoryQueue.length)
    (hcaches : st.map Repository.cacheTransaction =
        (stack s.memoryQueue).map Repository.cacheTransaction ∨
      ∃ id, st.map Repository.cacheTransaction = ((transactionTable env.sha3).get
        s.dbc.getTransaction ((stack s.memoryQueue).map Repository.cacheTransaction) id).2) :
    KeepsTx env s { s with memoryQueue := unstack s.memoryQueue st } := by
  have hstack : stack (unstack s.memoryQueue st) = st := stack_unstack hlength
  rcases hcaches with hsame | ⟨id, hread⟩
  · refine ⟨rfl, fun hs ↦ ⟨hs.store, ?_⟩, fun hs ↦ ?_⟩
    · rw [hstack, hsame]
      exact hs.caches
    · unfold txView
      rw [hstack, hsame]
  · refine ⟨rfl, fun hs ↦ ⟨hs.store, ?_⟩, fun hs ↦ ?_⟩
    · rw [hstack, hread]
      exact hs.caches.get (transactionTable_lawful env.sha3) (underHash_stable env.sha3) hs.store id
    · unfold txView
      rw [hstack, hread]
      exact Table.view_get (transactionTable_lawful env.sha3) (underHash_stable env.sha3) hs.store
        hs.caches id

theorem keepsTx_onChild {α : Type} {m : DatabaseController → RepoM α}
    (hm : ∀ db, Eff.Keeps SameTail (m db)) : KeepsTx env s (onChild m s).2 := by
  have htail := hm s.dbc ({ block := emptyBlock } :: stack s.memoryQueue)
  refine keepsTx_unstack ?_ (Or.inl htail.caches_eq)
  rw [List.length_tail, htail.length_eq, List.length_cons, length_stack, Nat.add_sub_cancel]

theorem Checks.keepsTx (h : Checks env s t) : KeepsTx env s t := by
  cases h with
  | seek id =>
    have hlength : ((transactionTable env.sha3).get s.dbc.getTransaction
        ((stack s.memoryQueue).map Repository.cacheTransaction) id).2.length =
          (stack s.memoryQueue).length := by
      rw [Table.length_get, List.length_map]
    refine keepsTx_unstack ?_ (Or.inr ⟨id, (Repository.map_setTransactions hlength).2.2.1⟩)
    change (List.zipWith _ _ _).length = _
    rw [List.length_zipWith, hlength, Nat.min_self, length_stack]
  | lookup id =>
    obtain ⟨rest', hrest, hget⟩ := Table.get_snd_cons (transactionTable env.sha3)
      s.dbc.getTransaction ∅ ((stack s.memoryQueue).map Repository.cacheTransaction) id
    have hlength : rest'.length = (stack s.memoryQueue).length := by
      rcases hrest with rfl | rfl
      · rw [List.length_map]
      · rw [Table.length_get, List.length_map]
    have htail : (Repository.getTransaction env.sha3 s.dbc id
        ({ block := emptyBlock } :: stack s.memoryQueue)).2.tail =
          Repository.setTransactions (stack s.memoryQueue) rest' := by
      change (Repository.setTransactions _ ((transactionTable env.sha3).get s.dbc.getTransaction
        (∅ :: (stack s.memoryQueue).map Repository.cacheTransaction) id).2).tail = _
      rcases hget with heq | ⟨v, -, -, -, heq⟩ <;> rw [heq] <;> rfl
    have hcaches := (Repository.map_setTransactions hlength).2.2.1
    refine keepsTx_unstack ?_ ?_ <;> rw [htail]
    · rw [← List.length_map (f := Repository.cacheTransaction), hcaches, hlength, length_stack]
    · rw [hcaches]
      exact hrest.imp_right fun heq ↦ ⟨id, heq⟩
  | trial tx => exact keepsTx_onChild fun db ↦ sameTail_excute env.sha3 db 0 tx
  | trials txs =>
    exact keepsTx_onChild fun db ↦ Eff.keeps_forEach (framed_sameTail db).refl
      (framed_sameTail db).trans txs fun tx _ ↦ sameTail_excute env.sha3 db 0 tx

end Views

end GseNetwork.Chain
