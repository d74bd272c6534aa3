import GseNetwork.Storage.Layers

namespace GseNetwork.Storage

open GseNetwork.Core GseNetwork.Foundation GseNetwork.Foundation.ReadThrough
open Std (ExtTreeMap)
open Table (lookup shown Tidy)
open Repository (cacheAccount cacheProducer cacheTransaction)

variable {sha3 : Bytes → H256} {db : DatabaseController} {base l l' : Ledger} {ls : List Ledger}
  {r : Repository} {stack rest : List Repository}

section Plain

/-- An account that `operator=` carries over as a whole; no other one passes for the sentinel. -/
def PlainAccount (x : Account) : Prop :=
  x.contractAddresses = [] ∧ (x.isEmpty = true → x = emptyAccount)

def PlainProducer (p : Producer) : Prop := p.isEmpty = true → p = emptyProducer

def PlainTransaction (sha3 : Bytes → H256) (tx : Transaction) : Prop :=
  tx.equal sha3 emptyTransaction = true → tx = emptyTransaction

theorem accountTable_plain : accountTable.Plain PlainAccount where
  blank := ⟨rfl, fun _ ↦ rfl⟩
  assign x v hx hv := by
    change { v with contractAddresses := x.contractAddresses } = v
    rw [hx.1, ← hv.1]
  missing _ _ _ := rfl

theorem producerTable_plain : producerTable.Plain PlainProducer where
  blank _ := rfl
  assign _ _ _ _ := rfl
  missing _ hv hempty := (hv hempty).symm

theorem transactionTable_plain (sha3 : Bytes → H256) :
    (transactionTable sha3).Plain (PlainTransaction sha3) where
  blank _ := rfl
  assign _ _ _ _ := rfl
  missing _ hv hempty := (hv hempty).symm

end Plain

def Access.Entity (sha3 : Bytes → H256) : Access → Prop
  | .get _ => True
  | .putAccount x => x.isEmpty = false
  | .putProducer p => p.isEmpty = false
  | .putTransaction tx => tx.equal sha3 emptyTransaction = false

def Access.Whole : Access → Prop
  | .putAccount x => x.contractAddresses = []
  | _ => True

structure AnswersWith (db : DatabaseController) (base : Ledger) : Prop where
  account : ∀ a, db.getAccount a = .ok (base.account a)
  producer : ∀ a, db.producerStore[a]? =
    if (base.producer a).isEmpty then none else some (.ok (base.producer a))
  transaction : ∀ id, db.getTransaction id = .ok (base.transaction id)

structure Stands (sha3 : Bytes → H256) (base : Ledger) (stack : List Repository)
    (ls : List Ledger) : Prop where
  accounts : accountTable.Tidy PlainAccount base.account (stack.map cacheAccount)
  producers : producerTable.Tidy PlainProducer base.producer (stack.map cacheProducer)
  transactions : (transactionTable sha3).Tidy (PlainTransaction sha3) base.transaction
    (stack.map cacheTransaction)
  account_eq : ls.map Ledger.account = shown base.account (stack.map cacheAccount)
  producer_eq : ls.map Ledger.producer = shown base.producer (stack.map cacheProducer)
  transaction_eq : ls.map Ledger.transaction =
    shown base.transaction (stack.map cacheTransaction)

theorem AnswersWith.getProducer (h : AnswersWith db base)
    (hbase : ∀ a, PlainProducer (base.producer a)) (a : Address) :
    db.getProducer a = .ok (base.producer a) := by
  rw [DatabaseController.getProducer, ExtTreeMap.getD_eq_getD_getElem?, h.producer a]
  split_ifs with hempty
  · exact congrArg Except.ok (hbase a hempty).symm
  · rfl

namespace Stands

theorem length_eq (h : Stands sha3 base stack ls) : ls.length = stack.length + 1 := by
  have hlength := congrArg List.length h.account_eq
  rwa [List.length_map, Table.length_shown, List.length_map] at hlength

theorem tail (h : Stands sha3 base (r :: rest) (l :: ls)) : Stands sha3 base rest ls where
  accounts := h.accounts.tail
  producers := h.producers.tail
  transactions := h.transactions.tail
  account_eq := (List.cons.inj h.account_eq).2
  producer_eq := (List.cons.inj h.producer_eq).2
  transaction_eq := (List.cons.inj h.transaction_eq).2

theorem drop (h : Stands sha3 base stack ls) {i : ℕ} (hi : i ≤ stack.length) :
    Stands sha3 base (stack.drop i) (ls.drop i) := by
  induction i generalizing stack ls with
  | zero => exact h
  | succ i ih =>
    have hlength := h.length_eq
    cases stack with
    | nil => simp at hi
    | cons r rest =>
      cases ls with
      | nil => simp at hlength
      | cons l ls => exact ih h.tail (by simpa using hi)

theorem congr_tail (h : Stands sha3 base (r :: rest) (l :: ls)) {rest' : List Repository}
    (hrest : Stands sha3 base rest' ls) : Stands sha3 base (r :: rest') (l :: ls) where
  accounts := hrest.accounts.cons (h.accounts.entry _ List.mem_cons_self)
  producers := hrest.producers.cons (h.producers.entry _ List.mem_cons_self)
  transactions := hrest.transactions.cons (h.transactions.entry _ List.mem_cons_self)
  account_eq := Table.shown_cons_congr h.account_eq hrest.account_eq
  producer_eq := Table.shown_cons_congr h.producer_eq hrest.producer_eq
  transaction_eq := Table.shown_cons_congr h.transaction_eq hrest.transaction_eq

theorem push (h : Stands sha3 base stack (l :: ls)) (block : Block) :
    Stands sha3 base ({ block := block } :: stack) (l :: l :: ls) where
  accounts := h.accounts.cons fun k v hv ↦ by simp at hv
  producers := h.producers.cons fun k v hv ↦ by simp at hv
  transactions := h.transactions.cons fun k v hv ↦ by simp at hv
  account_eq := Table.shown_push_of_eq h.account_eq
  producer_eq := Table.shown_push_of_eq h.producer_eq
  transaction_eq := Table.shown_push_of_eq h.transaction_eq

section Caches

variable {ls' : List Ledger} (h : Stands sha3 base stack ls)

include h

theorem setAccounts {caches : List (ExtTreeMap Address Account)}
    (hlength : caches.length = stack.length)
    (htidy : accountTable.Tidy PlainAccount base.account caches)
    (haccount : ls'.map Ledger.account = shown base.account caches)
    (hproducer : ls'.map Ledger.producer = ls.map Ledger.producer)
    (htransaction : ls'.map Ledger.transaction = ls.map Ledger.transaction) :
    Stands sha3 base (Repository.setAccounts stack caches) ls' := by
  obtain ⟨haccounts, hproducers, htransactions, -⟩ := Repository.map_setAccounts hlength
  refine ⟨haccounts.symm ▸ htidy, hproducers.symm ▸ h.producers,
    htransactions.symm ▸ h.transactions, haccounts.symm ▸ haccount, ?_, ?_⟩
  · rw [hproducers, hproducer, h.producer_eq]
  · rw [htransactions, htransaction, h.transaction_eq]

theorem setProducers {caches : List (ExtTreeMap Address Producer)}
    (hlength : caches.length = stack.length)
    (htidy : producerTable.Tidy PlainProducer base.producer caches)
    (haccount : ls'.map Ledger.account = ls.map Ledger.account)
    (hproducer : ls'.map Ledger.producer = shown base.producer caches)
    (htransaction : ls'.map Ledger.transaction = ls.map Ledger.transaction) :
    Stands sha3 base (Repository.setProducers stack caches) ls' := by
  obtain ⟨haccounts, hproducers, htransactions, -⟩ := Repository.map_setProducers hlength
  refine ⟨haccounts.symm ▸ h.accounts, hproducers.symm ▸ htidy,
    htransactions.symm ▸ h.transactions, ?_, hproducers.symm ▸ hproducer, ?_⟩
  · rw [haccounts, haccount, h.account_eq]
  · rw [htransactions, htransaction, h.transaction_eq]

theorem setTransactions {caches : List (ExtTreeMap TxID Transaction)}
    (hlength : caches.length = stack.length)
    (htidy : (transactionTable sha3).Tidy (PlainTransaction sha3) base.transaction caches)
    (haccount : ls'.map Ledger.account = ls.map Ledger.account)
    (hproducer : ls'.map Ledger.producer = ls.map Ledger.producer)
    (htransaction : ls'.map Ledger.transaction = shown base.transaction caches) :
    Stands sha3 base (Repository.setTransactions stack caches) ls' := by
  obtain ⟨haccounts, hproducers, htransactions, -⟩ := Repository.map_setTransactions hlength
  refine ⟨haccounts.symm ▸ h.accounts, hproducers.symm ▸ h.producers,
    htransactions.symm ▸ htidy, ?_, ?_, htransactions.symm ▸ htransaction⟩
  · rw [haccounts, haccount, h.account_eq]
  · rw [hproducers, hproducer, h.producer_eq]

end Caches

section Reads

variable (h : Stands sha3 base stack ls) (hdb : AnswersWith db base)

include h hdb

theorem getProducer_db (a : Address) : db.getProducer a = .ok (base.producer a) :=
  hdb.getProducer h.producers.store a

theorem query (q : Query) : Stands sha3 base (q.run sha3 db stack) ls := by
  cases q with
  | account a =>
    obtain ⟨-, hshown, htidy⟩ := h.accounts.get accountTable_plain hdb.account a
    exact h.setAccounts (by rw [Table.length_get, List.length_map]) htidy
      (h.account_eq.trans hshown.symm) rfl rfl
  | producer a =>
    obtain ⟨-, hshown, htidy⟩ := h.producers.get producerTable_plain (h.getProducer_db hdb) a
    exact h.setProducers (by rw [Table.length_get, List.length_map]) htidy rfl
      (h.producer_eq.trans hshown.symm) rfl
  | transaction id =>
    obtain ⟨-, hshown, htidy⟩ :=
      h.transactions.get (transactionTable_plain sha3) hdb.transaction id
    exact h.setTransactions (by rw [Table.length_get, List.length_map]) htidy rfl rfl
      (h.transaction_eq.trans hshown.symm)

theorem read (layer : ℕ) (q : Query) :
    Stands sha3 base (stack.take layer ++ q.run sha3 db (stack.drop layer)) ls := by
  induction layer generalizing stack ls with
  | zero => exact h.query hdb q
  | succ layer ih =>
    cases stack with
    | nil => exact h.query hdb q
    | cons r rest =>
      have hlength := h.length_eq
      cases ls with
      | nil => simp at hlength
      | cons l ls => exact h.congr_tail (ih h.tail)

end Reads

section Writes

theorem access (h : Stands sha3 base (r :: rest) (l :: ls)) (hdb : AnswersWith db base) (a : Access)
    (hentity : a.Entity sha3) (hwhole : a.Whole) :
    Stands sha3 base (a.run sha3 db (r :: rest)) (a.apply sha3 l :: ls) := by
  cases a with
  | get q => exact h.query hdb q
  | putAccount x =>
    obtain ⟨hhead, htail⟩ := List.cons.inj h.account_eq
    have hx : PlainAccount x := ⟨hwhole, fun hempty ↦ by rw [hentity] at hempty; contradiction⟩
    refine h.setAccounts (by simp [Table.putTop]) (h.accounts.put accountTable_plain hx hentity)
      ?_ rfl rfl
    change _ = shown base.account (accountTable.put r.cacheAccount x :: rest.map cacheAccount)
    rw [Table.shown_put accountTable_plain h.accounts hx, ← htail, ← hhead]
    rfl
  | putProducer p =>
    obtain ⟨hhead, htail⟩ := List.cons.inj h.producer_eq
    have hp : PlainProducer p := fun hempty ↦ by rw [hentity] at hempty; contradiction
    refine h.setProducers (by simp [Table.putTop]) (h.producers.put producerTable_plain hp hentity)
      rfl ?_ rfl
    change _ = shown base.producer (producerTable.put r.cacheProducer p :: rest.map cacheProducer)
    rw [Table.shown_put producerTable_plain h.producers hp, ← htail, ← hhead]
    rfl
  | putTransaction tx =>
    obtain ⟨hhead, htail⟩ := List.cons.inj h.transaction_eq
    have htx : PlainTransaction sha3 tx := fun hempty ↦ by rw [hentity] at hempty; contradiction
    refine h.setTransactions (by simp [Table.putTop])
      (h.transactions.put (transactionTable_plain sha3) htx hentity) rfl rfl ?_
    change _ = shown base.transaction
      ((transactionTable sha3).put r.cacheTransaction tx :: rest.map cacheTransaction)
    rw [Table.shown_put (transactionTable_plain sha3) h.transactions htx, ← htail, ← hhead]
    rfl

/-- Whatever is done with a repository on top, the ledgers below stay as they are. -/
theorem runAll {accesses : List Access} (h : Stands sha3 base (r :: rest) (l :: ls))
    (hdb : AnswersWith db base) (hentity : ∀ a ∈ accesses, a.Entity sha3)
    (hwhole : ∀ a ∈ accesses, a.Whole) :
    Stands sha3 base (Storage.runAll sha3 db accesses (r :: rest)).tail ls := by
  induction accesses generalizing r rest l with
  | nil => exact h.tail
  | cons a accesses ih =>
    have haccess := h.access hdb a (hentity a List.mem_cons_self) (hwhole a List.mem_cons_self)
    have hlength := haccess.length_eq
    have hls := h.length_eq
    change Stands sha3 base (Storage.runAll sha3 db accesses (a.run sha3 db (r :: rest))).tail ls
    cases hrun : a.run sha3 db (r :: rest) with
    | nil =>
      rw [hrun] at hlength
      simp only [List.length_cons, List.length_nil] at hlength hls
      omega
    | cons r' rest' =>
      rw [hrun] at haccess
      exact ih haccess (fun b hb ↦ hentity b (List.mem_cons_of_mem _ hb))
        fun b hb ↦ hwhole b (List.mem_cons_of_mem _ hb)

end Writes

section Commit

def committed (base : Ledger) (bottom : Repository) : Ledger where
  account := lookup base.account [bottom.cacheAccount]
  producer := lookup base.producer [bottom.cacheProducer]
  transaction := lookup base.transaction [bottom.cacheTransaction]

theorem commit (h : Stands sha3 base (stack ++ [r]) ls) :
    Stands sha3 (committed base r) stack ls.dropLast := by
  have haccounts := h.accounts
  have hproducers := h.producers
  have htransactions := h.transactions
  have haccount := h.account_eq
  have hproducer := h.producer_eq
  have htransaction := h.transaction_eq
  rw [List.map_append, List.map_singleton] at haccounts hproducers htransactions
  rw [List.map_append, List.map_singleton, Table.shown_concat] at haccount hproducer htransaction
  refine ⟨haccounts.concat, hproducers.concat, htransactions.concat, ?_, ?_, ?_⟩
  · rw [List.map_dropLast, haccount, List.dropLast_concat]
    rfl
  · rw [List.map_dropLast, hproducer, List.dropLast_concat]
    rfl
  · rw [List.map_dropLast, htransaction, List.dropLast_concat]
    rfl

end Commit

end Stands

end GseNetwork.Storage
