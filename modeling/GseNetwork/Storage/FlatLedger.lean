import GseNetwork.Storage.Refinement

namespace GseNetwork.Storage

open GseNetwork.Core GseNetwork.Foundation GseNetwork.Foundation.ReadThrough
open Std (ExtTreeMap)
open Table (lookup shown Tidy)
open Repository (cacheAccount cacheProducer cacheTransaction)

variable {sha3 : Bytes → H256} {db : DatabaseController} {base l : Ledger} {ls : List Ledger}
  {r : Repository} {stack : List Repository}

section Commit

theorem AnswersWith.commit (hdb : AnswersWith db base) (h : Stands sha3 base [r] ls) :
    AnswersWith (db.putAll sha3 .faithful r.commitWrites) (Stands.committed base r) := by
  rw [putAll_commitWrites]
  refine ⟨fun a ↦ ?_, fun a ↦ ?_, fun id ↦ ?_⟩
  · have hold := hdb.account a
    rw [DatabaseController.getAccount, ExtTreeMap.getD_eq_getD_getElem?] at hold ⊢
    rw [getElem?_foldl_toList db.accountStore r.cacheAccount Account.address h.accounts.key_eq]
    change _ = Except.ok (lookup base.account [r.cacheAccount] a)
    rw [Table.lookup_cons]
    cases r.cacheAccount[a]? with
    | none => exact hold
    | some x => rfl
  · have hold := hdb.producer a
    change (r.cacheProducer.toList.foldl _ db.producerStore)[a]? = _
    rw [getElem?_foldl_toList db.producerStore r.cacheProducer Producer.address
      h.producers.key_eq]
    change _ = if (lookup base.producer [r.cacheProducer] a).isEmpty = true then none
      else some (Except.ok (lookup base.producer [r.cacheProducer] a))
    rw [Table.lookup_cons]
    cases hp : r.cacheProducer[a]? with
    | none => exact hold
    | some p =>
      have hne : p.isEmpty = false := (h.producers.entry _ List.mem_cons_self a p hp).2.1
      rw [Option.getD_some, hne]
      rfl
  · have hold := hdb.transaction id
    rw [DatabaseController.getTransaction, ExtTreeMap.getD_eq_getD_getElem?] at hold ⊢
    rw [getElem?_foldl_toList db.transactionStore r.cacheTransaction (Transaction.getHash sha3)
      h.transactions.key_eq]
    change _ = Except.ok (lookup base.transaction [r.cacheTransaction] id)
    rw [Table.lookup_cons]
    cases r.cacheTransaction[id]? with
    | none => exact hold
    | some tx => rfl

end Commit

section Simulation

def Represents (sha3 : Bytes → H256) (s : Layered) (ls : List Ledger) : Prop :=
  ∃ base, AnswersWith s.db base ∧ Stands sha3 base s.stack ls

def Operation.Each (P : Access → Prop) : Operation → Prop
  | .top access => P access
  | .child accesses => ∀ access ∈ accesses, P access
  | _ => True

theorem access_run_nil (a : Access) : a.run sha3 db [] = [] := by
  cases a with
  | get q => cases q <;> rfl
  | _ => rfl

theorem Represents.exists_cons {s : Layered} (h : Represents sha3 s ls) :
    ∃ l ls', ls = l :: ls' := by
  obtain ⟨base, -, hstands⟩ := h
  have hlength := hstands.length_eq
  cases ls with
  | nil => simp at hlength
  | cons l ls => exact ⟨l, ls, rfl⟩

theorem Represents.step {s : Layered} (h : Represents sha3 s ls) (op : Operation)
    (hentity : op.Each (Access.Entity sha3)) (hwhole : op.Each Access.Whole) :
    Represents sha3 (op.run sha3 s) (op.apply sha3 ls) := by
  obtain ⟨l, ls, rfl⟩ := h.exists_cons
  obtain ⟨db, stack⟩ := s
  obtain ⟨base, hdb, hstands⟩ := h
  have hlength := hstands.length_eq
  dsimp only at hstands hlength
  cases op with
  | addMemoryItem block => exact ⟨base, hdb, hstands.push block⟩
  | top access =>
    cases stack with
    | nil =>
      obtain rfl : ls = [] := by simpa using hlength
      refine ⟨base, hdb, ?_⟩
      change Stands sha3 base (access.run sha3 db []) [l]
      rwa [access_run_nil]
    | cons r rest =>
      cases ls with
      | nil => simp at hlength
      | cons l' ls => exact ⟨base, hdb, hstands.access hdb access hentity hwhole⟩
  | read layer q =>
    refine ⟨base, hdb, ?_⟩
    cases ls with
    | nil => exact hstands.read hdb layer q
    | cons l' ls => exact hstands.read hdb layer q
  | child accesses =>
    refine ⟨base, hdb, ?_⟩
    have hchild := (hstands.push emptyBlock).runAll hdb hentity hwhole
    cases ls with
    | nil => exact hchild
    | cons l' ls => exact hchild
  | cancelMemoryItem =>
    cases stack with
    | nil =>
      obtain rfl : ls = [] := by simpa using hlength
      exact ⟨base, hdb, hstands⟩
    | cons r rest =>
      cases ls with
      | nil => simp at hlength
      | cons l' ls => exact ⟨base, hdb, hstands.tail⟩
  | commit =>
    rcases List.eq_nil_or_concat' stack with rfl | ⟨rest, r, rfl⟩
    · obtain rfl : ls = [] := by simpa using hlength
      exact ⟨base, hdb, hstands⟩
    · cases ls with
      | nil => simp at hlength
      | cons l' ls =>
        have hbottom := hstands.drop (i := rest.length) (by simp)
        rw [List.drop_left] at hbottom
        refine ⟨Stands.committed base r, ?_, ?_⟩
        · simp only [Operation.run, List.getLast?_concat]
          exact hdb.commit hbottom
        · simp only [Operation.run, List.getLast?_concat, List.dropLast_concat]
          exact hstands.commit

def runOperations (sha3 : Bytes → H256) (ops : List Operation) (s : Layered) : Layered :=
  ops.foldl (fun s op ↦ op.run sha3 s) s

def applyOperations (sha3 : Bytes → H256) (ops : List Operation) (ls : List Ledger) :
    List Ledger :=
  ops.foldl (fun ls op ↦ op.apply sha3 ls) ls

theorem Represents.run {s : Layered} (h : Represents sha3 s ls) (ops : List Operation)
    (hentity : ∀ op ∈ ops, op.Each (Access.Entity sha3))
    (hwhole : ∀ op ∈ ops, op.Each Access.Whole) :
    Represents sha3 (runOperations sha3 ops s) (applyOperations sha3 ops ls) := by
  induction ops generalizing s ls with
  | nil => exact h
  | cons op ops ih =>
    exact ih (h.step op (hentity op List.mem_cons_self) (hwhole op List.mem_cons_self))
      (fun op' hop ↦ hentity op' (List.mem_cons_of_mem _ hop))
      fun op' hop ↦ hwhole op' (List.mem_cons_of_mem _ hop)

end Simulation

section Answers

/-- Reads through the stack answer with the ledger; the list of producers is that of the
producers that are read one by one. -/
structure Answers (sha3 : Bytes → H256) (db : DatabaseController) (stack : List Repository)
    (l : Ledger) : Prop where
  account : ∀ a, (Repository.getAccount db a stack).1 = .ok (l.account a)
  producer : ∀ a, (Repository.getProducer db a stack).1 = .ok (l.producer a)
  transaction : ∀ id, (Repository.getTransaction sha3 db id stack).1 = .ok (l.transaction id)
  producerList : ∃ m, Repository.getProducerList db stack = .ok m ∧
    ∀ a, m.getD a emptyProducer = l.producer a

structure Agrees (sha3 : Bytes → H256) (s : Layered) (ls : List Ledger) : Prop where
  length_eq : ls.length = s.stack.length + 1
  layer : ∀ i l, ls[i]? = some l → Answers sha3 s.db (s.stack.drop i) l
  child : ∀ i l block, ls[i]? = some l →
    Answers sha3 s.db ({ block := block } :: s.stack.drop i) l

theorem foldlM_ok {K : Type} [Ord K] {value : K → Producer} (m : ExtTreeMap Address Producer)
    (l : List (K × Except Exception Producer)) (h : ∀ i ∈ l, i.2 = .ok (value i.1)) :
    l.foldlM (fun m i ↦ do
      let temp ← i.2
      return m.insert temp.address temp) m =
    Except.ok (l.foldl (fun m i ↦ m.insert (value i.1).address (value i.1)) m) := by
  induction l generalizing m with
  | nil => rfl
  | cons i l ih =>
    rw [List.foldlM_cons, h i List.mem_cons_self]
    exact ih _ fun j hj ↦ h j (List.mem_cons_of_mem _ hj)

/-- The list of the database has exactly the producers that are not absent. -/
theorem AnswersWith.producerList (hdb : AnswersWith db base)
    (hkey : ∀ a, (base.producer a).isEmpty = false → (base.producer a).address = a) :
    ∃ m, db.getProducerList = .ok m ∧ ∀ a, m[a]? =
      if (base.producer a).isEmpty then none else some (base.producer a) := by
  have hentry : ∀ i ∈ db.producerStore.toList,
      i.2 = .ok (base.producer i.1) ∧ (base.producer i.1).isEmpty = false := by
    rintro ⟨a, e⟩ hi
    have hget := ExtTreeMap.mem_toList_iff_getElem?_eq_some.mp hi
    rw [hdb.producer a] at hget
    split_ifs at hget with hempty
    exact ⟨(Option.some.inj hget).symm, by simpa using hempty⟩
  refine ⟨_, foldlM_ok ∅ _ fun i hi ↦ (hentry i hi).1, fun a ↦ ?_⟩
  rcases getElem?_foldl_insert (fun i : Address × Except Exception Producer ↦
      (base.producer i.1).address) (fun i ↦ base.producer i.1) db.producerStore.toList ∅ a with
    ⟨i, hi, heq, hget⟩ | ⟨hnone, hget⟩
  · obtain ⟨-, hne⟩ := hentry i hi
    obtain rfl : i.1 = a := (hkey i.1 hne).symm.trans heq
    rw [hget, hne]
    rfl
  · rw [hget]
    split_ifs with hempty
    · rfl
    · exfalso
      have hne : (base.producer a).isEmpty = false := by simpa using hempty
      have hstore := hdb.producer a
      rw [hne] at hstore
      exact hnone _ (ExtTreeMap.mem_toList_iff_getElem?_eq_some.mpr hstore) (hkey a hne)

theorem Stands.producerList (h : Stands sha3 base stack ls) (hdb : AnswersWith db base) :
    ∃ m, Repository.getProducerList db stack = .ok m ∧ ∀ a, m[a]? =
      if (lookup base.producer (stack.map cacheProducer) a).isEmpty then none
      else some (lookup base.producer (stack.map cacheProducer) a) := by
  induction stack generalizing ls with
  | nil => exact hdb.producerList h.producers.storeKey
  | cons r rest ih =>
    have hlength := h.length_eq
    cases ls with
    | nil => simp at hlength
    | cons l ls =>
      obtain ⟨m, hlist, hget⟩ := ih h.tail
      refine ⟨r.cacheProducer.toList.foldl (fun m i ↦ m.insert i.1 i.2) m, ?_, fun a ↦ ?_⟩
      · rw [Repository.getProducerList, hlist]
        rfl
      · rw [List.map_cons, Table.lookup_cons]
        rcases getElem?_foldl_insert Prod.fst Prod.snd r.cacheProducer.toList m a with
          ⟨⟨k, p⟩, hi, rfl, hfold⟩ | ⟨hnone, hfold⟩
        · have hp := ExtTreeMap.mem_toList_iff_getElem?_eq_some.mp hi
          have hne : p.isEmpty = false := (h.producers.entry _ List.mem_cons_self k p hp).2.1
          rw [hfold, hp, Option.getD_some, hne]
          rfl
        · have hp : r.cacheProducer[a]? = none := by
            rw [Option.eq_none_iff_forall_ne_some]
            intro p hp
            exact hnone (a, p) (ExtTreeMap.mem_toList_iff_getElem?_eq_some.mpr hp) rfl
          rw [hfold, hp, Option.getD_none]
          exact hget a

theorem Stands.answers (h : Stands sha3 base stack (l :: ls)) (hdb : AnswersWith db base) :
    Answers sha3 db stack l := by
  have haccount := congrArg List.head? h.account_eq
  have hproducer := congrArg List.head? h.producer_eq
  have htransaction := congrArg List.head? h.transaction_eq
  rw [Table.head?_shown] at haccount hproducer htransaction
  have haccount' : l.account = _ := Option.some.inj haccount
  have hproducer' : l.producer = _ := Option.some.inj hproducer
  have htransaction' : l.transaction = _ := Option.some.inj htransaction
  obtain ⟨m, hlist, hget⟩ := h.producerList hdb
  refine ⟨fun a ↦ ?_, fun a ↦ ?_, fun id ↦ ?_, m, hlist, fun a ↦ ?_⟩
  · rw [haccount']
    exact (h.accounts.get accountTable_plain hdb.account a).1
  · rw [hproducer']
    exact (h.producers.get producerTable_plain (h.getProducer_db hdb) a).1
  · rw [htransaction']
    exact (h.transactions.get (transactionTable_plain sha3) hdb.transaction id).1
  · rw [ExtTreeMap.getD_eq_getD_getElem?, hget a, hproducer']
    split_ifs with hempty
    · exact ((h.producers.lookup a).1 hempty).symm
    · rfl

theorem Represents.agrees {s : Layered} (h : Represents sha3 s ls) : Agrees sha3 s ls := by
  obtain ⟨base, hdb, hstands⟩ := h
  have hlength := hstands.length_eq
  have hlayer : ∀ i l, ls[i]? = some l → ∃ ls', Stands sha3 base (s.stack.drop i) (l :: ls') := by
    intro i l hl
    obtain ⟨hi, rfl⟩ := List.getElem?_eq_some_iff.mp hl
    refine ⟨ls.drop (i + 1), ?_⟩
    rw [← List.drop_eq_getElem_cons]
    exact hstands.drop (by omega)
  refine ⟨hlength, fun i l hl ↦ ?_, fun i l block hl ↦ ?_⟩
  · obtain ⟨ls', hdrop⟩ := hlayer i l hl
    exact hdrop.answers hdb
  · obtain ⟨ls', hdrop⟩ := hlayer i l hl
    exact (hdrop.push block).answers hdb

/-- What the stores of a database may hold: entities under their own keys, and none that
compares equal to the sentinel of its kind. -/
structure Consistent (sha3 : Bytes → H256) (db : DatabaseController) (base : Ledger) : Prop
    extends AnswersWith db base where
  accountKey : ∀ a, (base.account a).isEmpty = false → (base.account a).address = a
  producerKey : ∀ a, (base.producer a).isEmpty = false → (base.producer a).address = a
  transactionKey : ∀ id, (base.transaction id).equal sha3 emptyTransaction = false →
    (base.transaction id).getHash sha3 = id
  accountSentinel : ∀ a, (base.account a).isEmpty = true → base.account a = emptyAccount
  producerSentinel : ∀ a, (base.producer a).isEmpty = true → base.producer a = emptyProducer
  transactionSentinel : ∀ id, (base.transaction id).equal sha3 emptyTransaction = true →
    base.transaction id = emptyTransaction

theorem Consistent.represents (h : Consistent sha3 db base)
    (hbase : ∀ a, (base.account a).contractAddresses = []) :
    Represents sha3 ⟨db, []⟩ [base] := by
  refine ⟨base, h.toAnswersWith, ⟨fun a ↦ ⟨hbase a, h.accountSentinel a⟩, h.accountKey, ?_⟩,
    ⟨h.producerSentinel, h.producerKey, ?_⟩, ⟨h.transactionSentinel, h.transactionKey, ?_⟩, rfl,
    rfl, rfl⟩
  all_goals
    intro m hm
    cases hm

/-- Where no account has contract addresses, which `operator=` does not copy, the stack of
repositories answers like ledgers without caches, whatever the operations. -/
theorem layering_refines (h : Consistent sha3 db base) (ops : List Operation)
    (hentity : ∀ op ∈ ops, op.Each (Access.Entity sha3))
    (hbase : ∀ a, (base.account a).contractAddresses = [])
    (hwhole : ∀ op ∈ ops, op.Each Access.Whole) :
    Agrees sha3 (runOperations sha3 ops ⟨db, []⟩) (applyOperations sha3 ops [base]) :=
  ((h.represents hbase).run ops hentity hwhole).agrees

end Answers

section Contract

def contractAccount (contractAddresses : List Address) : Account :=
  { Account.new 1 5 0 with contractAddresses := contractAddresses }

def contractStore (contractAddresses : List Address) : DatabaseController where
  accountStore := ExtTreeMap.insert ∅ 1 (.ok (contractAccount contractAddresses))

def contractLedger (contractAddresses : List Address) : Ledger where
  account a := if a = 1 then contractAccount contractAddresses else emptyAccount
  producer _ := emptyProducer
  transaction _ := emptyTransaction

theorem consistent_contractStore (sha3 : Bytes → H256) (contractAddresses : List Address) :
    Consistent sha3 (contractStore contractAddresses) (contractLedger contractAddresses) where
  account a := getAccount_single rfl a
  producer _ := by
    change (∅ : ExtTreeMap Address (Except Exception Producer))[_]? = _
    rw [ExtTreeMap.getElem?_empty]
    rfl
  transaction _ := ExtTreeMap.getD_empty
  accountKey a hne := by
    unfold contractLedger at hne ⊢
    dsimp only at hne ⊢
    split_ifs at hne ⊢ with ha
    · exact ha.symm
    · contradiction
  producerKey _ hne := by contradiction
  transactionKey _ hne := by simp [contractLedger, Transaction.equal] at hne
  accountSentinel a hempty := by
    unfold contractLedger at hempty ⊢
    dsimp only at hempty ⊢
    split_ifs at hempty ⊢ with ha
    · contradiction
    · rfl
  producerSentinel _ _ := rfl
  transactionSentinel _ _ := rfl

/-- A payment in the first block, a second block, a read through its repository, and the commit of
the first block. -/
def contractOperations : List Operation :=
  [.addMemoryItem {}, .top (.putAccount { contractAccount [] with balance := 3 }),
    .addMemoryItem {}, .child [.get (.account 1), .putAccount (contractAccount [])], .commit]

theorem layering_refines_contract :
    ((applyOperations (fun _ ↦ 0) contractOperations [contractLedger []]).map fun l ↦
        (l.account 1).balance) = [3, 3] ∧
      Agrees (fun _ ↦ 0) (runOperations (fun _ ↦ 0) contractOperations ⟨contractStore [], []⟩)
        (applyOperations (fun _ ↦ 0) contractOperations [contractLedger []]) := by
  refine ⟨by decide, layering_refines (consistent_contractStore _ []) contractOperations ?_
    (fun a ↦ ?_) ?_⟩
  · simp [contractOperations, Operation.Each, Access.Entity, contractAccount, Account.isEmpty,
      Account.equal, Account.new, emptyAccount]
  · unfold contractLedger
    dsimp only
    split_ifs <;> rfl
  · simp [contractOperations, Operation.Each, Access.Whole, contractAccount, Account.new]

/-- Through a repository the account is read without the contract it has created. -/
theorem contract_lost :
    Consistent (fun _ ↦ 0) (contractStore [2]) (contractLedger [2]) ∧
      ¬ Agrees (fun _ ↦ 0) (runOperations (fun _ ↦ 0) [.addMemoryItem {}] ⟨contractStore [2], []⟩)
        (applyOperations (fun _ ↦ 0) [.addMemoryItem {}] [contractLedger [2]]) := by
  refine ⟨consistent_contractStore _ [2], fun hagrees ↦ ?_⟩
  have hread := (hagrees.layer 0 (contractLedger [2]) rfl).account 1
  have hlost : (Repository.getAccount (contractStore [2]) 1 [{ block := {} }]).1.toOption.map
      Account.contractAddresses = some [] := by decide +kernel
  rw [show (Repository.getAccount (contractStore [2]) 1 [{ block := {} }]).1 = _ from hread]
    at hlost
  exact absurd hlost (by decide)

end Contract

end GseNetwork.Storage
