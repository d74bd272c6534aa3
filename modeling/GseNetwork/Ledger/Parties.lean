import GseNetwork.Ledger.Balances
import GseNetwork.Ledger.Untouched

namespace GseNetwork.Ledger

open GseNetwork.Core GseNetwork.Foundation GseNetwork.Foundation.ReadThrough GseNetwork.Storage
open Repository (accountView producerView)
open Std (ExtTreeMap)

def accountsOf (tx : Transaction) : Set Address :=
  {a | a = tx.sender ∨ tx.type = Transaction.transferType ∧ a = tx.recipient}

/-- The producers a transaction may change: the previous candidates of the sender and those of
its ballot, or the sender itself. -/
def producersOf (db : DatabaseController) (stack : List Repository) (tx : Transaction) :
    Set Address :=
  {q | tx.type = Transaction.voteType ∧
      ((∃ x, accountView db stack tx.sender = .ok x ∧ q ∈ x.candidates) ∨
        ∃ ballot, Ballot.ofRLP tx.data = .ok ballot ∧ ∃ i ∈ ballot, i.address = q) ∨
    tx.type = Transaction.beenProducerType ∧ q = tx.sender}

variable {db : DatabaseController} {stack stack' : List Repository} {tx : Transaction}

namespace Untouched

variable {A P : Set Address} {voter : Address}

theorem putTransaction (sha3 : Bytes → H256) (tx : Transaction) :
    Eff.Ensures (Untouched db stack A P voter) (Repository.putTransaction sha3 tx)
      fun _ ↦ True := by
  intro st _ st' h hput
  have hrecords := h.records
  obtain ⟨-, rfl⟩ := Prod.mk.inj hput
  have hlen : ((transactionTable sha3).putTop tx (st.map Repository.cacheTransaction)).length =
      st.length := by
    cases st <;> simp [Table.putTop]
  obtain ⟨haccount, hproducer, -, -⟩ := Repository.map_setTransactions hlen
  refine ⟨h.of_views ⟨hrecords.accountStore, hrecords.producerStore, ?_, ?_⟩ ?_ ?_, trivial⟩
  · rw [haccount]
    exact hrecords.accounts
  · rw [hproducer]
    exact hrecords.producers
  · funext a
    unfold accountView
    rw [haccount]
  · funext q
    unfold producerView
    rw [hproducer]

theorem vote (hrecords : Records db stack) (htype : tx.type = Transaction.voteType)
    (hrun : Runtime.vote db tx stack = (.ok (), stack')) :
    Untouched db stack (accountsOf tx) (producersOf db stack tx) tx.sender stack' := by
  have hsender : tx.sender ∈ accountsOf tx := Or.inl rfl
  obtain ⟨⟨⟩, t, hclear, hrest⟩ := Eff.bind_eq_ok.mp hrun
  have ht : Untouched db stack (accountsOf tx) (producersOf db stack tx) tx.sender t :=
    clearVote hrecords hsender (fun x hx q hq ↦ Or.inl ⟨htype, Or.inl ⟨x, hx, hq⟩⟩) hclear
  obtain ⟨⟨⟩, u, hburn, hrest⟩ := Eff.bind_eq_ok.mp hrest
  obtain ⟨hu, -⟩ := burn hsender transactionFee t () u ht hburn
  obtain ⟨ballot, v, hballot, hloop⟩ := Eff.bind_eq_ok.mp hrest
  obtain ⟨hdata, rfl⟩ := Prod.mk.inj hballot
  refine (Eff.ensures_forEach (fun i hi ↦ ?_) u () stack' hu hloop).1
  exact voteIncrease hsender (Or.inl ⟨htype, Or.inr ⟨ballot, hdata, i, hi, rfl⟩⟩) i.value

theorem transferAction (htype : tx.type = Transaction.transferType) :
    Eff.Ensures (Untouched db stack (accountsOf tx) P voter) (Runtime.transfer db tx)
      fun _ ↦ True :=
  (burn (Or.inl rfl) transactionFee).bind fun _ _ ↦
    transfer (Or.inl rfl) (Or.inr ⟨htype, rfl⟩) tx.value

theorem beenProducer (timestamp : Int64) (hA : tx.sender ∈ A) (hP : tx.sender ∈ P) :
    Eff.Ensures (Untouched db stack A P voter) (Runtime.beenProducer db timestamp tx)
      fun _ ↦ True := by
  refine (burn hA transactionFee).bind fun _ _ ↦ (getProducer tx.sender).bind fun p hp ↦ ?_
  split
  · next hempty =>
    refine (burn hA producerCost).bind fun _ _ ↦ putProducer (fun _ ↦ rfl) hP fun a ha ↦ ?_
    have hvoters := hp.voters_eq a ha
    rw [hp.voters_empty hempty] at hvoters
    exact hvoters
  · exact Eff.ensures_pure trivial

theorem execute (hrecords : Records db stack) {timestamp : Int64}
    (hrun : Runtime.execute db timestamp tx stack = (.ok (), stack')) :
    Untouched db stack (accountsOf tx) (producersOf db stack tx) tx.sender stack' := by
  have hstart := refl hrecords (accountsOf tx) (producersOf db stack tx) tx.sender
  unfold Runtime.execute at hrun
  split at hrun
  · next htype => exact vote hrecords htype hrun
  · split at hrun
    · next htype => exact (transferAction htype stack () stack' hstart hrun).1
    · split at hrun
      · next htype =>
        exact (beenProducer timestamp (Or.inl rfl) (Or.inr ⟨htype, rfl⟩) stack () stack' hstart
          hrun).1
      · obtain ⟨-, rfl⟩ := Prod.mk.inj hrun
        exact hstart

theorem excute (hrecords : Records db stack) {sha3 : Bytes → H256} {timestamp : Int64}
    (hrun : Runtime.excute sha3 db timestamp tx stack = (.ok (), stack')) :
    Untouched db stack (accountsOf tx) (producersOf db stack tx) tx.sender stack' := by
  obtain ⟨⟨⟩, t, hexecute, hput⟩ := Eff.bind_eq_ok.mp hrun
  exact (putTransaction sha3 tx t () stack' (execute hrecords hexecute) hput).1

end Untouched

theorem accountView_of_shows {blocks : List Block} {w : View}
    (h : Repository.Shows db blocks w stack) {a : Address} {y : Account}
    (hy : w.account a = .ok y) : ∃ x, accountView db stack a = .ok x ∧ erase x = y := by
  have hview := h.account_eq a
  rw [hy] at hview
  cases hx : accountTable.view db.getAccount (stack.map Repository.cacheAccount) a with
  | error e => simp [hx, Except.map] at hview
  | ok x =>
    rw [hx] at hview
    exact ⟨x, hx, Except.ok.inj hview⟩

theorem putAccount_self (w : View) {x : Account} {a : Address} (h : x.address = a) :
    (w.putAccount x).account a = .ok (erase x) := by
  rw [View.putAccount_account, if_pos h.symm]

theorem transfer_recipient (hrecords : Records db stack) (hne : stack ≠ [])
    {sha3 : Bytes → H256} {timestamp : Int64}
    (hrun : Runtime.excute sha3 db timestamp tx stack = (.ok (), stack'))
    (htype : tx.type = Transaction.transferType) (hother : tx.recipient ≠ tx.sender) :
    ∃ x y, accountView db stack tx.recipient = .ok x ∧
      accountView db stack' tx.recipient = .ok y ∧
      y.balance.toNat = x.balance.toNat + tx.value.toNat ∧ y.votes = x.votes ∧
      y.candidates = x.candidates := by
  obtain ⟨b, blocks, hblocks⟩ : ∃ b blocks, stack.map Repository.block = b :: blocks := by
    cases stack with
    | nil => contradiction
    | cons top rest => exact ⟨_, _, rfl⟩
  have hshows := hrecords.shows
  rw [hblocks] at hshows
  obtain ⟨⟨⟩, t, hexecute, hput⟩ := Eff.bind_eq_ok.mp hrun
  unfold Runtime.execute at hexecute
  rw [if_neg (by rw [htype]; decide), if_pos htype] at hexecute
  obtain ⟨⟨⟩, u, hburn, htransfer⟩ := Eff.bind_eq_ok.mp hexecute
  obtain ⟨s, hs, -, hu⟩ := burn_ok hshows hburn
  obtain ⟨s', y, z, hs', hy, -, hover, ht⟩ := transfer_ok hu htransfer
  have hfinal := Repository.putTransaction_spec ht hput
  -- the fee of the sender does not change what the recipient has
  have hbefore := hy.account_eq
  rw [View.putAccount_account, if_neg (fun h ↦ hother (h.trans hs.sound.1))] at hbefore
  obtain ⟨x, hx, hxy⟩ := accountView_of_shows hshows hbefore
  obtain ⟨x', hx', hxz⟩ := accountView_of_shows hfinal (putAccount_self _ hy.sound.1)
  have hbalance := congrArg Account.balance hxz
  have hvotes := congrArg Account.votes hxz
  have hcandidates := congrArg Account.candidates hxz
  simp only [erase_balance, erase_votes, erase_candidates] at hbalance hvotes hcandidates
  refine ⟨x, x', hx, hx', ?_⟩
  have hsum : (z.balance + tx.value).toNat = z.balance.toNat + tx.value.toNat := by
    exact_mod_cast toNat_add_of_le hover
  rw [hbalance, hsum, hvotes, hcandidates]
  rcases hy.keeps with rfl | ⟨hempty, timestamp, rfl⟩
  · subst hxy
    exact ⟨rfl, rfl, rfl⟩
  · rw [← hxy, erase_isEmpty] at hempty
    obtain ⟨hnone, hnobody⟩ := hrecords.votes_empty hx hempty
    have hzero : x.balance = 0 := by
      simp only [Account.isEmpty, Account.equal, Bool.and_eq_true, beq_iff_eq] at hempty
      exact hempty.1.2
    rw [hzero, hnone, hnobody]
    exact ⟨rfl, rfl, rfl⟩

/-- A transaction that completes changes its parties only, and leaves the records well formed. -/
theorem excute_touches_parties (sha3 : Bytes → H256) (db : DatabaseController)
    (stack stack' : List Repository) (timestamp : Int64) (tx : Transaction) (hne : stack ≠ [])
    (hrecords : Records db stack)
    (hrun : Runtime.excute sha3 db timestamp tx stack = (.ok (), stack')) :
    (∀ a ∉ accountsOf tx, accountView db stack' a = accountView db stack a) ∧
      (tx.type = Transaction.transferType → tx.recipient ≠ tx.sender →
        ∃ x y, accountView db stack tx.recipient = .ok x ∧
          accountView db stack' tx.recipient = .ok y ∧
          y.balance.toNat = x.balance.toNat + tx.value.toNat ∧ y.votes = x.votes ∧
          y.candidates = x.candidates) ∧
      (∀ q ∉ producersOf db stack tx, producerView db stack' q = producerView db stack q) ∧
      (∀ q a, a ≠ tx.sender →
        (producerView db stack' q).map (fun p ↦ p.voters[a]?) =
          (producerView db stack q).map (fun p ↦ p.voters[a]?)) ∧
      Records db stack' := by
  have huntouched := Untouched.excute hrecords hrun
  exact ⟨huntouched.account_eq, transfer_recipient hrecords hne hrun, huntouched.producer_eq,
    huntouched.voters_eq, huntouched.records⟩

section Payment

def purseStore : DatabaseController where
  accountStore := ExtTreeMap.insert ∅ 1 (.ok (Account.new 1 10000000 0))

def purseStack : List Repository := [{ block := {} }]

def payment : Transaction where
  chainID := 0
  type := Transaction.transferType
  sender := 1
  recipient := 2
  timestamp := 0
  data := []
  value := 7

theorem records_purse : Records purseStore purseStack := by
  refine ⟨?_, ?_, ?_, ?_⟩
  · intro a x hx
    rw [getAccount_single rfl, Except.ok.injEq] at hx
    split at hx
    · next ha => exact Or.inl (hx ▸ ⟨ha.symm, rfl⟩)
    · exact Or.inr hx.symm
  · intro q p hp
    exact Or.inr (Except.ok.inj hp).symm
  · intro m hm
    rw [List.mem_singleton.mp hm]
    exact Table.sound_empty
  · intro m hm
    rw [List.mem_singleton.mp hm]
    exact Table.sound_empty

theorem excute_touches_parties_payment :
    ∃ x y, accountView purseStore purseStack 2 = .ok x ∧
      accountView purseStore
        (Runtime.excute (fun _ ↦ 0) purseStore 0 payment purseStack).2 2 = .ok y ∧
      y.balance.toNat = x.balance.toNat + 7 ∧ y.votes = x.votes ∧
      y.candidates = x.candidates := by
  obtain ⟨-, hgain, -⟩ := excute_touches_parties (fun _ ↦ 0) purseStore purseStack _ 0 payment
    (by simp [purseStack]) records_purse (Eff.eq_ok_of_isOk (by decide +kernel))
  exact hgain rfl (by decide)

end Payment

end GseNetwork.Ledger
