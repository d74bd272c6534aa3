import GseNetwork.Foundation.Lockstep
import GseNetwork.Ledger.Effects

namespace GseNetwork.Ledger

open GseNetwork.Core GseNetwork.Foundation GseNetwork.Storage
open Repository (Shows)
open Eff (Lockstep lockstep_pure lockstep_throw lockstep_ofExcept lockstep_ite lockstep_forEach)

/-- Accounts that differ at most in their time of creation and in what assignment does not copy,
and of which an existing one is alive. -/
structure SameAccount (x y : Account) : Prop where
  eq_with : ∃ timestamp contractAddresses,
    y = { x with timestamp := timestamp, contractAddresses := contractAddresses }
  isEmpty_eq : y.isEmpty = x.isEmpty
  alive : x.isEmpty = false → x.alive = true

structure SameProducer (p q : Producer) : Prop where
  eq_with : ∃ timestamp, q = { p with timestamp := timestamp }
  isEmpty_eq : q.isEmpty = p.isEmpty

/-- What is read from `w` is read from `w'` as well, but for times of creation. -/
structure Agree (w w' : View) : Prop where
  account : ∀ a x, w.account a = .ok x → ∃ y, w'.account a = .ok y ∧ SameAccount x y
  producer : ∀ a p, w.producer a = .ok p → ∃ q, w'.producer a = .ok q ∧ SameProducer p q

def Twin (db db' : DatabaseController) (b b' : Block) (st st' : List Repository) : Prop :=
  ∃ blocks blocks' w w', Shows db (b :: blocks) w st ∧ Shows db' (b' :: blocks') w' st' ∧
    Agree w w'

variable {db db' : DatabaseController} {b b' : Block} {x y : Account} {p q : Producer}

section Same

theorem SameAccount.balance_eq (h : SameAccount x y) : y.balance = x.balance := by
  obtain ⟨_, _, rfl⟩ := h.eq_with
  rfl

theorem SameAccount.votes_eq (h : SameAccount x y) : y.votes = x.votes := by
  obtain ⟨_, _, rfl⟩ := h.eq_with
  rfl

theorem SameAccount.candidates_eq (h : SameAccount x y) : y.candidates = x.candidates := by
  obtain ⟨_, _, rfl⟩ := h.eq_with
  rfl

theorem SameAccount.update (h : SameAccount x y) (hx : x.isEmpty = false)
    (f : Account → Account) (halive : ∀ x, (f x).alive = x.alive)
    (hf : ∀ x timestamp contractAddresses,
      f { x with timestamp := timestamp, contractAddresses := contractAddresses } =
        { f x with timestamp := timestamp, contractAddresses := contractAddresses }) :
    SameAccount (f x) (f y) := by
  have hfx : (f x).alive = true := (halive x).trans (h.alive hx)
  obtain ⟨timestamp, contractAddresses, rfl⟩ := h.eq_with
  refine ⟨⟨timestamp, contractAddresses, hf _ _ _⟩, ?_, fun _ ↦ hfx⟩
  rw [isEmpty_of_alive hfx, isEmpty_of_alive]
  rw [hf]
  exact hfx

theorem SameProducer.update (h : SameProducer p q) (f : Producer → Producer)
    (hempty : ∀ p, (f p).isEmpty = p.isEmpty)
    (hf : ∀ p timestamp, f { p with timestamp := timestamp } =
      { f p with timestamp := timestamp }) : SameProducer (f p) (f q) := by
  have hpq := h.isEmpty_eq
  obtain ⟨timestamp, rfl⟩ := h.eq_with
  exact ⟨⟨timestamp, hf _ _⟩, by rw [hempty, hempty, hpq]⟩

theorem Agree.refl {w : View} (h : ∀ a x, w.account a = .ok x → x.isEmpty = false →
    x.alive = true) : Agree w w :=
  ⟨fun a x hx ↦ ⟨x, hx, ⟨x.timestamp, x.contractAddresses, rfl⟩, rfl, h a x hx⟩,
    fun _ p hp ↦ ⟨p, hp, ⟨p.timestamp, rfl⟩, rfl⟩⟩

end Same

section Reads

theorem lockstep_getAccount (a : Address) :
    Lockstep (Twin db db' b b') SameAccount (Repository.getAccount db a)
      (Repository.getAccount db' a) := by
  rintro st st' ⟨blocks, blocks', w, w', hshows, hshows', hagree⟩ x u hget
  obtain ⟨hu, hview, -⟩ := getAccount_ok hshows hget
  obtain ⟨y, hy, hsame⟩ := hagree.account a (erase x) hview
  rcases hget' : Repository.getAccount db' a st' with ⟨r, u'⟩
  obtain ⟨hu', hview', -⟩ := Repository.getAccount_spec hshows' hget'
  rw [hy] at hview'
  cases r with
  | error e => cases hview'
  | ok y' =>
    obtain rfl : erase y' = y := Except.ok.inj hview'
    refine ⟨y', u', rfl, ⟨?_, hsame.isEmpty_eq, hsame.alive⟩, blocks, blocks', w, w', hu, hu',
      hagree⟩
    obtain ⟨timestamp, _, heq⟩ := hsame.eq_with
    refine ⟨timestamp, y'.contractAddresses, ?_⟩
    cases y'
    cases x
    simp only [erase, Account.mk.injEq] at heq ⊢
    tauto

theorem lockstep_getProducer (a : Address) :
    Lockstep (Twin db db' b b') SameProducer (Repository.getProducer db a)
      (Repository.getProducer db' a) := by
  rintro st st' ⟨blocks, blocks', w, w', hshows, hshows', hagree⟩ p u hget
  obtain ⟨hu, hview, -⟩ := getProducer_ok hshows hget
  obtain ⟨q, hq, hsame⟩ := hagree.producer a p hview
  rcases hget' : Repository.getProducer db' a st' with ⟨r, u'⟩
  obtain ⟨hu', hview', -⟩ := Repository.getProducer_spec hshows' hget'
  exact ⟨q, u', by rw [hview', hq], hsame, blocks, blocks', w, w', hu, hu', hagree⟩

end Reads

section Writes

theorem lockstep_putAccount (h : SameAccount x y) (hx : x.isEmpty = false) :
    Lockstep (Twin db db' b b') (fun _ _ ↦ True) (Repository.putAccount x)
      (Repository.putAccount y) := by
  rintro st st' ⟨blocks, blocks', w, w', hshows, hshows', hagree⟩ _ u hput
  have halive := h.alive hx
  obtain ⟨timestamp, contractAddresses, rfl⟩ := h.eq_with
  refine ⟨(), _, rfl, trivial, blocks, blocks', _, _, Repository.putAccount_spec hshows hput halive,
    Repository.putAccount_spec hshows' rfl halive, fun a z hz ↦ ?_, hagree.producer⟩
  rw [View.putAccount_account] at hz ⊢
  dsimp only
  split_ifs at hz ⊢ with ha
  · obtain rfl := Except.ok.inj hz
    refine ⟨_, rfl, ⟨timestamp, [], rfl⟩, ?_, fun _ ↦ halive⟩
    rw [erase_isEmpty, erase_isEmpty, h.isEmpty_eq]
  · exact hagree.account a z hz

theorem lockstep_putProducer (h : SameProducer p q) :
    Lockstep (Twin db db' b b') (fun _ _ ↦ True) (Repository.putProducer p)
      (Repository.putProducer q) := by
  rintro st st' ⟨blocks, blocks', w, w', hshows, hshows', hagree⟩ _ u hput
  have hempty := h.isEmpty_eq
  obtain ⟨timestamp, rfl⟩ := h.eq_with
  refine ⟨(), _, rfl, trivial, blocks, blocks', _, _, Repository.putProducer_spec hshows hput,
    Repository.putProducer_spec hshows' rfl, hagree.account, fun a z hz ↦ ?_⟩
  rw [View.putProducer_producer] at hz ⊢
  dsimp only
  split_ifs at hz ⊢ with ha
  · obtain rfl := Except.ok.inj hz
    exact ⟨_, rfl, ⟨timestamp, rfl⟩, hempty⟩
  · exact hagree.producer a z hz

theorem lockstep_putTransaction (sha3 : Bytes → H256) (tx : Transaction) :
    Lockstep (Twin db db' b b') (fun _ _ ↦ True) (Repository.putTransaction sha3 tx)
      (Repository.putTransaction sha3 tx) := by
  rintro st st' ⟨blocks, blocks', w, w', hshows, hshows', hagree⟩ _ u hput
  exact ⟨(), _, rfl, trivial, blocks, blocks', w, w', Repository.putTransaction_spec hshows hput,
    Repository.putTransaction_spec hshows' rfl, hagree⟩

theorem lockstep_blockTimestamp :
    Lockstep (Twin db db' b b') (fun _ _ ↦ True) Repository.blockTimestamp
      Repository.blockTimestamp := by
  rintro st st' htwin _ u hrun
  obtain ⟨-, rfl⟩ := Prod.mk.inj hrun
  exact ⟨_, st', rfl, trivial, htwin⟩

end Writes

section Operations

theorem lockstep_burn (a : Address) (v : UInt64) :
    Lockstep (Twin db db' b b') (fun _ _ ↦ True) (Repository.burn db a v)
      (Repository.burn db' a v) := by
  refine (lockstep_getAccount a).bind fun x y hxy ↦ ?_
  refine lockstep_ite (by rw [hxy.isEmpty_eq]) (fun _ ↦ lockstep_throw _ _) fun hempty ↦ ?_
  refine lockstep_ite (by rw [hxy.balance_eq]) (fun _ ↦ lockstep_throw _ _) fun _ ↦ ?_
  have hx := Bool.not_eq_true _ |>.mp hempty
  have hsame := hxy.update hx (fun z ↦ { z with balance := z.balance - v }) (fun _ ↦ rfl)
    fun _ _ _ ↦ rfl
  exact lockstep_putAccount hsame (isEmpty_of_alive (hxy.alive hx))

theorem lockstep_transfer (sender recipient : Address) (v : UInt64) :
    Lockstep (Twin db db' b b') (fun _ _ ↦ True) (Repository.transfer db sender recipient v)
      (Repository.transfer db' sender recipient v) := by
  refine (lockstep_getAccount sender).bind fun x x' hx ↦ ?_
  refine (lockstep_getAccount recipient).bind fun y y' hy ↦ ?_
  refine lockstep_ite (by rw [hx.isEmpty_eq]) (fun _ ↦ lockstep_throw _ _) fun hempty ↦ ?_
  have hsource := Bool.not_eq_true _ |>.mp hempty
  refine lockstep_blockTimestamp.bind fun timestamp timestamp' _ ↦ ?_
  obtain ⟨z, hz⟩ : ∃ z, z = if y.isEmpty then y.assign (Account.new recipient 0 timestamp) else y :=
    ⟨_, rfl⟩
  obtain ⟨z', hz'⟩ : ∃ z', z' =
      if y'.isEmpty then y'.assign (Account.new recipient 0 timestamp') else y' := ⟨_, rfl⟩
  have htarget : SameAccount z z' ∧ z.isEmpty = false := by
    cases hnew : y.isEmpty with
    | true =>
      rw [hnew, if_pos rfl] at hz
      rw [hy.isEmpty_eq, hnew, if_pos rfl] at hz'
      subst hz hz'
      have halive : ∀ (this : Account) time,
          (this.assign (Account.new recipient 0 time)).isEmpty = false :=
        fun _ _ ↦ isEmpty_of_alive rfl
      exact ⟨⟨⟨timestamp', y'.contractAddresses, rfl⟩, by rw [halive, halive], fun _ ↦ rfl⟩,
        halive _ _⟩
    | false =>
      rw [hnew, if_neg Bool.false_ne_true] at hz
      rw [hy.isEmpty_eq, hnew, if_neg Bool.false_ne_true] at hz'
      subst hz hz'
      exact ⟨hy, hnew⟩
  dsimp only
  rw [← hz, ← hz']
  obtain ⟨hsame, hlive⟩ := htarget
  refine lockstep_ite (by rw [hx.balance_eq, hsame.balance_eq]) (fun _ ↦ lockstep_throw _ _)
    fun _ ↦ ?_
  refine (lockstep_putAccount (hx.update hsource (fun z ↦ { z with balance := z.balance - v })
    (fun _ ↦ rfl) fun _ _ _ ↦ rfl) (isEmpty_of_alive (hx.alive hsource))).bind fun _ _ _ ↦ ?_
  exact lockstep_putAccount (hsame.update hlive (fun z ↦ { z with balance := z.balance + v })
    (fun _ ↦ rfl) fun _ _ _ ↦ rfl) (isEmpty_of_alive (hsame.alive hlive))

theorem lockstep_clearVote (a : Address) :
    Lockstep (Twin db db' b b') (fun _ _ ↦ True) (Repository.clearVote db a)
      (Repository.clearVote db' a) := by
  refine (lockstep_getAccount a).bind fun x y hxy ↦ ?_
  refine lockstep_ite (by rw [hxy.isEmpty_eq]) (fun _ ↦ lockstep_throw _ _) fun hempty ↦ ?_
  have hx := Bool.not_eq_true _ |>.mp hempty
  rw [hxy.candidates_eq]
  refine (lockstep_forEach _ fun i _ ↦ ?_).bind fun _ _ _ ↦ ?_
  · refine (lockstep_getProducer i.1).bind fun p q hpq ↦ ?_
    refine lockstep_ite (by rw [hpq.isEmpty_eq]) (fun _ ↦ lockstep_throw _ _) fun _ ↦ ?_
    refine lockstep_putProducer (hpq.update (fun z ↦ z.eraseVoter a)
      (fun z ↦ eraseVoter_isEmpty z a) fun z timestamp ↦ ?_)
    unfold Producer.eraseVoter
    dsimp only
    cases z.voters[a]? <;> rfl
  · exact lockstep_putAccount (hxy.update hx Account.clearVote (fun _ ↦ rfl) fun _ _ _ ↦ rfl)
      (isEmpty_of_alive (hxy.alive hx))

theorem lockstep_voteIncrease (voter candidate : Address) (v : UInt64) :
    Lockstep (Twin db db' b b') (fun _ _ ↦ True) (Repository.voteIncrease db voter candidate v)
      (Repository.voteIncrease db' voter candidate v) := by
  refine (lockstep_getAccount voter).bind fun x y hxy ↦ ?_
  refine lockstep_ite (by rw [hxy.isEmpty_eq]) (fun _ ↦ lockstep_throw _ _) fun hempty ↦ ?_
  have hx := Bool.not_eq_true _ |>.mp hempty
  refine (lockstep_getProducer candidate).bind fun p q hpq ↦ ?_
  refine lockstep_ite (by rw [hpq.isEmpty_eq]) (fun _ ↦ lockstep_throw _ _) fun _ ↦ ?_
  refine lockstep_ite (by rw [hxy.balance_eq, hxy.votes_eq]) (fun _ ↦ lockstep_throw _ _)
    fun _ ↦ ?_
  refine (lockstep_putAccount (hxy.update hx (fun z ↦ z.addVoter candidate v) (fun _ ↦ rfl)
    fun _ _ _ ↦ rfl) (isEmpty_of_alive (hxy.alive hx))).bind fun _ _ _ ↦ ?_
  exact lockstep_putProducer (hpq.update (fun z ↦ z.addVoter voter v) (fun _ ↦ rfl) fun _ _ ↦ rfl)

end Operations

section Actions

theorem sameProducer_new {a : Address} (ha : a ≠ 0) (timestamp timestamp' : Int64) :
    SameProducer (Producer.new a timestamp) (Producer.new a timestamp') :=
  ⟨⟨timestamp', rfl⟩, by rw [isEmpty_new ha, isEmpty_new ha]⟩

/-- What a transaction does for blocks of any two times. Only a producer of address zero would be
taken for a missing one at the time zero. -/
theorem lockstep_execute (timestamp timestamp' : Int64) {tx : Transaction}
    (hsender : tx.type = Transaction.beenProducerType → tx.sender ≠ 0) :
    Lockstep (Twin db db' b b') (fun _ _ ↦ True) (Runtime.execute db timestamp tx)
      (Runtime.execute db' timestamp' tx) := by
  refine lockstep_ite Iff.rfl (fun _ ↦ ?_) fun _ ↦ ?_
  · refine (lockstep_clearVote tx.sender).bind fun _ _ _ ↦ ?_
    refine (lockstep_burn tx.sender transactionFee).bind fun _ _ _ ↦ ?_
    refine (lockstep_ofExcept fun ballot hballot ↦ ⟨ballot, hballot, rfl⟩).bind
      fun ballot _ heq ↦ ?_
    subst heq
    exact lockstep_forEach _ fun i _ ↦ lockstep_voteIncrease tx.sender i.address i.value
  refine lockstep_ite Iff.rfl (fun _ ↦ ?_) fun _ ↦ ?_
  · exact (lockstep_burn tx.sender transactionFee).bind fun _ _ _ ↦
      lockstep_transfer tx.sender tx.recipient tx.value
  refine lockstep_ite Iff.rfl (fun htype ↦ ?_) fun _ ↦ lockstep_pure trivial
  refine (lockstep_burn tx.sender transactionFee).bind fun _ _ _ ↦ ?_
  refine (lockstep_getProducer tx.sender).bind fun p q hpq ↦ ?_
  refine lockstep_ite (by rw [hpq.isEmpty_eq]) (fun _ ↦ ?_) fun _ ↦ lockstep_pure trivial
  exact (lockstep_burn tx.sender producerCost).bind fun _ _ _ ↦
    lockstep_putProducer (sameProducer_new (hsender htype) timestamp timestamp')

/-- The transactions of a block succeed at one time if they succeed at another. -/
theorem lockstep_transactions (sha3 : Bytes → H256) (timestamp timestamp' : Int64)
    (txs : List Transaction)
    (hsender : ∀ tx ∈ txs, tx.type = Transaction.beenProducerType → tx.sender ≠ 0) :
    Lockstep (Twin db db' b b') (fun _ _ ↦ True)
      (Eff.forEach txs fun tx ↦ Runtime.excute sha3 db timestamp tx)
      (Eff.forEach txs fun tx ↦ Runtime.excute sha3 db' timestamp' tx) :=
  lockstep_forEach txs fun tx htx ↦
    (lockstep_execute timestamp timestamp' (hsender tx htx)).bind fun _ _ _ ↦
      lockstep_putTransaction sha3 tx

end Actions

end GseNetwork.Ledger
