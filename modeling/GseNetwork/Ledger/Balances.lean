import GseNetwork.Ledger.Effects

namespace GseNetwork.Ledger

open GseNetwork.Core GseNetwork.Foundation GseNetwork.Storage
open Repository (Shows)

variable {db : DatabaseController} {b : Block} {blocks : List Block} {w w' : View}
  {stack stack' : List Repository}

def balance (w : View) (a : Address) : ℤ :=
  match w.account a with
  | .ok x => x.balance.toNat
  | .error _ => 0

def supply (w : View) : ℤ := ∑ a, balance w a

def known (w : View) (a : Address) : Bool :=
  match w.producer a with
  | .ok p => !p.isEmpty
  | .error _ => true

section Flow

/-- What the transfer of a transaction moves. A transfer to oneself reads the account twice
before it writes, and the second write wins. -/
def moved (tx : Transaction) : Address → ℤ :=
  if tx.type = Transaction.transferType then
    if tx.sender = tx.recipient then Pi.single tx.sender (tx.value.toNat : ℤ)
    else Pi.single tx.recipient (tx.value.toNat : ℤ) - Pi.single tx.sender (tx.value.toNat : ℤ)
  else 0

def creates (k : Address → Bool) (tx : Transaction) : Bool :=
  tx.type == Transaction.beenProducerType && !k tx.sender

def learn (timestamp : Int64) (k : Address → Bool) (tx : Transaction) : Address → Bool :=
  if creates k tx then
    Function.update k tx.sender (!(Producer.new tx.sender timestamp).isEmpty)
  else k

def charge (k : Address → Bool) (tx : Transaction) : ℤ :=
  transactionFee.toNat + if creates k tx then (producerCost.toNat : ℤ) else 0

def flow (k : Address → Bool) (tx : Transaction) : Address → ℤ :=
  moved tx - Pi.single tx.sender (charge k tx)

def blockFlow (timestamp : Int64) : (Address → Bool) → List Transaction → Address → ℤ
  | _, [] => 0
  | k, tx :: txs => flow k tx + blockFlow timestamp (learn timestamp k tx) txs

def created (timestamp : Int64) : (Address → Bool) → List Transaction → ℕ
  | _, [] => 0
  | k, tx :: txs => (creates k tx).toNat + created timestamp (learn timestamp k tx) txs

def selfTransfer (tx : Transaction) : Bool :=
  tx.type == Transaction.transferType && tx.sender == tx.recipient

def selfTransferred (txs : List Transaction) : ℕ :=
  ((txs.filter selfTransfer).map fun tx ↦ tx.value.toNat).sum

end Flow

section Views

theorem balance_putAccount {a : Address} {x y : Account} (h : w.account a = .ok y)
    (hx : x.address = a) :
    balance (w.putAccount x) =
      balance w + Pi.single a ((x.balance.toNat : ℤ) - y.balance.toNat) := by
  funext c
  unfold balance
  rw [View.putAccount_account, hx, Pi.add_apply]
  by_cases hc : c = a
  · subst hc
    simp [h]
  · simp [hc]

theorem balance_setBalance {a : Address} {x y : Account} (h : w.account a = .ok y)
    (hx : x.address = a) (v : UInt64) :
    balance (w.putAccount { x with balance := v }) =
      balance w + Pi.single a ((v.toNat : ℤ) - y.balance.toNat) :=
  balance_putAccount h hx

theorem balance_putAccount_of_eq {a : Address} {x y : Account} (h : w.account a = .ok y)
    (hx : x.address = a) (heq : x.balance = y.balance) :
    balance (w.putAccount x) = balance w := by
  rw [balance_putAccount h hx, heq, sub_self, Pi.single_zero, add_zero]

theorem balance_putProducer (w : View) (p : Producer) :
    balance (w.putProducer p) = balance w := rfl

theorem known_putAccount (w : View) (x : Account) : known (w.putAccount x) = known w := rfl

theorem known_putProducer (w : View) (p : Producer) :
    known (w.putProducer p) = Function.update (known w) p.address (!p.isEmpty) := by
  funext c
  unfold known
  rw [View.putProducer_producer, Function.update_apply]
  by_cases hc : c = p.address <;> simp [hc]

theorem HasProducer.known_eq {a : Address} {p : Producer} (h : HasProducer w a p) :
    known w a = true := by
  simp [known, h.producer_eq, h.nonempty]

theorem known_putProducer_of_has {a : Address} {p q : Producer} (h : HasProducer w a p)
    (hq : q.address = a) (hempty : q.isEmpty = p.isEmpty) :
    known (w.putProducer q) = known w := by
  rw [known_putProducer, hq, hempty, h.nonempty, Bool.not_false, ← h.known_eq,
    Function.update_eq_self]

theorem known_eraseVotes (w : View) (voter : Address) (keys : List Address) :
    known (eraseVotes w voter keys) = known w := by
  funext c
  unfold known eraseVotes
  dsimp only
  split_ifs
  · cases w.producer c <;> simp [Except.map]
  · rfl

end Views

section Words

theorem toNat_sub_of_le {x v : UInt64} (h : v ≤ x) :
    ((x - v).toNat : ℤ) = (x.toNat : ℤ) - v.toNat := by
  rw [UInt64.toNat_sub_of_le x v h, Nat.cast_sub (UInt64.le_iff_toNat_le.mp h)]

theorem toNat_add_of_le {x v : UInt64} (h : v ≤ x + v) :
    ((x + v).toNat : ℤ) = (x.toNat : ℤ) + v.toNat := by
  have hle := UInt64.le_iff_toNat_le.mp h
  have hx := x.toNat_lt
  have hv := v.toNat_lt
  rw [UInt64.toNat_add] at hle ⊢
  omega

end Words

section Steps

theorem burn_balance (h : Shows db (b :: blocks) w stack) {a : Address} {v : UInt64}
    (hburn : Repository.burn db a v stack = (.ok (), stack')) :
    ∃ w', Shows db (b :: blocks) w' stack' ∧
      balance w' = balance w - Pi.single a (v.toNat : ℤ) ∧ known w' = known w := by
  obtain ⟨x, hx, hle, hshows⟩ := burn_ok h hburn
  refine ⟨_, hshows, ?_, rfl⟩
  rw [balance_setBalance hx.account_eq hx.sound.1, toNat_sub_of_le hle, sub_sub_cancel_left,
    Pi.single_neg, sub_eq_add_neg]

theorem Recipient.balance_eq {a : Address} {x y : Account} (h : Recipient w a x y) :
    y.balance = x.balance := by
  rcases h.keeps with rfl | ⟨hempty, timestamp, rfl⟩
  · rfl
  · simp only [Account.isEmpty, Account.equal, Bool.and_eq_true, beq_iff_eq] at hempty
    exact hempty.1.2.symm

theorem transfer_balance (h : Shows db (b :: blocks) w stack) {tx : Transaction}
    (htype : tx.type = Transaction.transferType)
    (htransfer : Repository.transfer db tx.sender tx.recipient tx.value stack = (.ok (), stack')) :
    ∃ w', Shows db (b :: blocks) w' stack' ∧ balance w' = balance w + moved tx ∧
      known w' = known w := by
  obtain ⟨x, y, z, hx, hz, hle, hover, hshows⟩ := transfer_ok h htransfer
  refine ⟨_, hshows, ?_, rfl⟩
  rw [moved, if_pos htype]
  by_cases hself : tx.sender = tx.recipient
  · have hxy : y = x := by
      have := hz.account_eq
      rw [← hself, hx.account_eq] at this
      exact (Except.ok.inj this).symm
    have haddress : z.address = tx.sender := hz.sound.1.trans hself.symm
    rw [if_pos hself, View.putAccount_putAccount, balance_setBalance hx.account_eq haddress,
      toNat_add_of_le hover, hz.balance_eq, hxy, add_sub_cancel_left]
    exact hx.sound.1.trans haddress.symm
  · have hview : (w.putAccount { x with balance := x.balance - tx.value }).account tx.recipient =
        .ok y := by
      rw [View.putAccount_account, if_neg, hz.account_eq]
      rw [hx.sound.1]
      exact Ne.symm hself
    rw [if_neg hself, balance_setBalance hview hz.sound.1,
      balance_setBalance hx.account_eq hx.sound.1, toNat_add_of_le hover,
      toNat_sub_of_le hle, hz.balance_eq, add_sub_cancel_left, sub_sub_cancel_left,
      Pi.single_neg]
    abel

theorem clearVote_balance (h : Shows db (b :: blocks) w stack) {a : Address}
    (hclear : Repository.clearVote db a stack = (.ok (), stack')) :
    ∃ w', Shows db (b :: blocks) w' stack' ∧ balance w' = balance w ∧ known w' = known w := by
  obtain ⟨x, hx, -, hshows⟩ := clearVote_ok h hclear
  refine ⟨_, hshows, ?_, known_eraseVotes w a _⟩
  exact balance_putAccount_of_eq (w := eraseVotes w a _) hx.account_eq hx.sound.1 rfl

theorem voteIncrease_balance (h : Shows db (b :: blocks) w stack) {voter candidate : Address}
    {v : UInt64}
    (hvote : Repository.voteIncrease db voter candidate v stack = (.ok (), stack')) :
    ∃ w', Shows db (b :: blocks) w' stack' ∧ balance w' = balance w ∧ known w' = known w := by
  obtain ⟨x, p, hx, hp, -, hshows⟩ := voteIncrease_ok h hvote
  refine ⟨_, hshows, balance_putAccount_of_eq hx.account_eq hx.sound.1 rfl, ?_⟩
  exact known_putProducer_of_has (w := w.putAccount _) ⟨hp.producer_eq, hp.nonempty, hp.sound⟩
    hp.sound rfl

end Steps

section Transactions

def Handled (tx : Transaction) : Prop :=
  tx.type = Transaction.voteType ∨ tx.type = Transaction.transferType ∨
    tx.type = Transaction.beenProducerType

theorem creates_eq_false {tx : Transaction} (h : tx.type ≠ Transaction.beenProducerType)
    (k : Address → Bool) : creates k tx = false := by
  simp [creates, h]

theorem flow_of_not_creates {k : Address → Bool} {tx : Transaction} (h : creates k tx = false) :
    flow k tx = moved tx - Pi.single tx.sender (transactionFee.toNat : ℤ) := by
  simp [flow, charge, h]

theorem learn_of_not_creates {k : Address → Bool} {tx : Transaction} (h : creates k tx = false)
    (timestamp : Int64) : learn timestamp k tx = k := by
  simp [learn, h]

theorem vote_balance (h : Shows db (b :: blocks) w stack) {tx : Transaction}
    (hrun : Runtime.vote db tx stack = (.ok (), stack')) :
    ∃ w', Shows db (b :: blocks) w' stack' ∧
      balance w' = balance w - Pi.single tx.sender (transactionFee.toNat : ℤ) ∧
      known w' = known w := by
  obtain ⟨⟨⟩, t, hclear, hrun⟩ := Eff.bind_eq_ok.mp hrun
  obtain ⟨⟨⟩, u, hburn, hrun⟩ := Eff.bind_eq_ok.mp hrun
  obtain ⟨ballot, u', hballot, hrun⟩ := Eff.bind_eq_ok.mp hrun
  obtain ⟨-, rfl⟩ := Prod.mk.inj hballot
  obtain ⟨w₁, ht, hb₁, hk₁⟩ := clearVote_balance h hclear
  obtain ⟨w₂, hu, hb₂, hk₂⟩ := burn_balance ht hburn
  refine Eff.forEach_invariant
    (I := fun _ st ↦ ∃ w', Shows db (b :: blocks) w' st ∧
      balance w' = balance w - Pi.single tx.sender (transactionFee.toNat : ℤ) ∧
      known w' = known w) ?_ hrun ⟨w₂, hu, by rw [hb₂, hb₁], by rw [hk₂, hk₁]⟩
  rintro i - s t ⟨v, hv, hbv, hkv⟩ hvote
  obtain ⟨v', hv', hbv', hkv'⟩ := voteIncrease_balance hv hvote
  exact ⟨v', hv', by rw [hbv', hbv], by rw [hkv', hkv]⟩

theorem transferAction_balance (h : Shows db (b :: blocks) w stack) {tx : Transaction}
    (htype : tx.type = Transaction.transferType)
    (hrun : Runtime.transfer db tx stack = (.ok (), stack')) :
    ∃ w', Shows db (b :: blocks) w' stack' ∧
      balance w' = balance w + (moved tx - Pi.single tx.sender (transactionFee.toNat : ℤ)) ∧
      known w' = known w := by
  obtain ⟨⟨⟩, t, hburn, hrun⟩ := Eff.bind_eq_ok.mp hrun
  obtain ⟨w₁, ht, hb₁, hk₁⟩ := burn_balance h hburn
  obtain ⟨w₂, hu, hb₂, hk₂⟩ := transfer_balance ht htype hrun
  refine ⟨w₂, hu, ?_, by rw [hk₂, hk₁]⟩
  rw [hb₂, hb₁]
  abel

theorem beenProducer_balance (h : Shows db (b :: blocks) w stack) {tx : Transaction}
    {timestamp : Int64} (htype : tx.type = Transaction.beenProducerType)
    (hrun : Runtime.beenProducer db timestamp tx stack = (.ok (), stack')) :
    ∃ w', Shows db (b :: blocks) w' stack' ∧ balance w' = balance w + flow (known w) tx ∧
      known w' = learn timestamp (known w) tx := by
  obtain ⟨x, p, hx, hfee, hp, hrun⟩ := beenProducer_ok h hrun
  have hmoved : moved tx = 0 := by
    simp [moved, htype, Transaction.beenProducerType, Transaction.transferType]
  have hknown : known w tx.sender = !p.isEmpty := by simp [known, hp]
  cases hempty : p.isEmpty with
  | true =>
    have hcreates : creates (known w) tx = true := by simp [creates, htype, hknown, hempty]
    rw [if_pos hempty] at hrun
    obtain ⟨hcost, hshows⟩ := hrun
    refine ⟨_, hshows, ?_, ?_⟩
    · rw [balance_putProducer, balance_setBalance hx.account_eq hx.sound.1,
        toNat_sub_of_le hcost, toNat_sub_of_le hfee, flow, hmoved, charge, hcreates, if_pos rfl,
        zero_sub, ← Pi.single_neg]
      congr 2
      ring
    · rw [known_putProducer, known_putAccount, learn, if_pos hcreates]
      rfl
  | false =>
    have hcreates : creates (known w) tx = false := by simp [creates, hknown, hempty]
    rw [if_neg (by simp [hempty])] at hrun
    refine ⟨_, hrun, ?_, (learn_of_not_creates hcreates timestamp).symm⟩
    rw [balance_setBalance hx.account_eq hx.sound.1, toNat_sub_of_le hfee,
      flow_of_not_creates hcreates, hmoved, zero_sub, ← Pi.single_neg]
    congr 2
    ring

theorem excute_balance (h : Shows db (b :: blocks) w stack) {sha3 : Bytes → H256}
    {tx : Transaction} {timestamp : Int64} (htx : Handled tx)
    (hrun : Runtime.excute sha3 db timestamp tx stack = (.ok (), stack')) :
    ∃ w', Shows db (b :: blocks) w' stack' ∧ balance w' = balance w + flow (known w) tx ∧
      known w' = learn timestamp (known w) tx := by
  obtain ⟨⟨⟩, t, hexecute, hput⟩ := Eff.bind_eq_ok.mp hrun
  suffices hsuff : ∃ w', Shows db (b :: blocks) w' t ∧
      balance w' = balance w + flow (known w) tx ∧ known w' = learn timestamp (known w) tx by
    obtain ⟨w', hshows, hrest⟩ := hsuff
    exact ⟨w', Repository.putTransaction_spec hshows hput, hrest⟩
  unfold Runtime.execute at hexecute
  rcases htx with htype | htype | htype
  · rw [if_pos htype] at hexecute
    obtain ⟨w', hshows, hbal, hknown⟩ := vote_balance h hexecute
    have hcreates : creates (known w) tx = false := creates_eq_false (by rw [htype]; decide) _
    refine ⟨w', hshows, ?_, hknown.trans (learn_of_not_creates hcreates _).symm⟩
    rw [hbal, flow_of_not_creates hcreates, moved, if_neg (by rw [htype]; decide), zero_sub,
      sub_eq_add_neg]
  · rw [if_neg (by rw [htype]; decide), if_pos htype] at hexecute
    obtain ⟨w', hshows, hbal, hknown⟩ := transferAction_balance h htype hexecute
    have hcreates : creates (known w) tx = false := creates_eq_false (by rw [htype]; decide) _
    exact ⟨w', hshows, by rw [hbal, flow_of_not_creates hcreates],
      hknown.trans (learn_of_not_creates hcreates _).symm⟩
  · rw [if_neg (by rw [htype]; decide), if_neg (by rw [htype]; decide), if_pos htype] at hexecute
    exact beenProducer_balance h htype hexecute

/-- The transactions of a block change the balances by the flow of the block. -/
theorem run_balance {txs : List Transaction} {sha3 : Bytes → H256} {timestamp : Int64}
    (h : Shows db (b :: blocks) w stack) (htxs : ∀ tx ∈ txs, Handled tx)
    (hrun : Eff.forEach txs (fun tx ↦ Runtime.excute sha3 db timestamp tx) stack =
      (.ok (), stack')) :
    ∃ w', Shows db (b :: blocks) w' stack' ∧
      balance w' = balance w + blockFlow timestamp (known w) txs := by
  induction txs generalizing w stack with
  | nil =>
    obtain ⟨-, rfl⟩ := Prod.mk.inj hrun
    exact ⟨w, h, (add_zero _).symm⟩
  | cons tx txs ih =>
    obtain ⟨t, htx, hrest⟩ := Eff.forEach_cons_eq_ok.mp hrun
    obtain ⟨w₁, ht, hb₁, hk₁⟩ := excute_balance h (htxs tx (by simp)) htx
    obtain ⟨w₂, hs, hb₂⟩ := ih ht (fun i hi ↦ htxs i (by simp [hi])) hrest
    exact ⟨w₂, hs, by rw [hb₂, hb₁, hk₁, blockFlow, add_assoc]⟩

end Transactions

section Supply

theorem supply_eq_add {f : Address → ℤ} (h : balance w' = balance w + f) :
    supply w' = supply w + ∑ a, f a := by
  simp only [supply, h, Pi.add_apply, Finset.sum_add_distrib]

theorem sum_moved (tx : Transaction) :
    ∑ a, moved tx a = if selfTransfer tx then (tx.value.toNat : ℤ) else 0 := by
  unfold moved selfTransfer
  by_cases htype : tx.type = Transaction.transferType
  · by_cases hself : tx.sender = tx.recipient
    · simp [htype, hself]
    · simp [htype, hself, Finset.sum_sub_distrib]
  · simp [htype]

theorem sum_flow (k : Address → Bool) (tx : Transaction) :
    ∑ a, flow k tx a = (if selfTransfer tx then (tx.value.toNat : ℤ) else 0) - charge k tx := by
  simp [flow, Finset.sum_sub_distrib, sum_moved]

theorem sum_blockFlow (timestamp : Int64) (k : Address → Bool) (txs : List Transaction) :
    ∑ a, blockFlow timestamp k txs a =
      selfTransferred txs - transactionFee.toNat * txs.length -
        producerCost.toNat * created timestamp k txs := by
  induction txs generalizing k with
  | nil => simp [blockFlow, selfTransferred, created]
  | cons tx txs ih =>
    simp only [blockFlow, Pi.add_apply, Finset.sum_add_distrib, sum_flow, ih, created, charge,
      selfTransferred, List.filter_cons, List.length_cons]
    cases selfTransfer tx <;> cases creates k tx <;> simp <;> ring

end Supply

end GseNetwork.Ledger
