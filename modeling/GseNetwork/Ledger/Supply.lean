import GseNetwork.Chain.Frames
import GseNetwork.Ledger.Balances

namespace GseNetwork.Ledger

open GseNetwork.Core GseNetwork.Foundation GseNetwork.Storage GseNetwork.Chain
open GseNetwork.Chain.BlockChain
open Repository (Shows)

variable {env : Env} {block : Block} {blocks : List Block} {w : View} {s s' : BlockChain}

section Block

def transactionFlow (block : Block) (s : BlockChain) : Address → ℤ :=
  blockFlow block.getTimestamp (known (openView block s)) block.transactions

def createdProducers (block : Block) (s : BlockChain) : ℕ :=
  created block.getTimestamp (known (openView block s)) block.transactions

/-- The bonus takes the balance of the producer past the range of `uint64_t`. -/
def BonusWraps (env : Env) (block : Block) (s : BlockChain) : Prop :=
  2 ^ 64 ≤ balance (chainView s) block.getProducer + transactionFlow block s block.getProducer +
    (blockBonus env block.getTimestamp).toNat

instance : Decidable (BonusWraps env block s) := by
  unfold BonusWraps
  infer_instance

def wrapLoss (env : Env) (block : Block) (s : BlockChain) : ℤ :=
  if BonusWraps env block s then 2 ^ 64 else 0

theorem toNat_add_eq (x v : UInt64) :
    ((x + v).toNat : ℤ) =
      x.toNat + v.toNat - if 2 ^ 64 ≤ (x.toNat : ℤ) + v.toNat then 2 ^ 64 else 0 := by
  have hx := x.toNat_lt
  have hv := v.toNat_lt
  rw [UInt64.toNat_add]
  split <;> omega

theorem bonus_balance {db : DatabaseController} {stack stack' : List Repository}
    (h : Shows db (block :: blocks) w stack) {a : Address} {v : UInt64}
    (hbonus : Repository.bonus db a v stack = (.ok (), stack')) :
    ∃ w', Shows db (block :: blocks) w' stack' ∧
      balance w' = balance w + Pi.single a
        ((v.toNat : ℤ) - if 2 ^ 64 ≤ balance w a + v.toNat then 2 ^ 64 else 0) := by
  obtain ⟨x, hx, hshows⟩ := bonus_ok h hbonus
  have hbalance : balance w a = x.balance.toNat := by simp [balance, hx.account_eq]
  refine ⟨_, hshows, ?_⟩
  rw [balance_setBalance hx.account_eq hx.sound.1, toNat_add_eq, hbalance]
  congr 2
  ring

theorem executeBlock_balance (h : Shows s.dbc (block :: blocks) w (stack s.memoryQueue))
    (htxs : ∀ tx ∈ block.transactions, Handled tx)
    (hrun : executeBlock env block s = (.ok (), s')) :
    ∃ w₁ w', Shows s'.dbc (block :: blocks) w' (stack s'.memoryQueue) ∧
      balance w₁ = balance w + blockFlow block.getTimestamp (known w) block.transactions ∧
      balance w' = balance w₁ + Pi.single block.getProducer
        (((blockBonus env block.getTimestamp).toNat : ℤ) -
          if 2 ^ 64 ≤ balance w₁ block.getProducer + (blockBonus env block.getTimestamp).toNat
          then 2 ^ 64 else 0) := by
  obtain ⟨⟨⟩, s₁, hexcute, hrun⟩ := Eff.bind_eq_ok.mp hrun
  obtain ⟨⟨⟩, s₂, hsend, hrun⟩ := Eff.bind_eq_ok.mp hrun
  obtain ⟨⟨⟩, s₃, hschedule, hrun⟩ := Eff.bind_eq_ok.mp hrun
  obtain ⟨⟨⟩, s₄, hbonus, hdone⟩ := Eff.bind_eq_ok.mp hrun
  obtain ⟨st, hst, hdbc, hstack⟩ := onRepo_shows hexcute h
  obtain ⟨w₁, h₁, hflow⟩ := run_balance h htxs hst
  have hs₁ : Shows s₁.dbc (block :: blocks) w₁ (stack s₁.memoryQueue) := by
    rw [hdbc, hstack h₁.blocks_eq]
    exact h₁
  have hs₃ : Shows s₃.dbc (block :: blocks) w₁ (stack s₃.memoryQueue) := by
    have hs₂ := (keepsView_sendConfirmation env block s₁).shows _ _ hs₁
    rw [hsend] at hs₂
    have hkeeps := (keepsView_reschedule env block s₂).shows _ _ hs₂
    rwa [hschedule] at hkeeps
  obtain ⟨st', hst', hdbc', hstack'⟩ := onRepo_shows hbonus hs₃
  obtain ⟨w', h', hbalance⟩ := bonus_balance hs₃ hst'
  obtain ⟨-, rfl⟩ := Prod.mk.inj hdone
  refine ⟨w₁, w', ?_, hflow, hbalance⟩
  change Shows s₄.dbc (block :: blocks) w' (stack s₄.setDone.memoryQueue)
  rw [stack_setDone, hdbc', hstack' h'.blocks_eq]
  exact h'

theorem attemptBlock_balance (h : Shows s.dbc blocks w (stack s.memoryQueue))
    (htxs : ∀ tx ∈ block.transactions, Handled tx)
    (hrun : attemptBlock env block s = (.ok (), s')) :
    ∃ w', Shows s'.dbc (block :: blocks) w' (stack s'.memoryQueue) ∧
      balance w' = balance w + transactionFlow block s + Pi.single block.getProducer
        ((blockBonus env block.getTimestamp).toNat - wrapLoss env block s) := by
  obtain ⟨⟨⟩, s₁, hprepare, hrun⟩ := Eff.bind_eq_ok.mp hrun
  have hkeeps : KeepsView s s₁ := by
    have := keepsView_prepareBlock env block s
    rwa [hprepare] at this
  have h₁ := hkeeps.shows _ _ h
  have hopen : Shows (addMemoryItem block s₁).dbc (block :: blocks) (openView block s)
      (stack (addMemoryItem block s₁).memoryQueue) := by
    rw [stack_addMemoryItem, ← hkeeps.openView_eq h]
    exact shows_open h₁ block
  have hbalance : balance (openView block s) = balance w := by
    funext a
    unfold balance openView
    rw [openView_account h]
  obtain ⟨w₁, w', hshows, hflow, hbonus⟩ := executeBlock_balance hopen htxs hrun
  have hw₁ : balance w₁ = balance w + transactionFlow block s := by
    rw [hflow, hbalance]
    rfl
  refine ⟨w', hshows, ?_⟩
  obtain rfl : chainView s = w := h.view_eq
  rw [hbonus, hw₁]
  rfl

/-- The total after a block, with every deviation from the intended account of it. -/
theorem attemptBlock_supply (h : Shows s.dbc blocks w (stack s.memoryQueue))
    (htxs : ∀ tx ∈ block.transactions, Handled tx)
    (hrun : attemptBlock env block s = (.ok (), s')) :
    supply (chainView s') = supply (chainView s) + (blockBonus env block.getTimestamp).toNat -
      transactionFee.toNat * block.transactions.length -
      producerCost.toNat * createdProducers block s + selfTransferred block.transactions -
      wrapLoss env block s := by
  obtain ⟨w', h', hbalance⟩ := attemptBlock_balance h htxs hrun
  obtain rfl : chainView s = w := h.view_eq
  obtain rfl : chainView s' = w' := h'.view_eq
  rw [add_assoc] at hbalance
  rw [supply_eq_add hbalance]
  simp only [Pi.add_apply, Finset.sum_add_distrib, Finset.sum_pi_single', Finset.mem_univ,
    if_true, transactionFlow, sum_blockFlow, createdProducers]
  ring

end Block

section Balance

def WellFormed (s : BlockChain) : Prop := Repository.Sound s.dbc (stack s.memoryQueue)

theorem WellFormed.shows (h : WellFormed s) :
    Shows s.dbc ((stack s.memoryQueue).map Repository.block) (chainView s)
      (stack s.memoryQueue) := ⟨h, rfl, rfl⟩

def NoIncrease (env : Env) (block : Block) (s : BlockChain) : Prop :=
  ∀ before tx after, block.transactions = before ++ tx :: after → ∀ s₀ st₁ st₂,
    prepareBlock env block s = (.ok (), s₀) →
    Eff.forEach before (fun i ↦ Runtime.excute env.sha3 s₀.dbc block.getTimestamp i)
      (stack (addMemoryItem block s₀).memoryQueue) = (.ok (), st₁) →
    Runtime.excute env.sha3 s₀.dbc block.getTimestamp tx st₁ = (.ok (), st₂) →
    supply (Repository.viewOf s₀.dbc st₂) ≤ supply (Repository.viewOf s₀.dbc st₁)

theorem excute_supply {db : DatabaseController} {st st' : List Repository}
    (h : Shows db (block :: blocks) w st) {tx : Transaction} (htx : Handled tx)
    {timestamp : Int64}
    (hrun : Runtime.excute env.sha3 db timestamp tx st = (.ok (), st')) :
    supply (Repository.viewOf db st') = supply (Repository.viewOf db st) +
      ((if selfTransfer tx then (tx.value.toNat : ℤ) else 0) - charge (known w) tx) := by
  obtain ⟨w', h', hbalance, -⟩ := excute_balance h htx hrun
  rw [h.view_eq, h'.view_eq, supply_eq_add hbalance, sum_flow]

theorem charge_of_selfTransfer {tx : Transaction} (h : selfTransfer tx = true)
    (k : Address → Bool) : charge k tx = transactionFee.toNat := by
  simp only [selfTransfer, Bool.and_eq_true, beq_iff_eq] at h
  rw [charge, creates_eq_false (by rw [h.1]; decide)]
  simp

theorem zero_le_charge (k : Address → Bool) (tx : Transaction) : 0 ≤ charge k tx := by
  unfold charge
  split <;> positivity

theorem prepared (h : WellFormed s) {s₀ : BlockChain}
    (hprepare : prepareBlock env block s = (.ok (), s₀)) :
    Shows (addMemoryItem block s₀).dbc
      (block :: (stack s.memoryQueue).map Repository.block) (openView block s)
      (stack (addMemoryItem block s₀).memoryQueue) := by
  have hkeeps := keepsView_prepareBlock env block s
  rw [hprepare] at hkeeps
  rw [stack_addMemoryItem, ← hkeeps.openView_eq h.shows]
  exact shows_open (hkeeps.shows _ _ h.shows) block

theorem noIncrease_iff (h : WellFormed s) (htxs : ∀ tx ∈ block.transactions, Handled tx)
    (hrun : attemptBlock env block s = (.ok (), s')) :
    NoIncrease env block s ↔
      ∀ tx ∈ block.transactions, selfTransfer tx = true → tx.value ≤ transactionFee := by
  obtain ⟨⟨⟩, s₀, hprepare, hrun⟩ := Eff.bind_eq_ok.mp hrun
  obtain ⟨⟨⟩, s₁, hexcute, -⟩ := Eff.bind_eq_ok.mp
    (show executeBlock env block (addMemoryItem block s₀) = (.ok (), s') from hrun)
  obtain ⟨st, hst, -⟩ := onRepo_eq hexcute
  have hopen := prepared h hprepare
  have hstep {before tx after st₁ st₂} (htxs' : block.transactions = before ++ tx :: after)
      (hbefore : Eff.forEach before (fun i ↦ Runtime.excute env.sha3 s₀.dbc block.getTimestamp i)
        (stack (addMemoryItem block s₀).memoryQueue) = (.ok (), st₁))
      (htx : Runtime.excute env.sha3 s₀.dbc block.getTimestamp tx st₁ = (.ok (), st₂)) :
      ∃ k, supply (Repository.viewOf s₀.dbc st₂) = supply (Repository.viewOf s₀.dbc st₁) +
        ((if selfTransfer tx then (tx.value.toNat : ℤ) else 0) - charge k tx) := by
    obtain ⟨w₁, h₁, -⟩ := run_balance hopen (fun i hi ↦ htxs i (by simp [htxs', hi])) hbefore
    exact ⟨_, excute_supply h₁ (htxs tx (by simp [htxs'])) htx⟩
  constructor
  · intro hno tx htx hself
    obtain ⟨before, after, htxs'⟩ := List.append_of_mem htx
    rw [Runtime.run, htxs'] at hst
    obtain ⟨st₁, hbefore, hafter⟩ := Eff.forEach_append_eq_ok.mp hst
    obtain ⟨st₂, hexec, -⟩ := Eff.forEach_cons_eq_ok.mp hafter
    have hle := hno before tx after htxs' s₀ st₁ st₂ hprepare hbefore hexec
    obtain ⟨k, hsupply⟩ := hstep htxs' hbefore hexec
    rw [hsupply, if_pos hself, charge_of_selfTransfer hself] at hle
    rw [UInt64.le_iff_toNat_le]
    omega
  · intro hfee before tx after htxs' s₀' st₁ st₂ hprepare' hbefore hexec
    rw [hprepare] at hprepare'
    obtain ⟨-, rfl⟩ := Prod.mk.inj hprepare'
    obtain ⟨k, hsupply⟩ := hstep htxs' hbefore hexec
    rw [hsupply]
    cases hself : selfTransfer tx with
    | true =>
      have hle := UInt64.le_iff_toNat_le.mp (hfee tx (by simp [htxs']) hself)
      rw [if_pos rfl, charge_of_selfTransfer hself]
      omega
    | false =>
      have hcharge := zero_le_charge k tx
      simpa using hcharge

/-- The total is accounted for exactly when the values that transfers to oneself mint make up for
what the bonus loses by wrapping around, and no such transfer mints more than its fee. -/
theorem supply_accounted_iff (h : WellFormed s) (htxs : ∀ tx ∈ block.transactions, Handled tx)
    (hrun : attemptBlock env block s = (.ok (), s')) :
    (supply (chainView s') = supply (chainView s) + (blockBonus env block.getTimestamp).toNat -
        transactionFee.toNat * block.transactions.length -
        producerCost.toNat * createdProducers block s ∧ NoIncrease env block s) ↔
      (selfTransferred block.transactions : ℤ) = wrapLoss env block s ∧
        ∀ tx ∈ block.transactions, selfTransfer tx = true → tx.value ≤ transactionFee := by
  rw [noIncrease_iff h htxs hrun, attemptBlock_supply h.shows htxs hrun]
  refine and_congr_left fun _ ↦ ⟨fun hsum ↦ ?_, fun heq ↦ ?_⟩
  · linarith
  · rw [heq]
    ring

theorem attemptBlock_wellFormed (h : WellFormed s)
    (htxs : ∀ tx ∈ block.transactions, Handled tx)
    (hrun : attemptBlock env block s = (.ok (), s')) : WellFormed s' := by
  obtain ⟨w', h', -⟩ := attemptBlock_balance h.shows htxs hrun
  exact h'.sound

end Balance

section Minting

/-- A node with one account, which produces the next block and sends its only transaction, a
transfer of the given value to itself. -/
def loneEnv : Env where
  sha3 _ := 0
  chainID := 0
  address := 1

def loneStore : DatabaseController where
  accountStore := Std.ExtTreeMap.insert ∅ 1 (.ok (Account.new 1 2000000 0))

def loneChain : BlockChain := start loneEnv loneStore {} {}

def loneBlock (value : UInt64) : Block where
  blockHeader := { producer := 1, number := 1, timestamp := 1538352000000 }
  transactions := [{
    chainID := 0, type := Transaction.transferType, sender := 1, recipient := 1, timestamp := 0,
    value := value }]

theorem wellFormed_loneChain : WellFormed loneChain := by
  refine ⟨soundStore_single rfl rfl rfl, fun a p hp hne ↦ ?_, fun m hm ↦ ?_, fun m hm ↦ ?_⟩
  · change loneStore.getProducer a = .ok p at hp
    rw [DatabaseController.getProducer, loneStore, Std.ExtTreeMap.getD_empty,
      Except.ok.injEq] at hp
    subst hp
    contradiction
  · simp [loneChain, start, stack] at hm
  · simp [loneChain, start, stack] at hm

theorem handled_loneBlock (value : UInt64) :
    ∀ tx ∈ (loneBlock value).transactions, Handled tx := by
  intro tx htx
  rw [List.mem_singleton.mp htx]
  exact Or.inr (Or.inl rfl)

theorem supply_accounted_iff_zero :
    (attemptBlock loneEnv (loneBlock 0) loneChain).1.isOk = true ∧
      supply (chainView (attemptBlock loneEnv (loneBlock 0) loneChain).2) =
        supply (chainView loneChain) + (blockBonus loneEnv (loneBlock 0).getTimestamp).toNat -
          transactionFee.toNat * (loneBlock 0).transactions.length -
          producerCost.toNat * createdProducers (loneBlock 0) loneChain ∧
      NoIncrease loneEnv (loneBlock 0) loneChain := by
  have hok : (attemptBlock loneEnv (loneBlock 0) loneChain).1.isOk = true := by decide +kernel
  refine ⟨hok, (supply_accounted_iff wellFormed_loneChain (handled_loneBlock 0)
    (Eff.eq_ok_of_isOk hok)).mpr ⟨?_, ?_⟩⟩
  · decide +kernel
  · decide

/-- A transfer of 1000000 to oneself, for a fee of 500000, leaves 500000 more than there were. -/
theorem supply_not_accounted :
    (attemptBlock loneEnv (loneBlock 1000000) loneChain).1.isOk = true ∧
      ¬ supply (chainView (attemptBlock loneEnv (loneBlock 1000000) loneChain).2) =
        supply (chainView loneChain) +
          (blockBonus loneEnv (loneBlock 1000000).getTimestamp).toNat -
          transactionFee.toNat * (loneBlock 1000000).transactions.length -
          producerCost.toNat * createdProducers (loneBlock 1000000) loneChain := by
  have hok : (attemptBlock loneEnv (loneBlock 1000000) loneChain).1.isOk = true := by
    decide +kernel
  have hwrap : wrapLoss loneEnv (loneBlock 1000000) loneChain = 0 := by decide +kernel
  refine ⟨hok, fun heq ↦ ?_⟩
  rw [attemptBlock_supply wellFormed_loneChain.shows (handled_loneBlock 1000000)
    (Eff.eq_ok_of_isOk hok), hwrap] at heq
  have hself : selfTransferred (loneBlock 1000000).transactions = 1000000 := by decide
  rw [hself] at heq
  omega

end Minting

end GseNetwork.Ledger
