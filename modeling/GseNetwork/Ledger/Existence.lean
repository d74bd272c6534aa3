import GseNetwork.Ledger.Effects

namespace GseNetwork.Ledger

open GseNetwork.Core GseNetwork.Foundation GseNetwork.Storage
open Repository (Shows)

variable {db : DatabaseController} {b : Block} {blocks : List Block} {w w' : View}
  {stack stack' : List Repository}

def AccountExists (w : View) (a : Address) : Prop := ∃ x, HasAccount w a x

theorem exists_of_account_eq (h : w'.account = w.account) (a : Address) :
    AccountExists w' a ↔ AccountExists w a := by
  constructor
  · rintro ⟨x, hx, hsound⟩
    exact ⟨x, h ▸ hx, hsound⟩
  · rintro ⟨x, hx, hsound⟩
    exact ⟨x, h ▸ hx, hsound⟩

theorem exists_putAccount {x : Account} (hx : x.alive = true) (a : Address) :
    AccountExists (w.putAccount x) a ↔ a = x.address ∨ AccountExists w a := by
  unfold AccountExists
  by_cases ha : a = x.address
  · refine iff_of_true ⟨erase x, ?_, ha.symm, hx⟩ (Or.inl ha)
    rw [View.putAccount_account, if_pos ha]
  · have hold : ∀ y, HasAccount (w.putAccount x) a y ↔ HasAccount w a y := by
      intro y
      constructor
      · rintro ⟨hy, hsound⟩
        rw [View.putAccount_account, if_neg ha] at hy
        exact ⟨hy, hsound⟩
      · rintro ⟨hy, hsound⟩
        refine ⟨?_, hsound⟩
        rw [View.putAccount_account, if_neg ha]
        exact hy
    simp only [hold, ha, false_or]

theorem exists_update {a : Address} {x y : Account} (hw' : w'.account = (w.putAccount y).account)
    (h : HasAccount w a x) (haddress : y.address = x.address) (halive : y.alive = x.alive)
    (c : Address) : AccountExists w' c ↔ AccountExists w c := by
  rw [exists_of_account_eq hw', exists_putAccount (halive.trans h.sound.2), haddress, h.sound.1]
  exact or_iff_right_of_imp fun hc ↦ hc ▸ ⟨x, h⟩

section Operations

variable (h : Shows db (b :: blocks) w stack)

include h

theorem burn_exists {a : Address} {v : UInt64}
    (hburn : Repository.burn db a v stack = (.ok (), stack')) :
    ∃ w', Shows db (b :: blocks) w' stack' ∧ ∀ c, AccountExists w' c ↔ AccountExists w c := by
  obtain ⟨x, hx, -, hshows⟩ := burn_ok h hburn
  exact ⟨_, hshows, exists_update rfl hx rfl rfl⟩

theorem transfer_exists {sender recipient : Address} {v : UInt64}
    (htransfer : Repository.transfer db sender recipient v stack = (.ok (), stack')) :
    ∃ w', Shows db (b :: blocks) w' stack' ∧
      ∀ c, AccountExists w' c ↔ c = recipient ∨ AccountExists w c := by
  obtain ⟨x, y, z, hx, hz, -, -, hshows⟩ := transfer_ok h htransfer
  refine ⟨_, hshows, fun c ↦ ?_⟩
  have hrecipient : z.address = recipient := hz.sound.1
  have hput := exists_putAccount (w := w.putAccount { x with balance := x.balance - v })
    (x := { z with balance := z.balance + v }) hz.sound.2 c
  have hsource := exists_update (y := { x with balance := x.balance - v }) rfl hx rfl rfl c
  exact hput.trans (or_congr (by rw [hrecipient]) hsource)

theorem voteIncrease_exists {voter candidate : Address} {v : UInt64}
    (hvote : Repository.voteIncrease db voter candidate v stack = (.ok (), stack')) :
    ∃ w', Shows db (b :: blocks) w' stack' ∧ ∀ c, AccountExists w' c ↔ AccountExists w c := by
  obtain ⟨x, p, hx, -, -, hshows⟩ := voteIncrease_ok h hvote
  exact ⟨_, hshows, exists_update (y := x.addVoter candidate v) rfl hx rfl rfl⟩

theorem clearVote_exists {a : Address}
    (hclear : Repository.clearVote db a stack = (.ok (), stack')) :
    ∃ w', Shows db (b :: blocks) w' stack' ∧ ∀ c, AccountExists w' c ↔ AccountExists w c := by
  obtain ⟨x, hx, -, hshows⟩ := clearVote_ok h hclear
  exact ⟨_, hshows, exists_update (y := x.clearVote) rfl hx rfl rfl⟩

theorem voteLoop_exists {sender : Address} {ballot : List Candidate}
    (hloop : Eff.forEach ballot
      (fun i ↦ Repository.voteIncrease db sender i.address i.value) stack = (.ok (), stack')) :
    ∃ w', Shows db (b :: blocks) w' stack' ∧ ∀ c, AccountExists w' c ↔ AccountExists w c := by
  induction ballot generalizing w stack with
  | nil =>
    obtain ⟨-, rfl⟩ := Prod.mk.inj hloop
    exact ⟨w, h, fun _ ↦ Iff.rfl⟩
  | cons i ballot ih =>
    obtain ⟨t, hvote, hrest⟩ := Eff.forEach_cons_eq_ok.mp hloop
    obtain ⟨w₁, h₁, hiff₁⟩ := voteIncrease_exists h hvote
    obtain ⟨w₂, h₂, hiff₂⟩ := ih h₁ hrest
    exact ⟨w₂, h₂, fun c ↦ (hiff₂ c).trans (hiff₁ c)⟩

theorem beenProducer_exists {timestamp : Int64} {tx : Transaction}
    (hrun : Runtime.beenProducer db timestamp tx stack = (.ok (), stack')) :
    ∃ w', Shows db (b :: blocks) w' stack' ∧ ∀ c, AccountExists w' c ↔ AccountExists w c := by
  obtain ⟨x, p, hx, -, -, hrest⟩ := beenProducer_ok h hrun
  split at hrest
  · exact ⟨_, hrest.2, exists_update
      (y := { x with balance := x.balance - transactionFee - producerCost }) rfl hx rfl rfl⟩
  · exact ⟨_, hrest, exists_update rfl hx rfl rfl⟩

end Operations

/-- A transaction makes the account of a transfer's recipient exist, and no other. -/
theorem execute_exists (h : Shows db (b :: blocks) w stack) {timestamp : Int64} {tx : Transaction}
    (hrun : Runtime.execute db timestamp tx stack = (.ok (), stack')) :
    ∃ w', Shows db (b :: blocks) w' stack' ∧ ∀ c, AccountExists w' c ↔
      (tx.type = Transaction.transferType ∧ tx.recipient = c) ∨ AccountExists w c := by
  unfold Runtime.execute at hrun
  split_ifs at hrun with hvote htransfer hproducer
  · have hother : tx.type ≠ Transaction.transferType := by
      rw [hvote]
      decide
    obtain ⟨⟨⟩, t₁, hclear, hrun⟩ := Eff.bind_eq_ok.mp hrun
    obtain ⟨⟨⟩, t₂, hburn, hrun⟩ := Eff.bind_eq_ok.mp hrun
    obtain ⟨ballot, t₃, hballot, hloop⟩ := Eff.bind_eq_ok.mp hrun
    obtain ⟨-, rfl⟩ := Prod.mk.inj hballot
    obtain ⟨w₁, h₁, hiff₁⟩ := clearVote_exists h hclear
    obtain ⟨w₂, h₂, hiff₂⟩ := burn_exists h₁ hburn
    obtain ⟨w₃, h₃, hiff₃⟩ := voteLoop_exists h₂ hloop
    refine ⟨w₃, h₃, fun c ↦ ?_⟩
    rw [hiff₃, hiff₂, hiff₁, or_iff_right fun hc ↦ hother hc.1]
  · obtain ⟨⟨⟩, t₁, hburn, hrun⟩ := Eff.bind_eq_ok.mp hrun
    obtain ⟨w₁, h₁, hiff₁⟩ := burn_exists h hburn
    obtain ⟨w₂, h₂, hiff₂⟩ := transfer_exists h₁ hrun
    refine ⟨w₂, h₂, fun c ↦ ?_⟩
    rw [hiff₂, hiff₁, and_iff_right htransfer, eq_comm]
  · obtain ⟨w₁, h₁, hiff₁⟩ := beenProducer_exists h hrun
    refine ⟨w₁, h₁, fun c ↦ ?_⟩
    rw [hiff₁, or_iff_right fun hc ↦ htransfer hc.1]
  · obtain ⟨-, rfl⟩ := Prod.mk.inj hrun
    exact ⟨w, h, fun c ↦ (or_iff_right fun hc ↦ htransfer hc.1).symm⟩

/-- The accounts that exist after transactions: those before, and the recipients of transfers. -/
theorem transactions_exists (h : Shows db (b :: blocks) w stack) {sha3 : Bytes → H256}
    {timestamp : Int64} {txs : List Transaction}
    (hrun : Eff.forEach txs (fun tx ↦ Runtime.excute sha3 db timestamp tx) stack =
      (.ok (), stack')) :
    ∃ w', Shows db (b :: blocks) w' stack' ∧ ∀ c, AccountExists w' c ↔
      (∃ tx ∈ txs, tx.type = Transaction.transferType ∧ tx.recipient = c) ∨ AccountExists w c := by
  induction txs generalizing w stack with
  | nil =>
    obtain ⟨-, rfl⟩ := Prod.mk.inj hrun
    exact ⟨w, h, fun c ↦ by simp⟩
  | cons tx txs ih =>
    obtain ⟨t, hexcute, hrest⟩ := Eff.forEach_cons_eq_ok.mp hrun
    obtain ⟨⟨⟩, u, hexecute, hput⟩ := Eff.bind_eq_ok.mp hexcute
    obtain ⟨w₁, h₁, hiff₁⟩ := execute_exists h hexecute
    obtain ⟨w₂, h₂, hiff₂⟩ := ih (Repository.putTransaction_spec h₁ hput) hrest
    refine ⟨w₂, h₂, fun c ↦ ?_⟩
    rw [hiff₂, hiff₁, List.exists_mem_cons_iff, or_assoc, or_left_comm]

end GseNetwork.Ledger
