import GseNetwork.Ledger.Parties
import GseNetwork.Ledger.Votes

namespace GseNetwork.Ledger

open GseNetwork.Core GseNetwork.Foundation GseNetwork.Storage
open Repository (Shows accountView)

variable {db : DatabaseController} {b : Block} {blocks : List Block} {w : View}
  {stack stack' : List Repository} {sender : Address}

def ballotSum (ballot : Ballot) : ℕ := (ballot.map fun i ↦ i.value.toNat).sum

@[simp] theorem ballotSum_cons (i : Candidate) (rest : Ballot) :
    ballotSum (i :: rest) = i.value.toNat + ballotSum rest := rfl

theorem toNat_mul_million {v : UInt64} (h : v.toNat * 1000000 < 2 ^ 64) :
    (v * 1000000).toNat = v.toNat * 1000000 := by
  rw [UInt64.toNat_mul]
  exact Nat.mod_eq_of_lt h

/-- While nothing wraps around, the test of `voteIncrease` keeps the votes within the balance. -/
theorem votes_add_le {x : Account} {v : UInt64}
    (hvotes : x.votes.toNat * 1000000 ≤ x.balance.toNat)
    (hlt : (x.votes.toNat + v.toNat) * 1000000 < 2 ^ 64)
    (htest : v * 1000000 ≤ x.balance - x.votes * 1000000) :
    (x.votes.toNat + v.toNat) * 1000000 ≤ x.balance.toNat := by
  have hspent := toNat_mul_million (Nat.lt_of_le_of_lt hvotes x.balance.toNat_lt)
  have hasked := toNat_mul_million
    (Nat.lt_of_le_of_lt (Nat.mul_le_mul_right 1000000 (Nat.le_add_left v.toNat x.votes.toNat)) hlt)
  have hno : x.votes * 1000000 ≤ x.balance := by
    rw [UInt64.le_iff_toNat_le, hspent]
    exact hvotes
  rw [UInt64.le_iff_toNat_le, UInt64.toNat_sub_of_le _ _ hno, hspent, hasked] at htest
  rw [Nat.add_mul]
  exact (Nat.le_sub_iff_add_le' hvotes).mp htest

/-- What the loop over a ballot keeps while the votes of the whole ballot fit into `uint64_t`. -/
structure Affordable (balance : UInt64) (sender : Address) (total : ℕ) (rest : Ballot)
    (w : View) : Prop where
  has_account : ∃ x, HasAccount w sender x ∧ x.balance = balance ∧
    x.votes.toNat + ballotSum rest = total ∧ x.votes.toNat * 1000000 ≤ balance.toNat

theorem Affordable.step {balance : UInt64} {total : ℕ} {i : Candidate} {rest : Ballot}
    (h : Affordable balance sender total (i :: rest) w) (htotal : total * 1000000 < 2 ^ 64)
    (hshows : Shows db (b :: blocks) w stack)
    (hvote : Repository.voteIncrease db sender i.address i.value stack = (.ok (), stack')) :
    ∃ w', Shows db (b :: blocks) w' stack' ∧ Affordable balance sender total rest w' := by
  obtain ⟨x, hx, rfl, hsum, hle⟩ := h.has_account
  rw [ballotSum_cons] at hsum
  have hrest : x.votes.toNat + i.value.toNat + ballotSum rest = total := by
    rw [Nat.add_assoc]
    exact hsum
  have hfits : (x.votes.toNat + i.value.toNat) * 1000000 < 2 ^ 64 :=
    Nat.lt_of_le_of_lt (Nat.mul_le_mul_right 1000000 (Nat.le.intro hrest)) htotal
  have hlt : x.votes.toNat + i.value.toNat < 2 ^ 64 :=
    Nat.lt_of_le_of_lt (Nat.le_mul_of_pos_right _ (by decide)) hfits
  obtain ⟨y, p, hy, hp, htest, hshows'⟩ := voteIncrease_ok hshows hvote
  obtain rfl := Except.ok.inj (hy.account_eq.symm.trans hx.account_eq)
  have hview : (voted w y p sender i.address i.value).account sender = _ :=
    (voted_account hx i.value sender).trans (if_pos rfl)
  refine ⟨_, hshows', ⟨_, ⟨hview, hx.sound⟩, rfl, ?_, ?_⟩⟩
  · rw [erase_votes, Account.addVoter, toNat_add_of_lt hlt]
    exact hrest
  · rw [erase_votes, Account.addVoter, toNat_add_of_lt hlt]
    exact votes_add_le hle hfits htest

/-- A ballot that goes through stays within the balance left after the fee exactly if its votes,
in units of the currency, are a number of `uint64_t`. -/
theorem vote_within_balance_iff (db : DatabaseController) (stack stack' : List Repository)
    (tx : Transaction) (ballot : Ballot) (hne : stack ≠ []) (hsound : Repository.Sound db stack)
    (hballot : Ballot.ofRLP tx.data = .ok ballot)
    (hrun : Runtime.vote db tx stack = (.ok (), stack')) :
    ∃ x, accountView db stack tx.sender = .ok x ∧ transactionFee ≤ x.balance ∧
      (1000000 * ballotSum ballot ≤ (x.balance - transactionFee).toNat ↔
        1000000 * ballotSum ballot < 2 ^ 64) := by
  obtain ⟨b, blocks, hblocks⟩ : ∃ b blocks, stack.map Repository.block = b :: blocks := by
    cases stack with
    | nil => contradiction
    | cons top rest => exact ⟨_, _, rfl⟩
  have hshows : Shows db (b :: blocks) (Repository.viewOf db stack) stack :=
    ⟨hsound, rfl, hblocks⟩
  obtain ⟨⟨⟩, t, hclear, hrun⟩ := Eff.bind_eq_ok.mp hrun
  obtain ⟨⟨⟩, u, hburn, hrun⟩ := Eff.bind_eq_ok.mp hrun
  obtain ⟨ballot', u', hdata, hloop⟩ := Eff.bind_eq_ok.mp hrun
  obtain ⟨hparse, rfl⟩ := Prod.mk.inj hdata
  obtain rfl := Except.ok.inj (hballot.symm.trans hparse)
  obtain ⟨x, hx, hall, ht⟩ := clearVote_ok hshows hclear
  obtain ⟨y, hy, hfee, hu⟩ := burn_ok ht hburn
  have hyx := hy.account_eq
  rw [putAccount_self _ (show x.clearVote.address = tx.sender from hx.sound.1)] at hyx
  obtain rfl := Except.ok.inj hyx
  obtain ⟨z, hz, rfl⟩ := accountView_of_shows hshows hx.account_eq
  refine ⟨z, hz, hfee, fun hle ↦ Nat.lt_of_le_of_lt hle (UInt64.toNat_lt _), fun hlt ↦ ?_⟩
  have hview := hu
  rw [View.putAccount_putAccount] at hview
  swap
  · rfl
  have hstart : Affordable (z.balance - transactionFee) tx.sender (ballotSum ballot) ballot
      ((eraseVotes (Repository.viewOf db stack) tx.sender
        ((erase z).candidates.toList.map Prod.fst)).putAccount
        { erase (erase z).clearVote with
          balance := (erase (erase z).clearVote).balance - transactionFee }) := by
    refine ⟨_, ⟨putAccount_self _ hx.sound.1, hx.sound⟩, rfl, Nat.zero_add _, ?_⟩
    simp [Account.clearVote]
  obtain ⟨w, -, hw⟩ := Eff.forEach_invariant
    (I := fun rest st ↦ ∃ w, Shows db (b :: blocks) w st ∧
      Affordable (z.balance - transactionFee) tx.sender (ballotSum ballot) rest w)
    (fun i rest s t hs hvote ↦ by
      obtain ⟨w, hw, h⟩ := hs
      exact h.step (by rwa [Nat.mul_comm]) hw hvote) hloop
    ⟨_, hview, hstart⟩
  obtain ⟨y, -, -, hsum, hle⟩ := hw.has_account
  have hvotes : y.votes.toNat = ballotSum ballot := hsum
  rwa [hvotes, Nat.mul_comm] at hle

theorem vote_within_balance_iff_poll :
    ∃ x, accountView pollStore pollStack 1 = .ok x ∧ transactionFee ≤ x.balance ∧
      (1000000 * ballotSum [{ address := 2, value := 3 }] ≤
          (x.balance - transactionFee).toNat ↔
        1000000 * ballotSum [{ address := 2, value := 3 }] < 2 ^ 64) :=
  vote_within_balance_iff pollStore pollStack _ (pollVote [{ address := 2, value := 3 }])
    [{ address := 2, value := 3 }] (by simp [pollStack]) genesis_poll.sound (by decide +kernel)
    (Eff.eq_ok_of_isOk (by decide +kernel))

/-- The product `value * 1000000` is zero in `uint64_t` for a vote of `2 ^ 58`. -/
theorem vote_exceeds_balance :
    (Runtime.vote pollStore (pollVote [{ address := 2, value := 2 ^ 58 }]) pollStack).1.isOk =
        true ∧
      Ballot.ofRLP (pollVote [{ address := 2, value := 2 ^ 58 }]).data =
        .ok [{ address := 2, value := 2 ^ 58 }] ∧
      accountView pollStore pollStack 1 = .ok (Account.new 1 10000000 0) ∧
      ¬ 1000000 * ballotSum [{ address := 2, value := 2 ^ 58 }] ≤
        ((Account.new 1 10000000 0).balance - transactionFee).toNat := by
  refine ⟨by decide +kernel, by decide +kernel, by decide +kernel, by decide +kernel⟩

end GseNetwork.Ledger
