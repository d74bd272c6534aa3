import GseNetwork.Foundation.Tally
import GseNetwork.Ledger.Balances

namespace GseNetwork.Ledger

open GseNetwork.Core GseNetwork.Foundation GseNetwork.Storage
open GseNetwork.Foundation.ReadThrough (getElem?_insert getElem?_erase)
open Repository (Shows)
open Std (ExtTreeMap)

variable {db : DatabaseController} {b : Block} {blocks : List Block} {w w' : View}
  {stack stack' : List Repository} {initial : Address → ℕ}

def total (m : ExtTreeMap Address UInt64) : ℕ := tally UInt64.toNat m

/-- What the account `a` has given to the producer `q`, as the account has it. -/
def candidate (w : View) (a q : Address) : Option UInt64 :=
  match w.account a with
  | .ok x => x.candidates[q]?
  | .error _ => none

/-- What the producer `q` has received from the account `a`, as the producer has it. -/
def voter (w : View) (q a : Address) : Option UInt64 :=
  match w.producer q with
  | .ok p => p.voters[a]?
  | .error _ => none

def producerVotes (w : View) (q : Address) : ℕ :=
  match w.producer q with
  | .ok p => p.votes.toNat
  | .error _ => 0

structure VoteLedger (initial : Address → ℕ) (w : View) : Prop where
  accounts : ∀ a x, w.account a = .ok x → x.votes.toNat = total x.candidates
  producers : ∀ q p, w.producer q = .ok p → p.votes.toNat = initial q + total p.voters
  agree : ∀ a q, candidate w a q = voter w q a

structure Consistent (initial : Address → ℕ) (w : View) : Prop extends VoteLedger initial w where
  emptyAccount_votes : ∀ a x, w.account a = .ok x → x.isEmpty = true →
    x.votes = 0 ∧ x.candidates = ∅
  emptyProducer_votes : ∀ q p, w.producer q = .ok p → p.isEmpty = true →
    p.votes = 0 ∧ p.voters = ∅

section Maps

variable {m : ExtTreeMap Address UInt64} {k : Address}

theorem total_empty : total ∅ = 0 := tally_empty _

theorem total_insert (h : (m[k]?).elim 0 UInt64.toNat = 0) (v : UInt64) :
    total (m.insert k v) = total m + v.toNat := by
  have hinsert := tally_insert UInt64.toNat m k v
  rwa [h, add_zero] at hinsert

theorem total_erase_of_some {v : UInt64} (h : m[k]? = some v) :
    total (m.erase k) + v.toNat = total m := by
  have herase := tally_erase UInt64.toNat m k
  rw [h] at herase
  exact herase

end Maps

section Lookups

theorem candidate_eq {a : Address} {x : Account} (h : w.account a = .ok x) (q : Address) :
    candidate w a q = x.candidates[q]? := by
  simp [candidate, h]

theorem voter_eq {q : Address} {p : Producer} (h : w.producer q = .ok p) (a : Address) :
    voter w q a = p.voters[a]? := by
  simp [voter, h]

theorem producerVotes_eq {q : Address} {p : Producer} (h : w.producer q = .ok p) :
    producerVotes w q = p.votes.toNat := by
  simp [producerVotes, h]

theorem candidate_putAccount {x : Account} (a q : Address) :
    candidate (w.putAccount x) a q =
      if a = x.address then x.candidates[q]? else candidate w a q := by
  unfold candidate
  rw [View.putAccount_account]
  by_cases ha : a = x.address <;> simp [ha]

theorem voter_putProducer {p : Producer} (q a : Address) :
    voter (w.putProducer p) q a = if q = p.address then p.voters[a]? else voter w q a := by
  unfold voter
  rw [View.putProducer_producer]
  by_cases hq : q = p.address <;> simp [hq]

theorem voter_putAccount (x : Account) (q a : Address) :
    voter (w.putAccount x) q a = voter w q a := rfl

theorem candidate_putProducer (p : Producer) (a q : Address) :
    candidate (w.putProducer p) a q = candidate w a q := rfl

end Lookups

section Unchanged

theorem Consistent.putAccount (h : Consistent initial w) {a : Address} {x y : Account}
    (hx : w.account a = .ok x) (hy : AccountSound a y) (hvotes : y.votes = x.votes)
    (hcandidates : y.candidates = x.candidates) : Consistent initial (w.putAccount y) where
  accounts c z hz := by
    rw [View.putAccount_account] at hz
    split at hz
    · obtain rfl := Except.ok.inj hz
      rw [erase_votes, erase_candidates, hvotes, hcandidates]
      exact h.accounts a x hx
    · exact h.accounts c z hz
  producers := h.producers
  agree c q := by
    rw [candidate_putAccount, voter_putAccount, ← h.agree]
    split
    · next hc =>
      rw [hc, hy.1, candidate_eq hx, hcandidates]
    · rfl
  emptyAccount_votes c z hz hempty := by
    rw [View.putAccount_account] at hz
    split at hz
    · obtain rfl := Except.ok.inj hz
      rw [erase_isEmpty, isEmpty_of_alive hy.2] at hempty
      contradiction
    · exact h.emptyAccount_votes c z hz hempty
  emptyProducer_votes := h.emptyProducer_votes

theorem Consistent.setBalance (h : Consistent initial w) {a : Address} {x : Account}
    (hx : HasAccount w a x) (v : UInt64) :
    Consistent initial (w.putAccount { x with balance := v }) :=
  h.putAccount hx.account_eq hx.sound rfl rfl

theorem Consistent.recipient (h : Consistent initial w) {a : Address} {x y : Account}
    (hy : Recipient w a x y) (v : UInt64) :
    Consistent initial (w.putAccount { y with balance := v }) := by
  rcases hy.keeps with rfl | ⟨hempty, timestamp, rfl⟩
  · exact h.putAccount hy.account_eq hy.sound rfl rfl
  · obtain ⟨hvotes, hcandidates⟩ := h.emptyAccount_votes a x hy.account_eq hempty
    exact h.putAccount hy.account_eq hy.sound hvotes.symm hcandidates.symm

theorem Consistent.newProducer (h : Consistent initial w) {q : Address} {p : Producer}
    (hp : w.producer q = .ok p) (hempty : p.isEmpty = true) (timestamp : Int64) :
    Consistent initial (w.putProducer (Producer.new q timestamp)) where
  accounts := h.accounts
  producers c r hr := by
    rw [View.putProducer_producer] at hr
    split at hr
    · next hc =>
      obtain rfl := Except.ok.inj hr
      obtain ⟨hvotes, hvoters⟩ := h.emptyProducer_votes q p hp hempty
      have hinitial := h.producers q p hp
      rw [hvotes, hvoters] at hinitial
      rw [show c = q from hc]
      exact hinitial
    · exact h.producers c r hr
  agree a c := by
    rw [candidate_putProducer, voter_putProducer, h.agree]
    split
    · next hc =>
      rw [show c = q from hc, voter_eq hp, (h.emptyProducer_votes q p hp hempty).2]
      rfl
    · rfl
  emptyAccount_votes := h.emptyAccount_votes
  emptyProducer_votes c r hr hre := by
    rw [View.putProducer_producer] at hr
    split at hr
    · obtain rfl := Except.ok.inj hr
      exact ⟨rfl, rfl⟩
    · exact h.emptyProducer_votes c r hr hre

end Unchanged

section Voting

theorem toNat_add_of_lt {x v : UInt64} (h : x.toNat + v.toNat < 2 ^ 64) :
    (x + v).toNat = x.toNat + v.toNat := by
  rw [UInt64.toNat_add, Nat.mod_eq_of_lt h]

theorem eraseVoter_of_some {p : Producer} {a : Address} {v : UInt64} (h : p.voters[a]? = some v) :
    p.eraseVoter a = { p with votes := p.votes - v, voters := p.voters.erase a } := by
  rw [Producer.eraseVoter, h]

theorem mem_candidates {x : Account} {q : Address} :
    q ∈ x.candidates.toList.map Prod.fst ↔ ∃ v, x.candidates[q]? = some v := by
  rw [List.mem_map]
  constructor
  · rintro ⟨⟨k, v⟩, hmem, rfl⟩
    exact ⟨v, ExtTreeMap.mem_toList_iff_getElem?_eq_some.mp hmem⟩
  · rintro ⟨v, hv⟩
    exact ⟨(q, v), ExtTreeMap.mem_toList_iff_getElem?_eq_some.mpr hv, rfl⟩

/-- The view once the votes of `x`, the account at `a`, have been cleared. -/
def cleared (w : View) (a : Address) (x : Account) : View :=
  (eraseVotes w a (x.candidates.toList.map Prod.fst)).putAccount x.clearVote

variable {a q : Address} {x : Account} {p : Producer}

/-- A producer after its voter has been cleared: what the voter gave it is taken back. -/
theorem cleared_producer (h : Consistent initial w) (hx : HasAccount w a x)
    (hp : w.producer q = .ok p) :
    ∃ p', (cleared w a x).producer q = .ok p' ∧ p'.isEmpty = p.isEmpty ∧
      p'.votes.toNat + (candidate w a q).elim 0 UInt64.toNat = p.votes.toNat ∧
      total p'.voters + (candidate w a q).elim 0 UInt64.toNat = total p.voters ∧
      ∀ c, p'.voters[c]? = if c = a then none else p.voters[c]? := by
  have hagree := h.agree a q
  rw [candidate_eq hx.account_eq, voter_eq hp] at hagree
  rw [candidate_eq hx.account_eq]
  have hview : (cleared w a x).producer q =
      if q ∈ x.candidates.toList.map Prod.fst then .ok (p.eraseVoter a) else .ok p := by
    rw [cleared, View.putAccount_producer, eraseVotes_producer, hp]
    rfl
  cases hv : x.candidates[q]? with
  | none =>
    have hnot : q ∉ x.candidates.toList.map Prod.fst := by
      rw [mem_candidates, hv]
      simp
    rw [hview, if_neg hnot]
    refine ⟨p, rfl, rfl, rfl, rfl, fun c ↦ ?_⟩
    split
    · next hc => rw [hc, ← hagree, hv]
    · rfl
  | some v =>
    have hmem : q ∈ x.candidates.toList.map Prod.fst := mem_candidates.mpr ⟨v, hv⟩
    rw [hv] at hagree
    rw [hview, if_pos hmem, eraseVoter_of_some hagree.symm]
    have htotal := total_erase_of_some hagree.symm
    have hvotes := h.producers q p hp
    have hle : v ≤ p.votes := by
      rw [UInt64.le_iff_toNat_le]
      omega
    refine ⟨_, rfl, rfl, ?_, htotal, fun c ↦ ?_⟩
    · rw [Option.elim_some, UInt64.toNat_sub_of_le _ _ hle]
      exact Nat.sub_add_cancel (UInt64.le_iff_toNat_le.mp hle)
    · simp only [getElem?_erase, eq_comm]

theorem cleared_account (hx : HasAccount w a x) (c : Address) :
    (cleared w a x).account c = if c = a then .ok (erase x.clearVote) else w.account c := by
  rw [cleared, View.putAccount_account, show x.clearVote.address = a from hx.sound.1]
  rfl

theorem cleared_candidate (hx : HasAccount w a x) (c q : Address) :
    candidate (cleared w a x) c q = if c = a then none else candidate w c q := by
  unfold candidate
  rw [cleared_account hx]
  by_cases hc : c = a <;> simp [hc, Account.clearVote]

theorem Consistent.clear (h : Consistent initial w) (hx : HasAccount w a x)
    (hall : ∀ i ∈ x.candidates.toList, ∃ p, HasProducer w i.1 p) :
    Consistent initial (cleared w a x) := by
  have hback {q p'} (hp' : (cleared w a x).producer q = .ok p') : ∃ p, w.producer q = .ok p := by
    rw [cleared, View.putAccount_producer, eraseVotes_producer] at hp'
    split at hp'
    · next hmem =>
      obtain ⟨i, hi, rfl⟩ := List.mem_map.mp hmem
      obtain ⟨p, hp⟩ := hall i hi
      exact ⟨p, hp.producer_eq⟩
    · exact ⟨p', hp'⟩
  constructor
  · constructor
    · intro c y hy
      rw [cleared_account hx] at hy
      split at hy
      · obtain rfl := Except.ok.inj hy
        exact total_empty.symm
      · exact h.accounts c y hy
    · intro q p' hp'
      obtain ⟨p, hp⟩ := hback hp'
      obtain ⟨p₁, hp₁, -, hvotes, htotal, -⟩ := cleared_producer h hx hp
      obtain rfl := Except.ok.inj (hp'.symm.trans hp₁)
      have hold := h.producers q p hp
      omega
    · intro c q
      rw [cleared_candidate hx, h.agree]
      cases hp : w.producer q with
      | error e =>
        have hview : (cleared w a x).producer q = .error e := by
          rw [cleared, View.putAccount_producer, eraseVotes_producer, hp]
          split <;> rfl
        simp [voter, hp, hview]
      | ok p =>
        obtain ⟨p₁, hp₁, -, -, -, hvoters⟩ := cleared_producer h hx hp
        rw [voter_eq hp, voter_eq hp₁, hvoters]
  · intro c y hy hempty
    rw [cleared_account hx] at hy
    split at hy
    · obtain rfl := Except.ok.inj hy
      rw [erase_isEmpty, isEmpty_of_alive (by exact hx.sound.2)] at hempty
      contradiction
    · exact h.emptyAccount_votes c y hy hempty
  · intro q p' hp' hempty
    obtain ⟨p, hp⟩ := hback hp'
    obtain ⟨p₁, hp₁, hsame, hvotes, htotal, hvoters⟩ := cleared_producer h hx hp
    obtain rfl := Except.ok.inj (hp'.symm.trans hp₁)
    obtain ⟨hzero, hnone⟩ := h.emptyProducer_votes q p hp (hsame ▸ hempty)
    rw [hzero, UInt64.toNat_zero] at hvotes
    have hvotes' : p'.votes.toNat = 0 := by omega
    refine ⟨UInt64.toNat_inj.mp hvotes', ExtTreeMap.ext_getElem? fun c ↦ ?_⟩
    rw [hvoters, hnone]
    simp

def voted (w : View) (x : Account) (p : Producer) (a q : Address) (v : UInt64) : View :=
  (w.putAccount (x.addVoter q v)).putProducer (p.addVoter a v)

theorem voted_account (hx : HasAccount w a x) (v : UInt64) (c : Address) :
    (voted w x p a q v).account c =
      if c = a then .ok (erase (x.addVoter q v)) else w.account c := by
  rw [voted, View.putProducer_account, View.putAccount_account,
    show (x.addVoter q v).address = a from hx.sound.1]

theorem voted_producer (hp : HasProducer w q p) (v : UInt64) (c : Address) :
    (voted w x p a q v).producer c = if c = q then .ok (p.addVoter a v) else w.producer c := by
  rw [voted, View.putProducer_producer, View.putAccount_producer,
    show (p.addVoter a v).address = q from hp.sound]

theorem voted_candidate (hx : HasAccount w a x) (v : UInt64) (c r : Address) :
    candidate (voted w x p a q v) c r =
      if c = a ∧ r = q then some v else candidate w c r := by
  unfold candidate
  rw [voted_account hx]
  by_cases hc : c = a
  · subst hc
    simp only [if_true, hx.account_eq, Account.addVoter, erase_candidates, getElem?_insert,
      true_and, eq_comm]
  · simp [hc]

theorem voted_voter (hp : HasProducer w q p) (v : UInt64) (r c : Address) :
    voter (voted w x p a q v) r c = if c = a ∧ r = q then some v else voter w r c := by
  unfold voter
  rw [voted_producer hp]
  by_cases hr : r = q
  · subst hr
    simp only [if_true, hp.producer_eq, Producer.addVoter, getElem?_insert, and_true, eq_comm]
  · simp [hr]

theorem Consistent.vote (h : Consistent initial w) (hx : HasAccount w a x)
    (hp : HasProducer w q p) (hzero : (candidate w a q).elim 0 UInt64.toNat = 0) {v : UInt64}
    (hvotes : x.votes.toNat + v.toNat < 2 ^ 64)
    (hproducer : producerVotes w q + v.toNat < 2 ^ 64) :
    Consistent initial (voted w x p a q v) := by
  have hvoter := hzero
  rw [h.agree, voter_eq hp.producer_eq] at hvoter
  rw [candidate_eq hx.account_eq] at hzero
  rw [producerVotes_eq hp.producer_eq] at hproducer
  constructor
  · constructor
    · intro c y hy
      rw [voted_account hx] at hy
      split at hy
      · obtain rfl := Except.ok.inj hy
        rw [erase_votes, erase_candidates, Account.addVoter, toNat_add_of_lt hvotes,
          total_insert hzero, h.accounts a x hx.account_eq]
      · exact h.accounts c y hy
    · intro c r hr
      rw [voted_producer hp] at hr
      split at hr
      · next hc =>
        obtain rfl := Except.ok.inj hr
        rw [Producer.addVoter, toNat_add_of_lt hproducer, total_insert hvoter,
          h.producers q p hp.producer_eq, hc, add_assoc]
      · exact h.producers c r hr
    · intro c r
      rw [voted_candidate hx, voted_voter hp, h.agree]
  · intro c y hy hempty
    rw [voted_account hx] at hy
    split at hy
    · obtain rfl := Except.ok.inj hy
      rw [erase_isEmpty, isEmpty_of_alive (by exact hx.sound.2)] at hempty
      contradiction
    · exact h.emptyAccount_votes c y hy hempty
  · intro c r hr hempty
    rw [voted_producer hp] at hr
    split at hr
    · obtain rfl := Except.ok.inj hr
      have hsame : p.isEmpty = true := hempty
      rw [hp.nonempty] at hsame
      contradiction
    · exact h.emptyProducer_votes c r hr hempty

end Voting

section Runs

/-- Of several entries of the ballot for one candidate only the last is not zero, and no counter
the ballot adds to passes the range of `uint64_t`: neither that of the voter nor, once its former
vote is taken back, that of a candidate. -/
structure FairBallot (w : View) (sender : Address) (ballot : Ballot) : Prop where
  distinct : ballot.Pairwise fun i j ↦ i.address = j.address → i.value = 0
  sum_lt : (ballot.map fun i ↦ i.value.toNat).sum < 2 ^ 64
  votes_lt : ∀ i ∈ ballot, producerVotes w i.address -
    (candidate w sender i.address).elim 0 UInt64.toNat + i.value.toNat < 2 ^ 64

structure Counting (initial : Address → ℕ) (sender : Address) (rest : Ballot) (w : View) :
    Prop where
  consistent : Consistent initial w
  distinct : rest.Pairwise fun i j ↦ i.address = j.address → i.value = 0
  fresh : ∀ i ∈ rest, (candidate w sender i.address).elim 0 UInt64.toNat = 0
  sum_lt : ∀ x, w.account sender = .ok x →
    x.votes.toNat + (rest.map fun i ↦ i.value.toNat).sum < 2 ^ 64
  votes_lt : ∀ i ∈ rest, producerVotes w i.address + i.value.toNat < 2 ^ 64

theorem Counting.step {sender : Address} {i : Candidate} {rest : Ballot}
    (h : Counting initial sender (i :: rest) w) {x : Account} {p : Producer}
    (hx : HasAccount w sender x) (hp : HasProducer w i.address p) :
    Counting initial sender rest (voted w x p sender i.address i.value) := by
  have hsum := h.sum_lt x hx.account_eq
  rw [List.map_cons, List.sum_cons] at hsum
  obtain ⟨hlast, hdistinct⟩ := List.pairwise_cons.mp h.distinct
  have hlt : x.votes.toNat + i.value.toNat < 2 ^ 64 := by omega
  refine ⟨?_, hdistinct, fun j hj ↦ ?_, fun y hy ↦ ?_, fun j hj ↦ ?_⟩
  · exact h.consistent.vote hx hp (h.fresh i (by simp)) hlt (h.votes_lt i (by simp))
  · rw [voted_candidate hx]
    split_ifs with hsame
    · rw [hlast j hj hsame.2.symm]
      rfl
    · exact h.fresh j (by simp [hj])
  · rw [voted_account hx, if_pos rfl] at hy
    obtain rfl := Except.ok.inj hy
    rw [erase_votes, Account.addVoter, toNat_add_of_lt hlt]
    omega
  · have hvotes := h.votes_lt j (by simp [hj])
    unfold producerVotes at hvotes ⊢
    rw [voted_producer hp]
    split_ifs with hsame
    · rw [hsame, hp.producer_eq] at hvotes
      simpa [Producer.addVoter, hlast j hj hsame.symm] using hvotes
    · exact hvotes

theorem cleared_producerVotes (h : Consistent initial w) {a : Address} {x : Account}
    (hx : HasAccount w a x) (q : Address) :
    producerVotes (cleared w a x) q ≤
      producerVotes w q - (candidate w a q).elim 0 UInt64.toNat := by
  cases hp : w.producer q with
  | error e =>
    have hview : (cleared w a x).producer q = .error e := by
      rw [cleared, View.putAccount_producer, eraseVotes_producer, hp]
      split <;> rfl
    simp [producerVotes, hview]
  | ok p =>
    obtain ⟨p', hp', -, hvotes, -⟩ := cleared_producer h hx hp
    rw [producerVotes_eq hp, producerVotes_eq hp']
    omega

theorem Counting.start (h : Consistent initial w) {a : Address} {x y : Account}
    (hx : HasAccount w a x) (hall : ∀ i ∈ x.candidates.toList, ∃ p, HasProducer w i.1 p)
    (hy : HasAccount (cleared w a x) a y) (v : UInt64) {ballot : Ballot}
    (hballot : FairBallot w a ballot) :
    Counting initial a ballot ((cleared w a x).putAccount { y with balance := v }) := by
  have hyx := hy.account_eq
  rw [cleared_account hx, if_pos rfl] at hyx
  obtain rfl := Except.ok.inj hyx
  refine ⟨(h.clear hx hall).setBalance hy v, hballot.distinct, fun i _ ↦ ?_, fun z hz ↦ ?_,
    fun i hi ↦ ?_⟩
  · rw [candidate_putAccount, if_pos hy.sound.1.symm]
    simp [Account.clearVote]
  · rw [View.putAccount_account, if_pos hy.sound.1.symm] at hz
    obtain rfl := Except.ok.inj hz
    simpa [Account.clearVote] using hballot.sum_lt
  · have hle := cleared_producerVotes h hx i.address
    have hlt := hballot.votes_lt i hi
    change producerVotes (cleared w a x) i.address + i.value.toNat < 2 ^ 64
    omega

theorem vote_consistent (h : Shows db (b :: blocks) w stack) (hw : Consistent initial w)
    {tx : Transaction}
    (hballot : ∀ ballot, Ballot.ofRLP tx.data = .ok ballot → FairBallot w tx.sender ballot)
    (hrun : Runtime.vote db tx stack = (.ok (), stack')) :
    ∃ w', Shows db (b :: blocks) w' stack' ∧ Consistent initial w' := by
  obtain ⟨⟨⟩, t, hclear, hrun⟩ := Eff.bind_eq_ok.mp hrun
  obtain ⟨⟨⟩, u, hburn, hrun⟩ := Eff.bind_eq_ok.mp hrun
  obtain ⟨ballot, u', hdata, hrun⟩ := Eff.bind_eq_ok.mp hrun
  obtain ⟨hparse, rfl⟩ := Prod.mk.inj hdata
  obtain ⟨x, hx, hall, ht⟩ := clearVote_ok h hclear
  obtain ⟨y, hy, -, hu⟩ := burn_ok ht hburn
  have hstart := Counting.start hw hx hall hy (y.balance - transactionFee) (hballot ballot hparse)
  obtain ⟨w', hshows, hcounting⟩ := Eff.forEach_invariant
    (I := fun rest st ↦ ∃ w', Shows db (b :: blocks) w' st ∧
      Counting initial tx.sender rest w')
    (fun i rest s t ⟨v, hv, hcounting⟩ hvote ↦ by
      obtain ⟨x, p, hx, hp, -, hshows⟩ := voteIncrease_ok hv hvote
      exact ⟨_, hshows, hcounting.step hx hp⟩)
    hrun ⟨_, hu, hstart⟩
  exact ⟨w', hshows, hcounting.consistent⟩

theorem transferAction_consistent (h : Shows db (b :: blocks) w stack)
    (hw : Consistent initial w) {tx : Transaction}
    (hrun : Runtime.transfer db tx stack = (.ok (), stack')) :
    ∃ w', Shows db (b :: blocks) w' stack' ∧ Consistent initial w' := by
  obtain ⟨⟨⟩, t, hburn, hrun⟩ := Eff.bind_eq_ok.mp hrun
  obtain ⟨x, hx, -, ht⟩ := burn_ok h hburn
  obtain ⟨y, z, z', hy, hz, -, -, hshows⟩ := transfer_ok ht hrun
  have hsource := (hw.setBalance hx (x.balance - transactionFee)).setBalance hy
    (y.balance - tx.value)
  refine ⟨_, hshows, ?_⟩
  by_cases hself : tx.recipient = tx.sender
  · rw [View.putAccount_putAccount]
    · exact (hw.setBalance hx (x.balance - transactionFee)).recipient hz _
    · exact (hy.sound.1.trans hself.symm).trans hz.sound.1.symm
  · refine Consistent.recipient hsource ⟨?_, hz.sound, hz.keeps⟩ _
    rw [View.putAccount_account, if_neg, hz.account_eq]
    rw [show ({ y with balance := y.balance - tx.value } : Account).address = tx.sender from
      hy.sound.1]
    exact hself

theorem beenProducer_consistent (h : Shows db (b :: blocks) w stack) (hw : Consistent initial w)
    {tx : Transaction} {timestamp : Int64}
    (hrun : Runtime.beenProducer db timestamp tx stack = (.ok (), stack')) :
    ∃ w', Shows db (b :: blocks) w' stack' ∧ Consistent initial w' := by
  obtain ⟨x, p, hx, -, hp, hrun⟩ := beenProducer_ok h hrun
  split at hrun
  · next hempty =>
    obtain ⟨-, hshows⟩ := hrun
    exact ⟨_, hshows, (hw.setBalance hx _).newProducer hp hempty timestamp⟩
  · exact ⟨_, hrun, hw.setBalance hx _⟩

def FairVote (w : View) (tx : Transaction) : Prop :=
  tx.type = Transaction.voteType →
    ∀ ballot, Ballot.ofRLP tx.data = .ok ballot → FairBallot w tx.sender ballot

theorem excute_consistent (h : Shows db (b :: blocks) w stack) (hw : Consistent initial w)
    {sha3 : Bytes → H256} {tx : Transaction} {timestamp : Int64} (hfair : FairVote w tx)
    (hrun : Runtime.excute sha3 db timestamp tx stack = (.ok (), stack')) :
    ∃ w', Shows db (b :: blocks) w' stack' ∧ Consistent initial w' := by
  obtain ⟨⟨⟩, t, hexecute, hput⟩ := Eff.bind_eq_ok.mp hrun
  suffices hsuff : ∃ w', Shows db (b :: blocks) w' t ∧ Consistent initial w' by
    obtain ⟨w', hshows, hconsistent⟩ := hsuff
    exact ⟨w', Repository.putTransaction_spec hshows hput, hconsistent⟩
  unfold Runtime.execute at hexecute
  split at hexecute
  · next htype => exact vote_consistent h hw (hfair htype) hexecute
  · split at hexecute
    · exact transferAction_consistent h hw hexecute
    · split at hexecute
      · exact beenProducer_consistent h hw hexecute
      · obtain ⟨-, rfl⟩ := Prod.mk.inj hexecute
        exact ⟨w, h, hw⟩

def FairStep (sha3 : Bytes → H256) (db : DatabaseController) (st st' : List Repository) : Prop :=
  ∃ timestamp tx, Handled tx ∧ FairVote (Repository.viewOf db st) tx ∧
    Runtime.excute sha3 db timestamp tx st = (.ok (), st')

structure Genesis (db : DatabaseController) (st : List Repository) : Prop where
  sound : Repository.Sound db st
  ne_nil : st ≠ []
  accounts : ∀ a x, (Repository.viewOf db st).account a = .ok x →
    x.votes = 0 ∧ x.candidates = ∅
  producers : ∀ q p, (Repository.viewOf db st).producer q = .ok p →
    p.voters = ∅ ∧ (p.isEmpty = true → p.votes = 0)

theorem Genesis.consistent {st : List Repository} (h : Genesis db st) :
    Consistent (producerVotes (Repository.viewOf db st)) (Repository.viewOf db st) := by
  constructor
  · constructor
    · intro a x hx
      obtain ⟨hvotes, hcandidates⟩ := h.accounts a x hx
      rw [hvotes, hcandidates]
      exact total_empty.symm
    · intro q p hp
      rw [producerVotes_eq hp, (h.producers q p hp).1, total_empty, add_zero]
    · intro a q
      unfold candidate voter
      cases hx : (Repository.viewOf db st).account a with
      | error e =>
        cases hp : (Repository.viewOf db st).producer q with
        | error e => rfl
        | ok p => simp [(h.producers q p hp).1]
      | ok x =>
        cases hp : (Repository.viewOf db st).producer q with
        | error e => simp [(h.accounts a x hx).2]
        | ok p => simp [(h.accounts a x hx).2, (h.producers q p hp).1]
  · exact fun a x hx _ ↦ h.accounts a x hx
  · exact fun q p hp hempty ↦ ⟨(h.producers q p hp).2 hempty, (h.producers q p hp).1⟩

theorem fairSteps_consistent {sha3 : Bytes → H256} {st st' : List Repository}
    (h : Genesis db st) (hrun : Relation.ReflTransGen (FairStep sha3 db) st st') :
    ∃ b blocks w', Shows db (b :: blocks) w' st' ∧
      Consistent (producerVotes (Repository.viewOf db st)) w' := by
  induction hrun with
  | refl =>
    obtain ⟨top, rest, rfl⟩ := List.exists_cons_of_ne_nil h.ne_nil
    exact ⟨top.block, rest.map Repository.block, _, ⟨h.sound, rfl, rfl⟩, h.consistent⟩
  | tail _ hstep ih =>
    obtain ⟨b, blocks, w, hshows, hw⟩ := ih
    obtain ⟨timestamp, tx, -, hfair, hexcute⟩ := hstep
    rw [hshows.view_eq] at hfair
    obtain ⟨w', hshows', hw'⟩ := excute_consistent hshows hw hfair hexcute
    exact ⟨b, blocks, w', hshows', hw'⟩

/-- From a genesis state, the vote ledger holds in every state that transactions with fair
ballots reach. -/
theorem voteLedger_of_fairSteps (sha3 : Bytes → H256) (db : DatabaseController)
    (st st' : List Repository) (h : Genesis db st)
    (hrun : Relation.ReflTransGen (FairStep sha3 db) st st') :
    VoteLedger (producerVotes (Repository.viewOf db st)) (Repository.viewOf db st') := by
  obtain ⟨b, blocks, w', hshows, hw⟩ := fairSteps_consistent h hrun
  rw [hshows.view_eq]
  exact hw.toVoteLedger

end Runs

section Ballots

def pollStore : DatabaseController where
  accountStore := ExtTreeMap.insert ∅ 1 (.ok (Account.new 1 10000000 0))
  producerStore := ExtTreeMap.insert ∅ 2 (.ok { address := 2, timestamp := 1, votes := 5 })

def pollStack : List Repository := [{ block := {} }]

def ballotData (ballot : Ballot) : Bytes :=
  encodeList (ballot.map fun i ↦
    encodeList [encodeHash 20 i.address, encodeInt i.value.toNat])

def pollVote (ballot : Ballot) : Transaction where
  chainID := 0
  type := Transaction.voteType
  sender := 1
  recipient := 0
  timestamp := 0
  data := ballotData ballot
  value := 0

theorem pollView_account (a : Address) :
    (Repository.viewOf pollStore pollStack).account a =
      .ok (if a = 1 then Account.new 1 10000000 0 else emptyAccount) := by
  have hget : pollStore.getAccount a = _ := getAccount_single rfl a
  simp only [Repository.viewOf, Repository.accountView, pollStack, List.map_cons, List.map_nil,
    ReadThrough.Table.view_cons, ExtTreeMap.getElem?_empty, List.isEmpty_nil, if_true,
    ReadThrough.Table.stored, hget]
  by_cases ha : a = 1
  · simp only [ha, if_true]
    rfl
  · simp only [ha, if_false]
    rfl

theorem pollView_producer (q : Address) :
    (Repository.viewOf pollStore pollStack).producer q =
      .ok (if q = 2 then { address := 2, timestamp := 1, votes := 5 } else emptyProducer) := by
  have hget : pollStore.getProducer q = _ := getProducer_single rfl q
  simp only [Repository.viewOf, Repository.producerView, pollStack, List.map_cons, List.map_nil,
    ReadThrough.Table.view_cons, ExtTreeMap.getElem?_empty, List.isEmpty_nil, if_true,
    ReadThrough.Table.stored, hget]
  by_cases hq : q = 2
  · simp only [hq, if_true]
    rfl
  · simp only [hq, if_false]
    rfl

theorem genesis_poll : Genesis pollStore pollStack := by
  refine ⟨⟨soundStore_single rfl rfl rfl, ?_, ?_, ?_⟩, by simp [pollStack], ?_, ?_⟩
  · intro q p hp hne
    rw [getProducer_single rfl, Except.ok.injEq] at hp
    split at hp
    · next hq => exact hp ▸ hq.symm
    · subst hp
      contradiction
  · intro m hm
    rw [List.mem_singleton.mp hm]
    exact ReadThrough.Table.sound_empty
  · intro m hm
    rw [List.mem_singleton.mp hm]
    exact ReadThrough.Table.sound_empty
  · intro a x hx
    rw [pollView_account, Except.ok.injEq] at hx
    split at hx <;> subst hx <;> exact ⟨rfl, rfl⟩
  · intro q p hp
    rw [pollView_producer, Except.ok.injEq] at hp
    split at hp <;> subst hp
    · exact ⟨rfl, by decide⟩
    · exact ⟨rfl, fun _ ↦ rfl⟩

def pollResult (ballot : Ballot) : List Repository :=
  (Runtime.excute (fun _ ↦ 0) pollStore 0 (pollVote ballot) pollStack).2

theorem fairBallot_poll :
    FairBallot (Repository.viewOf pollStore pollStack) 1 [{ address := 2, value := 3 }] := by
  refine ⟨by decide, by decide, fun i hi ↦ ?_⟩
  rw [List.mem_singleton.mp hi, producerVotes_eq (pollView_producer 2),
    candidate_eq (pollView_account 1)]
  decide

theorem voteLedger_of_fairSteps_poll :
    VoteLedger (producerVotes (Repository.viewOf pollStore pollStack))
      (Repository.viewOf pollStore (pollResult [{ address := 2, value := 3 }])) := by
  refine voteLedger_of_fairSteps (fun _ ↦ 0) pollStore pollStack _ genesis_poll
    (.single ⟨0, pollVote [{ address := 2, value := 3 }], Or.inl rfl, fun _ ballot hballot ↦ ?_,
      Eff.eq_ok_of_isOk (by decide +kernel)⟩)
  have hparse : Ballot.ofRLP (ballotData [{ address := 2, value := 3 }]) =
      .ok [{ address := 2, value := 3 }] := by decide +kernel
  obtain rfl := Except.ok.inj (hparse.symm.trans hballot)
  exact fairBallot_poll

/-- A ballot that names one candidate twice: the account counts both votes and keeps one. -/
theorem voteLedger_fails_duplicate :
    Genesis pollStore pollStack ∧
      (Runtime.excute (fun _ ↦ 0) pollStore 0
        (pollVote [{ address := 2, value := 1 }, { address := 2, value := 1 }])
        pollStack).1.isOk = true ∧
      ¬ VoteLedger (producerVotes (Repository.viewOf pollStore pollStack))
        (Repository.viewOf pollStore
          (pollResult [{ address := 2, value := 1 }, { address := 2, value := 1 }])) := by
  refine ⟨genesis_poll, by decide +kernel, fun h ↦ ?_⟩
  have hbad : (match (Repository.viewOf pollStore
      (pollResult [{ address := 2, value := 1 }, { address := 2, value := 1 }])).account 1 with
      | .ok x => decide (x.votes.toNat = total x.candidates)
      | .error _ => true) = false := by decide +kernel
  cases hx : (Repository.viewOf pollStore
      (pollResult [{ address := 2, value := 1 }, { address := 2, value := 1 }])).account 1 with
  | error e =>
    rw [hx] at hbad
    contradiction
  | ok x =>
    rw [hx] at hbad
    exact of_decide_eq_false hbad (h.accounts 1 x hx)

end Ballots

end GseNetwork.Ledger
