import GseNetwork.Runtime.Action
import GseNetwork.Storage.Views

namespace GseNetwork.Ledger

open GseNetwork.Core GseNetwork.Foundation GseNetwork.Storage
open Repository (Shows)

variable {db : DatabaseController} {b : Block} {blocks : List Block} {w : View}
  {stack stack' : List Repository}

structure HasAccount (w : View) (a : Address) (x : Account) : Prop where
  account_eq : w.account a = .ok x
  sound : AccountSound a x

structure HasProducer (w : View) (a : Address) (p : Producer) : Prop where
  producer_eq : w.producer a = .ok p
  nonempty : p.isEmpty = false
  sound : ProducerSound a p

section Repositories

theorem getAccount_ok (h : Shows db blocks w stack) {a : Address} {x : Account}
    (hget : Repository.getAccount db a stack = (.ok x, stack')) :
    Shows db blocks w stack' ∧ w.account a = .ok (erase x) ∧
      (x.isEmpty = false → HasAccount w a (erase x)) := by
  obtain ⟨hshows, hview, hsound⟩ := Repository.getAccount_spec h hget
  exact ⟨hshows, hview.symm, fun hx ↦ ⟨hview.symm, hsound x rfl hx⟩⟩

theorem getProducer_ok (h : Shows db blocks w stack) {a : Address} {p : Producer}
    (hget : Repository.getProducer db a stack = (.ok p, stack')) :
    Shows db blocks w stack' ∧ w.producer a = .ok p ∧
      (p.isEmpty = false → HasProducer w a p) := by
  obtain ⟨hshows, hview, hsound⟩ := Repository.getProducer_spec h hget
  exact ⟨hshows, hview.symm, fun hp ↦ ⟨hview.symm, hp, hsound p rfl hp⟩⟩

theorem burn_ok (h : Shows db (b :: blocks) w stack) {a : Address} {v : UInt64}
    (hburn : Repository.burn db a v stack = (.ok (), stack')) :
    ∃ x, HasAccount w a x ∧ v ≤ x.balance ∧
      Shows db (b :: blocks) (w.putAccount { x with balance := x.balance - v }) stack' := by
  obtain ⟨x, t, hget, hrest⟩ := Eff.bind_eq_ok.mp hburn
  obtain ⟨hshows, -, hx⟩ := getAccount_ok h hget
  split at hrest
  · simp at hrest
  · next hempty =>
    split at hrest
    · simp at hrest
    · next hle =>
      have hhas := hx (by simpa using hempty)
      have hput := Repository.putAccount_spec hshows hrest hhas.sound.2
      exact ⟨erase x, hhas, UInt64.not_lt.mp hle, hput⟩

theorem bonus_ok (h : Shows db (b :: blocks) w stack) {a : Address} {v : UInt64}
    (hbonus : Repository.bonus db a v stack = (.ok (), stack')) :
    ∃ x, HasAccount w a x ∧
      Shows db (b :: blocks) (w.putAccount { x with balance := x.balance + v }) stack' := by
  obtain ⟨x, t, hget, hrest⟩ := Eff.bind_eq_ok.mp hbonus
  obtain ⟨hshows, -, hx⟩ := getAccount_ok h hget
  split at hrest
  · simp at hrest
  · next hempty =>
    have hhas := hx (by simpa using hempty)
    have hput := Repository.putAccount_spec hshows hrest hhas.sound.2
    exact ⟨erase x, hhas, hput⟩

structure Recipient (w : View) (a : Address) (x y : Account) : Prop where
  account_eq : w.account a = .ok x
  sound : AccountSound a y
  keeps : y = x ∨ x.isEmpty = true ∧ ∃ timestamp, y = Account.new a 0 timestamp

theorem moves_ok (h : Shows db (b :: blocks) w stack) {x z : Account} {v : UInt64}
    {e : Exception}
    (hmove : (if x.balance < v ∨ z.balance + v < v then Eff.throw e
      else do
        Repository.putAccount { x with balance := x.balance - v }
        Repository.putAccount { z with balance := z.balance + v }) stack = (.ok (), stack'))
    (hx : x.alive = true) (hz : z.alive = true) :
    v ≤ x.balance ∧ v ≤ z.balance + v ∧
      Shows db (b :: blocks)
        ((w.putAccount { x with balance := x.balance - v }).putAccount
          { z with balance := z.balance + v }) stack' := by
  split at hmove
  · simp at hmove
  · next hbalance =>
    obtain ⟨hle, hover⟩ := not_or.mp hbalance
    obtain ⟨⟨⟩, t, hsource, htarget⟩ := Eff.bind_eq_ok.mp hmove
    exact ⟨UInt64.not_lt.mp hle, UInt64.not_lt.mp hover,
      Repository.putAccount_spec (Repository.putAccount_spec h hsource hx) htarget hz⟩

theorem transfer_ok (h : Shows db (b :: blocks) w stack) {sender recipient : Address} {v : UInt64}
    (htransfer : Repository.transfer db sender recipient v stack = (.ok (), stack')) :
    ∃ x y z, HasAccount w sender x ∧ Recipient w recipient y z ∧ v ≤ x.balance ∧
      v ≤ z.balance + v ∧
      Shows db (b :: blocks)
        ((w.putAccount { x with balance := x.balance - v }).putAccount
          { z with balance := z.balance + v }) stack' := by
  obtain ⟨x, t, hx, hrest⟩ := Eff.bind_eq_ok.mp htransfer
  obtain ⟨y, u, hy, hrest⟩ := Eff.bind_eq_ok.mp hrest
  obtain ⟨ht, -, hhas⟩ := getAccount_ok h hx
  obtain ⟨hu, hview, htarget⟩ := getAccount_ok ht hy
  cases hempty : x.isEmpty with
  | true => simp [hempty] at hrest
  | false =>
    have hsource := hhas hempty
    simp only [hempty, Bool.false_eq_true, if_false] at hrest
    rw [Eff.bind_ok (Repository.blockTimestamp_spec hu)] at hrest
    cases hnew : y.isEmpty with
    | true =>
      simp only [hnew, if_true] at hrest
      obtain ⟨hle, hover, hshows⟩ := moves_ok hu hrest hsource.sound.2 rfl
      exact ⟨erase x, erase y, Account.new recipient 0 b.getTimestamp, hsource,
        ⟨hview, ⟨rfl, rfl⟩, Or.inr ⟨hnew, _, rfl⟩⟩, hle, hover, hshows⟩
    | false =>
      simp only [hnew, Bool.false_eq_true, if_false] at hrest
      have hkept := htarget hnew
      obtain ⟨hle, hover, hshows⟩ := moves_ok hu hrest hsource.sound.2 hkept.sound.2
      exact ⟨erase x, erase y, erase y, hsource, ⟨hview, hkept.sound, Or.inl rfl⟩, hle, hover,
        hshows⟩

theorem eraseVoter_eraseVoter (p : Producer) (voter : Address) :
    (p.eraseVoter voter).eraseVoter voter = p.eraseVoter voter := by
  unfold Producer.eraseVoter
  cases hv : p.voters[voter]? with
  | none => simp [hv]
  | some v => simp

@[simp] theorem eraseVoter_address (p : Producer) (voter : Address) :
    (p.eraseVoter voter).address = p.address := by
  unfold Producer.eraseVoter
  split <;> rfl

@[simp] theorem eraseVoter_isEmpty (p : Producer) (voter : Address) :
    (p.eraseVoter voter).isEmpty = p.isEmpty := by
  unfold Producer.eraseVoter
  split <;> rfl

/-- A new producer of an address other than zero is told from the empty one at any time. -/
theorem isEmpty_new {a : Address} (ha : a ≠ 0) (timestamp : Int64) :
    (Producer.new a timestamp).isEmpty = false := by
  have hne : (a == (0 : Address)) = false := beq_eq_false_iff_ne.mpr ha
  simp only [Producer.isEmpty, Producer.equal, Producer.new, emptyProducer, hne, Bool.false_and]

def eraseVotes (w : View) (voter : Address) (keys : List Address) : View :=
  { w with producer := fun q ↦
      if q ∈ keys then (w.producer q).map fun p ↦ p.eraseVoter voter else w.producer q }

theorem eraseVotes_producer (w : View) (voter : Address) (keys : List Address) (q : Address) :
    (eraseVotes w voter keys).producer q =
      if q ∈ keys then (w.producer q).map fun p ↦ p.eraseVoter voter else w.producer q := rfl

theorem eraseVotes_cons {voter a : Address} {p : Producer} (h : HasProducer w a p)
    (keys : List Address) :
    eraseVotes (w.putProducer (p.eraseVoter voter)) voter keys =
      eraseVotes w voter (a :: keys) := by
  have hsound : p.address = a := h.sound
  ext q
  · rfl
  · simp only [eraseVotes, View.putProducer_producer, eraseVoter_address, hsound,
      List.mem_cons]
    by_cases hq : q = a
    · subst hq
      simp [h.producer_eq, Except.map, eraseVoter_eraseVoter]
    · simp [hq]

theorem eraseLoop_ok {voter : Address} {candidates : List (Address × UInt64)}
    (h : Shows db (b :: blocks) w stack)
    (hloop : Eff.forEach candidates (fun i ↦ do
      let producer ← Repository.getProducer db i.1
      if producer.isEmpty then
        Eff.throw (repositoryException ("Producer (" ++ i.1.toHex ++ ") not exist"))
      else Repository.putProducer (producer.eraseVoter voter)) stack = (.ok (), stack')) :
    (∀ i ∈ candidates, ∃ p, HasProducer w i.1 p) ∧
      Shows db (b :: blocks) (eraseVotes w voter (candidates.map Prod.fst)) stack' := by
  induction candidates generalizing w stack with
  | nil =>
    obtain ⟨-, rfl⟩ := Prod.mk.inj hloop
    simpa [eraseVotes] using h
  | cons i candidates ih =>
    obtain ⟨t, hbody, hrest⟩ := Eff.forEach_cons_eq_ok.mp hloop
    obtain ⟨p, u, hget, hput⟩ := Eff.bind_eq_ok.mp hbody
    obtain ⟨hu, -, hhas⟩ := getProducer_ok h hget
    split at hput
    · simp at hput
    · next hempty =>
      have hp := hhas (by simpa using hempty)
      have hsound : p.address = i.1 := hp.sound
      obtain ⟨hall, hshows⟩ := ih (Repository.putProducer_spec hu hput) hrest
      rw [eraseVotes_cons hp] at hshows
      refine ⟨fun j hj ↦ ?_, hshows⟩
      by_cases hji : j.1 = i.1
      · exact ⟨p, hji ▸ hp⟩
      · rcases List.mem_cons.mp hj with rfl | hj
        · contradiction
        · obtain ⟨q, hq⟩ := hall j hj
          refine ⟨q, ?_, hq.nonempty, hq.sound⟩
          have hview := hq.producer_eq
          rwa [View.putProducer_producer, eraseVoter_address, hsound, if_neg hji] at hview

theorem clearVote_ok (h : Shows db (b :: blocks) w stack) {a : Address}
    (hclear : Repository.clearVote db a stack = (.ok (), stack')) :
    ∃ x, HasAccount w a x ∧ (∀ i ∈ x.candidates.toList, ∃ p, HasProducer w i.1 p) ∧
      Shows db (b :: blocks)
        ((eraseVotes w a (x.candidates.toList.map Prod.fst)).putAccount x.clearVote) stack' := by
  obtain ⟨x, t, hget, hrest⟩ := Eff.bind_eq_ok.mp hclear
  obtain ⟨ht, -, hx⟩ := getAccount_ok h hget
  split at hrest
  · simp at hrest
  · next hempty =>
    have hhas := hx (by simpa using hempty)
    obtain ⟨⟨⟩, u, hloop, hput⟩ := Eff.bind_eq_ok.mp hrest
    obtain ⟨hall, hu⟩ := eraseLoop_ok ht hloop
    have hshows := Repository.putAccount_spec hu hput hhas.sound.2
    exact ⟨erase x, hhas, hall, hshows⟩

theorem voteIncrease_ok (h : Shows db (b :: blocks) w stack) {voter candidate : Address}
    {v : UInt64}
    (hvote : Repository.voteIncrease db voter candidate v stack = (.ok (), stack')) :
    ∃ x p, HasAccount w voter x ∧ HasProducer w candidate p ∧
      v * 1000000 ≤ x.balance - x.votes * 1000000 ∧
      Shows db (b :: blocks)
        ((w.putAccount (x.addVoter candidate v)).putProducer (p.addVoter voter v)) stack' := by
  obtain ⟨x, t, hget, hrest⟩ := Eff.bind_eq_ok.mp hvote
  obtain ⟨ht, -, hx⟩ := getAccount_ok h hget
  split at hrest
  · simp at hrest
  · next hempty =>
    have hhas := hx (by simpa using hempty)
    obtain ⟨p, u, hget, hrest⟩ := Eff.bind_eq_ok.mp hrest
    obtain ⟨hu, -, hp⟩ := getProducer_ok ht hget
    split at hrest
    · simp at hrest
    · next hproducer =>
      split at hrest
      · simp at hrest
      · next hbalance =>
        obtain ⟨⟨⟩, t', hput, hrest⟩ := Eff.bind_eq_ok.mp hrest
        have hshows := Repository.putProducer_spec
          (Repository.putAccount_spec hu hput hhas.sound.2) hrest
        exact ⟨erase x, p, hhas, hp (by simpa using hproducer), UInt64.not_lt.mp hbalance, hshows⟩

end Repositories

theorem beenProducer_ok (h : Shows db (b :: blocks) w stack) {timestamp : Int64}
    {tx : Transaction} (hrun : Runtime.beenProducer db timestamp tx stack = (.ok (), stack')) :
    ∃ x p, HasAccount w tx.sender x ∧ transactionFee ≤ x.balance ∧
      w.producer tx.sender = .ok p ∧
      if p.isEmpty then
        producerCost ≤ x.balance - transactionFee ∧
          Shows db (b :: blocks)
            ((w.putAccount { x with balance := x.balance - transactionFee - producerCost
              }).putProducer (Producer.new tx.sender timestamp)) stack'
      else
        Shows db (b :: blocks) (w.putAccount { x with balance := x.balance - transactionFee })
          stack' := by
  obtain ⟨⟨⟩, t, hburn, hrest⟩ := Eff.bind_eq_ok.mp hrun
  obtain ⟨x, hx, hfee, ht⟩ := burn_ok h hburn
  obtain ⟨p, u, hget, hrest⟩ := Eff.bind_eq_ok.mp hrest
  obtain ⟨hu, hp, -⟩ := getProducer_ok ht hget
  refine ⟨x, p, hx, hfee, hp, ?_⟩
  split at hrest
  · next hempty =>
    rw [if_pos hempty]
    obtain ⟨⟨⟩, t', hcost, hput⟩ := Eff.bind_eq_ok.mp hrest
    obtain ⟨y, hy, hle, ht'⟩ := burn_ok hu hcost
    obtain ⟨haddress, -⟩ := hx.sound
    have hyx := hy.account_eq
    rw [View.putAccount_account, if_pos haddress.symm, Except.ok.injEq] at hyx
    subst hyx
    rw [View.putAccount_putAccount] at ht'
    · exact ⟨hle, Repository.putProducer_spec ht' hput⟩
    · rfl
  · next hempty =>
    rw [if_neg hempty]
    obtain ⟨-, rfl⟩ := Prod.mk.inj hrest
    exact hu

end GseNetwork.Ledger
