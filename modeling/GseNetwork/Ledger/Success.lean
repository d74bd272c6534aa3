import GseNetwork.Ledger.Balances

namespace GseNetwork.Ledger

open GseNetwork.Core GseNetwork.Foundation GseNetwork.Storage
open Repository (Shows)

variable {db : DatabaseController} {b : Block} {blocks : List Block} {w w' : View}
  {stack stack' : List Repository}

section Reads

theorem exists_getAccount (h : Shows db blocks w stack) {a : Address} {x : Account}
    (hx : w.account a = .ok x) : ∃ y stack', Repository.getAccount db a stack = (.ok y, stack') ∧
      erase y = x ∧ Shows db blocks w stack' := by
  rcases hget : Repository.getAccount db a stack with ⟨r, stack'⟩
  obtain ⟨hshows, hview, -⟩ := Repository.getAccount_spec h hget
  rw [hx] at hview
  cases r with
  | error e => cases hview
  | ok y => exact ⟨y, stack', rfl, Except.ok.inj hview, hshows⟩

theorem exists_getProducer (h : Shows db blocks w stack) {q : Address} {p : Producer}
    (hp : w.producer q = .ok p) : ∃ stack', Repository.getProducer db q stack = (.ok p, stack') ∧
      Shows db blocks w stack' := by
  rcases hget : Repository.getProducer db q stack with ⟨r, stack'⟩
  obtain ⟨hshows, hview, -⟩ := Repository.getProducer_spec h hget
  rw [hp] at hview
  exact ⟨stack', by rw [hview], hshows⟩

theorem hasProducer_of_nonempty (h : Shows db blocks w stack) {q : Address} {p : Producer}
    (hp : w.producer q = .ok p) (hne : p.isEmpty = false) : HasProducer w q p := by
  obtain ⟨stack', hget, -⟩ := exists_getProducer h hp
  exact (getProducer_ok h hget).2.2 hne

end Reads

section Operations

theorem burn_iff (h : Shows db (b :: blocks) w stack) {a : Address} {v : UInt64} :
    (∃ stack', Repository.burn db a v stack = (.ok (), stack')) ↔
      ∃ x, HasAccount w a x ∧ v ≤ x.balance := by
  constructor
  · rintro ⟨stack', hburn⟩
    obtain ⟨x, hx, hle, -⟩ := burn_ok h hburn
    exact ⟨x, hx, hle⟩
  · rintro ⟨x, hx, hle⟩
    obtain ⟨y, t, hget, rfl, -⟩ := exists_getAccount h hx.account_eq
    have hne : y.isEmpty = false := isEmpty_of_alive hx.sound.2
    rw [erase_balance] at hle
    unfold Repository.burn
    rw [Eff.bind_ok hget, hne, if_neg Bool.false_ne_true, if_neg (UInt64.not_lt.mpr hle)]
    exact ⟨_, rfl⟩

theorem transfer_iff (h : Shows db (b :: blocks) w stack) {sender recipient : Address}
    {v : UInt64} :
    (∃ stack', Repository.transfer db sender recipient v stack = (.ok (), stack')) ↔
      ∃ x y, HasAccount w sender x ∧ w.account recipient = .ok y ∧ v ≤ x.balance ∧
        v ≤ y.balance + v := by
  constructor
  · rintro ⟨stack', htransfer⟩
    obtain ⟨x, y, z, hx, hz, hle, hover, -⟩ := transfer_ok h htransfer
    exact ⟨x, y, hx, hz.account_eq, hle, hz.balance_eq ▸ hover⟩
  · rintro ⟨x, y, hx, hy, hle, hover⟩
    obtain ⟨source, t, hget, rfl, ht⟩ := exists_getAccount h hx.account_eq
    obtain ⟨target, u, hget', rfl, hu⟩ := exists_getAccount ht hy
    have hne : source.isEmpty = false := isEmpty_of_alive hx.sound.2
    rw [erase_balance] at hle hover
    have hbalance : (if target.isEmpty then
        target.assign (Account.new recipient 0 b.getTimestamp) else target).balance =
          target.balance := by
      split_ifs with hempty
      · simp only [Account.isEmpty, Account.equal, Bool.and_eq_true, beq_iff_eq] at hempty
        exact hempty.1.2.symm
      · rfl
    unfold Repository.transfer
    rw [Eff.bind_ok hget, Eff.bind_ok hget', hne, if_neg Bool.false_ne_true,
      Eff.bind_ok (Repository.blockTimestamp_spec hu), hbalance,
      if_neg (not_or.mpr ⟨UInt64.not_lt.mpr hle, UInt64.not_lt.mpr hover⟩)]
    exact ⟨_, rfl⟩

theorem voteIncrease_iff (h : Shows db (b :: blocks) w stack) {voter candidate : Address}
    {v : UInt64} :
    (∃ stack', Repository.voteIncrease db voter candidate v stack = (.ok (), stack')) ↔
      ∃ x p, HasAccount w voter x ∧ HasProducer w candidate p ∧
        v * 1000000 ≤ x.balance - x.votes * 1000000 := by
  constructor
  · rintro ⟨stack', hvote⟩
    obtain ⟨x, p, hx, hp, hle, -⟩ := voteIncrease_ok h hvote
    exact ⟨x, p, hx, hp, hle⟩
  · rintro ⟨x, p, hx, hp, hle⟩
    obtain ⟨y, t, hget, rfl, ht⟩ := exists_getAccount h hx.account_eq
    obtain ⟨u, hget', -⟩ := exists_getProducer ht hp.producer_eq
    have hne : y.isEmpty = false := isEmpty_of_alive hx.sound.2
    rw [erase_balance, erase_votes] at hle
    unfold Repository.voteIncrease
    rw [Eff.bind_ok hget, hne, if_neg Bool.false_ne_true, Eff.bind_ok hget', hp.nonempty,
      if_neg Bool.false_ne_true, if_neg (UInt64.not_lt.mpr hle)]
    exact ⟨_, rfl⟩

theorem HasProducer.putProducer {a q : Address} {p r z : Producer} (hz : HasProducer w a z)
    (hr : r.address = a) (hne : r.isEmpty = false) (hp : HasProducer w q p) :
    ∃ p', HasProducer (w.putProducer r) q p' := by
  by_cases hq : q = a
  · subst hq
    exact ⟨r, by rw [View.putProducer_producer, if_pos hr.symm], hne, hr⟩
  · refine ⟨p, ?_, hp.nonempty, hp.sound⟩
    rw [View.putProducer_producer, if_neg (hr ▸ hq)]
    exact hp.producer_eq

theorem eraseLoop_of_producers (voter : Address) {candidates : List (Address × UInt64)}
    (h : Shows db (b :: blocks) w stack)
    (hall : ∀ i ∈ candidates, ∃ p, HasProducer w i.1 p) :
    ∃ stack', Eff.forEach candidates (fun i ↦ do
      let producer ← Repository.getProducer db i.1
      if producer.isEmpty then
        Eff.throw (repositoryException ("Producer (" ++ i.1.toHex ++ ") not exist"))
      else Repository.putProducer (producer.eraseVoter voter)) stack = (.ok (), stack') := by
  induction candidates generalizing w stack with
  | nil => exact ⟨stack, rfl⟩
  | cons i candidates ih =>
    obtain ⟨p, hp⟩ := hall i List.mem_cons_self
    obtain ⟨t, hget, ht⟩ := exists_getProducer h hp.producer_eq
    rcases hput : Repository.putProducer (p.eraseVoter voter) t with ⟨r, u⟩
    obtain ⟨rfl, -⟩ := Prod.mk.inj hput
    have hu := Repository.putProducer_spec ht hput
    obtain ⟨stack', hrest⟩ := ih hu fun j hj ↦ by
      obtain ⟨q, hq⟩ := hall j (List.mem_cons_of_mem i hj)
      exact HasProducer.putProducer hp ((eraseVoter_address p voter).trans hp.sound)
        ((eraseVoter_isEmpty p voter).trans hp.nonempty) hq
    refine ⟨stack', Eff.forEach_cons_eq_ok.mpr ⟨u, ?_, hrest⟩⟩
    rw [Eff.bind_ok hget, hp.nonempty, if_neg Bool.false_ne_true, hput]

theorem clearVote_iff (h : Shows db (b :: blocks) w stack) {a : Address} :
    (∃ stack', Repository.clearVote db a stack = (.ok (), stack')) ↔
      ∃ x, HasAccount w a x ∧ ∀ i ∈ x.candidates.toList, ∃ p, HasProducer w i.1 p := by
  constructor
  · rintro ⟨stack', hclear⟩
    obtain ⟨x, hx, hall, -⟩ := clearVote_ok h hclear
    exact ⟨x, hx, hall⟩
  · rintro ⟨x, hx, hall⟩
    obtain ⟨y, t, hget, rfl, ht⟩ := exists_getAccount h hx.account_eq
    have hne : y.isEmpty = false := isEmpty_of_alive hx.sound.2
    obtain ⟨u, hloop⟩ := eraseLoop_of_producers a ht hall
    unfold Repository.clearVote
    rw [Eff.bind_ok hget, hne, if_neg Bool.false_ne_true]
    exact ⟨_, Eff.bind_ok hloop⟩

end Operations

section Actions

theorem HasAccount.putAccount {a : Address} {x y : Account} (hx : HasAccount w a x)
    (haddress : y.address = x.address) (halive : y.alive = x.alive) :
    HasAccount (w.putAccount y) a (erase y) := by
  refine ⟨?_, haddress.trans hx.sound.1, halive.trans hx.sound.2⟩
  rw [View.putAccount_account, if_pos (haddress.trans hx.sound.1).symm]

theorem HasAccount.eq {a : Address} {x y : Account} (hx : HasAccount w a x)
    (hy : HasAccount w a y) : x = y :=
  Except.ok.inj (hx.account_eq.symm.trans hy.account_eq)

theorem transferAction_iff (h : Shows db (b :: blocks) w stack) {tx : Transaction} :
    (∃ stack', Runtime.transfer db tx stack = (.ok (), stack')) ↔
      ∃ x y, HasAccount w tx.sender x ∧ w.account tx.recipient = .ok y ∧
        transactionFee ≤ x.balance ∧ tx.value ≤ x.balance - transactionFee ∧
        tx.value ≤ (if tx.recipient = tx.sender then x.balance - transactionFee
          else y.balance) + tx.value := by
  -- What the fee leaves of the accounts that the transfer reads.
  have hafter : ∀ {x : Account}, HasAccount w tx.sender x →
      HasAccount (w.putAccount { x with balance := x.balance - transactionFee }) tx.sender
        (erase { x with balance := x.balance - transactionFee }) ∧
      ((w.putAccount { x with balance := x.balance - transactionFee }).account tx.recipient =
        if tx.recipient = tx.sender then
          .ok (erase { x with balance := x.balance - transactionFee })
        else w.account tx.recipient) := by
    intro x hx
    refine ⟨hx.putAccount rfl rfl, ?_⟩
    rw [View.putAccount_account]
    exact if_congr (by rw [hx.sound.1]) rfl rfl
  constructor
  · rintro ⟨stack', hrun⟩
    obtain ⟨⟨⟩, t, hburn, hrest⟩ := Eff.bind_eq_ok.mp hrun
    obtain ⟨x, hx, hfee, ht⟩ := burn_ok h hburn
    obtain ⟨hsender, hrecipient⟩ := hafter hx
    obtain ⟨z, y, hz, hy, hle, hover⟩ := (transfer_iff ht).mp ⟨stack', hrest⟩
    obtain rfl := hsender.eq hz
    rw [hrecipient] at hy
    split_ifs at hy ⊢ with hself
    · obtain rfl := Except.ok.inj hy
      exact ⟨x, x, hx, hself ▸ hx.account_eq, hfee, hle, hover⟩
    · exact ⟨x, y, hx, hy, hfee, hle, hover⟩
  · rintro ⟨x, y, hx, hy, hfee, hle, hover⟩
    obtain ⟨t, hburn⟩ := (burn_iff h).mpr ⟨x, hx, hfee⟩
    obtain ⟨x', hx', -, ht⟩ := burn_ok h hburn
    obtain rfl := hx.eq hx'
    obtain ⟨hsender, hrecipient⟩ := hafter hx
    obtain ⟨u, hrest⟩ := (transfer_iff ht).mpr
      ⟨_, if tx.recipient = tx.sender then erase { x with balance := x.balance - transactionFee }
        else y, hsender, by rw [hrecipient, hy]; split_ifs <;> rfl, hle, by
          split_ifs at hover ⊢ <;> exact hover⟩
    exact ⟨u, Eff.bind_eq_ok.mpr ⟨(), t, hburn, hrest⟩⟩

theorem beenProducer_iff (h : Shows db (b :: blocks) w stack) {timestamp : Int64}
    {tx : Transaction} :
    (∃ stack', Runtime.beenProducer db timestamp tx stack = (.ok (), stack')) ↔
      ∃ x p, HasAccount w tx.sender x ∧ w.producer tx.sender = .ok p ∧
        transactionFee ≤ x.balance ∧
        (p.isEmpty = true → producerCost ≤ x.balance - transactionFee) := by
  constructor
  · rintro ⟨stack', hrun⟩
    obtain ⟨x, p, hx, hfee, hp, hrest⟩ := beenProducer_ok h hrun
    refine ⟨x, p, hx, hp, hfee, fun hempty ↦ ?_⟩
    rw [if_pos hempty] at hrest
    exact hrest.1
  · rintro ⟨x, p, hx, hp, hfee, hcost⟩
    obtain ⟨t, hburn⟩ := (burn_iff h).mpr ⟨x, hx, hfee⟩
    obtain ⟨x', hx', -, ht⟩ := burn_ok h hburn
    obtain rfl := hx.eq hx'
    obtain ⟨u, hget, hu⟩ := exists_getProducer ht hp
    unfold Runtime.beenProducer
    rw [Eff.bind_ok hburn, Eff.bind_ok hget]
    split_ifs with hempty
    · obtain ⟨v, hburn'⟩ := (burn_iff hu).mpr ⟨_, hx.putAccount rfl rfl, hcost hempty⟩
      exact ⟨_, Eff.bind_ok hburn'⟩
    · exact ⟨u, rfl⟩

theorem forall_split_cons {α : Type} {P : List α → α → Prop} {x : α} {l : List α} :
    (∀ before i after, x :: l = before ++ i :: after → P before i) ↔
      P [] x ∧ ∀ before i after, l = before ++ i :: after → P (x :: before) i := by
  constructor
  · intro h
    exact ⟨h [] x l rfl, fun before i after heq ↦ h (x :: before) i after (by rw [heq]; rfl)⟩
  · rintro ⟨hfirst, hrest⟩ before i after heq
    cases before with
    | nil =>
      obtain ⟨rfl, -⟩ := List.cons.inj heq
      exact hfirst
    | cons y before =>
      obtain ⟨rfl, hl⟩ := List.cons.inj heq
      exact hrest before i after hl

theorem hasProducer_congr {q : Address} (h : w'.producer = w.producer) :
    (∃ p, HasProducer w' q p) ↔ ∃ p, HasProducer w q p := by
  constructor
  · rintro ⟨p, hp⟩
    exact ⟨p, h ▸ hp.producer_eq, hp.nonempty, hp.sound⟩
  · rintro ⟨p, hp⟩
    exact ⟨p, h ▸ hp.producer_eq, hp.nonempty, hp.sound⟩

theorem hasProducer_voted {c q : Address} {p : Producer} {a : Address} {v : UInt64}
    (hp : HasProducer w c p) :
    (∃ r, HasProducer (w.putProducer (p.addVoter a v)) q r) ↔ ∃ r, HasProducer w q r := by
  constructor
  · rintro ⟨r, hr⟩
    by_cases hq : q = c
    · exact ⟨p, hq ▸ hp⟩
    · have hview := hr.producer_eq
      rw [View.putProducer_producer, if_neg (fun hc ↦ hq (hc.trans hp.sound))] at hview
      exact ⟨r, hview, hr.nonempty, hr.sound⟩
  · rintro ⟨r, hr⟩
    exact hp.putProducer (r := p.addVoter a v) hp.sound hp.nonempty hr

/-- A ballot goes through if every vote is for a producer and covered, as the words count, by what
the votes before it have left. -/
theorem voteLoop_iff {sender : Address} {x : Account} (ballot : Ballot)
    (h : Shows db (b :: blocks) w stack) (hx : HasAccount w sender x) :
    (∃ stack', Eff.forEach ballot (fun i ↦ Repository.voteIncrease db sender i.address i.value)
        stack = (.ok (), stack')) ↔
      ∀ before i after, ballot = before ++ i :: after → (∃ p, HasProducer w i.address p) ∧
        i.value * 1000000 ≤
          x.balance - (x.votes + (before.map Candidate.value).sum) * 1000000 := by
  induction ballot generalizing w stack x with
  | nil => exact iff_of_true ⟨stack, rfl⟩ fun before i after heq ↦ by simp at heq
  | cons i ballot ih =>
    rw [forall_split_cons]
    simp only [List.map_nil, List.sum_nil, List.map_cons, List.sum_cons, UInt64.add_zero]
    -- The rest of the ballot finds the votes of the account increased by the first one.
    have hrest : ∀ {p : Producer} {t : List Repository}, HasProducer w i.address p →
        Shows db (b :: blocks) ((w.putAccount (x.addVoter i.address i.value)).putProducer
          (p.addVoter sender i.value)) t →
        ((∃ stack', Eff.forEach ballot
            (fun i ↦ Repository.voteIncrease db sender i.address i.value) t = (.ok (), stack')) ↔
          ∀ before j after, ballot = before ++ j :: after → (∃ p, HasProducer w j.address p) ∧
            j.value * 1000000 ≤
              x.balance - (x.votes + (i.value + (before.map Candidate.value).sum)) * 1000000) := by
      intro p t hp ht
      have hput := hx.putAccount (y := x.addVoter i.address i.value) rfl rfl
      rw [ih ht ⟨hput.account_eq, hput.sound⟩]
      have hsame : ∀ q, (∃ r, HasProducer ((w.putAccount (x.addVoter i.address i.value)).putProducer
          (p.addVoter sender i.value)) q r) ↔ ∃ r, HasProducer w q r := by
        intro q
        refine (hasProducer_congr ?_).trans (hasProducer_voted (a := sender) (v := i.value) hp)
        rfl
      simp only [hsame]
      simp only [erase_balance, erase_votes, Account.addVoter, UInt64.add_assoc]
    constructor
    · rintro ⟨stack', hloop⟩
      obtain ⟨t, hvote, hloop⟩ := Eff.forEach_cons_eq_ok.mp hloop
      obtain ⟨x', p, hx', hp, hle, ht⟩ := voteIncrease_ok h hvote
      obtain rfl := hx.eq hx'
      exact ⟨⟨⟨p, hp⟩, hle⟩, (hrest hp ht).mp ⟨stack', hloop⟩⟩
    · rintro ⟨⟨⟨p, hp⟩, hle⟩, hall⟩
      obtain ⟨t, hvote⟩ := (voteIncrease_iff h).mpr ⟨x, p, hx, hp, hle⟩
      obtain ⟨x', p', hx', hp', -, ht⟩ := voteIncrease_ok h hvote
      obtain rfl := hx.eq hx'
      obtain ⟨stack', hloop⟩ := (hrest hp' ht).mpr hall
      exact ⟨stack', Eff.forEach_cons_eq_ok.mpr ⟨t, hvote, hloop⟩⟩

theorem hasProducer_eraseVotes {q : Address} (voter : Address) (keys : List Address) :
    (∃ p, HasProducer (eraseVotes w voter keys) q p) ↔ ∃ p, HasProducer w q p := by
  constructor
  · rintro ⟨p, hp⟩
    have hview := hp.producer_eq
    rw [eraseVotes_producer] at hview
    split_ifs at hview
    · cases hq : w.producer q with
      | error e =>
        rw [hq] at hview
        cases hview
      | ok r =>
        rw [hq] at hview
        obtain rfl := Except.ok.inj hview
        exact ⟨r, hq, (eraseVoter_isEmpty r voter).symm.trans hp.nonempty,
          (eraseVoter_address r voter).symm.trans hp.sound⟩
    · exact ⟨p, hview, hp.nonempty, hp.sound⟩
  · rintro ⟨p, hp⟩
    by_cases hq : q ∈ keys
    · refine ⟨p.eraseVoter voter, ?_, (eraseVoter_isEmpty p voter).trans hp.nonempty,
        (eraseVoter_address p voter).trans hp.sound⟩
      rw [eraseVotes_producer, if_pos hq, hp.producer_eq]
      rfl
    · refine ⟨p, ?_, hp.nonempty, hp.sound⟩
      rw [eraseVotes_producer, if_neg hq, hp.producer_eq]

theorem vote_iff (h : Shows db (b :: blocks) w stack) {tx : Transaction} :
    (∃ stack', Runtime.vote db tx stack = (.ok (), stack')) ↔
      ∃ x, HasAccount w tx.sender x ∧ transactionFee ≤ x.balance ∧
        (∀ i ∈ x.candidates.toList, ∃ p, HasProducer w i.1 p) ∧
        ∃ ballot, Ballot.ofRLP tx.data = .ok ballot ∧
          ∀ before i after, ballot = before ++ i :: after → (∃ p, HasProducer w i.address p) ∧
            i.value * 1000000 ≤ x.balance - transactionFee -
              (before.map Candidate.value).sum * 1000000 := by
  -- The loop begins without votes, on the balance that the fee has left.
  have hloop : ∀ {x : Account} {t : List Repository} (ballot : Ballot), HasAccount w tx.sender x →
      Shows db (b :: blocks)
        (((eraseVotes w tx.sender (x.candidates.toList.map Prod.fst)).putAccount
          x.clearVote).putAccount { erase x.clearVote with
          balance := x.balance - transactionFee }) t →
      ((∃ stack', Eff.forEach ballot
          (fun i ↦ Repository.voteIncrease db tx.sender i.address i.value) t = (.ok (), stack')) ↔
        ∀ before i after, ballot = before ++ i :: after → (∃ p, HasProducer w i.address p) ∧
          i.value * 1000000 ≤ x.balance - transactionFee -
            (before.map Candidate.value).sum * 1000000) := by
    intro x t ballot hx ht
    have hcleared : HasAccount (eraseVotes w tx.sender (x.candidates.toList.map Prod.fst)) tx.sender
      x := ⟨hx.account_eq, hx.sound⟩
    have hpaid := (hcleared.putAccount (y := x.clearVote) rfl rfl).putAccount
      (y := { erase x.clearVote with balance := x.balance - transactionFee }) rfl rfl
    rw [voteLoop_iff ballot ht hpaid]
    have hsame : ∀ q, (∃ r, HasProducer (((eraseVotes w tx.sender
        (x.candidates.toList.map Prod.fst)).putAccount x.clearVote).putAccount
          { erase x.clearVote with balance := x.balance - transactionFee }) q r) ↔
        ∃ r, HasProducer w q r := by
      intro q
      refine (hasProducer_congr ?_).trans
        (hasProducer_eraseVotes tx.sender (x.candidates.toList.map Prod.fst))
      rfl
    simp only [hsame]
    simp only [erase_balance, erase_votes, Account.clearVote, UInt64.zero_add]
  constructor
  · rintro ⟨stack', hrun⟩
    obtain ⟨⟨⟩, t, hclear, hrun⟩ := Eff.bind_eq_ok.mp hrun
    obtain ⟨⟨⟩, u, hburn, hrun⟩ := Eff.bind_eq_ok.mp hrun
    obtain ⟨ballot, u', hballot, hrun⟩ := Eff.bind_eq_ok.mp hrun
    obtain ⟨hparse, rfl⟩ := Prod.mk.inj hballot
    obtain ⟨x, hx, hall, ht⟩ := clearVote_ok h hclear
    obtain ⟨y, hy, hfee, hu⟩ := burn_ok ht hburn
    have hcleared : HasAccount (eraseVotes w tx.sender (x.candidates.toList.map Prod.fst)) tx.sender
      x := ⟨hx.account_eq, hx.sound⟩
    obtain rfl := (hcleared.putAccount (y := x.clearVote) rfl rfl).eq hy
    exact ⟨x, hx, hfee, hall, ballot, hparse, (hloop ballot hx hu).mp ⟨stack', hrun⟩⟩
  · rintro ⟨x, hx, hfee, hall, ballot, hparse, hvotes⟩
    obtain ⟨t, hclear⟩ := (clearVote_iff h).mpr ⟨x, hx, hall⟩
    obtain ⟨x', hx', -, ht⟩ := clearVote_ok h hclear
    obtain rfl := hx.eq hx'
    have hcleared : HasAccount (eraseVotes w tx.sender (x.candidates.toList.map Prod.fst)) tx.sender
      x := ⟨hx.account_eq, hx.sound⟩
    have hpaying := hcleared.putAccount (y := x.clearVote) rfl rfl
    obtain ⟨u, hburn⟩ := (burn_iff ht).mpr ⟨_, hpaying, hfee⟩
    obtain ⟨y, hy, -, hu⟩ := burn_ok ht hburn
    obtain rfl := hpaying.eq hy
    obtain ⟨stack', hrun⟩ := (hloop ballot hx hu).mpr hvotes
    refine ⟨stack', Eff.bind_eq_ok.mpr ⟨(), t, hclear, Eff.bind_eq_ok.mpr ⟨(), u, hburn,
      Eff.bind_eq_ok.mpr ⟨ballot, u, ?_, hrun⟩⟩⟩⟩
    rw [Eff.ofExcept_apply, hparse]

end Actions

end GseNetwork.Ledger
