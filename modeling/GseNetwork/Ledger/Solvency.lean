import GseNetwork.Ledger.Existence
import GseNetwork.Ledger.Success
import GseNetwork.Ledger.VotingPower

namespace GseNetwork.Ledger

open GseNetwork.Core GseNetwork.Foundation GseNetwork.Storage
open Repository (Shows)

variable {db : DatabaseController} {b : Block} {blocks : List Block} {w w' w'' : View}
  {stack stack' : List Repository} {earlier : List Transaction} {tx : Transaction}

instance (tx : Transaction) : Decidable (Handled tx) :=
  inferInstanceAs (Decidable (_ ∨ _ ∨ _))

section Conditions

variable (w : View) (earlier : List Transaction)

/-- The balance an address had before the block, with what the earlier transactions of the block
have moved. -/
def funds (a : Address) : ℤ :=
  balance w a + blockFlow 0 (known w) (earlier.filter fun tx ↦ Handled tx) a

def Holder (a : Address) : Prop :=
  AccountExists w a ∨ ∃ tx ∈ earlier, tx.type = Transaction.transferType ∧ tx.recipient = a

def Elected (q : Address) : Prop :=
  known w q = true ∨ ∃ tx ∈ earlier, tx.type = Transaction.beenProducerType ∧ tx.sender = q

def Backs (a q : Address) : Prop := ∃ x, HasAccount w a x ∧ ∃ v, x.candidates[q]? = some v

inductive Affords (tx : Transaction) : Prop
  | vote (ballot : Ballot) (htype : tx.type = Transaction.voteType)
      (hholder : Holder w earlier tx.sender)
      (hfee : (transactionFee.toNat : ℤ) ≤ funds w earlier tx.sender)
      (hformer : ∀ q, Backs w tx.sender q → Elected w earlier q)
      (hballot : Ballot.ofRLP tx.data = .ok ballot)
      (hvotes : ∀ before i after, ballot = before ++ i :: after → Elected w earlier i.address ∧
        (1000000 * i.value.toNat : ℤ) % 2 ^ 64 ≤
          (funds w earlier tx.sender - transactionFee.toNat - 1000000 * ballotSum before) %
            2 ^ 64)
  | transfer (htype : tx.type = Transaction.transferType) (hholder : Holder w earlier tx.sender)
      (hcovered : (transactionFee.toNat + tx.value.toNat : ℤ) ≤ funds w earlier tx.sender)
      (hreadable : ∃ y, w.account tx.recipient = .ok y)
      (hfits : (if tx.recipient = tx.sender then funds w earlier tx.sender - transactionFee.toNat
        else funds w earlier tx.recipient) + tx.value.toNat < 2 ^ 64)
  | beenProducer (htype : tx.type = Transaction.beenProducerType)
      (hholder : Holder w earlier tx.sender)
      (hfee : (transactionFee.toNat : ℤ) ≤ funds w earlier tx.sender)
      (hcost : ¬ Elected w earlier tx.sender →
        (transactionFee.toNat + producerCost.toNat : ℤ) ≤ funds w earlier tx.sender)
  | other (htype : ¬ Handled tx)

def Solvent (w : View) (txs : List Transaction) : Prop :=
  ∀ earlier tx later, txs = earlier ++ tx :: later → Affords w earlier tx

end Conditions

section Evolution

/-- How a view changes with transactions that succeed: no record becomes unreadable or readable, no
producer is lost, and votes come and go for producers only. -/
structure Evolves (w w' : View) : Prop where
  readable : ∀ a, (∃ x, w'.account a = .ok x) ↔ ∃ x, w.account a = .ok x
  producers : (∀ q, ∃ p, w.producer q = .ok p) → ∀ q, ∃ p, w'.producer q = .ok p
  keeps : ∀ q, known w q = true → known w' q = true
  gained : ∀ a q, Backs w' a q → Backs w a q ∨ known w' q = true
  lost : ∀ a q, Backs w a q → Backs w' a q ∨ known w' q = true

theorem Evolves.refl (w : View) : Evolves w w :=
  ⟨fun _ ↦ Iff.rfl, id, fun _ ↦ id, fun _ _ ↦ Or.inl, fun _ _ ↦ Or.inl⟩

theorem Evolves.trans (h : Evolves w w') (h' : Evolves w' w'') : Evolves w w'' where
  readable a := (h'.readable a).trans (h.readable a)
  producers hw := h'.producers (h.producers hw)
  keeps q hq := h'.keeps q (h.keeps q hq)
  gained a q hq := by
    rcases h'.gained a q hq with hq | hq
    · exact (h.gained a q hq).imp_right (h'.keeps q)
    · exact Or.inr hq
  lost a q hq := by
    rcases h.lost a q hq with hq | hq
    · exact h'.lost a q hq
    · exact Or.inr (h'.keeps q hq)

theorem backs_putAccount {a c q : Address} {y : Account} (hy : y.address = a)
    (halive : y.alive = true) :
    Backs (w.putAccount y) c q ↔
      if c = a then ∃ v, y.candidates[q]? = some v else Backs w c q := by
  unfold Backs
  split_ifs with hc
  · subst hc
    have hview : (w.putAccount y).account c = .ok (erase y) := by
      rw [View.putAccount_account, if_pos hy.symm]
    constructor
    · rintro ⟨x, hx, hq⟩
      obtain rfl := Except.ok.inj (hview.symm.trans hx.account_eq)
      exact hq
    · intro hq
      exact ⟨erase y, ⟨hview, hy, halive⟩, hq⟩
  · have hview : (w.putAccount y).account c = w.account c := by
      rw [View.putAccount_account, if_neg (hy ▸ hc)]
    constructor
    · rintro ⟨x, hx, hq⟩
      exact ⟨x, ⟨hview ▸ hx.account_eq, hx.sound⟩, hq⟩
    · rintro ⟨x, hx, hq⟩
      exact ⟨x, ⟨hview ▸ hx.account_eq, hx.sound⟩, hq⟩

theorem Evolves.putAccount {a : Address} {x y : Account} (hx : w.account a = .ok x)
    (hy : y.address = a) (halive : y.alive = true)
    (hgained : ∀ q, (∃ v, y.candidates[q]? = some v) → Backs w a q ∨ known w q = true)
    (hlost : ∀ q, Backs w a q → (∃ v, y.candidates[q]? = some v) ∨ known w q = true) :
    Evolves w (w.putAccount y) where
  readable c := by
    rw [View.putAccount_account]
    split_ifs with hc
    · exact iff_of_true ⟨_, rfl⟩ ⟨x, by rw [hc, hy, hx]⟩
    · rfl
  producers h := h
  keeps _ h := h
  gained c q h := by
    rw [backs_putAccount hy halive] at h
    split_ifs at h with hc
    · exact hc ▸ hgained q h
    · exact Or.inl h
  lost c q h := by
    rw [backs_putAccount hy halive]
    split_ifs with hc
    · subst hc
      exact hlost q h
    · exact Or.inl h

theorem Evolves.update {a : Address} {x y : Account} (hx : HasAccount w a x)
    (haddress : y.address = x.address) (halive : y.alive = x.alive)
    (hcandidates : y.candidates = x.candidates) : Evolves w (w.putAccount y) := by
  refine .putAccount hx.account_eq (haddress.trans hx.sound.1) (halive.trans hx.sound.2)
    (fun q hq ↦ Or.inl ⟨x, hx, hcandidates ▸ hq⟩) fun q hq ↦ ?_
  obtain ⟨z, hz, hq⟩ := hq
  obtain rfl := hx.eq hz
  exact Or.inl (hcandidates ▸ hq)

theorem Evolves.putProducer {p : Producer}
    (h : known w p.address = true → p.isEmpty = false) : Evolves w (w.putProducer p) where
  readable _ := Iff.rfl
  producers hw q := by
    rw [View.putProducer_producer]
    split_ifs
    · exact ⟨p, rfl⟩
    · exact hw q
  keeps q hq := by
    rw [known_putProducer, Function.update_apply]
    split_ifs with hp
    · rw [h (hp ▸ hq)]
      rfl
    · exact hq
  gained a q hq := by
    obtain ⟨x, hx, hq⟩ := hq
    exact Or.inl ⟨x, ⟨hx.account_eq, hx.sound⟩, hq⟩
  lost a q hq := by
    obtain ⟨x, hx, hq⟩ := hq
    exact Or.inl ⟨x, ⟨hx.account_eq, hx.sound⟩, hq⟩

theorem burn_evolves (h : Shows db (b :: blocks) w stack) {a : Address} {v : UInt64}
    (hburn : Repository.burn db a v stack = (.ok (), stack')) :
    ∃ w', Shows db (b :: blocks) w' stack' ∧ Evolves w w' := by
  obtain ⟨x, hx, -, hshows⟩ := burn_ok h hburn
  exact ⟨_, hshows, .update hx rfl rfl rfl⟩

theorem transfer_evolves (h : Shows db (b :: blocks) w stack) {sender recipient : Address}
    {v : UInt64} (htransfer : Repository.transfer db sender recipient v stack = (.ok (), stack')) :
    ∃ w', Shows db (b :: blocks) w' stack' ∧ Evolves w w' := by
  obtain ⟨x, y, z, hx, hz, -, -, hshows⟩ := transfer_ok h htransfer
  refine ⟨_, hshows,
    (Evolves.update hx (y := { x with balance := x.balance - v }) rfl rfl rfl).trans ?_⟩
  have hput := hx.putAccount (y := { x with balance := x.balance - v }) rfl rfl
  by_cases hself : recipient = sender
  · subst hself
    obtain rfl : x = y := Except.ok.inj (hx.account_eq.symm.trans hz.account_eq)
    obtain rfl : z = x := hz.keeps.resolve_right fun hnew ↦ by
      rw [isEmpty_of_alive hx.sound.2] at hnew
      cases hnew.1
    exact .update hput rfl rfl rfl
  · have hview : (w.putAccount { x with balance := x.balance - v }).account recipient = .ok y := by
      rw [View.putAccount_account, if_neg (hx.sound.1 ▸ hself), hz.account_eq]
    refine .putAccount hview hz.sound.1 hz.sound.2 (fun q hq ↦ ?_) fun q hq ↦ ?_
    · rcases hz.keeps with rfl | ⟨-, timestamp, rfl⟩
      · exact Or.inl ⟨z, ⟨hview, hz.sound⟩, hq⟩
      · obtain ⟨u, hu⟩ := hq
        simp [Account.new] at hu
    · obtain ⟨x', hx', hq⟩ := hq
      obtain rfl := Except.ok.inj (hview.symm.trans hx'.account_eq)
      rcases hz.keeps with rfl | ⟨hempty, -⟩
      · exact Or.inl hq
      · rw [isEmpty_of_alive hx'.sound.2] at hempty
        cases hempty

theorem voteIncrease_evolves (h : Shows db (b :: blocks) w stack) {voter candidate : Address}
    {v : UInt64}
    (hvote : Repository.voteIncrease db voter candidate v stack = (.ok (), stack')) :
    ∃ w', Shows db (b :: blocks) w' stack' ∧ Evolves w w' := by
  obtain ⟨x, p, hx, hp, -, hshows⟩ := voteIncrease_ok h hvote
  have hcandidates : ∀ q, (x.addVoter candidate v).candidates[q]? =
      if candidate = q then some v else x.candidates[q]? := fun q ↦
    ReadThrough.getElem?_insert x.candidates candidate q v
  refine ⟨_, hshows, Evolves.trans (.putAccount (y := x.addVoter candidate v) hx.account_eq
    hx.sound.1 hx.sound.2 (fun q hq ↦ ?_) fun q hq ↦ ?_)
      (.putProducer (p := p.addVoter voter v) fun _ ↦ hp.nonempty)⟩
  · rw [hcandidates] at hq
    split_ifs at hq with hc
    · exact Or.inr (hc ▸ hp.known_eq)
    · exact Or.inl ⟨x, hx, hq⟩
  · obtain ⟨x', hx', u, hu⟩ := hq
    obtain rfl := hx.eq hx'
    refine Or.inl ?_
    rw [hcandidates, hu]
    split_ifs
    · exact ⟨v, rfl⟩
    · exact ⟨u, rfl⟩

theorem evolves_eraseVotes (w : View) (voter : Address) (keys : List Address) :
    Evolves w (eraseVotes w voter keys) where
  readable _ := Iff.rfl
  producers hw q := by
    obtain ⟨p, hp⟩ := hw q
    rw [eraseVotes_producer, hp]
    split_ifs
    · exact ⟨p.eraseVoter voter, rfl⟩
    · exact ⟨p, rfl⟩
  keeps q hq := by rwa [known_eraseVotes]
  gained a q hq := by
    obtain ⟨x, hx, hq⟩ := hq
    exact Or.inl ⟨x, ⟨hx.account_eq, hx.sound⟩, hq⟩
  lost a q hq := by
    obtain ⟨x, hx, hq⟩ := hq
    exact Or.inl ⟨x, ⟨hx.account_eq, hx.sound⟩, hq⟩

theorem clearVote_evolves (h : Shows db (b :: blocks) w stack) {a : Address}
    (hclear : Repository.clearVote db a stack = (.ok (), stack')) :
    ∃ w', Shows db (b :: blocks) w' stack' ∧ Evolves w w' := by
  obtain ⟨x, hx, hall, hshows⟩ := clearVote_ok h hclear
  have hx' : HasAccount (eraseVotes w a (x.candidates.toList.map Prod.fst)) a x :=
    ⟨hx.account_eq, hx.sound⟩
  refine ⟨_, hshows, (evolves_eraseVotes w a _).trans
    (.putAccount hx'.account_eq hx.sound.1 hx.sound.2 (fun q hq ↦ ?_) fun q hq ↦ Or.inr ?_)⟩
  · obtain ⟨u, hu⟩ := hq
    simp [Account.clearVote] at hu
  · -- Every vote that is cleared was for a producer.
    obtain ⟨y, hy, hq⟩ := hq
    obtain rfl := hx'.eq hy
    obtain ⟨i, hi, rfl⟩ := List.mem_map.mp (mem_candidates.mpr hq)
    obtain ⟨p, hp⟩ := hall i hi
    rw [known_eraseVotes]
    exact hp.known_eq

theorem beenProducer_evolves (h : Shows db (b :: blocks) w stack) {timestamp : Int64}
    (hrun : Runtime.beenProducer db timestamp tx stack = (.ok (), stack'))
    (hsender : tx.sender ≠ 0) :
    ∃ w', Shows db (b :: blocks) w' stack' ∧ Evolves w w' := by
  obtain ⟨x, p, hx, -, hp, hrest⟩ := beenProducer_ok h hrun
  split_ifs at hrest with hempty
  · refine ⟨_, hrest.2, (Evolves.update hx (y := { x with
      balance := x.balance - transactionFee - producerCost }) rfl rfl rfl).trans
        (.putProducer fun _ ↦ ?_)⟩
    exact isEmpty_new hsender timestamp
  · exact ⟨_, hrest, .update hx rfl rfl rfl⟩

theorem execute_evolves (h : Shows db (b :: blocks) w stack) {timestamp : Int64}
    (hrun : Runtime.execute db timestamp tx stack = (.ok (), stack'))
    (hsender : tx.type = Transaction.beenProducerType → tx.sender ≠ 0) :
    ∃ w', Shows db (b :: blocks) w' stack' ∧ Evolves w w' := by
  unfold Runtime.execute at hrun
  split_ifs at hrun with hvote htransfer hproducer
  · obtain ⟨⟨⟩, t₁, hclear, hrun⟩ := Eff.bind_eq_ok.mp hrun
    obtain ⟨⟨⟩, t₂, hburn, hrun⟩ := Eff.bind_eq_ok.mp hrun
    obtain ⟨ballot, t₃, hballot, hloop⟩ := Eff.bind_eq_ok.mp hrun
    obtain ⟨-, rfl⟩ := Prod.mk.inj hballot
    obtain ⟨w₁, h₁, hevolves₁⟩ := clearVote_evolves h hclear
    obtain ⟨w₂, h₂, hevolves₂⟩ := burn_evolves h₁ hburn
    refine Eff.forEach_invariant
      (I := fun _ st ↦ ∃ w', Shows db (b :: blocks) w' st ∧ Evolves w w') ?_ hloop
      ⟨w₂, h₂, hevolves₁.trans hevolves₂⟩
    rintro i - s t ⟨v, hv, hevolves⟩ hincrease
    obtain ⟨v', hv', hevolves'⟩ := voteIncrease_evolves hv hincrease
    exact ⟨v', hv', hevolves.trans hevolves'⟩
  · obtain ⟨⟨⟩, t₁, hburn, hrun⟩ := Eff.bind_eq_ok.mp hrun
    obtain ⟨w₁, h₁, hevolves₁⟩ := burn_evolves h hburn
    obtain ⟨w₂, h₂, hevolves₂⟩ := transfer_evolves h₁ hrun
    exact ⟨w₂, h₂, hevolves₁.trans hevolves₂⟩
  · exact beenProducer_evolves h hrun (hsender hproducer)
  · obtain ⟨-, rfl⟩ := Prod.mk.inj hrun
    exact ⟨w, h, .refl w⟩

end Evolution

section Words

theorem cast_toNat_sub (x y : UInt64) : ((x - y).toNat : ℤ) ≡ x.toNat - y.toNat [ZMOD 2 ^ 64] := by
  have hy := y.toNat_lt
  rw [UInt64.toNat_sub, Int.modEq_iff_dvd]
  omega

theorem cast_toNat_mul (x y : UInt64) : ((x * y).toNat : ℤ) ≡ x.toNat * y.toNat [ZMOD 2 ^ 64] := by
  rw [UInt64.toNat_mul]
  push_cast
  exact Int.mod_modEq _ _

theorem cast_toNat_sum (ballot : Ballot) :
    ((ballot.map Candidate.value).sum.toNat : ℤ) ≡ ballotSum ballot [ZMOD 2 ^ 64] := by
  induction ballot with
  | nil => rfl
  | cons i ballot ih =>
    rw [List.map_cons, List.sum_cons, UInt64.toNat_add, ballotSum_cons]
    push_cast
    exact (Int.mod_modEq _ _).trans (ih.add_left _)

theorem cast_toNat_eq {x : UInt64} {n : ℤ} (h : (x.toNat : ℤ) ≡ n [ZMOD 2 ^ 64]) :
    (x.toNat : ℤ) = n % 2 ^ 64 := by
  rw [← h, Int.emod_eq_of_lt (Int.natCast_nonneg _)]
  exact_mod_cast x.toNat_lt

theorem covered_iff (v x fee : UInt64) (before : Ballot) :
    v * 1000000 ≤ x - fee - (before.map Candidate.value).sum * 1000000 ↔
      (1000000 * v.toNat : ℤ) % 2 ^ 64 ≤
        ((x.toNat : ℤ) - fee.toNat - 1000000 * ballotSum before) % 2 ^ 64 := by
  have hasked : ((v * 1000000).toNat : ℤ) ≡ 1000000 * v.toNat [ZMOD 2 ^ 64] := by
    rw [mul_comm (1000000 : ℤ)]
    exact cast_toNat_mul v 1000000
  have hspent : (((before.map Candidate.value).sum * 1000000).toNat : ℤ) ≡
      1000000 * ballotSum before [ZMOD 2 ^ 64] := by
    rw [mul_comm (1000000 : ℤ)]
    exact (cast_toNat_mul _ 1000000).trans ((cast_toNat_sum before).mul_right 1000000)
  have hleft := (cast_toNat_sub (x - fee) ((before.map Candidate.value).sum * 1000000)).trans
    ((cast_toNat_sub x fee).sub hspent)
  rw [UInt64.le_iff_toNat_le, ← Nat.cast_le (α := ℤ), cast_toNat_eq hasked, cast_toNat_eq hleft]

theorem le_add_iff (u v : UInt64) : v ≤ u + v ↔ u.toNat + v.toNat < 2 ^ 64 := by
  have hu := u.toNat_lt
  have hv := v.toNat_lt
  rw [UInt64.le_iff_toNat_le, UInt64.toNat_add]
  omega

theorem le_sub_iff {u v x : UInt64} (h : v ≤ x) : u ≤ x - v ↔ v.toNat + u.toNat ≤ x.toNat := by
  rw [UInt64.le_iff_toNat_le] at h ⊢
  rw [UInt64.toNat_sub_of_le x v (UInt64.le_iff_toNat_le.mpr h)]
  omega

end Words

section Blocks

theorem blockFlow_concat (timestamp : Int64) (k : Address → Bool) (txs : List Transaction)
    (tx : Transaction) : blockFlow timestamp k (txs ++ [tx]) =
      blockFlow timestamp k txs + flow (txs.foldl (learn timestamp) k) tx := by
  induction txs generalizing k with
  | nil => exact add_comm _ _
  | cons t txs ih => rw [List.cons_append, blockFlow, ih, blockFlow, add_assoc, List.foldl_cons]

theorem learn_iff {k : Address → Bool} {timestamp : Int64} {q : Address}
    (hsender : tx.type = Transaction.beenProducerType → tx.sender ≠ 0) :
    learn timestamp k tx q = true ↔
      k q = true ∨ tx.type = Transaction.beenProducerType ∧ tx.sender = q := by
  unfold learn creates
  by_cases htype : tx.type = Transaction.beenProducerType
  · cases hk : k tx.sender with
    | true =>
      simp only [htype, BEq.rfl, Bool.not_true, Bool.and_false, Bool.false_eq_true, if_false,
        true_and]
      exact (or_iff_left_of_imp fun hq ↦ hq ▸ hk).symm
    | false =>
      simp only [htype, BEq.rfl, Bool.not_false, Bool.and_true, if_true, true_and,
        isEmpty_new (hsender htype), Function.update_apply]
      by_cases hq : q = tx.sender
      · simp [hq]
      · simp [hq, Ne.symm hq]
  · simp [htype]

theorem holder_concat (w : View) (earlier : List Transaction) (tx : Transaction) (a : Address) :
    Holder w (earlier ++ [tx]) a ↔
      (tx.type = Transaction.transferType ∧ tx.recipient = a) ∨ Holder w earlier a := by
  simp only [Holder, List.mem_append, List.mem_singleton, or_and_right, exists_or,
    exists_eq_left]
  rw [← or_assoc, or_comm]

theorem elected_concat (w : View) (earlier : List Transaction) (tx : Transaction) (q : Address) :
    Elected w (earlier ++ [tx]) q ↔
      Elected w earlier q ∨ tx.type = Transaction.beenProducerType ∧ tx.sender = q := by
  simp only [Elected, List.mem_append, List.mem_singleton, or_and_right, exists_or,
    exists_eq_left, or_assoc]

structure Follows (w : View) (earlier : List Transaction) (w' : View) : Prop where
  balance_eq : ∀ a, balance w' a = funds w earlier a
  known_eq : known w' = (earlier.filter fun tx ↦ Handled tx).foldl (learn 0) (known w)
  holder : ∀ a, AccountExists w' a ↔ Holder w earlier a
  elected : ∀ q, known w' q = true ↔ Elected w earlier q
  readable : ∀ q, ∃ p, w'.producer q = .ok p
  evolves : Evolves w w'

theorem Follows.nil (h : ∀ q, ∃ p, w.producer q = .ok p) : Follows w [] w where
  balance_eq a := by simp [funds, blockFlow]
  known_eq := rfl
  holder a := by simp [Holder]
  elected q := by simp [Elected]
  readable := h
  evolves := .refl w

theorem Follows.concat {sha3 : Bytes → H256} (hf : Follows w earlier w')
    (h : Shows db (b :: blocks) w' stack)
    (hsender : tx.type = Transaction.beenProducerType → tx.sender ≠ 0)
    (hrun : Runtime.excute sha3 db 0 tx stack = (.ok (), stack')) :
    ∃ w'', Shows db (b :: blocks) w'' stack' ∧ Follows w (earlier ++ [tx]) w'' := by
  obtain ⟨⟨⟩, t, hexecute, hput⟩ := Eff.bind_eq_ok.mp hrun
  obtain ⟨w₁, h₁, hevolves⟩ := execute_evolves h hexecute hsender
  obtain ⟨w₂, h₂, hexists⟩ := execute_exists h hexecute
  obtain rfl := h₁.view_eq.symm.trans h₂.view_eq
  have hshows := Repository.putTransaction_spec h₁ hput
  have hmoves : (∀ a, balance w₁ a = funds w (earlier ++ [tx]) a) ∧
      known w₁ = ((earlier ++ [tx]).filter fun tx ↦ Handled tx).foldl (learn 0) (known w) ∧
      known w₁ = learn 0 (known w') tx := by
    rw [List.filter_append]
    unfold funds
    rw [List.filter_append]
    by_cases htx : Handled tx
    · obtain ⟨w₃, h₃, hbalance, hknown⟩ := excute_balance h htx hrun
      obtain rfl := hshows.view_eq.symm.trans h₃.view_eq
      have hlast : [tx].filter (fun tx ↦ Handled tx) = [tx] := by simp [htx]
      rw [hlast, List.foldl_append, blockFlow_concat, ← hf.known_eq]
      refine ⟨fun a ↦ ?_, hknown, hknown⟩
      rw [hbalance, Pi.add_apply, hf.balance_eq, Pi.add_apply, funds, add_assoc]
    · obtain ⟨hvote, htransfer, hproducer⟩ : tx.type ≠ Transaction.voteType ∧
          tx.type ≠ Transaction.transferType ∧ tx.type ≠ Transaction.beenProducerType := by
        simpa only [Handled, not_or] using htx
      unfold Runtime.execute at hexecute
      rw [if_neg hvote, if_neg htransfer, if_neg hproducer] at hexecute
      obtain ⟨-, rfl⟩ := Prod.mk.inj hexecute
      obtain rfl := h.view_eq.symm.trans h₁.view_eq
      have hlast : [tx].filter (fun tx ↦ Handled tx) = [] := by simp [htx]
      rw [hlast, List.append_nil, learn_of_not_creates (creates_eq_false hproducer _)]
      exact ⟨hf.balance_eq, hf.known_eq, rfl⟩
  obtain ⟨hbalance, hknown, hlearn⟩ := hmoves
  refine ⟨w₁, hshows, hbalance, hknown, fun a ↦ ?_, fun q ↦ ?_, hevolves.producers hf.readable,
    hf.evolves.trans hevolves⟩
  · rw [hexists, holder_concat, hf.holder]
  · rw [hlearn, learn_iff hsender, elected_concat, hf.elected]

end Blocks

section Outcome

variable (hf : Follows w earlier w')

include hf

theorem Follows.balance_of_has {a : Address} {x : Account} (hx : w'.account a = .ok x) :
    (x.balance.toNat : ℤ) = funds w earlier a := by
  rw [← hf.balance_eq, balance, hx]

theorem Follows.le_iff {a : Address} {x : Account} (hx : w'.account a = .ok x) {v : UInt64} :
    v ≤ x.balance ↔ (v.toNat : ℤ) ≤ funds w earlier a := by
  rw [← hf.balance_of_has hx, UInt64.le_iff_toNat_le, Nat.cast_le]

theorem Follows.producer_iff (h : Shows db blocks w' stack) (q : Address) :
    (∃ p, HasProducer w' q p) ↔ Elected w earlier q := by
  rw [← hf.elected]
  constructor
  · rintro ⟨p, hp⟩
    exact hp.known_eq
  · intro hknown
    obtain ⟨p, hp⟩ := hf.readable q
    refine ⟨p, hasProducer_of_nonempty h hp ?_⟩
    simpa [known, hp] using hknown

theorem Follows.former_iff (h : Shows db blocks w' stack) {a : Address} {x : Account}
    (hx : HasAccount w' a x) :
    (∀ i ∈ x.candidates.toList, ∃ p, HasProducer w' i.1 p) ↔
      ∀ q, Backs w a q → Elected w earlier q := by
  constructor
  · intro hall q hq
    rcases hf.evolves.lost a q hq with hq | hq
    · obtain ⟨y, hy, hq⟩ := hq
      obtain rfl := hx.eq hy
      obtain ⟨i, hi, rfl⟩ := List.mem_map.mp (mem_candidates.mpr hq)
      exact (hf.producer_iff h i.1).mp (hall i hi)
    · exact (hf.elected q).mp hq
  · intro hall i hi
    rw [hf.producer_iff h]
    rcases hf.evolves.gained a i.1
      ⟨x, hx, mem_candidates.mp (List.mem_map_of_mem hi)⟩ with hq | hq
    · exact hall i.1 hq
    · exact (hf.elected i.1).mp hq

theorem Follows.vote_affords (h : Shows db (b :: blocks) w' stack)
    (htype : tx.type = Transaction.voteType) :
    (∃ stack', Runtime.vote db tx stack = (.ok (), stack')) ↔ Affords w earlier tx := by
  rw [vote_iff h]
  constructor
  · rintro ⟨x, hx, hfee, hall, ballot, hballot, hvotes⟩
    refine .vote ballot htype ((hf.holder _).mp ⟨x, hx⟩) ((hf.le_iff hx.account_eq).mp hfee)
      ((hf.former_iff h hx).mp hall) hballot fun before i after heq ↦ ?_
    obtain ⟨hp, hcovered⟩ := hvotes before i after heq
    rw [covered_iff, hf.balance_of_has hx.account_eq] at hcovered
    exact ⟨(hf.producer_iff h _).mp hp, hcovered⟩
  · intro haffords
    cases haffords with
    | vote ballot _ hholder hfee hformer hballot hvotes =>
      obtain ⟨x, hx⟩ := (hf.holder _).mpr hholder
      refine ⟨x, hx, (hf.le_iff hx.account_eq).mpr hfee, (hf.former_iff h hx).mpr hformer, ballot,
        hballot, fun before i after heq ↦ ?_⟩
      obtain ⟨hp, hcovered⟩ := hvotes before i after heq
      rw [covered_iff, hf.balance_of_has hx.account_eq]
      exact ⟨(hf.producer_iff h _).mpr hp, hcovered⟩
    | transfer hother => exact absurd (htype.symm.trans hother) (by decide)
    | beenProducer hother => exact absurd (htype.symm.trans hother) (by decide)
    | other hnone => exact absurd (Or.inl htype) hnone

theorem Follows.transfer_affords (h : Shows db (b :: blocks) w' stack)
    (htype : tx.type = Transaction.transferType) :
    (∃ stack', Runtime.transfer db tx stack = (.ok (), stack')) ↔ Affords w earlier tx := by
  rw [transferAction_iff h]
  -- What the recipient has before the value is added.
  have hfits : ∀ {x y : Account}, w'.account tx.sender = .ok x → w'.account tx.recipient = .ok y →
      transactionFee ≤ x.balance →
      (tx.value ≤ (if tx.recipient = tx.sender then x.balance - transactionFee
          else y.balance) + tx.value ↔
        (if tx.recipient = tx.sender then funds w earlier tx.sender - transactionFee.toNat
          else funds w earlier tx.recipient) + tx.value.toNat < 2 ^ 64) := by
    intro x y hx hy hfee
    rw [le_add_iff, ← Nat.cast_lt (α := ℤ), ← hf.balance_of_has hx, ← hf.balance_of_has hy]
    push_cast
    split_ifs
    · rw [toNat_sub_of_le hfee]
    · rfl
  constructor
  · rintro ⟨x, y, hx, hy, hfee, hle, hover⟩
    refine .transfer htype ((hf.holder _).mp ⟨x, hx⟩) ?_ ((hf.evolves.readable _).mp ⟨y, hy⟩)
      ((hfits hx.account_eq hy hfee).mp hover)
    rw [← hf.balance_of_has hx.account_eq]
    exact_mod_cast (le_sub_iff hfee).mp hle
  · intro haffords
    cases haffords with
    | transfer _ hholder hcovered hreadable hover =>
      obtain ⟨x, hx⟩ := (hf.holder _).mpr hholder
      obtain ⟨y, hy⟩ := (hf.evolves.readable _).mpr hreadable
      have hfee : transactionFee ≤ x.balance := by
        rw [hf.le_iff hx.account_eq]
        omega
      rw [← hf.balance_of_has hx.account_eq] at hcovered
      exact ⟨x, y, hx, hy, hfee, (le_sub_iff hfee).mpr (by exact_mod_cast hcovered),
        (hfits hx.account_eq hy hfee).mpr hover⟩
    | vote _ hother => exact absurd (htype.symm.trans hother) (by decide)
    | beenProducer hother => exact absurd (htype.symm.trans hother) (by decide)
    | other hnone => exact absurd (Or.inr (Or.inl htype)) hnone

theorem Follows.beenProducer_affords (h : Shows db (b :: blocks) w' stack)
    (htype : tx.type = Transaction.beenProducerType) :
    (∃ stack', Runtime.beenProducer db 0 tx stack = (.ok (), stack')) ↔ Affords w earlier tx := by
  rw [beenProducer_iff h]
  obtain ⟨p, hp⟩ := hf.readable tx.sender
  have hempty : p.isEmpty = true ↔ ¬ Elected w earlier tx.sender := by
    rw [← hf.elected, known, hp]
    simp
  constructor
  · rintro ⟨x, p', hx, hp', hfee, hcost⟩
    obtain rfl := Except.ok.inj (hp.symm.trans hp')
    refine .beenProducer htype ((hf.holder _).mp ⟨x, hx⟩) ((hf.le_iff hx.account_eq).mp hfee)
      fun hnew ↦ ?_
    rw [← hf.balance_of_has hx.account_eq]
    exact_mod_cast (le_sub_iff hfee).mp (hcost (hempty.mpr hnew))
  · intro haffords
    cases haffords with
    | beenProducer _ hholder hfee hcost =>
      obtain ⟨x, hx⟩ := (hf.holder _).mpr hholder
      have hfee' := (hf.le_iff hx.account_eq).mpr hfee
      refine ⟨x, p, hx, hp, hfee', fun hnew ↦ (le_sub_iff hfee').mpr ?_⟩
      have hcovered := hcost (hempty.mp hnew)
      rw [← hf.balance_of_has hx.account_eq] at hcovered
      exact_mod_cast hcovered
    | vote _ hother => exact absurd (htype.symm.trans hother) (by decide)
    | transfer hother => exact absurd (htype.symm.trans hother) (by decide)
    | other hnone => exact absurd (Or.inr (Or.inr htype)) hnone

theorem Follows.excute_affords (sha3 : Bytes → H256) (h : Shows db (b :: blocks) w' stack) :
    (∃ stack', Runtime.excute sha3 db 0 tx stack = (.ok (), stack')) ↔ Affords w earlier tx := by
  have hput : (∃ stack', Runtime.excute sha3 db 0 tx stack = (.ok (), stack')) ↔
      ∃ stack', Runtime.execute db 0 tx stack = (.ok (), stack') := by
    constructor
    · rintro ⟨stack', hrun⟩
      obtain ⟨⟨⟩, t, hexecute, -⟩ := Eff.bind_eq_ok.mp hrun
      exact ⟨t, hexecute⟩
    · rintro ⟨t, hexecute⟩
      exact ⟨_, Eff.bind_eq_ok.mpr ⟨(), t, hexecute, rfl⟩⟩
  rw [hput]
  unfold Runtime.execute
  split_ifs with hvote htransfer hproducer
  · exact hf.vote_affords h hvote
  · exact hf.transfer_affords h htransfer
  · exact hf.beenProducer_affords h hproducer
  · refine iff_of_true ⟨stack, rfl⟩ (.other ?_)
    simp only [Handled, hvote, htransfer, hproducer, or_self, not_false_eq_true]

end Outcome

theorem transactions_affords {sha3 : Bytes → H256} (txs : List Transaction)
    (hf : Follows w earlier w') (h : Shows db (b :: blocks) w' stack)
    (hsender : ∀ tx ∈ txs, tx.type = Transaction.beenProducerType → tx.sender ≠ 0) :
    (∃ stack', Eff.forEach txs (fun tx ↦ Runtime.excute sha3 db 0 tx) stack = (.ok (), stack')) ↔
      ∀ before tx after, txs = before ++ tx :: after → Affords w (earlier ++ before) tx := by
  induction txs generalizing earlier w' stack with
  | nil => exact iff_of_true ⟨stack, rfl⟩ fun before tx after heq ↦ by simp at heq
  | cons tx txs ih =>
    have hrest : ∀ t, Runtime.excute sha3 db 0 tx stack = (.ok (), t) →
        ((∃ stack', Eff.forEach txs (fun tx ↦ Runtime.excute sha3 db 0 tx) t = (.ok (), stack')) ↔
          ∀ before i after, txs = before ++ i :: after →
            Affords w (earlier ++ tx :: before) i) := by
      intro t hrun
      obtain ⟨w'', ht, hf'⟩ := hf.concat h (hsender tx List.mem_cons_self) hrun
      rw [ih hf' ht fun i hi ↦ hsender i (List.mem_cons_of_mem tx hi)]
      simp only [List.append_assoc, List.singleton_append]
    rw [forall_split_cons, List.append_nil, ← hf.excute_affords sha3 h]
    constructor
    · rintro ⟨stack', hloop⟩
      obtain ⟨t, hrun, hloop⟩ := Eff.forEach_cons_eq_ok.mp hloop
      exact ⟨⟨t, hrun⟩, (hrest t hrun).mp ⟨stack', hloop⟩⟩
    · rintro ⟨⟨t, hrun⟩, hall⟩
      obtain ⟨stack', hloop⟩ := (hrest t hrun).mpr hall
      exact ⟨stack', Eff.forEach_cons_eq_ok.mpr ⟨t, hrun, hloop⟩⟩

/-- Transactions succeed one after another exactly if each can be paid for after those before. -/
theorem transactions_solvent {sha3 : Bytes → H256} (txs : List Transaction)
    (h : Shows db (b :: blocks) w stack) (hreadable : ∀ q, ∃ p, w.producer q = .ok p)
    (hsender : ∀ tx ∈ txs, tx.type = Transaction.beenProducerType → tx.sender ≠ 0) :
    (∃ stack', Eff.forEach txs (fun tx ↦ Runtime.excute sha3 db 0 tx) stack = (.ok (), stack')) ↔
      Solvent w txs := by
  simpa only [Solvent, List.nil_append] using transactions_affords txs (.nil hreadable) h hsender

end GseNetwork.Ledger
