import GseNetwork.Chain.Certificates
import GseNetwork.Chain.Finality
import GseNetwork.Chain.Honest

namespace GseNetwork.Chain.Agreement

open GseNetwork.Core GseNetwork.Foundation GseNetwork.Storage
open BlockChain

/-- Nodes that share the hash function and the producers, each producer that is not faulty with
one node. What faulty producers send is not restricted. -/
structure Network (ι : Type) where
  env : ι → Env
  sha3 : Bytes → H256
  sha3_eq : ∀ i, (env i).sha3 = sha3
  initial : ι → Block
  snapshot : ProducerSnapshot
  faulty : Finset Address
  address_inj : ∀ i j, (env i).address ∉ faulty → (env i).address = (env j).address → i = j

namespace Network

variable {ι : Type} (net : Network ι)

def producers : Finset Address := (net.snapshot.producers.map Producer.address).toFinset

/-- The nodes, and whether their worker threads run: an exception that leaves `doWork` ends the
thread, while messages are still handled. -/
structure State (ι : Type) where
  node : ι → BlockChain
  working : ι → Bool

def Authentic (σ : State ι) (hc : HeaderConfirmation) : Prop :=
  hc.producer ∉ net.faulty → ∃ i, (net.env i).address = hc.producer ∧ hc ∈ (σ.node i).sent

def Admissible (σ : State ι) (i : ι) : Event → Prop
  | .work => σ.working i = true ∧ (σ.node i).schedule.getProducerSnapshot = net.snapshot
  | .confirmation hc => net.Authentic σ hc ∧ CountsOnce (σ.node i).rollbackState hc
  | .blockState _ confirmations => (∀ hc ∈ confirmations, net.Authentic σ hc) ∧
    CountsAllOnce (σ.node i).rollbackState confirmations
  | _ => True

variable [DecidableEq ι]

def next (σ : State ι) (i : ι) (event : Event) : State ι where
  node := Function.update σ.node i (handle (net.env i) event (σ.node i)).2
  working := Function.update σ.working i
    (σ.working i && (handle (net.env i) event (σ.node i)).1.isOk)

inductive Run (P : State ι → ι → Event → Prop) (σ₀ : State ι) : State ι → Prop
  | start : Run P σ₀ σ₀
  | step {σ : State ι} {i : ι} {event : Event} :
      Run P σ₀ σ → net.Admissible σ i event → P σ i event → Run P σ₀ (net.next σ i event)

end Network

section Quorums

variable {ι : Type} {net : Network ι} {σ : Network.State ι} {block block' : Block}

theorem isExist_iff_mem (ps : ProducerSnapshot) (a : Address) :
    ps.isExist a = true ↔ a ∈ ps.producers.map Producer.address := by
  simp [ProducerSnapshot.isExist]

/-- Two quorums have more producers in common than there are faulty ones. -/
theorem exists_common {D : HeaderConfirmation → Prop} {sha3 : Bytes → H256}
    (h : Certified sha3 net.snapshot D block) (h' : Certified sha3 net.snapshot D block')
    (hquorum : net.snapshot.size + (net.faulty ∩ net.producers).card <
      2 * (net.snapshot.size * 2 / 3)) :
    ∃ a ∈ net.producers \ net.faulty, ∃ hc hc', D hc ∧ D hc' ∧ hc.producer = a ∧ hc'.producer = a ∧
      hc.number.toNat = block.getNumber ∧ hc'.number.toNat = block'.getNumber ∧
      hc.blockID = block.getHash sha3 ∧ hc'.blockID = block'.getHash sha3 := by
  obtain ⟨l, hnodup, hlength, hl⟩ := h
  obtain ⟨l', hnodup', hlength', hl'⟩ := h'
  have hsub : l.toFinset ⊆ net.producers := fun a ha ↦
    List.mem_toFinset.mpr ((isExist_iff_mem _ a).mp (hl a (List.mem_toFinset.mp ha)).1)
  have hsub' : l'.toFinset ⊆ net.producers := fun a ha ↦
    List.mem_toFinset.mpr ((isExist_iff_mem _ a).mp (hl' a (List.mem_toFinset.mp ha)).1)
  have hcard : net.producers.card ≤ net.snapshot.size :=
    (List.toFinset_card_le _).trans_eq (List.length_map _)
  have hunion := Finset.card_le_card (Finset.union_subset hsub hsub')
  have hinter := Finset.card_union_add_card_inter l.toFinset l'.toFinset
  rw [List.toFinset_card_of_nodup hnodup, List.toFinset_card_of_nodup hnodup'] at hinter
  have hmore : (net.faulty ∩ net.producers).card < (l.toFinset ∩ l'.toFinset).card := by omega
  obtain ⟨a, ha, hcorrect⟩ := Finset.exists_mem_notMem_of_card_lt_card hmore
  obtain ⟨hmem, hmem'⟩ := Finset.mem_inter.mp ha
  obtain ⟨-, hc, hD, hproducer, hnumber, hid⟩ := hl a (List.mem_toFinset.mp hmem)
  obtain ⟨-, hc', hD', hproducer', hnumber', hid'⟩ := hl' a (List.mem_toFinset.mp hmem')
  refine ⟨a, Finset.mem_sdiff.mpr ⟨hsub hmem, fun hfaulty ↦ ?_⟩, hc, hc', hD, hD', hproducer,
    hproducer', hnumber, hnumber', hid, hid'⟩
  exact hcorrect (Finset.mem_inter.mpr ⟨hfaulty, hsub hmem⟩)

end Quorums

namespace Network

variable {ι : Type} [DecidableEq ι] {net : Network ι} {σ σ₀ : State ι} {i : ι} {event : Event}

@[simp] theorem node_next_self :
    (net.next σ i event).node i = (handle (net.env i) event (σ.node i)).2 :=
  Function.update_self _ _ _

theorem node_next_of_ne {j : ι} (h : j ≠ i) : (net.next σ i event).node j = σ.node j :=
  Function.update_of_ne h _ _

theorem working_next_of_ne {j : ι} (h : j ≠ i) :
    (net.next σ i event).working j = σ.working j := Function.update_of_ne h _ _

theorem working_next_self (h : (net.next σ i event).working i = true) :
    σ.working i = true ∧ (handle (net.env i) event (σ.node i)).1.isOk = true := by
  have heq : (net.next σ i event).working i =
      (σ.working i && (handle (net.env i) event (σ.node i)).1.isOk) := Function.update_self _ _ _
  exact Bool.and_eq_true_iff.mp (heq.symm.trans h)

theorem Authentic.next {hc : HeaderConfirmation} (h : net.Authentic σ hc) (i : ι) (event : Event) :
    net.Authentic (net.next σ i event) hc := by
  intro hfaulty
  obtain ⟨j, haddress, hmem⟩ := h hfaulty
  refine ⟨j, haddress, ?_⟩
  by_cases hj : j = i
  · subst hj
    rw [node_next_self]
    exact handle_sent_subset (net.env j) (σ.node j) event hmem
  · rwa [node_next_of_ne hj]

theorem tallied_handle
    (h : Tallied net.sha3 net.snapshot (net.Authentic σ) (σ.node i).rollbackState)
    (ha : net.Admissible σ i event) :
    Tallied net.sha3 net.snapshot (net.Authentic (net.next σ i event))
      (handle (net.env i) event (σ.node i)).2.rollbackState := by
  replace h := h.mono fun hc hauthentic ↦ Authentic.next hauthentic i event
  cases event with
  | block block => exact h
  | work =>
    obtain ⟨hstate, hsent, hschedule⟩ := nextBlock_frame (σ.node i)
    have hps : (σ.node i).nextBlock.2.schedule.getProducerSnapshot = net.snapshot := by
      rw [hschedule]
      exact ha.2
    have hauthentic : ∀ hc ∈ (doWork (net.env i) (σ.node i)).2.sent,
        hc.producer = (net.env i).address → net.Authentic (net.next σ i .work) hc := by
      intro hc hmem hproducer _
      refine ⟨i, hproducer.symm, ?_⟩
      rwa [node_next_self]
    change Tallied _ _ _ (doWork (net.env i) (σ.node i)).2.rollbackState
    rw [← hstate, ← net.sha3_eq i] at h
    rw [← net.sha3_eq i]
    rcases doWork_upkept (net.env i) (σ.node i) with heq | ⟨block, ⟨hsteps, -⟩ | hfirst⟩
    · rw [heq]
      exact h
    · rw [hps] at hsteps
      exact h.upkeeps hsteps
    · obtain ⟨⟨y, hsteps, hnone, heq⟩, hsends⟩ := hfirst
      rw [hps] at hsteps
      rw [heq]
      refine (h.upkeeps hsteps).addConfirmation (hauthentic _ ?_ rfl) ?_
      · rw [hsends]
        exact List.mem_append_right _ List.mem_cons_self
      · intro b hb hid _ hc hmem
        rw [hnone b hb hid] at hmem
        cases hmem
  | confirmation hc => exact h.addConfirmation (ha.1.next i _) ha.2
  | blockState number confirmations =>
    change Tallied _ _ _ ((σ.node i).rollbackState.addSyncBlockState number confirmations)
    unfold RollbackState.addSyncBlockState
    split_ifs
    · exact h
    · exact h.addConfirmations (fun hc hmem ↦ (ha.1 hc hmem).next i _) ha.2
  | status status => exact h

def Correct (net : Network ι) (i : ι) : Prop := (net.env i).address ∈ net.producers \ net.faulty

def CorrectUndisturbed (net : Network ι) (σ : State ι) (i : ι) (event : Event) : Prop :=
  net.Correct i → Undisturbed (net.env i) (net.initial i) (σ.node i) event

def Starts (net : Network ι) (σ : State ι) : Prop :=
  ∀ i, Initialised (net.env i) (net.initial i) (σ.node i)

structure Safe (net : Network ι) (σ : State ι) : Prop where
  tallied : ∀ i, Tallied net.sha3 net.snapshot (net.Authentic σ) (σ.node i).rollbackState
  linked : ∀ i, net.Correct i → σ.working i = true →
    (σ.node i).control.Linked (net.env i).sha3 (net.initial i) ∧ SentOnce (σ.node i)
  once : ∀ i, net.Correct i → ConfirmsOnce (σ.node i)

omit [DecidableEq ι] in
theorem Starts.safe (h : net.Starts σ) : net.Safe σ := by
  have hfresh : ∀ i, (σ.node i).sent = [] := by
    intro i
    obtain ⟨dbc, attributes, -, heq⟩ := (h i).eq_start
    rw [heq]
    rfl
  have honce : ∀ i, SentOnce (σ.node i) := by
    intro i
    refine ⟨fun hc hmem ↦ ?_, fun hc hmem ↦ ?_⟩
    · rw [hfresh i] at hmem
      cases hmem
    · rw [hfresh i] at hmem
      cases hmem
  refine ⟨fun i ↦ ?_, fun i _ _ ↦ ⟨(h i).linked, honce i⟩, fun i _ ↦ (honce i).once⟩
  obtain ⟨dbc, attributes, -, heq⟩ := (h i).eq_start
  rw [heq]
  refine ⟨fun b hb ↦ Or.inl ?_, fun block hmem ↦ by cases hmem⟩
  rw [List.mem_singleton.mp hb]
  exact le_rfl

theorem Safe.next (h : net.Safe σ) (ha : net.Admissible σ i event)
    (ho : net.CorrectUndisturbed σ i event) : net.Safe (net.next σ i event) := by
  refine ⟨fun j ↦ ?_, fun j hj hworking ↦ ?_, fun j hj ↦ ?_⟩
  · by_cases heq : j = i
    · subst heq
      rw [node_next_self]
      exact tallied_handle (h.tallied j) ha
    · rw [node_next_of_ne heq]
      exact (h.tallied j).mono fun hc hauthentic ↦ Authentic.next hauthentic i event
  · by_cases heq : j = i
    · subst heq
      obtain ⟨hbefore, hok⟩ := working_next_self hworking
      obtain ⟨hlinked, hsent⟩ := h.linked j hj hbefore
      rw [node_next_self]
      exact (settled_handle hlinked hsent (ho hj)).goesOn hok
    · rw [working_next_of_ne heq] at hworking
      rw [node_next_of_ne heq]
      exact h.linked j hj hworking
  · by_cases heq : j = i
    · subst heq
      rw [node_next_self]
      by_cases hwork : event = .work
      · subst hwork
        obtain ⟨hlinked, hsent⟩ := h.linked j hj ha.1
        exact (settled_handle hlinked hsent (ho hj)).once
      · unfold ConfirmsOnce
        rw [handle_sent_of_ne_work hwork]
        exact h.once j hj
    · rw [node_next_of_ne heq]
      exact h.once j hj

theorem Safe.run (h : net.Safe σ₀) (hrun : net.Run net.CorrectUndisturbed σ₀ σ) : net.Safe σ := by
  induction hrun with
  | start => exact h
  | step _ ha ho ih => exact ih.next ha ho

/-- Where two quorums have more producers in common than are faulty, no two nodes mark different
blocks of one height. -/
theorem agreement (net : Network ι) (hstarts : net.Starts σ₀)
    (hrun : net.Run net.CorrectUndisturbed σ₀ σ)
    (hquorum : net.snapshot.size + (net.faulty ∩ net.producers).card <
      2 * (net.snapshot.size * 2 / 3)) (i j : ι) (block block' : Block)
    (hmem : block ∈ (σ.node i).rollbackState.marked)
    (hmem' : block' ∈ (σ.node j).rollbackState.marked)
    (hnumber : block.getNumber = block'.getNumber) :
    block.getHash net.sha3 = block'.getHash net.sha3 := by
  have hsafe := hstarts.safe.run hrun
  obtain ⟨a, ha, hc, hc', hauthentic, hauthentic', rfl, hproducer', hblock, hblock', hid, hid'⟩ :=
    exists_common ((hsafe.tallied i).marked block hmem) ((hsafe.tallied j).marked block' hmem')
      hquorum
  have hcorrect := (Finset.mem_sdiff.mp ha).2
  obtain ⟨k, haddress, hsent⟩ := hauthentic hcorrect
  obtain ⟨k', haddress', hsent'⟩ := hauthentic' (hproducer' ▸ hcorrect)
  have hk : k = k' := net.address_inj k k' (haddress ▸ hcorrect)
    (haddress.trans (hproducer'.symm.trans haddress'.symm))
  subst hk
  have hsame : hc.number = hc'.number := UInt64.toNat_inj.mp (by omega)
  rw [← hid, ← hid']
  exact hsafe.once k (show (net.env k).address ∈ _ from haddress ▸ ha) hc hsent hc' hsent' hsame

end Network

section Duo

open Network (State)

def duoEnv (second : Bool) : Env := { trioEnv with address := if second then 3 else 2 }

def duoAttributes (third : Bool) : Attributes :=
  if third then trioAttributes else { currentProducerList := { producers := [
    { address := 2, timestamp := 1, votes := 0 }, { address := 3, timestamp := 1, votes := 0 }] } }

def duoChain (third second : Bool) : BlockChain :=
  start (duoEnv second) trioStore (duoAttributes third) {}

def duoNetwork (third : Bool) : Network Bool where
  env := duoEnv
  sha3 := trioEnv.sha3
  sha3_eq _ := rfl
  initial _ := {}
  snapshot := (duoChain third false).schedule.getProducerSnapshot
  faulty := ∅
  address_inj := by decide

def duoStart (third : Bool) : State Bool where
  node := duoChain third
  working _ := true

def duoFirst (third : Bool) (block : Block) : State Bool :=
  (duoNetwork third).next ((duoNetwork third).next (duoStart third) false (.block block)) false
    .work

def duoSecond (third : Bool) (block block' : Block) : State Bool :=
  (duoNetwork third).next ((duoNetwork third).next (duoFirst third block) true (.block block'))
    true .work

theorem duoStart_starts (third : Bool) : (duoNetwork third).Starts (duoStart third) := by
  have hparent : Block.getParentHash {} ≠ Block.getHash trioEnv.sha3 {} := by decide +kernel
  intro i
  cases third with
  | false => exact initialised_start Std.ExtTreeMap.getD_insert_self rfl (by decide) rfl hparent
  | true => exact initialised_start Std.ExtTreeMap.getD_insert_self rfl (by decide) rfl hparent

theorem sound_of_isOk {env : Env} {initial : Block} {s : BlockChain} (block : Block)
    (h : s.nextBlock.1 = some block ∧ s.nextBlock.2.control.Fresh env.sha3 initial block ∧
      (attemptBlock env block (addToRollbackState env block s.nextBlock.2).2).1.isOk = true) :
    Undisturbed env initial s .work := by
  obtain ⟨hnext, hfresh, hok⟩ := h
  intro block' hnext'
  obtain rfl := Option.some.inj (hnext.symm.trans hnext')
  refine ⟨hfresh, fun t e u hadd hattempt ↦ ?_⟩
  rw [hadd, hattempt] at hok
  contradiction

variable (third : Bool) (block block' : Block)

theorem run_duoSecond
    (hstart : ((duoNetwork third).next (duoStart third) false (.block block)).working false = true ∧
      (((duoNetwork third).next (duoStart third) false (.block block)).node
        false).schedule.getProducerSnapshot = (duoNetwork third).snapshot)
    (hsound : Undisturbed (duoEnv false) {}
      (((duoNetwork third).next (duoStart third) false (.block block)).node false) .work)
    (hstart' : ((duoNetwork third).next (duoFirst third block) true (.block block')).working true =
        true ∧
      (((duoNetwork third).next (duoFirst third block) true (.block block')).node
        true).schedule.getProducerSnapshot = (duoNetwork third).snapshot)
    (hsound' : Undisturbed (duoEnv true) {}
      (((duoNetwork third).next (duoFirst third block) true (.block block')).node true) .work) :
    (duoNetwork third).Run (duoNetwork third).CorrectUndisturbed (duoStart third)
      (duoSecond third block block') :=
  .step (.step (.step (.step .start trivial fun _ ↦ trivial) hstart fun _ ↦ hsound) trivial
    fun _ ↦ trivial) hstart' fun _ ↦ hsound'

variable {third block block'}

def duoSigned : Block :=
  { trioFirst with blockHeader := { trioFirst.blockHeader with signature := { v := 1 } } }

def duoConfirmed : State Bool :=
  (duoNetwork true).next ((duoNetwork true).next (duoSecond true trioFirst duoSigned) false
    (.confirmation (ownConfirmation (duoEnv true) duoSigned))) true
    (.confirmation (ownConfirmation (duoEnv false) trioFirst))

theorem admissible_confirmation {σ : State Bool} {i j : Bool} {block : Block}
    (hsent : ownConfirmation (duoEnv j) block ∈ (σ.node j).sent)
    (honce : ∀ b ∈ (σ.node i).rollbackState.index, ∀ hc ∈ b.confirmations,
      hc.producer ≠ (ownConfirmation (duoEnv j) block).producer) :
    (duoNetwork third).Admissible σ i (.confirmation (ownConfirmation (duoEnv j) block)) :=
  ⟨fun _ ↦ ⟨j, rfl, hsent⟩, fun b hb _ _ hc hmem hproducer ↦
    absurd hproducer (honce b hb hc hmem)⟩

theorem agreement_duo :
    trioFirst ∈ (duoConfirmed.node false).rollbackState.marked ∧
      duoSigned ∈ (duoConfirmed.node true).rollbackState.marked ∧
      trioFirst.getHash (duoNetwork true).sha3 = duoSigned.getHash (duoNetwork true).sha3 := by
  have hmarked : trioFirst ∈ (duoConfirmed.node false).rollbackState.marked ∧
      duoSigned ∈ (duoConfirmed.node true).rollbackState.marked := by decide +kernel
  refine ⟨hmarked.1, hmarked.2, Network.agreement (duoNetwork true) (duoStart_starts true) ?_
    (by decide +kernel) false true trioFirst duoSigned hmarked.1 hmarked.2 rfl⟩
  have hsecond := run_duoSecond true trioFirst duoSigned (by decide +kernel)
    (sound_of_isOk trioFirst (by decide +kernel)) (by decide +kernel)
    (sound_of_isOk duoSigned (by decide +kernel))
  exact .step (.step hsecond (admissible_confirmation (by decide +kernel) (by decide +kernel))
    fun _ ↦ trivial) (admissible_confirmation (by decide +kernel) (by decide +kernel))
    fun _ ↦ trivial

/-- Two producers, neither of them faulty, each make another block of height one solid, with a
confirmation of their own. -/
theorem disagreement :
    (duoNetwork false).Starts (duoStart false) ∧
      (duoNetwork false).Run (duoNetwork false).CorrectUndisturbed (duoStart false)
        (duoSecond false trioFork trioFirst) ∧
      3 * ((duoNetwork false).faulty ∩ (duoNetwork false).producers).card <
        (duoNetwork false).snapshot.size ∧
      trioFork ∈ ((duoSecond false trioFork trioFirst).node false).rollbackState.marked ∧
      trioFirst ∈ ((duoSecond false trioFork trioFirst).node true).rollbackState.marked ∧
      trioFork.getNumber = trioFirst.getNumber ∧
      trioFork.getHash trioEnv.sha3 ≠ trioFirst.getHash trioEnv.sha3 := by
  refine ⟨duoStart_starts false, ?_, by decide +kernel⟩
  exact run_duoSecond false trioFork trioFirst (by decide +kernel)
    (sound_of_isOk trioFork (by decide +kernel)) (by decide +kernel)
    (sound_of_isOk trioFirst (by decide +kernel))

end Duo

end GseNetwork.Chain.Agreement
