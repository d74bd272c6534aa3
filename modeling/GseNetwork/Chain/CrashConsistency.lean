import GseNetwork.Chain.Boot
import GseNetwork.Chain.Displacement

namespace GseNetwork.Chain.CrashConsistency

open GseNetwork.Core GseNetwork.Foundation GseNetwork.Storage BlockChain
open Std (ExtTreeMap)

section Prefixes

theorem take_flatten {α : Type} (blocks : List (List α)) (m : ℕ) :
    ∃ k ≤ blocks.length, blocks.flatten.take m = (blocks.take k).flatten ∨
      ∃ block ∈ blocks, ∃ j, 0 < j ∧ j < block.length ∧
        blocks.flatten.take m = (blocks.take k).flatten ++ block.take j := by
  induction blocks generalizing m with
  | nil => exact ⟨0, le_refl 0, Or.inl (by simp)⟩
  | cons block blocks ih =>
    rw [List.flatten_cons]
    rcases Nat.eq_zero_or_pos m with rfl | hpos
    · exact ⟨0, Nat.zero_le _, Or.inl (by simp)⟩
    rcases lt_or_ge m block.length with hlt | hge
    · refine ⟨0, Nat.zero_le _, Or.inr ⟨block, List.mem_cons_self, m, hpos, hlt, ?_⟩⟩
      rw [List.take_append_of_le_length hlt.le]
      rfl
    · obtain ⟨k, hk, hcases⟩ := ih (m - block.length)
      refine ⟨k + 1, by rw [List.length_cons]; omega, ?_⟩
      rw [List.take_append, List.take_of_length_le hge, List.take_succ_cons, List.flatten_cons]
      rcases hcases with heq | ⟨block', hmem, j, hj, hj', heq⟩
      · exact Or.inl (by rw [heq])
      · refine Or.inr ⟨block', List.mem_cons_of_mem block hmem, j, hj, hj', ?_⟩
        rw [heq, List.append_assoc]

end Prefixes

section Puts

variable {env : Env} {s : BlockChain}

theorem putAll_append {sha3 : Bytes → H256} {codec : Codec} (db : DatabaseController)
    (l l' : List DbWrite) :
    db.putAll sha3 codec (l ++ l') = (db.putAll sha3 codec l).putAll sha3 codec l' := by
  unfold DatabaseController.putAll
  rw [List.foldl_append]

theorem commitItem_dbc (item : MemoryItem) (rest : List MemoryItem) :
    (commitItem env item rest s).2.dbc =
      s.dbc.putAll env.sha3 env.codec (roundPuts item s) := by
  unfold commitItem roundPuts
  rw [Eff.modify_bind_apply, Eff.get_bind_apply, ← List.cons_append, putAll_append]
  dsimp only
  cases s.rollbackState.getBlockByNumber item.blockNumber <;> rfl

theorem solidifyLoop_dbc (number fuel : ℕ) :
    (solidifyLoop env number fuel s).2.dbc =
      s.dbc.putAll env.sha3 env.codec (loopPuts env number fuel s).flatten := by
  induction fuel generalizing s with
  | zero => rfl
  | succ fuel ih =>
    unfold solidifyLoop loopPuts
    rw [Eff.get_bind_apply]
    cases s.memoryQueue with
    | nil => rfl
    | cons item rest =>
      dsimp only
      split_ifs
      · have hround : (commitItem env item rest s).2.dbc =
            s.dbc.putAll env.sha3 env.codec (roundPuts item s) := commitItem_dbc item rest
        rw [List.flatten_cons, putAll_append]
        rcases hrun : commitItem env item rest s with ⟨e | ⟨⟨⟩⟩, t⟩
        · rw [hrun] at hround
          rw [Eff.bind_error hrun, ← hround]
          rfl
        · rw [hrun] at hround
          rw [Eff.bind_ok hrun, ih, ← hround]
      · rfl

theorem onSolidifiable_dbc (bsp : BlockState) :
    (onSolidifiable env bsp s).2.dbc =
      s.dbc.putAll env.sha3 env.codec (solidifyPuts env bsp s).flatten := by
  unfold onSolidifiable solidifyPuts
  rw [Eff.get_bind_apply, solidifyLoop_dbc]

end Puts

section Rounds

variable {env : Env} {genesis : Genesis} {s : BlockChain}

structure Listed (genesis : Genesis) (x : StoredAttributes) : Prop where
  height : x.currentBlockHeight.isSome = true
  prevList : x.prevProducerList = some genesis.producerSnapshot
  currentList : x.currentProducerList = some genesis.producerSnapshot

structure IsRound (puts : List DbWrite) : Prop where
  first : puts.head? = some (.dbDirty 1)
  inner : ∀ w ∈ puts.tail.dropLast, ∀ x : StoredAttributes,
    (x.put (.write w)).dbDirty = x.dbDirty
  listed : ∀ w ∈ puts, ∀ genesis x, Listed genesis x → Listed genesis (x.put (.write w))

theorem put_commitWrites (r : Repository) {w : DbWrite} (hw : w ∈ r.commitWrites)
    (x : StoredAttributes) : x.put (.write w) = x := by
  unfold Repository.commitWrites at hw
  simp only [List.mem_append, List.mem_map, List.mem_cons, List.not_mem_nil, or_false] at hw
  rcases hw with ((⟨i, -, rfl⟩ | ⟨i, -, rfl⟩) | ⟨i, -, rfl⟩) | rfl | rfl <;> rfl

theorem isRound_roundPuts (item : MemoryItem) (s : BlockChain) : IsRound (roundPuts item s) := by
  unfold roundPuts
  cases s.rollbackState.getBlockByNumber item.blockNumber with
  | none =>
    refine ⟨rfl, fun w hw x ↦ ?_, fun w hw genesis x hx ↦ ?_⟩
    · rw [List.tail_cons, List.append_nil] at hw
      rw [put_commitWrites item.repository (List.mem_of_mem_dropLast hw)]
    · rw [List.append_nil] at hw
      rcases List.mem_cons.mp hw with rfl | hw
      · exact ⟨hx.height, hx.prevList, hx.currentList⟩
      · rwa [put_commitWrites item.repository hw]
  | some b =>
    refine ⟨rfl, fun w hw x ↦ ?_, fun w hw genesis x hx ↦ ?_⟩
    · rw [List.tail_cons, List.dropLast_append_of_ne_nil (by simp)] at hw
      rcases List.mem_append.mp hw with hw | hw
      · rw [put_commitWrites item.repository hw]
      · simp only [List.dropLast, List.mem_cons, List.not_mem_nil, or_false] at hw
        rcases hw with rfl | rfl | rfl | rfl <;> rfl
    · rcases List.mem_cons.mp hw with rfl | hw
      · exact ⟨hx.height, hx.prevList, hx.currentList⟩
      rcases List.mem_append.mp hw with hw | hw
      · rwa [put_commitWrites item.repository hw]
      · simp only [List.mem_cons, List.not_mem_nil, or_false] at hw
        rcases hw with rfl | rfl | rfl | rfl | rfl
        · exact ⟨rfl, hx.prevList, hx.currentList⟩
        all_goals exact ⟨hx.height, hx.prevList, hx.currentList⟩

theorem isRound_loopPuts (number fuel : ℕ) {puts : List DbWrite}
    (h : puts ∈ loopPuts env number fuel s) : IsRound puts := by
  induction fuel generalizing s with
  | zero => exact absurd h List.not_mem_nil
  | succ fuel ih =>
    unfold loopPuts at h
    cases hqueue : s.memoryQueue with
    | nil =>
      rw [hqueue] at h
      exact absurd h List.not_mem_nil
    | cons item rest =>
      rw [hqueue] at h
      dsimp only at h
      split_ifs at h
      · rcases List.mem_cons.mp h with rfl | h
        · exact isRound_roundPuts item s
        rcases hrun : commitItem env item rest s with ⟨e | ⟨⟨⟩⟩, t⟩
        · rw [hrun] at h
          exact absurd h List.not_mem_nil
        · rw [hrun] at h
          exact ih h
      · exact absurd h List.not_mem_nil

end Rounds

/-- A run from the genesis: `onSolidifiable` in any states of the chain over the database as the
rounds before have left it. -/
inductive Solidifies (env : Env) (genesis : Genesis) :
    List (List DbWrite) → DatabaseController → Prop
  | genesis : Solidifies env genesis []
      (({} : Disk).putAll env.sha3 env.codec (initGenesis genesis)).dbc
  | commit {rounds : List (List DbWrite)} {dbc : DatabaseController} (bsp : BlockState)
      (s : BlockChain) : Solidifies env genesis rounds dbc → s.dbc = dbc →
      Solidifies env genesis (rounds ++ solidifyPuts env bsp s) (onSolidifiable env bsp s).2.dbc

def journal (genesis : Genesis) (rounds : List (List DbWrite)) : List Put :=
  initGenesis genesis ++ rounds.flatten.map .write

def written (env : Env) (puts : List Put) : Disk := ({} : Disk).putAll env.sha3 env.codec puts

structure Contents where
  accountStore : ExtTreeMap Address (Except Exception Account)
  producerStore : ExtTreeMap Address (Except Exception Producer)
  transactionStore : ExtTreeMap TxID (Except Exception Transaction)
  blockStore : ExtTreeMap BlockID (Except Exception Block)
  blockIndexStore : ExtTreeMap ℕ (Except Exception Block)
  currentBlockHeight : Option ℕ
  prevProducerList : Option ProducerSnapshot
  currentProducerList : Option ProducerSnapshot

def contents (d : Disk) : Contents :=
  let globals := (readAttributes d.attributes .globals).2
  { accountStore := d.dbc.accountStore
    producerStore := d.dbc.producerStore
    transactionStore := d.dbc.transactionStore
    blockStore := d.dbc.blockStore
    blockIndexStore := d.dbc.blockIndexStore
    currentBlockHeight := globals.currentBlockHeight
    prevProducerList := globals.prevProducerList
    currentProducerList := globals.currentProducerList }

/-- The process initialises the genesis anew, or `BlockChain::init` throws since
`ATTRIBUTE_DB_DIRTY` is set or missing. -/
def Refuses (env : Env) (genesis : Genesis) (d : Disk) : Prop :=
  checkGenesisExisted d.attributes = false ∨
    (checkDirty d.attributes).isOk = false ∧ (boot env genesis d).isOk = false

/-- What a process makes of the files after the first `n` puts. -/
def Recovers (env : Env) (genesis : Genesis) (rounds : List (List DbWrite)) (n : ℕ) : Prop :=
  Refuses env genesis (written env ((journal genesis rounds).take n)) ∨
    ∃ k ≤ rounds.length, contents (written env ((journal genesis rounds).take n)) =
      contents (written env (journal genesis (rounds.take k)))

section Attributes

variable {env : Env} {genesis : Genesis} {rounds : List (List DbWrite)} {puts : List Put}
  {x : StoredAttributes} {d : Disk}

theorem attributes_putAll {sha3 : Bytes → H256} {codec : Codec} :
    (d.putAll sha3 codec puts).attributes = puts.foldl StoredAttributes.put d.attributes := by
  induction puts generalizing d with
  | nil => rfl
  | cons p puts ih => exact @ih (d.put sha3 codec p)

theorem foldl_put_eq {β : Type} {f : StoredAttributes → β}
    (hkeep : ∀ p ∈ puts, ∀ x, f (x.put p) = f x) : f (puts.foldl .put x) = f x := by
  induction puts generalizing x with
  | nil => rfl
  | cons p puts ih =>
    rw [List.foldl_cons, ih fun q hq ↦ hkeep q (List.mem_cons_of_mem p hq)]
    exact hkeep p List.mem_cons_self x

theorem IsRound.dirty {round : List DbWrite} (h : IsRound round) {j : ℕ} (hpos : 0 < j)
    (hlt : j < round.length) :
    (((round.take j).map Put.write).foldl .put x).dbDirty = some 1 := by
  obtain ⟨l, rfl⟩ : ∃ l, round = .dbDirty 1 :: l := by
    cases round with
    | nil => exact absurd hlt (Nat.not_lt_zero j)
    | cons w l => exact ⟨l, by rw [Option.some.inj h.first]⟩
  obtain ⟨i, rfl⟩ := Nat.exists_eq_add_one.mpr hpos
  rw [List.take_succ_cons, List.map_cons, List.foldl_cons,
    foldl_put_eq (f := StoredAttributes.dbDirty)]
  · rfl
  · intro p hp y
    obtain ⟨w, hw, rfl⟩ := List.mem_map.mp hp
    refine h.inner w ?_ y
    rw [List.tail_cons, List.dropLast_eq_take]
    rw [List.length_cons] at hlt
    exact (List.take_prefix_take_left (by omega)).mem hw

theorem listed_rounds (hrounds : ∀ round ∈ rounds, IsRound round) (hx : Listed genesis x) :
    Listed genesis ((rounds.flatten.map Put.write).foldl .put x) := by
  have hall : ∀ w ∈ rounds.flatten, ∀ y, Listed genesis y → Listed genesis (y.put (.write w)) := by
    intro w hw y hy
    obtain ⟨round, hround, hmem⟩ := List.mem_flatten.mp hw
    exact (hrounds round hround).listed w hmem genesis y hy
  generalize rounds.flatten = writes at hall
  induction writes generalizing x with
  | nil => exact hx
  | cons w writes ih =>
    exact ih (hall w List.mem_cons_self x hx) fun v hv ↦ hall v (List.mem_cons_of_mem w hv)

theorem Solidifies.isRound {dbc : DatabaseController} (h : Solidifies env genesis rounds dbc) :
    ∀ round ∈ rounds, IsRound round := by
  induction h with
  | genesis => exact fun round hround ↦ absurd hround List.not_mem_nil
  | commit bsp s _ _ ih =>
    intro round hround
    rcases List.mem_append.mp hround with hold | hnew
    · exact ih round hold
    · exact isRound_loopPuts _ _ hnew

theorem Solidifies.dbc_eq {dbc : DatabaseController} (h : Solidifies env genesis rounds dbc) :
    (written env (journal genesis rounds)).dbc = dbc := by
  have hwrites : ∀ (d : Disk) (l : List DbWrite), (d.putAll env.sha3 env.codec
      (l.map Put.write)).dbc = d.dbc.putAll env.sha3 env.codec l := by
    intro d l
    induction l generalizing d with
    | nil => rfl
    | cons w l ih => exact ih (d.put env.sha3 env.codec (.write w))
  induction h with
  | genesis =>
    unfold journal
    rw [List.flatten_nil, List.map_nil, List.append_nil]
    rfl
  | commit bsp s _ hs ih =>
    rw [onSolidifiable_dbc, hs, ← ih]
    unfold written journal Disk.putAll
    rw [List.flatten_append, List.map_append, ← List.append_assoc, List.foldl_append]
    exact hwrites _ _

theorem refuses_of_dirty (h : (checkDirty d.attributes).isOk = false) :
    Refuses env genesis d := by
  cases hexisted : checkGenesisExisted d.attributes with
  | false => exact Or.inl hexisted
  | true =>
    refine Or.inr ⟨h, ?_⟩
    have hinit : d.init env.sha3 env.codec genesis =
        (d, (readAttributes d.attributes .globals).2) := by
      unfold Disk.init
      rw [if_pos hexisted]
    unfold boot
    rw [hinit]
    dsimp only
    cases d.dbc.getBlockByNumber _ with
    | error e => rfl
    | ok block =>
      cases hcheck : checkDirty d.attributes with
      | error e => rfl
      | ok dirty =>
        rw [hcheck] at h
        cases h

theorem currentList_absent (h : d.attributes.currentProducerList = none) :
    (contents d).currentProducerList = none := by
  unfold contents readAttributes
  rw [h]
  cases d.attributes.currentBlockHeight with
  | none => rfl
  | some height => cases d.attributes.prevProducerList <;> rfl

theorem Listed.currentList_found (h : Listed genesis d.attributes) :
    (contents d).currentProducerList = some genesis.producerSnapshot := by
  obtain ⟨height, hheight⟩ := Option.isSome_iff_exists.mp h.height
  unfold contents readAttributes
  rw [hheight, h.prevList, h.currentList]
  cases d.attributes.solidifyActiveProducerList <;> rfl

end Attributes

section Cuts

variable {env : Env} {genesis : Genesis} {rounds : List (List DbWrite)} {front : List Put} {n : ℕ}

def lastPuts (genesis : Genesis) : List Put :=
  [.write (.currentBlockHeight 0), .genesisInited 1, .write (.dbDirty 0),
    .write (.prevProducerList genesis.producerSnapshot),
    .write (.currentProducerList genesis.producerSnapshot)]

/-- Before them, `initGenesis` puts no record that a starting process looks for. -/
theorem initGenesis_eq (genesis : Genesis) :
    ∃ front : List Put, (∀ p ∈ front, ∀ x : StoredAttributes,
        (x.put p).genesisInited = x.genesisInited ∧ (x.put p).dbDirty = x.dbDirty ∧
          (x.put p).currentProducerList = x.currentProducerList) ∧
      initGenesis genesis = front ++ lastPuts genesis := by
  refine ⟨genesis.initAccounts.toList.map (fun i ↦ .write (.account i.2)) ++
    genesis.initProducers.toList.map (fun i ↦ .write (.producer i.2)) ++
    [.write (.block genesis.genesisBlock), .write (.blockIndex genesis.genesisBlock)], ?_, ?_⟩
  · intro p hp x
    simp only [List.mem_append, List.mem_map, List.mem_cons, List.not_mem_nil, or_false] at hp
    rcases hp with (⟨i, -, rfl⟩ | ⟨i, -, rfl⟩) | rfl | rfl <;> exact ⟨rfl, rfl, rfl⟩
  · unfold initGenesis
    rw [List.append_assoc _ [_, _]]
    rfl

theorem attributes_written (puts puts' : List Put) :
    (written env (puts ++ puts')).attributes = puts'.foldl .put (puts.foldl .put {}) := by
  unfold written
  rw [attributes_putAll, List.foldl_append]

theorem listed_journal (hrounds : ∀ round ∈ rounds, IsRound round) :
    Listed genesis (written env (journal genesis rounds)).attributes := by
  obtain ⟨front, -, heq⟩ := initGenesis_eq genesis
  unfold journal
  rw [attributes_written]
  refine listed_rounds hrounds ?_
  rw [heq, List.foldl_append]
  exact ⟨rfl, rfl, rfl⟩

/-- Up to the put of the flag, a starting process notices that the genesis is not complete. -/
theorem refuses_early (hn : n < (initGenesis genesis).length - 2) :
    Refuses env genesis (written env ((journal genesis rounds).take n)) := by
  obtain ⟨front, hfront, heq⟩ := initGenesis_eq genesis
  have hlength : (initGenesis genesis).length = front.length + 5 := by
    rw [heq, List.length_append]
    rfl
  unfold journal
  rw [List.take_append_of_le_length (by omega), heq]
  rcases Nat.lt_or_ge n (front.length + 2) with hlt | hge
  · left
    have hinited : (written env
        ((front ++ lastPuts genesis).take n)).attributes.genesisInited = none := by
      unfold written
      rw [attributes_putAll, foldl_put_eq (f := StoredAttributes.genesisInited)]
      intro p hp y
      have hmem : p ∈ front ++ [.write (.currentBlockHeight 0)] := by
        unfold lastPuts at hp
        rw [List.append_cons, List.take_append_of_le_length] at hp
        · exact List.mem_of_mem_take hp
        · rw [List.length_append, List.length_singleton]
          omega
      rcases List.mem_append.mp hmem with hmem | hmem
      · exact (hfront p hmem y).1
      · rw [List.mem_singleton.mp hmem]
        rfl
    unfold checkGenesisExisted
    rw [hinited]
    rfl
  · refine refuses_of_dirty ?_
    obtain rfl : n = front.length + 2 := by omega
    have hdirty : (written env
        ((front ++ lastPuts genesis).take (front.length + 2))).attributes.dbDirty = none := by
      rw [List.take_length_add_append, attributes_written]
      exact foldl_put_eq (f := StoredAttributes.dbDirty) fun p hp y ↦ (hfront p hp y).2.1
    unfold checkDirty
    rw [hdirty]
    rfl

/-- Between the put of the flag and that of the current list, it does not, and misses a list. -/
theorem not_recovers_between (hrounds : ∀ round ∈ rounds, IsRound round)
    (hlow : (initGenesis genesis).length - 2 ≤ n) (hhigh : n < (initGenesis genesis).length) :
    ¬ Recovers env genesis rounds n := by
  obtain ⟨front, hfront, heq⟩ := initGenesis_eq genesis
  have hlength : (initGenesis genesis).length = front.length + 5 := by
    rw [heq, List.length_append]
    rfl
  have htake : (journal genesis rounds).take n = (initGenesis genesis).take n := by
    unfold journal
    rw [List.take_append_of_le_length hhigh.le]
  have hfound : (written env ((initGenesis genesis).take n)).attributes.genesisInited = some 1 ∧
      (written env ((initGenesis genesis).take n)).attributes.dbDirty = some 0 ∧
      (written env ((initGenesis genesis).take n)).attributes.currentProducerList = none := by
    have hlist : (front.foldl StoredAttributes.put {}).currentProducerList = none :=
      foldl_put_eq (f := StoredAttributes.currentProducerList) fun p hp y ↦ (hfront p hp y).2.2
    obtain rfl | rfl : n = front.length + 3 ∨ n = front.length + 4 := by omega
    all_goals
      rw [heq, List.take_length_add_append, attributes_written]
      exact ⟨rfl, rfl, hlist⟩
  intro hrecovers
  unfold Recovers at hrecovers
  rw [htake] at hrecovers
  rcases hrecovers with (hgenesis | ⟨hdirty, -⟩) | ⟨k, -, hsame⟩
  · unfold checkGenesisExisted at hgenesis
    rw [hfound.1] at hgenesis
    exact absurd hgenesis (by decide)
  · unfold checkDirty at hdirty
    rw [hfound.2.1] at hdirty
    exact absurd hdirty (by decide)
  · have hlist := congrArg Contents.currentProducerList hsame
    rw [currentList_absent hfound.2.2, (listed_journal fun round hround ↦
      hrounds round (List.mem_of_mem_take hround)).currentList_found] at hlist
    cases hlist

/-- From the last put of the genesis on, the files are those of a whole number of rounds or the flag
is set. -/
theorem recovers_late (hrounds : ∀ round ∈ rounds, IsRound round)
    (hn : (initGenesis genesis).length ≤ n) : Recovers env genesis rounds n := by
  have htake : (journal genesis rounds).take n = initGenesis genesis ++
      (rounds.flatten.take (n - (initGenesis genesis).length)).map .write := by
    unfold journal
    rw [List.take_append, List.take_of_length_le hn, List.map_take]
  unfold Recovers
  rw [htake]
  obtain ⟨k, hk, hwhole | ⟨round, hmem, j, hpos, hlt, hcut⟩⟩ :=
    take_flatten rounds (n - (initGenesis genesis).length)
  · right
    refine ⟨k, hk, ?_⟩
    rw [hwhole]
    rfl
  · refine Or.inl (refuses_of_dirty ?_)
    unfold checkDirty
    rw [hcut, List.map_append, ← List.append_assoc, attributes_written,
      (hrounds round hmem).dirty hpos hlt]
    rfl

end Cuts

/-- The database of a run is what its puts make. A process that starts over its files, cut after
any number of puts, refuses them or finds what a whole number of rounds has made, unless the cut
is between the put of the flag and that of the current list at the end of `initGenesis`. -/
theorem recovers_iff (env : Env) (genesis : Genesis) (rounds : List (List DbWrite))
    (dbc : DatabaseController) (hrun : Solidifies env genesis rounds dbc) (n : ℕ) :
    (written env (journal genesis rounds)).dbc = dbc ∧
      (Recovers env genesis rounds n ↔
        n < (initGenesis genesis).length - 2 ∨ (initGenesis genesis).length ≤ n) := by
  have hrounds := hrun.isRound
  refine ⟨hrun.dbc_eq, ?_, ?_⟩
  · intro hrecovers
    by_contra hbetween
    rw [not_or, not_lt, not_le] at hbetween
    exact not_recovers_between hrounds hbetween.1 hbetween.2 hrecovers
  · rintro (hearly | hlate)
    · exact Or.inl (refuses_early hearly)
    · exact recovers_late hrounds hlate

def bornGenesis : Genesis where
  initAccounts := ExtTreeMap.insert ∅ 1 (Account.new 1 100 0)
  initProducers := ExtTreeMap.insert ∅ 1 { address := 1, timestamp := 1, votes := 0 }
  producerSnapshot := { producers := [{ address := 1, timestamp := 1, votes := 0 }] }

def bornState : BlockState :=
  BlockState.ofBlock Relay.openEnv.sha3 Relay.openEnv.garbage (Relay.openBlock 1)

def bornChain : BlockChain :=
  { start Relay.openEnv (written Relay.openEnv (initGenesis bornGenesis)).dbc {} {} with
    memoryQueue := [{ blockNumber := 1, repository := { block := Relay.openBlock 1 } }]
    rollbackState := { head := bornState, index := [bornState] } }

theorem recovers_iff_born :
    (solidifyPuts Relay.openEnv bornState bornChain).map List.length = [8] ∧
      (initGenesis bornGenesis).length = 9 ∧
      Recovers Relay.openEnv bornGenesis (solidifyPuts Relay.openEnv bornState bornChain) 10 := by
  have hevaluated : (solidifyPuts Relay.openEnv bornState bornChain).map List.length = [8] ∧
      (initGenesis bornGenesis).length = 9 := by
    decide +kernel
  refine ⟨hevaluated.1, hevaluated.2, (recovers_iff Relay.openEnv bornGenesis _ _
    (.commit bornState bornChain .genesis rfl) 10).2.mpr (Or.inr ?_)⟩
  rw [hevaluated.2]
  decide

/-- After the put of the flag at the end of `initGenesis`, a process starts without producers. -/
theorem starts_without_producers :
    (boot Relay.openEnv bornGenesis
        (written Relay.openEnv ((journal bornGenesis []).take 7))).toOption.map
          (fun s ↦ s.schedule.getCurrentProducerList) = some [] ∧
      bornGenesis.producerSnapshot.producers ≠ [] ∧
      ¬ Recovers Relay.openEnv bornGenesis [] 7 := by
  have hlength : (initGenesis bornGenesis).length = 9 := by decide +kernel
  refine ⟨by decide +kernel, by decide, not_recovers_between ?_ ?_ ?_⟩
  · exact fun round hround ↦ absurd hround List.not_mem_nil
  · rw [hlength]
  · rw [hlength]
    decide

end GseNetwork.Chain.CrashConsistency
