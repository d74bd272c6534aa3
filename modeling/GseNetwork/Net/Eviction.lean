import GseNetwork.Net.Buckets

namespace GseNetwork.Net.NodeTable

open GseNetwork.Core GseNetwork.Foundation
open Relation (ReflTransGen)

section Settled

variable {sha3 : Bytes → H256} {now clock : ℕ} {vouched replaced : NodeID → Prop}
  {s t u : NodeTable}

def Waits (s : NodeTable) (id : NodeID) : Prop :=
  ∃ r bin, s.nodes id = some r ∧ (s.entries r).distance = bin + 1 ∧ r ∉ s.state bin ∧
    sBucketSize ≤ (s.state bin).length

/-- The entries of the buckets are those registered for their ids, and every eviction was begun in
the past for a node that still waits. -/
structure Settled (clock : ℕ) (s : NodeTable) : Prop where
  current : ∀ bin, ∀ r ∈ s.state bin, s.nodes (s.entries r).id = some r
  begun : ∀ e ∈ s.evictions, e.2.evictedTimePoint ≤ clock
  waits : ∀ e ∈ s.evictions, s.Waits e.2.newNodeID

def Grows (s t : NodeTable) : Prop :=
  ∀ bin, s.state bin ⊆ t.state bin ∧
    (sBucketSize ≤ (s.state bin).length → (t.state bin).Perm (s.state bin))

theorem Grows.refl (s : NodeTable) : Grows s s := fun _ ↦ ⟨List.Subset.refl _, fun _ ↦ .refl _⟩

theorem Grows.trans (h : Grows s t) (h' : Grows t u) : Grows s u := by
  intro bin
  obtain ⟨hsub, hfull⟩ := h bin
  obtain ⟨hsub', hfull'⟩ := h' bin
  refine ⟨List.Subset.trans hsub hsub', fun hle ↦ ?_⟩
  have hperm := hfull hle
  exact (hfull' (hperm.length_eq ▸ hle)).trans hperm

theorem grows_of_eq (h : t.state = s.state) : Grows s t := by
  intro bin
  rw [h]
  exact Grows.refl s bin

theorem grows_setBucket {bin : ℕ} {nodes : List Ref} (hsub : s.state bin ⊆ nodes)
    (hfull : sBucketSize ≤ (s.state bin).length → nodes.Perm (s.state bin)) :
    Grows s { s with state := Function.update s.state bin nodes } := by
  intro b
  rcases eq_or_ne b bin with rfl | hne
  · simpa using ⟨hsub, hfull⟩
  · simp [Function.update_of_ne hne]

/-- A bucket may be changed if its entries stay registered and no waiting node enters it. -/
theorem Settled.setBucket (hs : Settled clock s) {bin : ℕ} {nodes : List Ref}
    (hcurrent : ∀ r ∈ nodes, s.nodes (s.entries r).id = some r)
    (hfull : sBucketSize ≤ (s.state bin).length → nodes.Perm (s.state bin)) :
    Settled clock { s with state := Function.update s.state bin nodes } where
  current b r hr := by
    rcases eq_or_ne b bin with rfl | hne
    · exact hcurrent r (by simpa using hr)
    · exact hs.current b r (by simpa [Function.update_of_ne hne] using hr)
  begun := hs.begun
  waits e he := by
    obtain ⟨r, b, hnode, hdistance, habsent, hlen⟩ := hs.waits e he
    refine ⟨r, b, hnode, hdistance, ?_⟩
    rcases eq_or_ne b bin with rfl | hne
    · have hperm := hfull hlen
      simpa [hperm.mem_iff, hperm.length_eq] using ⟨habsent, hlen⟩
    · simpa [Function.update_of_ne hne] using ⟨habsent, hlen⟩

theorem Settled.setEntry (hs : Settled clock s) {r : Ref} {e : NodeEntry}
    (hid : e.id = (s.entries r).id) (hdistance : e.distance = (s.entries r).distance) :
    Settled clock { s with entries := Function.update s.entries r e } := by
  have hids : ∀ x, (Function.update s.entries r e x).id = (s.entries x).id := by
    intro x
    rcases eq_or_ne x r with rfl | hne
    · rw [Function.update_self, hid]
    · rw [Function.update_of_ne hne]
  have hdistances : ∀ x, (Function.update s.entries r e x).distance = (s.entries x).distance := by
    intro x
    rcases eq_or_ne x r with rfl | hne
    · rw [Function.update_self, hdistance]
    · rw [Function.update_of_ne hne]
  refine ⟨fun bin x hx ↦ ?_, hs.begun, fun y hy ↦ ?_⟩
  · rw [hids]
    exact hs.current bin x hx
  · obtain ⟨x, bin, hnode, hx, habsent⟩ := hs.waits y hy
    exact ⟨x, bin, hnode, (hdistances x).trans hx, habsent⟩

theorem Settled.mono {later : ℕ} (hs : Settled clock s) (h : clock ≤ later) : Settled later s :=
  ⟨hs.current, fun e he ↦ (hs.begun e he).trans h, hs.waits⟩

/-- A table in which no node is registered anew stays settled, and its buckets only grow: the
least recently seen entry of a full bucket is registered, so it is not replaced; an eviction drops
the node that waits and is in no bucket; and a pong cannot cancel what was begun in the past. -/
theorem Move.settled (h : Move sha3 now vouched replaced s t) (hno : ∀ id, ¬ replaced id)
    (hwell : WellFormed sha3 s) (hs : Settled now s) : Settled now t ∧ Grows s t := by
  cases h with
  | other h =>
    refine ⟨⟨?_, ?_, ?_⟩, grows_of_eq h.state⟩
    · rw [h.state, h.entries, h.nodes]
      exact hs.current
    · rw [h.evictions]
      exact hs.begun
    · intro e he
      rw [h.evictions] at he
      unfold Waits
      rw [h.state, h.entries, h.nodes]
      exact hs.waits e he
  | touch r ep => exact ⟨hs.setEntry rfl rfl, grows_of_eq rfl⟩
  | activate r => exact ⟨hs.setEntry rfl rfl, grows_of_eq rfl⟩
  | register node pending hvouched hfree =>
    have hnone : s.nodes node.id = none := hfree.resolve_right (hno _)
    have hnodes : ∀ id r, s.nodes id = some r →
        Function.update s.nodes node.id (some s.next) id = some r := by
      intro id r hr
      rw [Function.update_of_ne, hr]
      rintro rfl
      rw [hnone] at hr
      cases hr
    refine ⟨⟨fun bin r hr ↦ ?_, hs.begun, fun e he ↦ ?_⟩, grows_of_eq rfl⟩
    · have hlt := (hwell.members bin r hr).allocated
      simp only [Function.update_of_ne hlt.ne]
      exact hnodes _ _ (hs.current bin r hr)
    · obtain ⟨r, bin, hnode, hdistance, habsent⟩ := hs.waits e he
      have hlt := (hwell.registered _ r hnode).1
      refine ⟨r, bin, hnodes _ _ hnode, ?_, habsent⟩
      simpa only [Function.update_of_ne hlt.ne] using hdistance
  | @refresh bin r hr =>
    have hperm : ((s.state bin).erase r ++ [r]).Perm (s.state bin) :=
      List.perm_append_comm.trans (List.perm_cons_erase hr).symm
    refine ⟨hs.setBucket (fun x hx ↦ hs.current bin x (hperm.mem_iff.mp hx)) fun _ ↦ hperm, ?_⟩
    exact grows_setBucket hperm.symm.subset fun _ ↦ hperm
  | @insert bin r henters hroom =>
    refine ⟨hs.setBucket (fun x hx ↦ ?_) fun hfull ↦ absurd hroom hfull.not_gt, ?_⟩
    · rcases List.mem_append.mp hx with hx | hx
      · exact hs.current bin x hx
      · rw [List.mem_singleton.mp hx]
        exact henters.registered
    · exact grows_setBucket (List.subset_append_left ..) fun hfull ↦ absurd hroom hfull.not_gt
  | @replace bin r henters hfull hexpired =>
    have hhead : (s.state bin).headD 0 ∈ s.state bin := by
      rcases hnodes : s.state bin with _ | ⟨x, nodes⟩
      · rw [hnodes] at hfull
        exact absurd hfull (by decide)
      · exact List.mem_cons_self
    have hlive : s.lock ((s.state bin).headD 0) = true := by
      rw [lock, hs.current bin _ hhead, beq_self_eq_true, Bool.true_or]
    rw [hexpired] at hlive
    cases hlive
  | @evict bin r id henters hfull =>
    refine ⟨⟨hs.current, fun e he ↦ ?_, fun e he ↦ ?_⟩, grows_of_eq rfl⟩
    · rcases mem_emplace he with he | rfl
      · exact hs.begun e he
      · exact le_rfl
    · rcases mem_emplace he with he | rfl
      · exact hs.waits e he
      · exact ⟨r, bin, henters.registered, henters.distance, henters.absent, hfull⟩
  | @drop bin r e he hr hdistance =>
    obtain ⟨r', bin', hnode, hdistance', habsent, -⟩ := hs.waits e he
    obtain rfl : r = r' := Option.some.inj (hr.symm.trans hnode)
    obtain rfl : bin = bin' := Nat.succ.inj (hdistance.symm.trans hdistance')
    have hsame : (s.state bin).filter (· ≠ r) = s.state bin :=
      List.filter_eq_self.mpr fun x hx ↦ by simpa using ne_of_mem_of_not_mem hx habsent
    rw [hsame]
    exact ⟨hs.setBucket (hs.current bin) fun _ ↦ .refl _,
      grows_setBucket (List.Subset.refl _) fun _ ↦ .refl _⟩
  | cancel e he hnow => exact absurd (hs.begun e he) hnow.not_ge

theorem Steps.settled (h : Steps sha3 now vouched replaced s t) (hno : ∀ id, ¬ replaced id)
    (hwell : WellFormed sha3 s) (hs : Settled now s) : Settled now t ∧ Grows s t := by
  have hmoves := h hwell.registered
  clear h
  have hall : WellFormed sha3 t ∧ Settled now t ∧ Grows s t := by
    induction hmoves with
    | refl => exact ⟨hwell, hs, .refl s⟩
    | tail _ hmove ih =>
      obtain ⟨hwell', hs', hgrows⟩ := ih
      obtain ⟨hnext, hgrows'⟩ := hmove.settled hno hwell' hs'
      exact ⟨hmove.wellFormed hwell', hnext, hgrows.trans hgrows'⟩
  exact hall.2

end Settled

section Runs

variable {crypto : Crypto} {node : Node} {enabled : Bool} {s t : NodeTable}
  {events later : List (ℕ × TableEvent)}

def ReplacesNone (s : NodeTable) (event : TableEvent) : Prop := ∀ id, ¬ s.Replaces id event

theorem settled_start (clock : ℕ) : Settled clock (start node enabled) where
  current _ _ h := by simp [start] at h
  begun _ h := by simp [start] at h
  waits _ h := by simp [start] at h

theorem Run.settled {clock : ℕ} (h : Run crypto ReplacesNone s events t)
    (hwell : WellFormed crypto.sha3 s) (hs : Settled clock s) (hclock : ∀ e ∈ events, clock ≤ e.1)
    (hsorted : (events.map Prod.fst).Pairwise (· ≤ ·)) :
    (∀ now, clock ≤ now → (∀ e ∈ events, e.1 ≤ now) → Settled now t) ∧ Grows s t := by
  induction h with
  | nil => exact ⟨fun now hnow _ ↦ hs.mono hnow, .refl _⟩
  | @snoc t u events now event hrun hpossible hfresh hperform ih =>
    rw [List.map_append, List.pairwise_append] at hsorted
    obtain ⟨hbefore, hgrows⟩ :=
      ih (fun e he ↦ hclock e (List.mem_append_left _ he)) hsorted.1
    have hnow : clock ≤ now := hclock (now, event) (by simp)
    have hlast : ∀ e ∈ events, e.1 ≤ now :=
      fun e he ↦ hsorted.2.2 e.1 (List.mem_map_of_mem he) now (by simp)
    obtain ⟨hafter, hgrows'⟩ := (steps_of_perform hpossible hperform).settled hfresh
      (hrun.wellFormed hwell) (hbefore now hnow hlast)
    refine ⟨fun m _ hm ↦ hafter.mono (hm (now, event) (by simp)), hgrows.trans hgrows'⟩

theorem Run.eq_of_nil (h : Run crypto ReplacesNone s [] t) : t = s := by
  generalize hnil : ([] : List (ℕ × TableEvent)) = trace at h
  cases h with
  | nil => rfl
  | snoc => simp at hnil

/-- The eviction never acts. As long as no known node is added again, an entry never leaves its
bucket and no entry enters a full bucket, whatever is received and whenever the evictions are
checked. -/
theorem eviction_without_effect (hbefore : Run crypto ReplacesNone (start node enabled) events s)
    (hafter : Run crypto ReplacesNone s later t)
    (hsorted : ((events ++ later).map Prod.fst).Pairwise (· ≤ ·)) (bin : ℕ) :
    s.state bin ⊆ t.state bin ∧
      ((s.state bin).length = sBucketSize → (t.state bin).Perm (s.state bin)) := by
  rw [List.map_append, List.pairwise_append] at hsorted
  obtain ⟨hsorted, hsorted', hle⟩ := hsorted
  obtain ⟨hsettled, -⟩ := hbefore.settled wellFormed_start (settled_start 0)
    (fun _ _ ↦ Nat.zero_le _) hsorted
  have hwell := hbefore.wellFormed wellFormed_start
  -- The clock at which the second part begins is that of the last event of the first.
  have hgrows : Grows s t := by
    rcases later with _ | ⟨e, later⟩
    · rw [hafter.eq_of_nil]
      exact .refl s
    · have hfirst : ∀ x ∈ events, x.1 ≤ e.1 :=
        fun x hx ↦ hle x.1 (List.mem_map_of_mem hx) e.1 (by simp)
      refine (hafter.settled hwell (hsettled e.1 (Nat.zero_le _) hfirst) ?_ hsorted').2
      intro x hx
      rcases List.mem_cons.mp hx with rfl | hx
      · exact le_rfl
      · exact (List.pairwise_cons.mp hsorted').1 x.1 (List.mem_map_of_mem hx)
  obtain ⟨hsub, hfull⟩ := hgrows bin
  exact ⟨hsub, fun hlen ↦ hfull hlen.ge⟩

theorem replacesNone_addNode {node : Node} (h : s.nodes node.id = none) :
    ReplacesNone s (.addNode node .known) := by
  rintro id ⟨-, rfl, hsome⟩
  exact hsome h

section Crowd

def arrivals (now : ℕ) : List Node → List (ℕ × TableEvent)
  | [] => []
  | node :: nodes => (now, .addNode node .known) :: arrivals (now + 1) nodes

def introduce (crypto : Crypto) (now : ℕ) : List Node → NodeTable → NodeTable
  | [], s => s
  | node :: nodes, s =>
    introduce crypto (now + 1) nodes (perform crypto now (.addNode node .known) s).2

def strangers (crypto : Crypto) (now : ℕ) : List Node → NodeTable → Bool
  | [], _ => true
  | node :: nodes, s => (s.nodes node.id).isNone &&
    (perform crypto now (.addNode node .known) s).1.isOk &&
    strangers crypto (now + 1) nodes (perform crypto now (.addNode node .known) s).2

theorem run_introduce {now : ℕ} {nodes : List Node} (h : Run crypto ReplacesNone s events t)
    (hnew : strangers crypto now nodes t = true) :
    Run crypto ReplacesNone s (events ++ arrivals now nodes) (introduce crypto now nodes t) := by
  induction nodes generalizing now events t with
  | nil =>
    rw [arrivals, List.append_nil]
    exact h
  | cons node nodes ih =>
    rw [strangers, Bool.and_eq_true, Bool.and_eq_true] at hnew
    obtain ⟨⟨hnone, hok⟩, hnew⟩ := hnew
    have hadded : ReplacesNone t (.addNode node .known) :=
      replacesNone_addNode (Option.isNone_iff_eq_none.mp hnone)
    have hpossible : t.Possible (.addNode node .known) := trivial
    have hrun := ih (h.perform hpossible hadded hok) hnew
    rwa [List.append_assoc] at hrun

def fullTable : NodeTable :=
  introduce plainCrypto 0 ((List.range 16).map fun i ↦ localNode (32 + BitVec.ofNat 512 i))
    (start (localNode 2) true)

def crowdedTable : NodeTable := introduce plainCrypto 16 [localNode 48] fullTable

def checkedTable : NodeTable :=
  (perform plainCrypto 100000 (.checkEvictions crowdedTable.evictions) crowdedTable).2

theorem crowd_evaluated :
    strangers plainCrypto 0 ((List.range 16).map fun i ↦ localNode (32 + BitVec.ofNat 512 i))
        (start (localNode 2) true) = true ∧
      strangers plainCrypto 16 [localNode 48] fullTable = true ∧
      (fullTable.state 4).length = sBucketSize ∧ crowdedTable.evictions.length = 1 ∧
      crowdedTable.evictionChecks = 1 ∧
      (perform plainCrypto 100000 (.checkEvictions crowdedTable.evictions)
        crowdedTable).1.isOk = true := by
  decide +kernel

theorem eviction_without_effect_seventeenth :
    (fullTable.state 4).length = sBucketSize ∧ crowdedTable.evictions.length = 1 ∧
      (checkedTable.state 4).Perm (fullTable.state 4) := by
  obtain ⟨hsixteen, hlast, hfull, hbegun, hchecks, hok⟩ := crowd_evaluated
  have hbefore : Run plainCrypto ReplacesNone (start (localNode 2) true) _ fullTable :=
    run_introduce (Run.nil _) hsixteen
  have hcrowded : Run plainCrypto ReplacesNone fullTable _ crowdedTable :=
    run_introduce (Run.nil _) hlast
  have hafter : Run plainCrypto ReplacesNone fullTable _ checkedTable :=
    hcrowded.perform ⟨.refl _, by rw [hchecks]; decide⟩ (fun _ h ↦ h.elim) hok
  exact ⟨hfull, hbegun,
    (eviction_without_effect hbefore hafter (by decide) 4).2 hfull⟩

end Crowd

end Runs

end GseNetwork.Net.NodeTable
