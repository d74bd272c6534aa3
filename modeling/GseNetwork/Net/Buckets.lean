import GseNetwork.Net.TableMoves

namespace GseNetwork.Net

open GseNetwork.Core GseNetwork.Foundation
open Relation (ReflTransGen)

section Distance

theorem distanceLoop_eq (fuel : ℕ) (d : H256) (ret : ℕ) (h : d.toNat < 2 ^ fuel) :
    distanceLoop fuel d ret = ret + Nat.log2 d.toNat := by
  induction fuel generalizing d ret with
  | zero =>
    have hd : d.toNat = 0 := by omega
    rw [distanceLoop, hd]
    rfl
  | succ fuel ih =>
    have hshift : (d >>> 1).toNat = d.toNat / 2 := by
      rw [BitVec.toNat_ushiftRight, Nat.shiftRight_one]
    have hzero : d >>> 1 = 0 ↔ d.toNat < 2 := by
      rw [← BitVec.toNat_inj, hshift]
      change d.toNat / 2 = 0 ↔ _
      omega
    rw [distanceLoop]
    split_ifs with hd
    · have hd' : ¬ d.toNat < 2 := fun h ↦ hd (hzero.mpr h)
      rw [ih _ _ (by rw [hshift]; omega), hshift]
      conv_rhs => rw [Nat.log2_def, if_pos (by omega)]
      omega
    · have hd' : d.toNat < 2 := hzero.mp (not_not.mp hd)
      rw [Nat.log2_def, if_neg (by omega)]
      rfl

variable {sha3 : Bytes → H256}

theorem distance_eq (x y : NodeID) : distance sha3 x y =
    Nat.log2 (sha3 (Foundation.BigEndian.toBigEndian 64 x.toNat) ^^^
      sha3 (Foundation.BigEndian.toBigEndian 64 y.toNat)).toNat := by
  rw [distance, distanceLoop_eq _ _ _ (BitVec.isLt _), Nat.zero_add]

theorem distance_le (x y : NodeID) : distance sha3 x y ≤ sBins := by
  rw [distance_eq]
  generalize hd : (_ ^^^ _ : H256) = d
  rcases eq_or_ne d.toNat 0 with h | h
  · rw [h]
    decide
  · have hlt : Nat.log2 d.toNat < 256 := (Nat.log2_lt h).mpr d.isLt
    have hbins : sBins = 255 := rfl
    omega

end Distance

namespace NodeTable

section Invariant

/-- An entry of a bucket is active, is not the node itself, has an address it may be reached at,
and is in the bucket of its distance. -/
structure Member (s : NodeTable) (bin : ℕ) (r : Ref) : Prop where
  allocated : r < s.next
  active : (s.entries r).pending = false
  foreign : (s.entries r).id ≠ s.node.id
  allowed : (s.entries r).endpoint.isAllowed = true
  distance : (s.entries r).distance = bin + 1

structure WellFormed (sha3 : Bytes → H256) (s : NodeTable) : Prop where
  registered : Registered s
  distances : ∀ r < s.next, (s.entries r).distance = Net.distance sha3 s.node.id (s.entries r).id
  evictions : ∀ e ∈ s.evictions, e.2.newNodeID ≠ s.node.id
  small : ∀ bin, (s.state bin).length ≤ sBucketSize
  nodup : ∀ bin, (s.state bin).Nodup
  members : ∀ bin, ∀ r ∈ s.state bin, Member s bin r

variable {sha3 : Bytes → H256} {now : ℕ} {vouched replaced : NodeID → Prop} {s t : NodeTable}

theorem Enters.member {bin : ℕ} {r : Ref} (h : Enters s bin r) (hs : Registered s) :
    Member s bin r :=
  ⟨(hs _ r h.registered).1, h.active, h.foreign, h.allowed, h.distance⟩

theorem WellFormed.setBucket (h : WellFormed sha3 s) {bin : ℕ} {nodes : List Ref}
    (hsmall : nodes.length ≤ sBucketSize) (hnodup : nodes.Nodup)
    (hmembers : ∀ r ∈ nodes, Member s bin r) :
    WellFormed sha3 { s with state := Function.update s.state bin nodes } where
  registered := h.registered
  distances := h.distances
  evictions := h.evictions
  small b := by
    rcases eq_or_ne b bin with rfl | hne
    · simpa using hsmall
    · simpa [Function.update_of_ne hne] using h.small b
  nodup b := by
    rcases eq_or_ne b bin with rfl | hne
    · simpa using hnodup
    · simpa [Function.update_of_ne hne] using h.nodup b
  members b r hr := by
    have hmember : Member s b r := by
      rcases eq_or_ne b bin with rfl | hne
      · exact hmembers r (by simpa using hr)
      · exact h.members b r (by simpa [Function.update_of_ne hne] using hr)
    exact ⟨hmember.allocated, hmember.active, hmember.foreign, hmember.allowed, hmember.distance⟩

/-- Changing one entry keeps the table well-formed if the id and the distance stay. -/
theorem WellFormed.setEntry (h : WellFormed sha3 s) {r : Ref} {e : NodeEntry}
    (hid : e.id = (s.entries r).id) (hdistance : e.distance = (s.entries r).distance)
    (hactive : (s.entries r).pending = false → e.pending = false)
    (hallowed : (s.entries r).endpoint.isAllowed = true → e.endpoint.isAllowed = true) :
    WellFormed sha3 { s with entries := Function.update s.entries r e } where
  registered := registered_update h.registered r hid
  distances x hx := by
    rcases eq_or_ne x r with rfl | hne
    · simp only [Function.update_self, hid, hdistance]
      exact h.distances x hx
    · simp only [Function.update_of_ne hne]
      exact h.distances x hx
  evictions := h.evictions
  small := h.small
  nodup := h.nodup
  members bin x hx := by
    have hmember := h.members bin x hx
    rcases eq_or_ne x r with rfl | hne
    · refine ⟨hmember.allocated, ?_, ?_, ?_, ?_⟩ <;> simp only [Function.update_self]
      · exact hactive hmember.active
      · exact hid ▸ hmember.foreign
      · exact hallowed hmember.allowed
      · exact hdistance.trans hmember.distance
    · refine ⟨hmember.allocated, ?_, ?_, ?_, ?_⟩ <;> simp only [Function.update_of_ne hne]
      · exact hmember.active
      · exact hmember.foreign
      · exact hmember.allowed
      · exact hmember.distance

theorem mem_emplace {evictions : List (NodeID × EvictionTimeout)} {id : NodeID}
    {timeout : EvictionTimeout} {e : NodeID × EvictionTimeout}
    (h : e ∈ emplace evictions id timeout) : e ∈ evictions ∨ e = (id, timeout) := by
  unfold emplace at h
  split_ifs at h
  · exact .inl h
  · simpa using h

theorem Move.wellFormed (h : Move sha3 now vouched replaced s t) (hs : WellFormed sha3 s) :
    WellFormed sha3 t := by
  have hregistered := h.registered hs.registered
  cases h with
  | other h =>
    refine ⟨hregistered, ?_, ?_, ?_, ?_, ?_⟩
    · rw [h.next, h.entries, h.id]
      exact hs.distances
    · rw [h.evictions, h.id]
      exact hs.evictions
    · rw [h.state]
      exact hs.small
    · rw [h.state]
      exact hs.nodup
    · intro bin r hr
      rw [h.state] at hr
      have hmember := hs.members bin r hr
      exact ⟨h.next ▸ hmember.allocated, h.entries ▸ hmember.active,
        h.entries ▸ h.id ▸ hmember.foreign, h.entries ▸ hmember.allowed,
        h.entries ▸ hmember.distance⟩
  | touch r ep hallowed => exact hs.setEntry rfl rfl id fun _ ↦ hallowed
  | activate r => exact hs.setEntry rfl rfl (fun _ ↦ rfl) id
  | register node pending =>
    have hother : ∀ r < s.next, Function.update s.entries s.next {
        id := node.id, endpoint := node.endpoint
        distance := Net.distance sha3 s.node.id node.id, pending := pending } r = s.entries r :=
      fun r hr ↦ Function.update_of_ne hr.ne ..
    refine ⟨hregistered, fun r hr ↦ ?_, hs.evictions, hs.small, hs.nodup, fun bin r hr ↦ ?_⟩
    · rcases Nat.lt_succ_iff_lt_or_eq.mp hr with hlt | rfl
      · simp only [hother r hlt]
        exact hs.distances r hlt
      · simp
    · have hmember := hs.members bin r hr
      refine ⟨Nat.lt_succ_of_lt hmember.allocated, ?_, ?_, ?_, ?_⟩ <;>
        simp only [hother r hmember.allocated]
      · exact hmember.active
      · exact hmember.foreign
      · exact hmember.allowed
      · exact hmember.distance
  | @refresh bin r hr =>
    have hperm : ((s.state bin).erase r ++ [r]).Perm (s.state bin) :=
      (List.perm_append_comm.trans (List.perm_cons_erase hr).symm)
    refine hs.setBucket ?_ ?_ ?_
    · rw [hperm.length_eq]
      exact hs.small bin
    · exact hperm.nodup_iff.mpr (hs.nodup bin)
    · exact fun x hx ↦ hs.members bin x (hperm.mem_iff.mp hx)
  | @insert bin r henters hroom =>
    refine hs.setBucket ?_ ?_ ?_
    · simpa using hroom
    · exact List.nodup_append.mpr ⟨hs.nodup bin, List.nodup_singleton r, fun a ha b hb ↦ by
        rw [List.mem_singleton.mp hb]
        exact ne_of_mem_of_not_mem ha henters.absent⟩
    · intro x hx
      rcases List.mem_append.mp hx with hx | hx
      · exact hs.members bin x hx
      · rw [List.mem_singleton.mp hx]
        exact henters.member hs.registered
  | @replace bin r henters hfull hexpired =>
    have hsub := List.tail_sublist (s.state bin)
    refine hs.setBucket ?_ ?_ ?_
    · have hle := hs.small bin
      have hpos : 0 < sBucketSize := by decide
      simp only [List.length_append, List.length_tail, List.length_singleton]
      omega
    · exact List.nodup_append.mpr ⟨hsub.nodup (hs.nodup bin), List.nodup_singleton r,
        fun a ha b hb ↦ by
          rw [List.mem_singleton.mp hb]
          exact ne_of_mem_of_not_mem (hsub.subset ha) henters.absent⟩
    · intro x hx
      rcases List.mem_append.mp hx with hx | hx
      · exact hs.members bin x (hsub.subset hx)
      · rw [List.mem_singleton.mp hx]
        exact henters.member hs.registered
  | evict id henters hfull =>
    refine ⟨hregistered, hs.distances, fun e he ↦ ?_, hs.small, hs.nodup, fun bin x hx ↦ ?_⟩
    · rcases mem_emplace he with he | rfl
      · exact hs.evictions e he
      · exact henters.foreign
    · have hmember := hs.members bin x hx
      exact ⟨hmember.allocated, hmember.active, hmember.foreign, hmember.allowed, hmember.distance⟩
  | drop e he hr hdistance =>
    exact hs.setBucket ((List.length_filter_le ..).trans (hs.small _)) ((hs.nodup _).filter _)
      fun x hx ↦ hs.members _ x (List.mem_filter.mp hx).1
  | cancel e he hnow =>
    refine ⟨hregistered, hs.distances, fun x hx ↦ ?_, hs.small, hs.nodup, fun bin x hx ↦ ?_⟩
    · exact hs.evictions x (List.mem_filter.mp hx).1
    · have hmember := hs.members bin x hx
      exact ⟨hmember.allocated, hmember.active, hmember.foreign, hmember.allowed, hmember.distance⟩

theorem Steps.wellFormed (h : Steps sha3 now vouched replaced s t) (hs : WellFormed sha3 s) :
    WellFormed sha3 t := by
  have hmoves := h hs.registered
  clear h
  induction hmoves with
  | refl => exact hs
  | tail _ hmove ih => exact hmove.wellFormed ih

end Invariant

section Runs

def start (node : Node) (enabled : Bool) : NodeTable where
  node := node
  isOpen := enabled
  discovery := if enabled then .refresh else .stopped

/-- The events a table goes through, with their times, among those that are `allowed`. -/
inductive Run (crypto : Crypto) (allowed : NodeTable → TableEvent → Prop) :
    NodeTable → List (ℕ × TableEvent) → NodeTable → Prop
  | nil (s : NodeTable) : Run crypto allowed s [] s
  | snoc {s t u : NodeTable} {events : List (ℕ × TableEvent)} {now : ℕ} {event : TableEvent} :
      Run crypto allowed s events t → t.Possible event → allowed t event →
      perform crypto now event t = (.ok (), u) → Run crypto allowed s (events ++ [(now, event)]) u

variable {crypto : Crypto} {allowed : NodeTable → TableEvent → Prop} {node : Node}
  {enabled : Bool} {s t : NodeTable} {events : List (ℕ × TableEvent)}

theorem steps_of_perform {now : ℕ} {event : TableEvent} (hpossible : s.Possible event)
    (h : perform crypto now event s = (.ok (), t)) :
    Steps crypto.sha3 now (fun id ↦ Vouches crypto id event) (fun id ↦ s.Replaces id event)
      s t := by
  have hsteps := steps_perform crypto now hpossible
  rwa [h] at hsteps

theorem wellFormed_start : WellFormed crypto.sha3 (start node enabled) where
  registered _ _ h := by simp [start] at h
  distances r hr := absurd hr (Nat.not_lt_zero r)
  evictions _ h := by simp [start] at h
  small _ := Nat.zero_le _
  nodup _ := List.nodup_nil
  members _ _ h := by simp [start] at h

theorem Run.wellFormed (h : Run crypto allowed s events t) (hs : WellFormed crypto.sha3 s) :
    WellFormed crypto.sha3 t := by
  induction h with
  | nil => exact hs
  | snoc _ hpossible _ hperform ih => exact (steps_of_perform hpossible hperform).wellFormed ih

end Runs

section Faults

def Collides (sha3 : Bytes → H256) (s : NodeTable) : Prop :=
  ∃ id r, s.nodes id = some r ∧ id ≠ s.node.id ∧ Net.distance sha3 s.node.id id = 0

variable {sha3 : Bytes → H256} {now : ℕ} {vouched replaced : NodeID → Prop} {α β : Type}
  {s t : NodeTable}

theorem Move.id_eq (h : Move sha3 now vouched replaced s t) : t.node.id = s.node.id := by
  cases h with
  | other h => exact h.id
  | _ => rfl

theorem Steps.id_eq (h : Steps sha3 now vouched replaced s t) (hs : Registered s) :
    t.node.id = s.node.id := by
  have hmoves := h hs
  clear h
  induction hmoves with
  | refl => rfl
  | tail _ hmove ih => exact hmove.id_eq.trans ih

def Total (m : TableM α) : Prop := ∀ s, ∃ a t, m s = (.ok a, t)

theorem total_pure (a : α) : Total (pure a : TableM α) := fun s ↦ ⟨a, s, rfl⟩

theorem total_get : Total (Eff.get : TableM NodeTable) := fun s ↦ ⟨s, s, rfl⟩

theorem total_modify (f : NodeTable → NodeTable) : Total (Eff.modify f : TableM Unit) :=
  fun s ↦ ⟨(), f s, rfl⟩

theorem Total.bind {m : TableM α} {f : α → TableM β} (hm : Total m) (hf : ∀ a, Total (f a)) :
    Total (m >>= f) := by
  intro s
  obtain ⟨a, t, hrun⟩ := hm s
  rw [Eff.bind_ok hrun]
  exact hf a t

theorem total_forEach {f : β → TableM Unit} (h : ∀ x, Total (f x)) (xs : List β) :
    Total (Eff.forEach xs f) := by
  induction xs with
  | nil => exact total_pure ()
  | cons x xs ih => exact (h x).bind fun _ ↦ ih

theorem total_ping (dest : NodeIPEndpoint) : Total (ping dest) :=
  total_get.bind fun _ ↦ total_modify _

theorem total_evict (leastSeen ne : Ref) : Total (evict leastSeen ne now) := by
  refine total_get.bind fun s ↦ ?_
  split_ifs
  · refine (total_modify _).bind fun _ ↦ ?_
    split_ifs
    · exact (total_modify _).bind fun _ ↦ total_ping _
    · exact total_ping _
  · exact total_pure ()

def Guarded (sha3 : Bytes → H256) (m : TableM α) (s : NodeTable) : Prop :=
  WellFormed sha3 s → ∀ f t, m s = (.error f, t) → Collides sha3 t

theorem Total.guarded {m : TableM α} (h : Total m) (s : NodeTable) : Guarded sha3 m s := by
  intro _ f u hrun
  obtain ⟨a, t, hok⟩ := h s
  rw [hok] at hrun
  cases (Prod.mk.inj hrun).1

theorem Guarded.bind {m : TableM α} {f : α → TableM β} (hm : Guarded sha3 m s)
    (hsteps : Steps sha3 now vouched replaced s (m s).2)
    (hf : ∀ a t, m s = (.ok a, t) → Guarded sha3 (f a) t) : Guarded sha3 (m >>= f) s := by
  intro hs g u hrun
  rcases hm' : m s with ⟨e | a, t⟩
  · rw [Eff.bind_error hm'] at hrun
    obtain rfl := (Prod.mk.inj hrun).2
    exact hm hs e t hm'
  · rw [Eff.bind_ok hm'] at hrun
    rw [hm'] at hsteps
    exact hf a t hm' (hsteps.wellFormed hs) g u hrun

theorem guarded_bind_total {m : TableM α} {f : α → TableM β} (hm : Guarded sha3 m s)
    (hf : ∀ a, Total (f a)) : Guarded sha3 (m >>= f) s := by
  intro hs g u hrun
  rcases hm' : m s with ⟨e | a, t⟩
  · rw [Eff.bind_error hm'] at hrun
    obtain rfl := (Prod.mk.inj hrun).2
    exact hm hs e t hm'
  · obtain ⟨b, v, hok⟩ := hf a t
    rw [Eff.bind_ok hm', hok] at hrun
    cases (Prod.mk.inj hrun).1

theorem guarded_get_bind {f : NodeTable → TableM β} (h : Guarded sha3 (f s) s) :
    Guarded sha3 (Eff.get >>= f) s :=
  fun hs g u hrun ↦ h hs g u hrun

theorem collides_of_bucket {r : Ref} {id : NodeID} {u t : NodeTable} {f : Fault}
    (hs : WellFormed sha3 s) (hr : s.nodes id = some r) (hid : id ≠ s.node.id)
    (hnodes : u.nodes = s.nodes) (hnode : u.node = s.node)
    (h : s.bucket r u = (.error f, t)) : Collides sha3 t := by
  obtain ⟨hlt, hentry⟩ := hs.registered id r hr
  have hdistance := hs.distances r hlt
  rw [hentry] at hdistance
  have hle : Net.distance sha3 s.node.id id ≤ 255 := distance_le _ _
  unfold bucket at h
  split_ifs at h with hinside
  · cases (Prod.mk.inj h).1
  · obtain rfl := (Prod.mk.inj h).2
    refine ⟨id, r, hnodes ▸ hr, hnode ▸ hid, ?_⟩
    have hbins : sBins = 255 := rfl
    rw [hnode]
    omega

theorem guarded_noteActiveNode (pubK : NodeID) (ep : UdpEndpoint) (s : NodeTable) :
    Guarded sha3 (noteActiveNode pubK ep now) s := by
  intro hs f u hrun
  unfold noteActiveNode at hrun
  rw [Eff.get_bind_apply] at hrun
  split_ifs at hrun with hskip
  · cases (Prod.mk.inj hrun).1
  rcases hnode : s.nodes pubK with _ | r
  · rw [hnode] at hrun
    cases (Prod.mk.inj hrun).1
  rw [hnode] at hrun
  simp only at hrun
  split_ifs at hrun
  · cases (Prod.mk.inj hrun).1
  obtain ⟨v, hset, hvnodes, hvnode⟩ : ∃ v, setEntry r (fun e ↦ { e with
      endpoint := { e.endpoint with address := ep.address, udpPort := ep.port } }) s =
        (.ok (), v) ∧ v.nodes = s.nodes ∧ v.node = s.node := ⟨_, rfl, rfl, rfl⟩
  rw [Eff.bind_ok hset] at hrun
  rcases hbucket : s.bucket r v with ⟨g | bin, w⟩
  · rw [Eff.bind_error hbucket] at hrun
    obtain rfl := (Prod.mk.inj hrun).2
    exact collides_of_bucket hs hnode (not_or.mp hskip).1 hvnodes hvnode hbucket
  · rw [Eff.bind_ok hbucket] at hrun
    exfalso
    split_ifs at hrun
    · cases (Prod.mk.inj hrun).1
    · cases (Prod.mk.inj hrun).1
    · obtain ⟨_, _, hok⟩ : ∃ a v, evict ((s.state bin).headD 0) r now w = (.ok a, v) :=
        total_evict _ _ w
      rw [hok] at hrun
      cases (Prod.mk.inj hrun).1
    · cases (Prod.mk.inj hrun).1

theorem guarded_dropNode {r : Ref} {id : NodeID} (hr : s.nodes id = some r)
    (hid : id ≠ s.node.id) : Guarded sha3 (dropNode r) s := by
  intro hs f u hrun
  unfold dropNode at hrun
  rw [Eff.get_bind_apply] at hrun
  rcases hbucket : s.bucket r s with ⟨g | bin, w⟩
  · rw [Eff.bind_error hbucket] at hrun
    obtain rfl := (Prod.mk.inj hrun).2
    exact collides_of_bucket hs hr hid rfl rfl hbucket
  · rw [Eff.bind_ok hbucket] at hrun
    cases (Prod.mk.inj hrun).1

theorem total_addUnknown (node : Node) : Total (addNode sha3 node .unknown now) := by
  refine total_get.bind fun t ↦ ?_
  split_ifs
  · exact total_pure ()
  · exact (total_modify _).bind fun _ ↦ total_ping _
  · exact total_pure ()
  · exact (total_modify _).bind fun _ ↦ total_ping _

theorem guarded_addNode (node : Node) (relation : NodeRelation) (s : NodeTable) :
    Guarded sha3 (addNode sha3 node relation now) s := by
  cases relation with
  | known =>
    have hsteps : Steps sha3 now (fun _ ↦ True) (fun _ ↦ True) s _ :=
      (Move.register node false (fun _ ↦ trivial) (.inr trivial)).steps
    exact Guarded.bind ((total_modify _).guarded s) hsteps fun _ t _ ↦
      guarded_noteActiveNode _ _ t
  | unknown => exact (total_addUnknown node).guarded s

theorem total_whenRegistered {id : NodeID} {f : Ref → TableM Unit} (h : ∀ r, Total (f r)) :
    Total (whenRegistered id f) := by
  refine total_get.bind fun s ↦ ?_
  rcases s.nodes id with _ | r
  · exact total_pure ()
  · exact h r

theorem guarded_keepLeastSeen {e : NodeID × EvictionTimeout} (he : e ∈ s.evictions)
    (hnow : now < e.2.evictedTimePoint) :
    Guarded sha3 (keepLeastSeen e.1 e.2.newNodeID) s := by
  intro hs
  have hsteps : Steps sha3 now (fun _ ↦ True) (fun _ ↦ True) s _ :=
    (Move.cancel e he hnow).steps
  refine Guarded.bind ((total_modify _).guarded s) hsteps (fun _ t ht ↦ ?_) hs
  obtain rfl := (Prod.mk.inj ht).2
  refine guarded_bind_total ?_ fun _ ↦ total_whenRegistered fun _ ↦ total_modify _
  intro ht f u hrun
  unfold whenRegistered at hrun
  rw [Eff.get_bind_apply] at hrun
  rcases hnew : s.nodes e.2.newNodeID with _ | r
  · simp only [hnew] at hrun
    cases (Prod.mk.inj hrun).1
  · simp only [hnew] at hrun
    have hdrop : Guarded sha3 (dropNode r)
        { s with evictions := s.evictions.filter fun x ↦ x.1 ≠ e.1 } :=
      guarded_dropNode hnew (hs.evictions e he)
    exact hdrop ht f u hrun

theorem total_acknowledge (sender : NodeID) (origin : UdpEndpoint) :
    Total (acknowledge sha3 sender origin now) := by
  refine total_get.bind fun s ↦ ?_
  rcases s.nodes sender with _ | r
  · split_ifs
    · exact (total_modify _).bind fun _ ↦ (total_addUnknown _).bind fun _ ↦ total_pure _
    · exact total_pure _
  · exact (total_modify _).bind fun _ ↦ total_pure _

theorem guarded_onPong (sender : NodeID) (origin : UdpEndpoint) (destination : NodeIPEndpoint)
    (s : NodeTable) : Guarded sha3 (onPong sha3 sender origin destination now) s := by
  have hrest : ∀ expected : Bool, Total (do
      if expected then updateEndpoint destination else pure ()
      return expected) := by
    intro expected
    split_ifs
    · exact (total_modify _).bind fun _ ↦ total_pure _
    · exact total_pure _
  intro hs f u hrun
  unfold onPong at hrun
  rw [Eff.get_bind_apply] at hrun
  rcases hfind : s.evictionOf sender now with _ | e
  · rw [hfind] at hrun
    exact ((total_acknowledge sender origin).bind hrest).guarded s hs f u hrun
  · rw [hfind] at hrun
    obtain ⟨hfound, hnow⟩ := Option.filter_eq_some_iff.mp hfind
    have hkeep : Guarded sha3 (keepLeastSeen e.1 e.2.newNodeID) s :=
      guarded_keepLeastSeen (List.mem_of_find?_eq_some hfound) (of_decide_eq_true hnow)
    exact guarded_bind_total hkeep (fun _ ↦ hrest true) hs f u hrun

theorem guarded_onPacket (sender : NodeID) (echo : H256) (origin : UdpEndpoint) (packet : Packet)
    (s : NodeTable) : Guarded sha3 (onPacket sha3 sender echo origin packet now) s := by
  cases packet with
  | pingNode version source destination =>
    exact ((total_addUnknown _).bind fun _ ↦ (total_modify _).bind fun _ ↦ total_pure _).guarded s
  | pong destination echo => exact guarded_onPong sender origin destination s
  | findNode target =>
    refine Total.guarded (total_get.bind fun t ↦ ?_) s
    refine Total.bind ?_ fun _ ↦ total_pure _
    exact total_forEach (fun _ ↦ total_modify _) _
  | neighbours list =>
    refine Total.guarded (total_get.bind fun t ↦ (total_modify _).bind fun _ ↦ ?_) s
    split_ifs
    · exact (total_forEach (fun _ ↦ total_addUnknown _) _).bind fun _ ↦ total_pure _
    · exact total_pure _

theorem guarded_dropNodes (rs : List Ref) (s : NodeTable)
    (h : ∀ r ∈ rs, ∃ e ∈ s.evictions, s.nodes e.2.newNodeID = some r) :
    Guarded sha3 (Eff.forEach rs dropNode) s := by
  induction rs generalizing s with
  | nil => exact (total_pure ()).guarded s
  | cons r rs ih =>
    intro hs
    obtain ⟨e, he, hr⟩ := h r List.mem_cons_self
    obtain ⟨hevictions, hnodes⟩ := dropNode_frame r s
    have hsteps : Steps sha3 0 (fun _ ↦ True) (fun _ ↦ True) s (dropNode r s).2 :=
      steps_dropNode he hr
    refine Guarded.bind (guarded_dropNode hr (hs.evictions e he)) hsteps (fun _ t ht ↦ ih t ?_) hs
    intro r' hr'
    obtain ⟨e', he', hr'⟩ := h r' (List.mem_cons_of_mem _ hr')
    rw [ht] at hevictions hnodes
    exact ⟨e', hevictions ▸ he', hnodes ▸ hr'⟩

theorem total_doDiscover (target : NodeID) (round : ℕ) (tried : List Ref) :
    Total (doDiscover sha3 target round tried now) := by
  refine total_get.bind fun s ↦ ?_
  split_ifs
  · exact total_modify _
  · exact total_modify _
  · refine Total.bind ?_ fun _ ↦ ?_
    · exact total_forEach (fun r ↦ (total_modify _).bind fun _ ↦
        total_get.bind fun _ ↦ total_modify _) _
    · split_ifs
      · exact total_modify _
      · exact total_modify _

theorem guarded_perform (crypto : Crypto) {event : TableEvent} (hpossible : s.Possible event) :
    Guarded crypto.sha3 (perform crypto now event) s := by
  cases event with
  | addNode node relation => exact guarded_addNode node relation s
  | onReceived origin packet seconds =>
    simp only [perform, onReceived]
    rcases DiscoveryDatagram.interpretUDP crypto packet with e | _ | datagram
    · exact (total_pure ()).guarded s
    · exact (total_pure ()).guarded s
    simp only
    split_ifs
    · exact (total_pure ()).guarded s
    · have hmoves : Moves crypto.sha3 now (fun _ ↦ True) (fun _ ↦ True)
          (onPacket crypto.sha3 datagram.sourceid datagram.echo origin datagram.packet now) :=
        moves_onPacket _ _ _ _ fun _ _ _ ↦ trivial
      refine Guarded.bind (guarded_onPacket _ _ _ _ s) (hmoves s) fun active t _ ↦ ?_
      split_ifs
      · exact guarded_noteActiveNode _ _ t
      · exact (total_pure ()).guarded t
  | checkEvictions order =>
    refine guarded_get_bind (guarded_bind_total (guarded_dropNodes _ s fun r hr ↦ ?_) fun _ ↦
      (total_modify _).bind fun _ ↦ ?_)
    · obtain ⟨e, he, hdrop⟩ := List.mem_filterMap.mp ((List.destutter_sublist _ _).subset hr)
      split_ifs at hdrop
      exact ⟨e, hpossible.1.mem_iff.mp he, hdrop⟩
    · split_ifs
      · exact total_modify _
      · exact total_pure ()
  | discoveryTimer target =>
    refine Total.guarded (total_get.bind fun t ↦ ?_) s
    rcases t.discovery with _ | _ | ⟨target', round, tried⟩
    · exact total_pure ()
    · exact total_doDiscover _ _ _
    · exact total_doDiscover _ _ _
  | processEvents => exact (total_modify _).guarded s
  | disconnect => exact (total_modify _).guarded s

end Faults

section Reached

variable {crypto : Crypto} {allowed : NodeTable → TableEvent → Prop} {node : Node}
  {enabled : Bool} {s t : NodeTable} {events : List (ℕ × TableEvent)}

theorem Run.id_eq (h : Run crypto allowed s events t) (hs : WellFormed crypto.sha3 s) :
    t.node.id = s.node.id := by
  induction h with
  | nil => rfl
  | snoc hrun hpossible _ hperform ih =>
    have hregistered := (hrun.wellFormed hs).registered
    exact ((steps_of_perform hpossible hperform).id_eq hregistered).trans ih

/-- Whatever is received, added or due, and in whatever order: no bucket holds more than sixteen
entries or an entry twice, every entry is active, reachable, not the node itself and in the bucket
of its distance, and a bucket outside the table is accessed only for a registered id that is as near
as the node itself. -/
theorem buckets_of_run (h : Run crypto allowed (start node enabled) events s) :
    (∀ bin, (s.state bin).length ≤ sBucketSize ∧ (s.state bin).Nodup ∧ ∀ r ∈ s.state bin,
      (s.entries r).pending = false ∧ (s.entries r).endpoint.isAllowed = true ∧
      (s.entries r).id ≠ node.id ∧
      Net.distance crypto.sha3 node.id (s.entries r).id = bin + 1) ∧
    ∀ now event f t, s.Possible event → perform crypto now event s = (.error f, t) →
      ∃ id r, t.nodes id = some r ∧ id ≠ node.id ∧ Net.distance crypto.sha3 node.id id = 0 := by
  have hs := h.wellFormed wellFormed_start
  have hid : s.node.id = node.id := h.id_eq wellFormed_start
  refine ⟨fun bin ↦ ⟨hs.small bin, hs.nodup bin, fun r hr ↦ ?_⟩, ?_⟩
  · have hmember := hs.members bin r hr
    have hdistance := hs.distances r hmember.allocated
    rw [hid] at hdistance
    exact ⟨hmember.active, hmember.allowed, hid ▸ hmember.foreign,
      hdistance.symm.trans hmember.distance⟩
  · intro now event f t hpossible hperform
    have hsteps := steps_perform crypto now hpossible
    rw [hperform] at hsteps
    rw [← hid, ← hsteps.id_eq hs.registered]
    exact guarded_perform crypto hpossible hs f t hperform

def localNode (id : NodeID) : Node := ⟨id, ⟨.v4 0x7f000001, 30303, 30303⟩⟩

theorem Run.perform {now : ℕ} {event : TableEvent} (h : Run crypto allowed s events t)
    (hpossible : t.Possible event) (hallowed : allowed t event)
    (hok : (NodeTable.perform crypto now event t).1.isOk = true) :
    Run crypto allowed s (events ++ [(now, event)]) (NodeTable.perform crypto now event t).2 := by
  refine .snoc h hpossible hallowed (Prod.ext ?_ rfl)
  rcases hresult : (NodeTable.perform crypto now event t).1 with _ | _
  · rw [hresult] at hok
    cases hok
  · rfl

def known : NodeTable :=
  (perform plainCrypto 0 (.addNode (localNode 5) .known) (start (localNode 2) true)).2

theorem run_known {allowed : NodeTable → TableEvent → Prop}
    (h : allowed (start (localNode 2) true) (.addNode (localNode 5) .known)) :
    Run plainCrypto allowed (start (localNode 2) true) [(0, .addNode (localNode 5) .known)] known :=
  (Run.nil _).perform trivial h (by decide +kernel)

theorem buckets_of_run_known : (known.state 1).length ≤ sBucketSize ∧ ∀ r ∈ known.state 1,
    Net.distance plainCrypto.sha3 (localNode 2).id (known.entries r).id = 2 := by
  have hrun : Run plainCrypto (fun _ _ ↦ True) (start (localNode 2) true) _ known :=
    run_known trivial
  obtain ⟨hlen, -, hmembers⟩ := (buckets_of_run hrun).1 1
  exact ⟨hlen, fun r hr ↦ (hmembers r hr).2.2.2⟩

end Reached

end NodeTable

end GseNetwork.Net
