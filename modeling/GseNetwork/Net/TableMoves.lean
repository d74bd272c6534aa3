import GseNetwork.Net.NodeTable

namespace GseNetwork.Net.NodeTable

open GseNetwork.Core GseNetwork.Foundation
open Relation (ReflTransGen)

section Moves

structure SameBuckets (s t : NodeTable) : Prop where
  id : t.node.id = s.node.id
  entries : t.entries = s.entries
  next : t.next = s.next
  nodes : t.nodes = s.nodes
  state : t.state = s.state
  evictions : t.evictions = s.evictions

theorem SameBuckets.refl (s : NodeTable) : SameBuckets s s := ⟨rfl, rfl, rfl, rfl, rfl, rfl⟩

theorem SameBuckets.trans {s t u : NodeTable} (h : SameBuckets s t) (h' : SameBuckets t u) :
    SameBuckets s u :=
  ⟨h'.id.trans h.id, h'.entries.trans h.entries, h'.next.trans h.next, h'.nodes.trans h.nodes,
    h'.state.trans h.state, h'.evictions.trans h.evictions⟩

def Registered (s : NodeTable) : Prop :=
  ∀ id r, s.nodes id = some r → r < s.next ∧ (s.entries r).id = id

structure Enters (s : NodeTable) (bin : ℕ) (r : Ref) : Prop where
  registered : s.nodes (s.entries r).id = some r
  active : (s.entries r).pending = false
  foreign : (s.entries r).id ≠ s.node.id
  allowed : (s.entries r).endpoint.isAllowed = true
  distance : (s.entries r).distance = bin + 1
  absent : r ∉ s.state bin

/-- The single changes every operation of the table is made of. `vouched` holds of the ids that may
become active, `replaced` of those that may be registered although they are. -/
inductive Move (sha3 : Bytes → H256) (now : ℕ) (vouched replaced : NodeID → Prop) :
    NodeTable → NodeTable → Prop
  | other {s t : NodeTable} : SameBuckets s t → Move sha3 now vouched replaced s t
  | touch {s : NodeTable} (r : Ref) (ep : UdpEndpoint) :
      (NodeIPEndpoint.mk ep.address ep.port ep.port).isAllowed = true →
      Move sha3 now vouched replaced s { s with
        entries := Function.update s.entries r { s.entries r with
          endpoint := { (s.entries r).endpoint with address := ep.address, udpPort := ep.port } } }
  | activate {s : NodeTable} (r : Ref) : vouched (s.entries r).id →
      Move sha3 now vouched replaced s { s with
        entries := Function.update s.entries r { s.entries r with pending := false } }
  | register {s : NodeTable} (node : Node) (pending : Bool) :
      (pending = false → vouched node.id) → (s.nodes node.id = none ∨ replaced node.id) →
      Move sha3 now vouched replaced s { s with
        next := s.next + 1
        entries := Function.update s.entries s.next {
          id := node.id, endpoint := node.endpoint
          distance := Net.distance sha3 s.node.id node.id, pending := pending }
        nodes := Function.update s.nodes node.id (some s.next) }
  | refresh {s : NodeTable} {bin : ℕ} {r : Ref} : r ∈ s.state bin →
      Move sha3 now vouched replaced s { s with
        state := Function.update s.state bin ((s.state bin).erase r ++ [r]) }
  | insert {s : NodeTable} {bin : ℕ} {r : Ref} : Enters s bin r →
      (s.state bin).length < sBucketSize →
      Move sha3 now vouched replaced s { s with
        state := Function.update s.state bin (s.state bin ++ [r]) }
  | replace {s : NodeTable} {bin : ℕ} {r : Ref} : Enters s bin r →
      sBucketSize ≤ (s.state bin).length → s.lock ((s.state bin).headD 0) = false →
      Move sha3 now vouched replaced s { s with
        state := Function.update s.state bin ((s.state bin).tail ++ [r]) }
  | evict {s : NodeTable} {bin : ℕ} {r : Ref} (id : NodeID) : Enters s bin r →
      sBucketSize ≤ (s.state bin).length →
      Move sha3 now vouched replaced s { s with
        evictions := emplace s.evictions id ⟨(s.entries r).id, now⟩ }
  | drop {s : NodeTable} {bin : ℕ} {r : Ref} (e : NodeID × EvictionTimeout) : e ∈ s.evictions →
      s.nodes e.2.newNodeID = some r → (s.entries r).distance = bin + 1 →
      Move sha3 now vouched replaced s { s with
        state := Function.update s.state bin ((s.state bin).filter (· ≠ r)) }
  | cancel {s : NodeTable} (e : NodeID × EvictionTimeout) : e ∈ s.evictions →
      now < e.2.evictedTimePoint →
      Move sha3 now vouched replaced s { s with
        evictions := s.evictions.filter fun x ↦ x.1 ≠ e.1 }

variable {sha3 : Bytes → H256} {now : ℕ} {vouched replaced : NodeID → Prop}

theorem registered_update {s : NodeTable} (hs : Registered s) (r : Ref)
    {e : NodeEntry} (he : e.id = (s.entries r).id) :
    Registered { s with entries := Function.update s.entries r e } := by
  intro id r' hr'
  obtain ⟨hlt, hid⟩ := hs id r' hr'
  refine ⟨hlt, ?_⟩
  rcases eq_or_ne r' r with rfl | hne
  · rw [← hid, ← he]
    exact congrArg NodeEntry.id (Function.update_self ..)
  · rw [← hid]
    exact congrArg NodeEntry.id (Function.update_of_ne hne ..)

theorem Move.registered {s t : NodeTable} (h : Move sha3 now vouched replaced s t)
    (hs : Registered s) : Registered t := by
  cases h with
  | other h =>
    intro id r hr
    rw [h.nodes] at hr
    rw [h.next, h.entries]
    exact hs id r hr
  | touch r ep => exact registered_update hs r rfl
  | activate r => exact registered_update hs r rfl
  | register node pending =>
    intro id r hr
    rcases eq_or_ne id node.id with rfl | hne
    · obtain rfl : s.next = r := by simpa using hr
      exact ⟨Nat.lt_succ_self _, by simp⟩
    · obtain ⟨hlt, hid⟩ := hs id r (by simpa [Function.update_of_ne hne] using hr)
      exact ⟨Nat.lt_succ_of_lt hlt,
        (congrArg NodeEntry.id (Function.update_of_ne hlt.ne ..)).trans hid⟩
  | refresh | insert | replace | evict | drop | cancel => exact hs

def Steps (sha3 : Bytes → H256) (now : ℕ) (vouched replaced : NodeID → Prop) (s t : NodeTable) :
    Prop :=
  Registered s → ReflTransGen (Move sha3 now vouched replaced) s t

theorem registered_of_moves {s t : NodeTable}
    (h : ReflTransGen (Move sha3 now vouched replaced) s t) (hs : Registered s) :
    Registered t := by
  induction h with
  | refl => exact hs
  | tail _ hmove ih => exact hmove.registered ih

theorem Steps.refl (s : NodeTable) : Steps sha3 now vouched replaced s s := fun _ ↦ .refl

theorem Steps.trans (s t u : NodeTable) (h : Steps sha3 now vouched replaced s t)
    (h' : Steps sha3 now vouched replaced t u) : Steps sha3 now vouched replaced s u :=
  fun hs ↦ (h hs).trans (h' (registered_of_moves (h hs) hs))

theorem Move.steps {s t : NodeTable} (h : Move sha3 now vouched replaced s t) :
    Steps sha3 now vouched replaced s t :=
  fun _ ↦ .single h

theorem SameBuckets.steps {s t : NodeTable} (h : SameBuckets s t) :
    Steps sha3 now vouched replaced s t :=
  (Move.other h).steps

end Moves

section Operations

variable {sha3 : Bytes → H256} {now : ℕ} {vouched replaced : NodeID → Prop} {α : Type}

abbrev Moves (sha3 : Bytes → H256) (now : ℕ) (vouched replaced : NodeID → Prop)
    (m : TableM α) : Prop :=
  Eff.Keeps (Steps sha3 now vouched replaced) m

theorem moves_pure (a : α) : Moves sha3 now vouched replaced (pure a) :=
  Eff.keeps_pure Steps.refl a

theorem Moves.bind {β : Type} {m : TableM α} {f : α → TableM β}
    (hm : Moves sha3 now vouched replaced m) (hf : ∀ a, Moves sha3 now vouched replaced (f a)) :
    Moves sha3 now vouched replaced (m >>= f) :=
  Eff.Keeps.bind Steps.trans hm hf

theorem steps_bind {β : Type} {m : TableM α} {f : α → TableM β} {s t : NodeTable}
    (hm : Steps sha3 now vouched replaced s (m t).2)
    (hf : ∀ a, Moves sha3 now vouched replaced (f a)) :
    Steps sha3 now vouched replaced s ((m >>= f) t).2 := by
  rcases hrun : m t with ⟨e | a, u⟩
  · rw [Eff.bind_error hrun]
    rwa [hrun] at hm
  · rw [Eff.bind_ok hrun]
    rw [hrun] at hm
    exact hm.trans _ _ _ (hf a u)

theorem moves_get_bind {β : Type} {f : NodeTable → TableM β}
    (h : ∀ s, Steps sha3 now vouched replaced s (f s s).2) :
    Moves sha3 now vouched replaced (Eff.get >>= f) := h

theorem moves_forEach {β : Type} {f : β → TableM Unit} (xs : List β)
    (h : ∀ x ∈ xs, Moves sha3 now vouched replaced (f x)) :
    Moves sha3 now vouched replaced (Eff.forEach xs f) :=
  Eff.keeps_forEach Steps.refl Steps.trans xs h

theorem moves_modify {f : NodeTable → NodeTable} (h : ∀ s, SameBuckets s (f s)) :
    Moves sha3 now vouched replaced (Eff.modify f) :=
  fun s ↦ (h s).steps

theorem steps_modify_bind {f : NodeTable → NodeTable} {g : Unit → TableM α} {s : NodeTable}
    (hf : SameBuckets s (f s)) (hg : Moves sha3 now vouched replaced (g ())) :
    Steps sha3 now vouched replaced s ((Eff.modify f >>= g) s).2 :=
  hf.steps.trans _ _ _ (hg (f s))

theorem moves_send (dest : UdpEndpoint) (packet : Packet) :
    Moves sha3 now vouched replaced (send dest packet) := by
  apply moves_modify
  intro s
  split
  · exact ⟨rfl, rfl, rfl, rfl, rfl, rfl⟩
  · exact .refl s

theorem moves_ping (dest : NodeIPEndpoint) : Moves sha3 now vouched replaced (ping dest) :=
  moves_get_bind fun s ↦ moves_send _ _ s

theorem moves_appendEvent (id : NodeID) (type : NodeTableEventType) :
    Moves sha3 now vouched replaced (appendEvent id type) :=
  moves_modify fun _ ↦ ⟨rfl, rfl, rfl, rfl, rfl, rfl⟩

theorem moves_updateEndpoint (destination : NodeIPEndpoint) :
    Moves sha3 now vouched replaced (updateEndpoint destination) :=
  moves_modify fun _ ↦ ⟨rfl, rfl, rfl, rfl, rfl, rfl⟩

theorem moves_doCheckEvictions : Moves sha3 now vouched replaced doCheckEvictions :=
  moves_modify fun _ ↦ ⟨rfl, rfl, rfl, rfl, rfl, rfl⟩

theorem bucket_eq (s : NodeTable) (r : Ref) (t : NodeTable) :
    (∃ bin, s.bucket r t = (.ok bin, t) ∧ (s.entries r).distance = bin + 1 ∧ bin < sBins) ∨
      s.bucket r t = (.error .outsideBuckets, t) := by
  unfold bucket
  split_ifs with h
  · exact .inl ⟨_, rfl, by omega, h.2⟩
  · exact .inr rfl

theorem steps_evict {s : NodeTable} {bin : ℕ} {r : Ref} (h : Enters s bin r)
    (hfull : sBucketSize ≤ (s.state bin).length) (leastSeen : Ref) :
    Steps sha3 now vouched replaced s (evict leastSeen r now s).2 := by
  unfold evict
  rw [Eff.get_bind_apply]
  split_ifs with hopen
  · rw [Eff.modify_bind_apply]
    apply Steps.trans _ _ _ (Move.evict (s.entries leastSeen).id h hfull).steps
    split_ifs
    · exact moves_doCheckEvictions.bind (fun _ ↦ moves_ping _) _
    · exact moves_ping _ _
  · exact .refl s

theorem moves_noteActiveNode (pubK : NodeID) (ep : UdpEndpoint) :
    Moves sha3 now vouched replaced (noteActiveNode pubK ep now) := by
  apply moves_get_bind
  intro s hs
  split_ifs with hskip
  · exact .refl
  obtain ⟨hself, hallowed⟩ := not_or.mp hskip
  simp only [Bool.not_eq_true, Bool.not_eq_false'] at hallowed
  rcases hnode : s.nodes pubK with _ | r
  · exact .refl
  obtain ⟨hlt, hid⟩ := hs pubK r hnode
  simp only
  split_ifs with hpending
  · exact .refl
  -- The entry gets the address and the port the node was seen at.
  have htouch : Move sha3 now vouched replaced s _ := Move.touch r ep hallowed
  generalize ht : ({ s with entries := Function.update s.entries r { s.entries r with
    endpoint := { (s.entries r).endpoint with address := ep.address, udpPort := ep.port } } } :
      NodeTable) = t at htouch
  have hentry : t.entries r = { s.entries r with
      endpoint := { (s.entries r).endpoint with address := ep.address, udpPort := ep.port } } := by
    rw [← ht]
    exact Function.update_self ..
  have hstate : t.state = s.state := by rw [← ht]
  have hlock : ∀ x, t.lock x = s.lock x := by
    intro x
    have hids : (t.entries x).id = (s.entries x).id := by
      rcases eq_or_ne x r with rfl | hne
      · rw [hentry]
      · rw [← ht]
        exact congrArg NodeEntry.id (Function.update_of_ne hne ..)
    unfold lock
    rw [hids, ← ht]
    rfl
  have hset : setEntry r (fun e ↦ { e with
      endpoint := { e.endpoint with address := ep.address, udpPort := ep.port } }) s =
        (.ok (), t) := by
    rw [← ht]
    rfl
  rw [Eff.bind_ok hset]
  apply ReflTransGen.head htouch
  have hregistered := htouch.registered hs
  rcases bucket_eq s r t with ⟨bin, hbin, hdistance, -⟩ | hbin
  · rw [Eff.bind_ok hbin]
    have henters : r ∉ s.state bin → Enters t bin r := by
      intro habsent
      refine ⟨?_, ?_, ?_, ?_, ?_, ?_⟩
      · rw [hentry, hid, ← ht]
        exact hnode
      · rw [hentry]
        exact Bool.eq_false_iff.mpr hpending
      · rw [hentry, hid, ← ht]
        exact hself
      · rw [hentry]
        exact hallowed
      · rw [hentry]
        exact hdistance
      · rwa [hstate]
    have hsetBucket : ∀ nodes, setBucket bin nodes t =
        (.ok (), { t with state := Function.update t.state bin nodes }) := fun _ ↦ rfl
    simp only [← hstate] at henters ⊢
    split_ifs with hmem hroom hlive
    · exact .single (.refresh hmem)
    · rw [Eff.bind_ok (hsetBucket _)]
      have hinsert : Move sha3 now vouched replaced t _ := .insert (henters hmem) hroom
      exact .head hinsert (moves_appendEvent _ _ _ (hinsert.registered hregistered))
    · exact steps_evict (henters hmem) (not_lt.mp hroom) _ hregistered
    · rw [Eff.bind_ok (hsetBucket _)]
      have hreplace : Move sha3 now vouched replaced t _ := .replace (henters hmem)
        (not_lt.mp hroom) ((hlock _).trans (Bool.eq_false_iff.mpr hlive))
      exact .head hreplace (moves_appendEvent _ _ _ (hreplace.registered hregistered))
  · rw [Eff.bind_error hbin]

theorem steps_dropNode {s : NodeTable} {r : Ref} {e : NodeID × EvictionTimeout}
    (he : e ∈ s.evictions) (hr : s.nodes e.2.newNodeID = some r) :
    Steps sha3 now vouched replaced s (dropNode r s).2 := by
  unfold dropNode
  rw [Eff.get_bind_apply]
  rcases bucket_eq s r s with ⟨bin, hbin, hdistance, -⟩ | hbin
  · rw [Eff.bind_ok hbin]
    exact (Move.drop e he hr hdistance).steps.trans _ _ _ (moves_appendEvent _ _ _)
  · rw [Eff.bind_error hbin]
    exact .refl s

theorem steps_addNode {s : NodeTable} {node : Node} {relation : NodeRelation}
    (h : relation = .known → vouched node.id ∧ (s.nodes node.id = none ∨ replaced node.id)) :
    Steps sha3 now vouched replaced s (addNode sha3 node relation now s).2 := by
  cases relation with
  | known =>
    obtain ⟨hvouched, hfree⟩ := h rfl
    exact (Move.register node false (fun _ ↦ hvouched) hfree).steps.trans _ _ _
      (moves_noteActiveNode _ _ _)
  | unknown =>
    simp only [addNode, Eff.get_bind_apply]
    split_ifs with hendpoint hid hknown
    · exact .refl s
    · refine steps_modify_bind ?_ (moves_ping _)
      exact ⟨rfl, rfl, rfl, rfl, rfl, rfl⟩
    · exact .refl s
    · have hfree : s.nodes node.id = none := Option.not_isSome_iff_eq_none.mp hknown
      exact (Move.register node true (by simp) (.inl hfree)).steps.trans _ _ _ (moves_ping _ _)

theorem moves_addUnknown (node : Node) :
    Moves sha3 now vouched replaced (addNode sha3 node .unknown now) :=
  fun _ ↦ steps_addNode (by simp)

theorem steps_activate {s : NodeTable} {r : Ref} {id : NodeID} (hr : s.nodes id = some r)
    (hid : vouched id) :
    Steps sha3 now vouched replaced s (setEntry r (fun e ↦ { e with pending := false }) s).2 := by
  intro hs
  exact .single (.activate r (by rwa [(hs id r hr).2]))

theorem steps_whenRegistered {s : NodeTable} {id : NodeID} {f : Ref → TableM Unit}
    (h : ∀ r, s.nodes id = some r → Steps sha3 now vouched replaced s (f r s).2) :
    Steps sha3 now vouched replaced s (whenRegistered id f s).2 := by
  unfold whenRegistered
  rw [Eff.get_bind_apply]
  rcases hid : s.nodes id with _ | r
  · exact .refl s
  · exact h r hid

theorem moves_acknowledge (sender : NodeID) (origin : UdpEndpoint) (hsender : vouched sender) :
    Moves sha3 now vouched replaced (acknowledge sha3 sender origin now) := by
  intro s
  unfold acknowledge
  rw [Eff.get_bind_apply]
  rcases hnode : s.nodes sender with _ | r
  · simp only
    split_ifs
    · refine steps_modify_bind ?_ ((moves_addUnknown _).bind fun _ ↦ moves_pure _)
      exact ⟨rfl, rfl, rfl, rfl, rfl, rfl⟩
    · exact .refl s
  · exact (steps_activate hnode hsender).trans _ _ _ (.refl _)

/-- Dropping the new node and striking the eviction off can be seen in either order. -/
theorem steps_keepLeastSeen {s : NodeTable} {e : NodeID × EvictionTimeout} (he : e ∈ s.evictions)
    (hnow : now < e.2.evictedTimePoint) (hid : vouched e.1) :
    Steps sha3 now vouched replaced s (keepLeastSeen e.1 e.2.newNodeID s).2 := by
  have hcancel : Move sha3 now vouched replaced s _ := Move.cancel e he hnow
  unfold keepLeastSeen
  rw [Eff.modify_bind_apply]
  refine steps_bind ?_ fun _ t ↦ steps_whenRegistered fun r hr ↦ steps_activate hr hid
  unfold whenRegistered
  rw [Eff.get_bind_apply]
  rcases hnew : s.nodes e.2.newNodeID with _ | r
  · exact hcancel.steps
  · simp only [dropNode]
    rw [Eff.get_bind_apply]
    rcases bucket_eq { s with evictions := s.evictions.filter fun x ↦ x.1 ≠ e.1 } r
      { s with evictions := s.evictions.filter fun x ↦ x.1 ≠ e.1 } with
      ⟨bin, hbin, hdistance, -⟩ | hbin
    · rw [Eff.bind_ok hbin]
      have hdrop : Move sha3 now vouched replaced s _ := .drop e he hnew hdistance
      have hcancel' : Move sha3 now vouched replaced
          { s with state := Function.update s.state bin ((s.state bin).filter (· ≠ r)) } _ :=
        .cancel e he hnow
      exact (hdrop.steps.trans _ _ _ hcancel'.steps).trans _ _ _ (moves_appendEvent _ _ _)
    · rw [Eff.bind_error hbin]
      exact hcancel.steps

theorem moves_onPong (sender : NodeID) (origin : UdpEndpoint) (destination : NodeIPEndpoint)
    (hsender : vouched sender) :
    Moves sha3 now vouched replaced (onPong sha3 sender origin destination now) := by
  intro s
  unfold onPong
  rw [Eff.get_bind_apply]
  have hrest : ∀ expected : Bool, Moves sha3 now vouched replaced (do
      if expected then updateEndpoint destination else pure ()
      return expected) := by
    intro expected
    split_ifs
    · exact (moves_updateEndpoint _).bind fun _ ↦ moves_pure _
    · exact moves_pure _
  rcases hfind : s.evictionOf sender now with _ | e
  · exact (moves_acknowledge sender origin hsender).bind hrest s
  · obtain ⟨hfound, hnow⟩ := Option.filter_eq_some_iff.mp hfind
    have hid : e.1 = sender := by simpa using List.find?_some hfound
    have hmem := List.mem_of_find?_eq_some hfound
    exact steps_bind (steps_keepLeastSeen hmem (of_decide_eq_true hnow) (hid ▸ hsender))
      fun _ ↦ hrest true

theorem moves_onPacket (sender : NodeID) (echo : H256) (origin : UdpEndpoint) (packet : Packet)
    (h : ∀ destination echo, packet = .pong destination echo → vouched sender) :
    Moves sha3 now vouched replaced (onPacket sha3 sender echo origin packet now) := by
  cases packet with
  | pingNode version source destination =>
    exact (moves_addUnknown _).bind fun _ ↦ (moves_send _ _).bind fun _ ↦ moves_pure _
  | pong destination echo => exact moves_onPong sender origin destination (h destination echo rfl)
  | findNode target =>
    intro s
    simp only [onPacket]
    rw [Eff.get_bind_apply]
    refine Moves.bind ?_ (fun _ ↦ moves_pure _) s
    exact moves_forEach _ fun _ _ ↦ moves_send _ _
  | neighbours list =>
    intro s
    simp only [onPacket]
    rw [Eff.get_bind_apply]
    refine steps_modify_bind ⟨rfl, rfl, rfl, rfl, rfl, rfl⟩ ?_
    split_ifs
    · exact (moves_forEach _ fun _ _ ↦ moves_addUnknown _).bind fun _ ↦ moves_pure _
    · exact moves_pure _

theorem dropNode_frame (r : Ref) (s : NodeTable) :
    (dropNode r s).2.evictions = s.evictions ∧ (dropNode r s).2.nodes = s.nodes := by
  unfold dropNode
  rw [Eff.get_bind_apply]
  rcases bucket_eq s r s with ⟨bin, hbin, -⟩ | hbin
  · rw [Eff.bind_ok hbin]
    exact ⟨rfl, rfl⟩
  · rw [Eff.bind_error hbin]
    exact ⟨rfl, rfl⟩

theorem steps_dropNodes (rs : List Ref) (s : NodeTable)
    (h : ∀ r ∈ rs, ∃ e ∈ s.evictions, s.nodes e.2.newNodeID = some r) :
    Steps sha3 now vouched replaced s (Eff.forEach rs dropNode s).2 := by
  induction rs generalizing s with
  | nil => exact .refl s
  | cons r rs ih =>
    obtain ⟨e, he, hr⟩ := h r List.mem_cons_self
    obtain ⟨hevictions, hnodes⟩ := dropNode_frame r s
    have hfirst : Steps sha3 now vouched replaced s (dropNode r s).2 := steps_dropNode he hr
    simp only [Eff.forEach]
    rcases hrun : dropNode r s with ⟨f | ⟨⟨⟩⟩, t⟩
    · rw [Eff.bind_error hrun]
      rwa [hrun] at hfirst
    · rw [Eff.bind_ok hrun]
      rw [hrun] at hevictions hnodes hfirst
      refine hfirst.trans _ _ _ (ih t fun r' hr' ↦ ?_)
      obtain ⟨e', he', hr'⟩ := h r' (List.mem_cons_of_mem _ hr')
      exact ⟨e', hevictions ▸ he', hnodes ▸ hr'⟩

theorem steps_checkEvictions {s : NodeTable} {order : List (NodeID × EvictionTimeout)}
    (h : order.Perm s.evictions) :
    Steps sha3 now vouched replaced s (checkEvictions order now s).2 := by
  unfold checkEvictions
  rw [Eff.get_bind_apply]
  refine steps_bind (steps_dropNodes _ s fun r hr ↦ ?_) fun _ t ↦ ?_
  · obtain ⟨e, he, hdrop⟩ := List.mem_filterMap.mp ((List.destutter_sublist _ _).subset hr)
    split_ifs at hdrop
    exact ⟨e, h.mem_iff.mp he, hdrop⟩
  · refine steps_modify_bind ⟨rfl, rfl, rfl, rfl, rfl, rfl⟩ ?_
    split_ifs
    · exact moves_doCheckEvictions
    · exact moves_pure ()

theorem moves_doDiscover (target : NodeID) (round : ℕ) (tried : List Ref) :
    Moves sha3 now vouched replaced (doDiscover sha3 target round tried now) := by
  have hfind : ∀ r, Moves sha3 now vouched replaced (findNode target now r) := by
    intro r s
    refine steps_modify_bind ⟨rfl, rfl, rfl, rfl, rfl, rfl⟩ ?_
    exact moves_get_bind fun t ↦ moves_send _ _ t
  intro s
  unfold doDiscover
  rw [Eff.get_bind_apply]
  split_ifs
  · exact SameBuckets.steps ⟨rfl, rfl, rfl, rfl, rfl, rfl⟩
  · exact SameBuckets.steps ⟨rfl, rfl, rfl, rfl, rfl, rfl⟩
  · refine (moves_forEach _ fun r _ ↦ hfind r).bind (fun _ ↦ ?_) s
    split_ifs
    · exact moves_modify fun _ ↦ ⟨rfl, rfl, rfl, rfl, rfl, rfl⟩
    · exact moves_modify fun _ ↦ ⟨rfl, rfl, rfl, rfl, rfl, rfl⟩

theorem moves_onDiscoveryTimer (target : NodeID) :
    Moves sha3 now vouched replaced (onDiscoveryTimer sha3 target now) := by
  intro s
  unfold onDiscoveryTimer
  rw [Eff.get_bind_apply]
  rcases s.discovery with _ | _ | ⟨target', round, tried⟩
  · exact .refl s
  · exact moves_doDiscover _ _ _ s
  · exact moves_doDiscover _ _ _ s

end Operations

section Events

variable (crypto : Crypto)

def Vouches (id : NodeID) : TableEvent → Prop
  | .addNode node relation => relation = .known ∧ node.id = id
  | .onReceived _ packet _ => ∃ datagram destination echo,
      DiscoveryDatagram.interpretUDP crypto packet = .ok (some datagram) ∧
      datagram.packet = .pong destination echo ∧ datagram.sourceid = id
  | _ => False

def Replaces (s : NodeTable) (id : NodeID) : TableEvent → Prop
  | .addNode node relation => relation = .known ∧ node.id = id ∧ s.nodes id ≠ none
  | _ => False

def Possible (s : NodeTable) : TableEvent → Prop
  | .checkEvictions order => order.Perm s.evictions ∧ 0 < s.evictionChecks
  | _ => True

theorem steps_perform {s : NodeTable} (now : ℕ) {event : TableEvent} (h : s.Possible event) :
    Steps crypto.sha3 now (fun id ↦ Vouches crypto id event) (fun id ↦ s.Replaces id event) s
      (perform crypto now event s).2 := by
  cases event with
  | addNode node relation =>
    apply steps_addNode
    rintro rfl
    refine ⟨⟨rfl, rfl⟩, ?_⟩
    by_cases hfree : s.nodes node.id = none
    · exact .inl hfree
    · exact .inr ⟨rfl, rfl, hfree⟩
  | onReceived origin packet seconds =>
    simp only [perform, onReceived]
    rcases hread : DiscoveryDatagram.interpretUDP crypto packet with e | _ | datagram
    · exact .refl s
    · exact .refl s
    simp only
    split_ifs
    · exact .refl s
    · refine Moves.bind (moves_onPacket _ _ _ _ fun destination echo hpong ↦ ?_) (fun active ↦ ?_) s
      · exact ⟨datagram, destination, echo, hread, hpong, rfl⟩
      · split_ifs
        · exact moves_noteActiveNode _ _
        · exact moves_pure ()
  | checkEvictions order => exact steps_checkEvictions h.1
  | discoveryTimer target => exact moves_onDiscoveryTimer target s
  | processEvents => exact SameBuckets.steps ⟨rfl, rfl, rfl, rfl, rfl, rfl⟩
  | disconnect => exact SameBuckets.steps ⟨rfl, rfl, rfl, rfl, rfl, rfl⟩

end Events

end GseNetwork.Net.NodeTable
