import GseNetwork.Net.DatagramRoundTrip
import GseNetwork.Net.Nearest

namespace GseNetwork.Net

open GseNetwork.Core GseNetwork.Foundation

def Packet.Plain : Packet → Prop
  | .neighbours _ => False
  | _ => True

namespace NodeTable

section Sends

variable {P Q : Packet → Prop} {s t u : NodeTable} {α β : Type}

def Adds (P : Packet → Prop) (s t : NodeTable) : Prop := ∀ x ∈ t.sent, x ∈ s.sent ∨ P x.2

theorem Adds.refl (s : NodeTable) : Adds P s s := fun _ ↦ .inl

theorem Adds.trans (s t u : NodeTable) (h : Adds P s t) (h' : Adds P t u) : Adds P s u := by
  intro x hx
  rcases h' x hx with hx | hx
  · exact h x hx
  · exact .inr hx

theorem Adds.mono (h : Adds P s t) (hPQ : ∀ p, P p → Q p) : Adds Q s t :=
  fun x hx ↦ (h x hx).imp_right (hPQ x.2)

def Sends (P : Packet → Prop) (m : TableM α) : Prop := Eff.Keeps (Adds P) m

theorem sends_pure (a : α) : Sends P (pure a : TableM α) := Eff.keeps_pure .refl a

theorem Sends.bind {m : TableM α} {f : α → TableM β} (hm : Sends P m) (hf : ∀ a, Sends P (f a)) :
    Sends P (m >>= f) :=
  Eff.Keeps.bind Adds.trans hm hf

theorem Sends.mono {m : TableM α} (h : Sends P m) (hPQ : ∀ p, P p → Q p) : Sends Q m :=
  fun s ↦ (h s).mono hPQ

theorem Adds.bind {m : TableM α} {f : α → TableM β} (hm : Adds P s (m s).2)
    (hf : ∀ a, Sends P (f a)) : Adds P s ((m >>= f) s).2 := by
  rcases hms : m s with ⟨e | a, t⟩
  · rw [hms] at hm
    rwa [Eff.bind_error hms]
  · rw [hms] at hm
    rw [Eff.bind_ok hms]
    exact hm.trans s t _ (hf a t)

theorem sends_get : Sends P (Eff.get : TableM NodeTable) := Adds.refl

theorem sends_silent {f : NodeTable → NodeTable} (h : ∀ s, (f s).sent = s.sent) :
    Sends P (Eff.modify f : TableM Unit) :=
  fun s _ hx ↦ .inl (h s ▸ hx)

theorem sends_silent_bind {f : NodeTable → NodeTable} {k : Unit → TableM α}
    (h : ∀ s, (f s).sent = s.sent) (hk : Sends P (k ())) : Sends P (Eff.modify f >>= k) :=
  (sends_silent h).bind fun _ ↦ hk

theorem sends_forEach {f : β → TableM Unit} {xs : List β} (h : ∀ x ∈ xs, Sends P (f x)) :
    Sends P (Eff.forEach xs f) :=
  Eff.keeps_forEach .refl Adds.trans xs h

theorem sends_send (dest : UdpEndpoint) {packet : Packet} (h : P packet) :
    Sends P (send dest packet) := by
  intro s x hx
  change x ∈ (if s.isOpen then { s with sent := s.sent ++ [(dest, packet)] } else s).sent at hx
  split_ifs at hx
  · rcases List.mem_append.mp hx with hx | hx
    · exact .inl hx
    · rw [List.mem_singleton.mp hx]
      exact .inr h
  · exact .inl hx

theorem sends_bucket (r : Ref) : Sends P (s.bucket r) := by
  unfold bucket
  split_ifs
  · exact sends_pure _
  · exact Eff.keeps_throw .refl _

end Sends

section Operations

variable {sha3 : Bytes → H256} {now : ℕ}

theorem sends_ping (dest : NodeIPEndpoint) : Sends Packet.Plain (ping dest) :=
  sends_get.bind fun _ ↦ sends_send _ trivial

theorem sends_evict (leastSeen ne : Ref) : Sends Packet.Plain (evict leastSeen ne now) := by
  refine sends_get.bind fun s ↦ ?_
  split_ifs
  · refine sends_silent_bind (fun _ ↦ rfl) ?_
    split_ifs
    · exact sends_silent_bind (fun _ ↦ rfl) (sends_ping _)
    · exact sends_ping _
  · exact sends_pure ()

theorem sends_noteActiveNode (pubK : NodeID) (ep : UdpEndpoint) :
    Sends Packet.Plain (noteActiveNode pubK ep now) := by
  refine sends_get.bind fun s ↦ ?_
  split_ifs
  · exact sends_pure ()
  rcases s.nodes pubK with _ | r
  · exact sends_pure ()
  simp only
  split_ifs
  · exact sends_pure ()
  refine sends_silent_bind (fun _ ↦ rfl) ((sends_bucket r).bind fun bin ↦ ?_)
  split_ifs
  · exact sends_silent fun _ ↦ rfl
  · exact sends_silent_bind (fun _ ↦ rfl) (sends_silent fun _ ↦ rfl)
  · exact sends_evict _ _
  · exact sends_silent_bind (fun _ ↦ rfl) (sends_silent fun _ ↦ rfl)

theorem sends_dropNode (ne : Ref) : Sends Packet.Plain (dropNode ne) :=
  sends_get.bind fun _ ↦ (sends_bucket ne).bind fun _ ↦
    sends_silent_bind (fun _ ↦ rfl) (sends_silent fun _ ↦ rfl)

theorem sends_addNode (node : Node) (relation : NodeRelation) :
    Sends Packet.Plain (addNode sha3 node relation now) := by
  cases relation with
  | known => exact sends_silent_bind (fun _ ↦ rfl) (sends_noteActiveNode _ _)
  | unknown =>
    refine sends_get.bind fun s ↦ ?_
    split_ifs
    · exact sends_pure ()
    · exact sends_silent_bind (fun _ ↦ rfl) (sends_ping _)
    · exact sends_pure ()
    · exact sends_silent_bind (fun _ ↦ rfl) (sends_ping _)

theorem sends_whenRegistered {id : NodeID} {f : Ref → TableM Unit}
    (h : ∀ r, Sends Packet.Plain (f r)) : Sends Packet.Plain (whenRegistered id f) := by
  refine sends_get.bind fun s ↦ ?_
  rcases s.nodes id with _ | r
  · exact sends_pure ()
  · exact h r

theorem sends_acknowledge (sender : NodeID) (origin : UdpEndpoint) :
    Sends Packet.Plain (acknowledge sha3 sender origin now) := by
  refine sends_get.bind fun s ↦ ?_
  rcases s.nodes sender with _ | r
  · split_ifs
    · exact sends_silent_bind (fun _ ↦ rfl) ((sends_addNode _ _).bind fun _ ↦ sends_pure _)
    · exact sends_pure _
  · exact sends_silent_bind (fun _ ↦ rfl) (sends_pure _)

theorem sends_onPong (sender : NodeID) (origin : UdpEndpoint) (destination : NodeIPEndpoint) :
    Sends Packet.Plain (onPong sha3 sender origin destination now) := by
  have hkeep : ∀ leastSeenID newNodeID,
      Sends Packet.Plain (keepLeastSeen leastSeenID newNodeID) := fun _ _ ↦
    sends_silent_bind (fun _ ↦ rfl) ((sends_whenRegistered sends_dropNode).bind fun _ ↦
      sends_whenRegistered fun _ ↦ sends_silent fun _ ↦ rfl)
  have hrest : ∀ expected : Bool, Sends Packet.Plain (do
      if expected then updateEndpoint destination else pure ()
      return expected) := by
    intro expected
    split_ifs
    · exact sends_silent_bind (fun _ ↦ rfl) (sends_pure _)
    · exact sends_pure _
  refine sends_get.bind fun s ↦ ?_
  rcases s.evictionOf sender now with _ | e
  · exact (sends_acknowledge sender origin).bind hrest
  · exact (hkeep _ _).bind fun _ ↦ hrest true

theorem sends_findNode (target : NodeID) (r : Ref) : Sends Packet.Plain (findNode target now r) :=
  sends_silent_bind (fun _ ↦ rfl) (sends_get.bind fun _ ↦ sends_send _ trivial)

theorem sends_doDiscover (target : NodeID) (round : ℕ) (tried : List Ref) :
    Sends Packet.Plain (doDiscover sha3 target round tried now) := by
  refine sends_get.bind fun s ↦ ?_
  split_ifs
  · exact sends_silent fun _ ↦ rfl
  · exact sends_silent fun _ ↦ rfl
  · refine Sends.bind ?_ fun _ ↦ ?_
    · exact sends_forEach fun r _ ↦ sends_findNode target r
    · split_ifs
      · exact sends_silent fun _ ↦ rfl
      · exact sends_silent fun _ ↦ rfl

theorem adds_onPacket (s : NodeTable) (sender : NodeID) (echo : H256) (origin : UdpEndpoint)
    (packet : Packet) :
    Adds (fun p ↦ p.Plain ∨ ∃ target, p ∈ s.neighbourPackets (s.nearestNodeEntries sha3 target)) s
      (onPacket sha3 sender echo origin packet now s).2 := by
  cases packet with
  | pingNode version source destination =>
    have hsends : Sends Packet.Plain (onPacket sha3 sender echo origin
        (.pingNode version source destination) now) := by
      simp only [onPacket]
      exact (sends_addNode _ _).bind fun _ ↦ (sends_send _ trivial).bind fun _ ↦ sends_pure _
    exact (hsends s).mono fun _ ↦ .inl
  | pong destination echo => exact (sends_onPong sender origin destination s).mono fun _ ↦ .inl
  | findNode target =>
    simp only [onPacket]
    rw [Eff.get_bind_apply]
    refine Sends.bind ?_ (fun _ ↦ sends_pure _) s
    exact sends_forEach fun p hp ↦ sends_send origin (.inr ⟨target, hp⟩)
  | neighbours list =>
    have hsends : Sends Packet.Plain (onPacket sha3 sender echo origin (.neighbours list) now) := by
      simp only [onPacket]
      refine sends_get.bind fun s ↦ sends_silent_bind (fun _ ↦ rfl) ?_
      split_ifs
      · exact (sends_forEach fun _ _ ↦ sends_addNode _ _).bind fun _ ↦ sends_pure _
      · exact sends_pure _
    exact (hsends s).mono fun _ ↦ .inl

theorem adds_perform (crypto : Crypto) (s : NodeTable) (event : TableEvent) :
    Adds (fun p ↦ p.Plain ∨
      ∃ target, p ∈ s.neighbourPackets (s.nearestNodeEntries crypto.sha3 target)) s
      (perform crypto now event s).2 := by
  cases event with
  | addNode node relation => exact (sends_addNode node relation s).mono fun _ ↦ .inl
  | onReceived origin packet seconds =>
    simp only [perform, onReceived]
    rcases DiscoveryDatagram.interpretUDP crypto packet with e | _ | datagram
    · exact Adds.refl s
    · exact Adds.refl s
    simp only
    split_ifs
    · exact Adds.refl s
    · refine (adds_onPacket s _ _ origin _).bind fun active ↦ Sends.mono ?_ fun _ ↦ .inl
      split_ifs
      · exact sends_noteActiveNode _ _
      · exact sends_pure ()
  | checkEvictions order =>
    have hsends : Sends Packet.Plain (checkEvictions order now) := by
      refine sends_get.bind fun s ↦ (sends_forEach fun r _ ↦ sends_dropNode r).bind fun _ ↦
        sends_silent_bind (fun _ ↦ rfl) ?_
      split_ifs
      · exact sends_silent fun _ ↦ rfl
      · exact sends_pure ()
    exact (hsends s).mono fun _ ↦ .inl
  | discoveryTimer target =>
    have hsends : Sends Packet.Plain (onDiscoveryTimer crypto.sha3 target now) := by
      refine sends_get.bind fun s ↦ ?_
      rcases s.discovery with _ | _ | ⟨target', round, tried⟩
      · exact sends_pure ()
      · exact sends_doDiscover _ _ _
      · exact sends_doDiscover _ _ _
    exact (hsends s).mono fun _ ↦ .inl
  | processEvents => exact fun _ ↦ .inl
  | disconnect => exact fun _ ↦ .inl

end Operations

section Backed

variable {sha3 : Bytes → H256} {now : ℕ} {vouched replaced P : NodeID → Prop} {s t : NodeTable}

def Backed (P : NodeID → Prop) (s : NodeTable) : Prop :=
  ∀ r < s.next, (s.entries r).pending = false → P (s.entries r).id

theorem Backed.setEntry (hs : Backed P s) {r : Ref} {e : NodeEntry}
    (h : e.pending = false → P e.id ∨ (s.entries r).pending = false ∧ e.id = (s.entries r).id) :
    Backed P { s with entries := Function.update s.entries r e } := by
  intro x hx
  rcases eq_or_ne x r with rfl | hne
  · simp only [Function.update_self]
    intro hactive
    rcases h hactive with hP | ⟨hbefore, hid⟩
    · exact hP
    · rw [hid]
      exact hs x hx hbefore
  · simp only [Function.update_of_ne hne]
    exact hs x hx

theorem Move.backed (h : Move sha3 now vouched replaced s t) (hP : ∀ id, vouched id → P id)
    (hs : Backed P s) : Backed P t := by
  cases h with
  | other h =>
    unfold Backed
    rw [h.next, h.entries]
    exact hs
  | touch r ep => exact hs.setEntry fun hactive ↦ .inr ⟨hactive, rfl⟩
  | activate r hvouched => exact hs.setEntry fun _ ↦ .inl (hP _ hvouched)
  | register node pending hvouched =>
    intro x hx
    rcases Nat.lt_succ_iff_lt_or_eq.mp hx with hlt | rfl
    · simp only [Function.update_of_ne hlt.ne]
      exact hs x hlt
    · simp only [Function.update_self]
      exact fun hactive ↦ hP _ (hvouched hactive)
  | refresh | insert | replace | evict | drop | cancel => exact hs

theorem Steps.backed (h : Steps sha3 now vouched replaced s t) (hP : ∀ id, vouched id → P id)
    (hregistered : Registered s) (hs : Backed P s) : Backed P t := by
  have hmoves := h hregistered
  clear h
  induction hmoves with
  | refl => exact hs
  | tail _ hmove ih => exact hmove.backed hP ih

variable {crypto : Crypto} {allowed : NodeTable → TableEvent → Prop} {node : Node}
  {enabled : Bool} {events : List (ℕ × TableEvent)}

def Vouched (crypto : Crypto) (events : List (ℕ × TableEvent)) (id : NodeID) : Prop :=
  ∃ e ∈ events, Vouches crypto id e.2

theorem Vouched.append {id : NodeID} (h : Vouched crypto events id)
    (later : List (ℕ × TableEvent)) : Vouched crypto (events ++ later) id := by
  obtain ⟨e, he, hvouches⟩ := h
  exact ⟨e, List.mem_append_left _ he, hvouches⟩

theorem Run.backed (h : Run crypto allowed (start node enabled) events s) :
    Backed (Vouched crypto events) s := by
  induction h with
  | nil => exact fun r hr ↦ absurd hr (Nat.not_lt_zero r)
  | @snoc t u events now event hrun hpossible _ hperform ih =>
    have hregistered := (hrun.wellFormed wellFormed_start).registered
    refine (steps_of_perform hpossible hperform).backed (fun id hid ↦ ?_) hregistered
      fun r hr hactive ↦ (ih r hr hactive).append _
    exact ⟨(now, event), by simp, hid⟩

end Backed

section Answers

variable {s : NodeTable} {near : List Ref}

theorem length_chunk_le {fuel : ℕ} {chunk : List Ref} (h : chunk ∈ chunks fuel near) :
    chunk.length ≤ nlimit ∧ chunk ⊆ near := by
  induction fuel generalizing near with
  | zero => simp [chunks] at h
  | succ fuel ih =>
    rw [chunks] at h
    split_ifs at h
    · simp at h
    · rcases List.mem_cons.mp h with rfl | h
      · exact ⟨List.length_take_le _ _, List.take_subset _ _⟩
      · obtain ⟨hlen, hsub⟩ := ih h
        exact ⟨hlen, List.Subset.trans hsub (List.drop_subset _ _)⟩

theorem mem_neighbourPackets {p : Packet} (h : p ∈ s.neighbourPackets near) :
    ∃ list, p = .neighbours list ∧ list.length ≤ nlimit ∧
      ∀ n ∈ list, ∃ r ∈ near, n = ⟨(s.entries r).endpoint, (s.entries r).id⟩ := by
  obtain ⟨chunk, hchunk, rfl⟩ := List.mem_map.mp h
  obtain ⟨hlen, hsub⟩ := length_chunk_le hchunk
  refine ⟨_, rfl, by rwa [List.length_map], fun n hn ↦ ?_⟩
  obtain ⟨r, hr, rfl⟩ := List.mem_map.mp hn
  exact ⟨r, hsub hr, rfl⟩

end Answers

section Runs

variable {crypto : Crypto} {allowed : NodeTable → TableEvent → Prop} {node : Node}
  {enabled : Bool} {s : NodeTable} {events : List (ℕ × TableEvent)}

/-- The packet names at most as many nodes as fit, each at an address it may be reached at and
vouched for in the trace. -/
def Names (crypto : Crypto) (events : List (ℕ × TableEvent)) (p : Packet) : Prop :=
  p.Plain ∨ ∃ list, p = .neighbours list ∧ list.length ≤ nlimit ∧
    ∀ n ∈ list, n.endpoint.isSpecified = true ∧ n.endpoint.isAllowed = true ∧
      Vouched crypto events n.node

theorem Names.append {p : Packet} (h : Names crypto events p) (later : List (ℕ × TableEvent)) :
    Names crypto (events ++ later) p := by
  rcases h with h | ⟨list, rfl, hlen, hall⟩
  · exact .inl h
  · refine .inr ⟨list, rfl, hlen, fun n hn ↦ ?_⟩
    obtain ⟨hspecified, hallowed, hvouched⟩ := hall n hn
    exact ⟨hspecified, hallowed, hvouched.append later⟩

theorem names_neighbourPackets (h : Run crypto allowed (start node enabled) events s)
    {target : NodeID} {p : Packet}
    (hp : p ∈ s.neighbourPackets (s.nearestNodeEntries crypto.sha3 target)) :
    Names crypto events p := by
  obtain ⟨list, rfl, hlen, hall⟩ := mem_neighbourPackets hp
  refine .inr ⟨list, rfl, hlen, fun n hn ↦ ?_⟩
  obtain ⟨r, hr, rfl⟩ := hall n hn
  have hcandidate : Candidate crypto.sha3 s target r :=
    mem_found_usable.mp ((List.take_sublist _ _).subset hr)
  obtain ⟨bin, hbin, -⟩ := hcandidate.reached
  have hmember := (h.wellFormed wellFormed_start).members bin r hbin
  obtain ⟨hspecified, hallowed⟩ : _ ∧ _ := by simpa [usable] using hcandidate.usable
  exact ⟨hspecified, hallowed, h.backed r hmember.allocated hmember.active⟩

theorem Run.names (h : Run crypto allowed (start node enabled) events s) :
    ∀ x ∈ s.sent, Names crypto events x.2 := by
  induction h with
  | nil => simp [start]
  | @snoc t u events now event hrun hpossible _ hperform ih =>
    intro x hx
    have hadds : Adds _ t (NodeTable.perform crypto now event t).2 := adds_perform crypto t event
    rw [hperform] at hadds
    rcases hadds x hx with hx | hx | ⟨target, hx⟩
    · exact (ih x hx).append _
    · exact .inl hx
    · exact (names_neighbourPackets hrun hx).append _

/-- A node is named to others only after it was added as known or has answered with a pong, and only
at an address that is specified and allowed. -/
theorem named_nodes_vouched (h : Run crypto allowed (start node enabled) events s)
    {dest : UdpEndpoint} {list : List Neighbour} (hsent : (dest, .neighbours list) ∈ s.sent)
    {n : Neighbour} (hn : n ∈ list) :
    n.endpoint.isSpecified = true ∧ n.endpoint.isAllowed = true ∧
      ∃ e ∈ events, Vouches crypto n.node e.2 := by
  rcases h.names _ hsent with hplain | ⟨list', heq, -, hall⟩
  · exact hplain.elim
  · obtain rfl := Packet.neighbours.inj heq
    exact hall n hn

section Searched

def search : TableEvent :=
  .onReceived ⟨.v4 0x7f000002, 30303⟩ (DiscoveryDatagram.sign plainCrypto (.findNode 7) 9) 8

def answered : NodeTable := (perform plainCrypto 1 search known).2

theorem run_answered : Run plainCrypto (fun _ _ ↦ True) (start (localNode 2) true)
    [(0, .addNode (localNode 5) .known), (1, search)] answered :=
  (run_known trivial).perform trivial trivial (by decide +kernel)

def answer : UdpEndpoint × Packet :=
  (⟨.v4 0x7f000002, 30303⟩, .neighbours [⟨(localNode 5).endpoint, (localNode 5).id⟩])

theorem sent_answered : answer ∈ answered.sent := by decide +kernel

end Searched

theorem named_nodes_vouched_answered :
    ∃ e ∈ [(0, .addNode (localNode 5) .known), (1, search)],
      Vouches plainCrypto (localNode 5).id e.2 :=
  (named_nodes_vouched run_answered sent_answered List.mem_cons_self).2.2

theorem length_sign_plain {packet : Packet} (h : packet.Plain) (ts : UInt32) :
    (DiscoveryDatagram.sign crypto packet ts).length ≤ maxDatagramSize := by
  have hbound : packet.Small ∧ packet.sizeBound = 80 := by
    cases packet with
    | neighbours list => exact h.elim
    | _ => exact ⟨trivial, rfl⟩
  have hitems := Packet.length_items_le hbound.1 ts
  have hlist : (encodeList (packet.items ts)).length ≤ (packet.items ts).flatten.length + 1 + 1 :=
    length_encodeList_le (by omega)
  have hmax : maxDatagramSize = 1024 := rfl
  rw [DiscoveryDatagram.length_sign]
  omega

/-- Ten neighbours take at most 91 bytes each, so that with five bytes for the time, two heads of
three bytes and 98 bytes before them the datagram has 1019 bytes. -/
theorem length_sign_neighbours {list : List Neighbour} (h : list.length ≤ nlimit) (ts : UInt32) :
    (DiscoveryDatagram.sign crypto (.neighbours list) ts).length ≤ maxDatagramSize := by
  have hlimit : nlimit = 10 := rfl
  have hmax : maxDatagramSize = 1024 := rfl
  have hts : (encodeInt ts.toNat).length ≤ 4 + 1 :=
    length_encodeInt_le (Packet.ts_lt ts) (by decide)
  have hneighbours := Packet.length_neighbours_le list
  have hinner : (encodeList (list.map fun n ↦ encodeList n.items)).length ≤
      (list.map fun n ↦ encodeList n.items).flatten.length + 2 + 1 :=
    length_encodeList_le (by omega)
  have hflat : (Packet.items ts (.neighbours list)).flatten.length =
      (encodeList (list.map fun n ↦ encodeList n.items)).length + (encodeInt ts.toNat).length := by
    simp [Packet.items]
  have houter : (encodeList (Packet.items ts (.neighbours list))).length ≤
      (Packet.items ts (.neighbours list)).flatten.length + 2 + 1 :=
    length_encodeList_le (by omega)
  rw [DiscoveryDatagram.length_sign]
  omega

/-- Whatever a table sends in any run fits into a datagram, so nothing is cut off. -/
theorem sent_fits (h : Run crypto allowed (start node enabled) events s)
    {x : UdpEndpoint × Packet} (hsent : x ∈ s.sent) (ts : UInt32) :
    (DiscoveryDatagram.sign crypto x.2 ts).length ≤ maxDatagramSize := by
  rcases h.names x hsent with hplain | ⟨list, heq, hlen, -⟩
  · exact length_sign_plain hplain ts
  · rw [heq]
    exact length_sign_neighbours hlen ts

theorem sent_fits_answered :
    (DiscoveryDatagram.sign plainCrypto answer.2 11).length ≤ maxDatagramSize :=
  sent_fits run_answered sent_answered 11

end Runs

end NodeTable

end GseNetwork.Net
