import GseNetwork.Core.Acceptance
import GseNetwork.Core.BlockCodec
import GseNetwork.Net.FrameRoundTrip
import GseNetwork.Net.Datagram

namespace GseNetwork.Net

open GseNetwork.Core GseNetwork.Foundation.BigEndian GseNetwork.Core.RLP

section Sizes

theorem length_encodeBytes_short {b : Bytes} (h : b.length < rlpDataImmLenCount) :
    (encodeBytes b).length ≤ b.length + 1 := by
  unfold encodeBytes
  split_ifs
  · omega
  · rw [List.length_append, RLPStream.dataHead, if_pos h, List.length_singleton]
    omega

theorem toHashStrict_encodeHash {size : ℕ} (hsize : size < maxLength) (h : BitVec (8 * size)) :
    RLP.toHashStrict size (encodeHash size h) = .ok h := by
  have hmax : (toBigEndian size h.toNat).length < maxLength := by rwa [length_toBigEndian]
  obtain ⟨offset, hframe⟩ := framed_encodeBytes hmax
  unfold RLP.toHashStrict encodeHash
  rw [hframe.requireGood_eq, hframe.payload_eq, isData_encodeBytes hmax]
  simp only [ok_bind, length_toBigEndian, lt_self_iff_false, decide_false, Bool.not_true,
    Bool.or_self, Bool.false_eq_true, if_false, ofNat_fromBigEndian_toBigEndian]
  rfl

theorem length_encodeHash_public (id : Public) : (encodeHash 64 id).length = 66 := by
  unfold encodeHash encodeBytes
  rw [length_toBigEndian, if_neg (by omega), List.length_append, length_toBigEndian]
  rfl

theorem length_encodeList_le {items : List Bytes} {w : ℕ} (h : items.flatten.length < 256 ^ w) :
    (encodeList items).length ≤ items.flatten.length + w + 1 := by
  have hreq := bytesRequired_le h
  unfold encodeList
  rw [List.length_append, length_listHead]
  split_ifs <;> omega

theorem item_encodeInt_of_lt {n w : ℕ} (h : n < 256 ^ w) (hw : w < rlpDataImmLenCount) :
    Item (encodeInt n) :=
  item_encodeInt ((bytesRequired_le h).trans_lt (hw.trans (by decide)))

end Sizes

namespace NodeIPEndpoint

variable (x : NodeIPEndpoint)

def items : List Bytes :=
  [encodeBytes x.address.toBytes, encodeInt x.udpPort.toNat, encodeInt x.tcpPort.toNat]

theorem streamRLP_list (s : RLPStream) :
    x.streamRLP .streamList s = s.appendRaw (encodeList x.items) := by
  rw [← RLPStream.appendList_items]
  simp only [streamRLP, items, RLPStream.append_eq, RLPStream.appendInt_eq]
  rfl

theorem streamRLP_inline (s : RLPStream) :
    x.streamRLP .streamInline s = x.items.foldl (fun s x ↦ s.appendRaw x) s := by
  simp only [streamRLP, items, RLPStream.append_eq, RLPStream.appendInt_eq]
  rfl

theorem length_address : x.address.toBytes.length = 4 ∨ x.address.toBytes.length = 16 := by
  rcases x.address with bytes | bytes
  · exact .inl (length_toBigEndian _ _)
  · exact .inr (length_toBigEndian _ _)

theorem port_lt (port : UInt16) : port.toNat < 256 ^ 2 := port.toNat_lt

theorem length_items_le : x.items.flatten.length ≤ 23 := by
  have haddress : (encodeBytes x.address.toBytes).length ≤ 17 := by
    have hle := length_encodeBytes_short (b := x.address.toBytes)
      (by rcases x.length_address with h | h <;> rw [h] <;> decide)
    rcases x.length_address with h | h <;> omega
  have hudp := length_encodeInt_le (port_lt x.udpPort) (by decide)
  have htcp := length_encodeInt_le (port_lt x.tcpPort) (by decide)
  simp only [items, List.flatten_cons, List.flatten_nil, List.length_append, List.length_nil]
  omega

theorem item_items : ∀ y ∈ x.items, Item y := by
  have haddress : x.address.toBytes.length < maxLength := by
    rcases x.length_address with h | h <;> rw [h] <;> decide
  intro y hy
  simp only [items, List.mem_cons, List.not_mem_nil, or_false] at hy
  rcases hy with rfl | rfl | rfl
  · exact item_encodeBytes haddress
  · exact item_encodeInt_of_lt (port_lt _) (by decide)
  · exact item_encodeInt_of_lt (port_lt _) (by decide)

theorem listing_items : Listing (encodeList x.items) x.items :=
  ⟨rfl, x.length_items_le.trans_lt (by decide), x.item_items⟩

theorem size_encodeBytes {b : Bytes} (h : b.length < maxLength) :
    RLP.size (encodeBytes b) = .ok b.length := by
  obtain ⟨offset, hframe⟩ := framed_encodeBytes h
  have hheads := hframe.heads []
  rw [List.append_nil] at hheads
  rw [RLP.size, if_pos (isData_encodeBytes h)]
  exact hheads.length_eq

/-- An endpoint is read from the first three items of a list as it was written. -/
theorem interpretRLP_items {d : Bytes} {rest : List Bytes} (h : Listing d (x.items ++ rest)) :
    interpretRLP d = .ok x := by
  have haddress : x.address.toBytes.length < maxLength := by
    rcases x.length_address with h | h <;> rw [h] <;> decide
  have h0 : RLP.item d 0 = .ok (encodeBytes x.address.toBytes) :=
    h.item_eq (by simp [items])
  have h1 : RLP.item d 1 = .ok (encodeInt x.udpPort.toNat) := h.item_eq (by simp [items])
  have h2 : RLP.item d 2 = .ok (encodeInt x.tcpPort.toNat) := h.item_eq (by simp [items])
  unfold interpretRLP
  rw [h0, h1, h2]
  simp only [ok_bind, size_encodeBytes haddress, toBytes_encodeBytes haddress,
    toInt_encodeInt_of_lt (port_lt _) (show 2 < rlpDataImmLenCount by decide)]
  obtain ⟨bytes | bytes, udpPort, tcpPort⟩ := x
  · have hread : fromBigEndian (toBigEndian 4 bytes.toNat) = bytes.toNat :=
      fromBigEndian_toBigEndian_of_lt bytes.isLt
    simp [IPAddress.toBytes, hread]
    rfl
  · have hread : fromBigEndian (toBigEndian 16 bytes.toNat) = bytes.toNat :=
      fromBigEndian_toBigEndian_of_lt bytes.isLt
    simp [IPAddress.toBytes, hread]
    rfl

end NodeIPEndpoint

namespace Neighbour

variable (x : Neighbour)

def items : List Bytes := x.endpoint.items ++ [encodeHash 64 x.node]

theorem streamRLP_eq (s : RLPStream) : x.streamRLP s = s.appendRaw (encodeList x.items) := by
  rw [← RLPStream.appendList_items, streamRLP, NodeIPEndpoint.streamRLP_inline,
    RLPStream.appendHash_eq, items, List.foldl_append]
  rfl

theorem length_items_le : x.items.flatten.length ≤ 89 := by
  have hendpoint := x.endpoint.length_items_le
  have hnode := length_encodeHash_public x.node
  simp only [items, List.flatten_append, List.length_append, List.flatten_cons, List.flatten_nil,
    List.append_nil]
  omega

theorem length_encode_le : (encodeList x.items).length ≤ 91 := by
  have hle := x.length_items_le
  have hlist : (encodeList x.items).length ≤ x.items.flatten.length + 1 + 1 :=
    length_encodeList_le (by omega)
  omega

theorem listing_items : Listing (encodeList x.items) x.items := by
  refine ⟨rfl, x.length_items_le.trans_lt (by decide), fun y hy ↦ ?_⟩
  rcases List.mem_append.mp hy with hy | hy
  · exact x.endpoint.item_items y hy
  · rw [List.mem_singleton.mp hy]
    exact item_encodeHash (show 64 < maxLength by decide) x.node

theorem ofRLP_items : ofRLP (encodeList x.items) = .ok x := by
  have hnode : RLP.item (encodeList x.items) 3 = .ok (encodeHash 64 x.node) := by
    rw [x.listing_items.item_eq (by simp [items, NodeIPEndpoint.items])]
    simp [items, NodeIPEndpoint.items]
  have hbytes : RLP.toBytes (encodeHash 64 x.node) = .ok (toBigEndian 64 x.node.toNat) :=
    toBytes_encodeBytes (by rw [length_toBigEndian]; decide)
  have hread : BitVec.ofNat 512 (fromBigEndian (toBigEndian 64 x.node.toNat)) = x.node :=
    ofNat_fromBigEndian_toBigEndian 64 x.node
  unfold ofRLP
  rw [x.endpoint.interpretRLP_items x.listing_items, hnode]
  simp only [ok_bind, hbytes, length_toBigEndian, if_true, hread]
  rfl

end Neighbour

namespace Packet

def items (ts : UInt32) : Packet → List Bytes
  | pingNode _ source destination =>
    [encodeInt protocolVersion, encodeList source.items, encodeList destination.items,
      encodeInt ts.toNat]
  | pong destination echo => [encodeList destination.items, encodeHash 32 echo, encodeInt ts.toNat]
  | findNode target => [encodeHash 64 target, encodeInt ts.toNat]
  | neighbours list => [encodeList (list.map fun n ↦ encodeList n.items), encodeInt ts.toNat]

theorem streamRLP_eq (packet : Packet) (ts : UInt32) (s : RLPStream) :
    packet.streamRLP ts s = s.appendRaw (encodeList (packet.items ts)) := by
  rw [← RLPStream.appendList_items]
  cases packet with
  | pingNode version source destination =>
    simp only [streamRLP, items, RLPStream.appendInt_eq, NodeIPEndpoint.streamRLP_list]
    rfl
  | pong destination echo =>
    simp only [streamRLP, items, RLPStream.appendInt_eq, RLPStream.appendHash_eq,
      NodeIPEndpoint.streamRLP_list]
    rfl
  | findNode target =>
    simp only [streamRLP, items, RLPStream.appendInt_eq, RLPStream.appendHash_eq]
    rfl
  | neighbours list =>
    simp only [streamRLP, items, RLPStream.appendInt_eq, Neighbour.streamRLP_eq]
    rw [List.foldl_cons, ← RLPStream.appendList_items, List.foldl_map, List.length_map]
    rfl

def Small : Packet → Prop
  | neighbours list => list.length < 2 ^ 32
  | _ => True

theorem length_neighbours_le (list : List Neighbour) :
    (list.map fun n ↦ encodeList n.items).flatten.length ≤ 91 * list.length := by
  induction list with
  | nil => exact Nat.zero_le _
  | cons n list ih =>
    have hle := n.length_encode_le
    rw [List.map_cons, List.flatten_cons, List.length_append, List.length_cons]
    omega

theorem ts_lt (ts : UInt32) : ts.toNat < 256 ^ 4 := ts.toNat_lt

theorem listing_neighbours {list : List Neighbour} (h : list.length < 2 ^ 32) :
    Listing (encodeList (list.map fun n ↦ encodeList n.items))
      (list.map fun n ↦ encodeList n.items) := by
  have hle := length_neighbours_le list
  refine ⟨rfl, ?_, fun y hy ↦ ?_⟩
  · have hmax : 91 * 2 ^ 32 < maxLength := by decide
    omega
  · obtain ⟨n, -, rfl⟩ := List.mem_map.mp hy
    exact n.listing_items.item

def sizeBound : Packet → ℕ
  | neighbours list => 91 * list.length + 14
  | _ => 80

theorem length_items_le {packet : Packet} (h : packet.Small) (ts : UInt32) :
    (packet.items ts).flatten.length ≤ packet.sizeBound := by
  have hts : (encodeInt ts.toNat).length ≤ 4 + 1 := length_encodeInt_le (ts_lt ts) (by decide)
  have hendpoint : ∀ x : NodeIPEndpoint, (encodeList x.items).length ≤ 25 := by
    intro x
    have hle := x.length_items_le
    have hlist : (encodeList x.items).length ≤ x.items.flatten.length + 1 + 1 :=
      length_encodeList_le (by omega)
    omega
  cases packet with
  | pingNode version source destination =>
    have hversion : (encodeInt protocolVersion).length = 1 := rfl
    have hsource := hendpoint source
    have hdestination := hendpoint destination
    simp only [items, sizeBound, List.flatten_cons, List.flatten_nil, List.length_append,
      List.length_nil]
    omega
  | pong destination echo =>
    have hdestination := hendpoint destination
    have hecho : (encodeHash 32 echo).length ≤ 33 :=
      (length_encodeBytes_short (by rw [length_toBigEndian]; decide)).trans
        (by rw [length_toBigEndian])
    simp only [items, sizeBound, List.flatten_cons, List.flatten_nil, List.length_append,
      List.length_nil]
    omega
  | findNode target =>
    have htarget := length_encodeHash_public target
    simp only [items, sizeBound, List.flatten_cons, List.flatten_nil, List.length_append,
      List.length_nil]
    omega
  | neighbours list =>
    have hle := length_neighbours_le list
    have hlt : (list.map fun n ↦ encodeList n.items).flatten.length < 256 ^ 8 := by
      have hsmall : list.length < 2 ^ 32 := h
      omega
    have hlist := length_encodeList_le hlt
    simp only [items, sizeBound, List.flatten_cons, List.flatten_nil, List.length_append,
      List.length_nil]
    omega

theorem item_items {packet : Packet} (h : packet.Small) (ts : UInt32) :
    ∀ y ∈ packet.items ts, Item y := by
  have hts : ∀ y ∈ [encodeInt ts.toNat], Item y := by
    rw [List.forall_mem_singleton]
    exact item_encodeInt_of_lt (ts_lt ts) (by decide)
  cases packet with
  | pingNode version source destination =>
    have hversion : Item (encodeInt protocolVersion) :=
      item_encodeInt_of_lt (show protocolVersion < 256 ^ 1 by decide) (by decide)
    exact List.forall_mem_cons.mpr ⟨hversion, List.forall_mem_cons.mpr ⟨source.listing_items.item,
      List.forall_mem_cons.mpr ⟨destination.listing_items.item, hts⟩⟩⟩
  | pong destination echo =>
    have hecho : Item (encodeHash 32 echo) := item_encodeHash (show 32 < maxLength by decide) echo
    exact List.forall_mem_cons.mpr ⟨destination.listing_items.item,
      List.forall_mem_cons.mpr ⟨hecho, hts⟩⟩
  | findNode target =>
    have htarget : Item (encodeHash 64 target) :=
      item_encodeHash (show 64 < maxLength by decide) target
    exact List.forall_mem_cons.mpr ⟨htarget, hts⟩
  | neighbours list =>
    exact List.forall_mem_cons.mpr ⟨(listing_neighbours h).item, hts⟩

theorem listing_items {packet : Packet} (h : packet.Small) (ts : UInt32) :
    Listing (encodeList (packet.items ts)) (packet.items ts) := by
  refine ⟨rfl, (length_items_le h ts).trans_lt ?_, item_items h ts⟩
  cases packet with
  | neighbours list =>
    have hmax : 91 * 2 ^ 32 + 14 < maxLength := by decide
    have hsmall : list.length < 2 ^ 32 := h
    rw [sizeBound]
    omega
  | _ => exact (show 80 < maxLength by decide)

def received : Packet → Packet
  | pingNode _ source destination => pingNode (UInt32.ofNat protocolVersion) source destination
  | packet => packet

theorem mapM_neighbours (list : List Neighbour) :
    (list.map fun n ↦ encodeList n.items).mapM
      (fun n ↦ do Neighbour.ofRLP (← RLP.ofBytes n)) = Except.ok (ε := Exception) list := by
  induction list with
  | nil => rfl
  | cons n list ih =>
    rw [List.map_cons, List.mapM_cons, ih, n.listing_items.ofBytes_eq, ok_bind, n.ofRLP_items]
    rfl

theorem interpretRLP_items {packet : Packet} (h : packet.Small) (ts : UInt32) :
    ∃ type, PacketType.ofByte packet.packetType = some type ∧
      interpretRLP type (encodeList (packet.items ts)) = .ok (packet.received, ts) := by
  have hlisting := listing_items h ts
  have hts : RLP.toInt 4 (encodeInt ts.toNat) = .ok ts.toNat :=
    toInt_encodeInt_of_lt (ts_lt ts) (by decide)
  have hendpoint : ∀ x : NodeIPEndpoint,
      NodeIPEndpoint.interpretRLP (encodeList x.items) = .ok x := by
    intro x
    have hx : Listing (encodeList x.items) (x.items ++ []) := by
      rw [List.append_nil]
      exact x.listing_items
    exact x.interpretRLP_items hx
  cases packet with
  | pingNode version source destination =>
    refine ⟨.pingNode, rfl, ?_⟩
    rw [items] at hlisting ⊢
    have h0 := hlisting.item_eq (show 0 < 4 by decide)
    have h1 := hlisting.item_eq (show 1 < 4 by decide)
    have h2 := hlisting.item_eq (show 2 < 4 by decide)
    have h3 := hlisting.item_eq (show 3 < 4 by decide)
    have hversion : RLP.toInt 4 (encodeInt protocolVersion) = .ok protocolVersion :=
      toInt_encodeInt_of_lt (by decide) (by decide)
    unfold interpretRLP
    simp only [h0, h1, h2, h3, List.getD_cons_zero, List.getD_cons_succ, ok_bind, hversion,
      hendpoint, hts, UInt32.ofNat_toNat]
    rfl
  | pong destination echo =>
    refine ⟨.pong, rfl, ?_⟩
    rw [items] at hlisting ⊢
    have h0 := hlisting.item_eq (show 0 < 3 by decide)
    have h1 := hlisting.item_eq (show 1 < 3 by decide)
    have h2 := hlisting.item_eq (show 2 < 3 by decide)
    have hecho : RLP.toHashStrict 32 (encodeHash 32 echo) = .ok echo :=
      toHashStrict_encodeHash (show 32 < maxLength by decide) echo
    unfold interpretRLP
    simp only [h0, h1, h2, List.getD_cons_zero, List.getD_cons_succ, ok_bind, hendpoint, hecho,
      hts, UInt32.ofNat_toNat]
    rfl
  | findNode target =>
    refine ⟨.findNode, rfl, ?_⟩
    rw [items] at hlisting ⊢
    have h0 := hlisting.item_eq (show 0 < 2 by decide)
    have h1 := hlisting.item_eq (show 1 < 2 by decide)
    have htarget : RLP.toHashStrict 64 (encodeHash 64 target) = .ok target :=
      toHashStrict_encodeHash (show 64 < maxLength by decide) target
    unfold interpretRLP
    simp only [h0, h1, List.getD_cons_zero, List.getD_cons_succ, ok_bind, htarget, hts,
      UInt32.ofNat_toNat]
    rfl
  | neighbours list =>
    refine ⟨.neighbours, rfl, ?_⟩
    rw [items] at hlisting ⊢
    have hlist := listing_neighbours h
    have h0 := hlisting.item_eq (show 0 < 2 by decide)
    have h1 := hlisting.item_eq (show 1 < 2 by decide)
    have hitems := itemsOf_encodeList hlist.delimited hlist.length_lt
    unfold interpretRLP
    simp only [h0, h1, List.getD_cons_zero, List.getD_cons_succ, ok_bind, hlist.isList_eq, if_true,
      hitems, mapM_neighbours, hts, UInt32.ofNat_toNat]
    rfl

end Packet

namespace DiscoveryDatagram

variable {crypto : Crypto} {packet : Packet} {ts : UInt32}

theorem rlpData_eq (packet : Packet) (ts : UInt32) :
    rlpData packet ts = packet.packetType :: encodeList (packet.items ts) := by
  rw [rlpData, Packet.streamRLP_eq]
  simp [RLPStream.appendRaw, RLPStream.noteAppended, RLPStream.closeLists]

theorem length_sign :
    (sign crypto packet ts).length = 98 + (encodeList (packet.items ts)).length := by
  simp only [sign, rlpData_eq, List.length_append, length_toBigEndian, List.length_cons]
  omega

theorem minSize_le_sign (h : packet.Small) : minSize ≤ (sign crypto packet ts).length := by
  have hlisting := Packet.listing_items h ts
  have hflat := length_le_flatten hlisting.delimited
  have hitems : 2 ≤ (packet.items ts).length := by cases packet <;> simp [Packet.items]
  have hhead : 1 ≤ (RLPStream.listHead (packet.items ts).flatten.length).length := by
    rw [length_listHead]
    split_ifs <;> omega
  rw [length_sign, encodeList, List.length_append, minSize]
  omega

def echoOf (hash : H256) : Packet → H256
  | .pong _ echo => echo
  | _ => hash

/-- What one node signs another one reads, as sent by the holder of the key. A ping is read with the
version of this program, and of a pong the hash it answers is kept in the place of its own. -/
theorem interpretUDP_sign {key : Public} (h : packet.Small)
    (hkey : ∀ hash, crypto.recover (crypto.sign hash) hash = key) (hne : key ≠ 0) (ts : UInt32) :
    interpretUDP crypto (sign crypto packet ts) = .ok (some {
      sourceid := key
      echo := echoOf (crypto.sha3 ((sign crypto packet ts).drop 32)) packet
      packet := packet.received
      ts := ts }) := by
  obtain ⟨type, htype, hread⟩ := Packet.interpretRLP_items h ts
  have hsize : minSize ≤ (sign crypto packet ts).length := minSize_le_sign h
  -- The datagram is the hash of the body, and the body the signature and the signed bytes.
  let sig := crypto.sign (crypto.sha3 (rlpData packet ts))
  let body := toBigEndian 65 sig.toSignature.toNat ++ rlpData packet ts
  have hsign : sign crypto packet ts = toBigEndian 32 (crypto.sha3 body).toNat ++ body := rfl
  have hhash : (sign crypto packet ts).take 32 = toBigEndian 32 (crypto.sha3 body).toNat := by
    rw [hsign, List.take_left' (length_toBigEndian _ _)]
  have hbody : (sign crypto packet ts).drop 32 = body := by
    rw [hsign, List.drop_left' (length_toBigEndian _ _)]
  have hsignature : body.take 65 = toBigEndian 65 sig.toSignature.toNat :=
    List.take_left' (length_toBigEndian _ _)
  have hsigned : body.drop 65 = rlpData packet ts := List.drop_left' (length_toBigEndian _ _)
  have hsig : SignatureStruct.ofSignature (BitVec.ofNat (8 * 65)
      (fromBigEndian (toBigEndian 65 sig.toSignature.toNat))) = sig := by
    rw [ofNat_fromBigEndian_toBigEndian, SignatureStruct.ofSignature_toSignature]
  have hrecover : crypto.recover sig (crypto.sha3 (rlpData packet ts)) = key := hkey _
  have hbyte : RLP.byteAt (rlpData packet ts) 0 = packet.packetType := by
    rw [rlpData_eq]
    rfl
  have hrlp : (rlpData packet ts).drop 1 = encodeList (packet.items ts) := by
    rw [rlpData_eq]
    rfl
  unfold interpretUDP
  rw [if_neg hsize.not_gt]
  simp only [hbody, hhash, hsignature, hsigned, hsig, hrecover, hne, hbyte, htype, hrlp, hread,
    ne_eq, not_true_eq_false, if_false, ok_bind]
  cases packet <;> rfl

def nearEndpoint : NodeIPEndpoint := ⟨.v4 0x7f000001, 30303, 30304⟩

def farEndpoint : NodeIPEndpoint := ⟨.v4 0xc0a80102, 40000, 0⟩

theorem interpretUDP_sign_endpoints :
    (∃ echo, interpretUDP plainCrypto
        (sign plainCrypto (.pingNode 0 nearEndpoint farEndpoint) 1542000000) =
      .ok (some ⟨1, echo, .pingNode 4 nearEndpoint farEndpoint, 1542000000⟩)) ∧
    ∃ echo, interpretUDP plainCrypto
        (sign plainCrypto (.neighbours [⟨nearEndpoint, 5⟩, ⟨farEndpoint, 6⟩]) 1542000000) =
      .ok (some ⟨1, echo, .neighbours [⟨nearEndpoint, 5⟩, ⟨farEndpoint, 6⟩], 1542000000⟩) := by
  have hping : Packet.Small (.pingNode 0 nearEndpoint farEndpoint) := trivial
  have hneighbours : Packet.Small (.neighbours [⟨nearEndpoint, 5⟩, ⟨farEndpoint, 6⟩]) := by
    rw [Packet.Small]
    decide
  have hkey : (1 : Public) ≠ 0 := by decide +kernel
  exact ⟨⟨_, interpretUDP_sign hping (fun _ ↦ rfl) hkey _⟩,
    _, interpretUDP_sign hneighbours (fun _ ↦ rfl) hkey _⟩

end DiscoveryDatagram

end GseNetwork.Net
