import GseNetwork.Foundation.ByKey
import GseNetwork.Foundation.Effect
import GseNetwork.Net.Datagram

namespace GseNetwork.Net

open GseNetwork.Core GseNetwork.Foundation GseNetwork.Foundation.BigEndian

structure Node where
  id : NodeID
  endpoint : NodeIPEndpoint

structure NodeEntry where
  id : NodeID := 0
  endpoint : NodeIPEndpoint := {}
  distance : ℕ := 0
  pending : Bool := true

abbrev Ref := ℕ

structure EvictionTimeout where
  newNodeID : NodeID
  evictedTimePoint : ℕ
  deriving DecidableEq

inductive NodeTableEventType
  | nodeEntryAdded
  | nodeEntryDropped
  deriving DecidableEq

inductive NodeRelation
  | unknown
  | known
  deriving DecidableEq

/-- The timer of the discovery: it was given up, or the next search or the next round of the search
for a target is due. The timer holds the entries that were asked. -/
inductive Discovery
  | stopped
  | refresh
  | search (target : NodeID) (round : ℕ) (tried : List Ref)

/-- An access to `m_state` outside its bounds, which the code does not check. -/
inductive Fault
  | outsideBuckets

def sBins : ℕ := 255
def sMaxSteps : ℕ := 8
def sBucketSize : ℕ := 16
def sAlpha : ℕ := 3

def cReqTimeout : ℕ := 300

def maxDatagramSize : ℕ := 1024

structure NodeTable where
  node : Node
  isOpen : Bool := true
  entries : Ref → NodeEntry := fun _ ↦ {}
  /-- The number of the next allocation. -/
  next : Ref := 0
  nodes : NodeID → Option Ref := fun _ ↦ none
  /-- The nodes of the buckets, which are weak pointers. -/
  state : ℕ → List Ref := fun _ ↦ []
  evictions : List (NodeID × EvictionTimeout) := []
  evictionChecks : ℕ := 0
  pubkDiscoverPings : List IPAddress := []
  findNodeTimeout : List (NodeID × ℕ) := []
  discovery : Discovery := .refresh
  eventNodes : List NodeID := []
  events : NodeID → Option NodeTableEventType := fun _ ↦ none
  sent : List (UdpEndpoint × Packet) := []

abbrev TableM := Eff NodeTable Fault

section Distance

variable (sha3 : Bytes → H256)

def distanceLoop : ℕ → H256 → ℕ → ℕ
  | 0, _, ret => ret
  | fuel + 1, d, ret => if d >>> 1 ≠ 0 then distanceLoop fuel (d >>> 1) (ret + 1) else ret

def distance (x y : NodeID) : ℕ :=
  distanceLoop 256 (sha3 (toBigEndian 64 x.toNat) ^^^ sha3 (toBigEndian 64 y.toNat)) 0

end Distance

namespace NodeTable

section Pointers

def tried (s : NodeTable) : List Ref :=
  match s.discovery with
  | .search _ _ tried => tried
  | _ => []

/-- `lock`: an entry lives as long as it is the one registered for its id, or the discovery holds
it. -/
def lock (s : NodeTable) (r : Ref) : Bool :=
  s.nodes (s.entries r).id == some r || s.tried.contains r

def bucket (s : NodeTable) (r : Ref) : TableM ℕ :=
  if 1 ≤ (s.entries r).distance ∧ (s.entries r).distance - 1 < sBins then
    pure ((s.entries r).distance - 1)
  else Eff.throw .outsideBuckets

def setEntry (r : Ref) (f : NodeEntry → NodeEntry) : TableM Unit :=
  Eff.modify fun s ↦ { s with entries := Function.update s.entries r (f (s.entries r)) }

def setBucket (bin : ℕ) (nodes : List Ref) : TableM Unit :=
  Eff.modify fun s ↦ { s with state := Function.update s.state bin nodes }

def appendEvent (id : NodeID) (type : NodeTableEventType) : TableM Unit :=
  Eff.modify fun s ↦ { s with
    eventNodes := s.eventNodes ++ [id]
    events := Function.update s.events id (some type) }

end Pointers

section Sending

def send (dest : UdpEndpoint) (packet : Packet) : TableM Unit :=
  Eff.modify fun s ↦ if s.isOpen then { s with sent := s.sent ++ [(dest, packet)] } else s

def ping (dest : NodeIPEndpoint) : TableM Unit := do
  let s ← Eff.get
  send dest.toUdp (.pingNode 0 s.node.endpoint dest)

end Sending

variable (sha3 : Bytes → H256)

section Nearest

/-- The first loop of `nearestNodeEntries`, which spreads from the two bins. -/
def spreadBins : ℕ → ℕ → ℕ → List ℕ
  | 0, _, _ => []
  | fuel + 1, head, tail =>
    if head ≠ tail ∧ head < sBins then
      (head :: if tail ≠ 0 then [tail] else []) ++ spreadBins fuel (head + 1) (tail - 1)
    else []

def forwardBins : ℕ → ℕ → List ℕ
  | 0, _ => []
  | fuel + 1, head => if head < sBins then head :: forwardBins fuel (head + 1) else []

def backwardBins : ℕ → ℕ → List ℕ
  | 0, _ => []
  | fuel + 1, tail => if 0 < tail then tail :: backwardBins fuel (tail - 1) else []

def visitedBins (head : ℕ) : List ℕ :=
  let lastBin := sBins - 1
  let tail := if head = 0 then lastBin else (head - 1) % sBins
  if 1 < head ∧ tail ≠ lastBin then spreadBins sBins head tail
  else if head < 2 then forwardBins sBins head
  else backwardBins sBins tail

def visited (s : NodeTable) (nID : NodeID) : List Ref :=
  (visitedBins (distance sha3 s.node.id nID)).flatMap fun bin ↦ (s.state bin).filter s.lock

/-- The map `found`, read in the order of its keys: the entries by their distance from the
target. -/
def found (s : NodeTable) (nID : NodeID) : List Ref :=
  byKey (fun r ↦ distance sha3 nID (s.entries r).id) (sBins + 1) (s.visited sha3 nID)

def usable (s : NodeTable) (r : Ref) : Bool :=
  (s.entries r).endpoint.isSpecified && (s.entries r).endpoint.isAllowed

def nearestNodeEntries (s : NodeTable) (nID : NodeID) : List Ref :=
  ((s.found sha3 nID).filter s.usable).take sBucketSize

end Nearest

section Activity

def doCheckEvictions : TableM Unit :=
  Eff.modify fun s ↦ { s with evictionChecks := s.evictionChecks + 1 }

/-- `m_evictions.emplace`, which leaves an eviction of the same node as it is. -/
def emplace (evictions : List (NodeID × EvictionTimeout)) (id : NodeID)
    (timeout : EvictionTimeout) : List (NodeID × EvictionTimeout) :=
  if id ∈ evictions.map Prod.fst then evictions else evictions ++ [(id, timeout)]

def evict (leastSeen ne : Ref) (now : ℕ) : TableM Unit := do
  let s ← Eff.get
  if s.isOpen then do
    let evictions := emplace s.evictions (s.entries leastSeen).id ⟨(s.entries ne).id, now⟩
    Eff.modify fun s ↦ { s with evictions := evictions }
    if evictions.length = 1 then doCheckEvictions else pure ()
    ping (s.entries leastSeen).endpoint
  else pure ()

def noteActiveNode (pubK : NodeID) (ep : UdpEndpoint) (now : ℕ) : TableM Unit := do
  let s ← Eff.get
  if pubK = s.node.id ∨ !(NodeIPEndpoint.mk ep.address ep.port ep.port).isAllowed then pure ()
  else
    match s.nodes pubK with
    | none => pure ()
    | some newNode =>
      if (s.entries newNode).pending then pure ()
      else do
        setEntry newNode fun e ↦ { e with
          endpoint := { e.endpoint with address := ep.address, udpPort := ep.port } }
        let bin ← s.bucket newNode
        let nodes := s.state bin
        if newNode ∈ nodes then setBucket bin (nodes.erase newNode ++ [newNode])
        else if nodes.length < sBucketSize then do
          setBucket bin (nodes ++ [newNode])
          appendEvent (s.entries newNode).id .nodeEntryAdded
        else if s.lock (nodes.headD 0) then evict (nodes.headD 0) newNode now
        else do
          -- The node was replaced in `addNode` and its pointer has expired.
          setBucket bin (nodes.tail ++ [newNode])
          appendEvent (s.entries newNode).id .nodeEntryAdded

def dropNode (ne : Ref) : TableM Unit := do
  let s ← Eff.get
  let bin ← s.bucket ne
  setBucket bin ((s.state bin).filter (· ≠ ne))
  appendEvent (s.entries ne).id .nodeEntryDropped

def register (node : Node) (pending : Bool) : TableM Unit :=
  Eff.modify fun s ↦ { s with
    next := s.next + 1
    entries := Function.update s.entries s.next {
      id := node.id, endpoint := node.endpoint, distance := distance sha3 s.node.id node.id
      pending := pending }
    nodes := Function.update s.nodes node.id (some s.next) }

def addNode (node : Node) (relation : NodeRelation) (now : ℕ) : TableM Unit :=
  match relation with
  | .known => do
    register sha3 node false
    noteActiveNode node.id node.endpoint.toUdp now
  | .unknown => do
    let s ← Eff.get
    if !node.endpoint.isSpecified then pure ()
    else if node.id = 0 then do
      -- The answer to the ping will tell the id.
      Eff.modify fun s ↦ { s with
        pubkDiscoverPings := s.pubkDiscoverPings.insert node.endpoint.address }
      ping node.endpoint
    else if (s.nodes node.id).isSome then pure ()
    else do
      register sha3 node true
      ping node.endpoint

end Activity

section Received

def whenRegistered (id : NodeID) (f : Ref → TableM Unit) : TableM Unit := do
  let s ← Eff.get
  match s.nodes id with
  | none => pure ()
  | some r => f r

def updateEndpoint (destination : NodeIPEndpoint) : TableM Unit :=
  Eff.modify fun s ↦
    let endpoint := s.node.endpoint
    let address :=
      if (!endpoint.isSpecified || !endpoint.isAllowed) && destination.address.isPublicAddress then
        destination.address
      else endpoint.address
    { s with node := { s.node with endpoint := { endpoint with
        address := address, udpPort := destination.udpPort } } }

def evictionOf (s : NodeTable) (sender : NodeID) (now : ℕ) : Option (NodeID × EvictionTimeout) :=
  (s.evictions.find? fun e ↦ e.1 = sender).filter fun e ↦ now < e.2.evictedTimePoint

def keepLeastSeen (leastSeenID newNodeID : NodeID) : TableM Unit := do
  Eff.modify fun s ↦ { s with evictions := s.evictions.filter fun e ↦ e.1 ≠ leastSeenID }
  whenRegistered newNodeID dropNode
  whenRegistered leastSeenID fun n ↦ setEntry n fun e ↦ { e with pending := false }

def acknowledge (sender : NodeID) (origin : UdpEndpoint) (now : ℕ) : TableM Bool := do
  let s ← Eff.get
  match s.nodes sender with
  | some n => do
    setEntry n fun e ↦ { e with pending := false }
    return true
  | none =>
    if origin.address ∈ s.pubkDiscoverPings then do
      Eff.modify fun s ↦ { s with pubkDiscoverPings := s.pubkDiscoverPings.erase origin.address }
      addNode sha3 ⟨sender, ⟨origin.address, origin.port, origin.port⟩⟩ .unknown now
      return true
    else return false

def onPong (sender : NodeID) (origin : UdpEndpoint) (destination : NodeIPEndpoint) (now : ℕ) :
    TableM Bool := do
  let s ← Eff.get
  let expected ←
    match s.evictionOf sender now with
    | some e => do
      keepLeastSeen e.1 e.2.newNodeID
      pure true
    | none => acknowledge sha3 sender origin now
  if expected then updateEndpoint destination else pure ()
  return expected

def nlimit : ℕ := (maxDatagramSize - 109) / 90

def chunks : ℕ → List Ref → List (List Ref)
  | 0, _ => []
  | fuel + 1, nearest =>
    if nearest.isEmpty then [] else nearest.take nlimit :: chunks fuel (nearest.drop nlimit)

def neighbourPackets (s : NodeTable) (nearest : List Ref) : List Packet :=
  (chunks nearest.length nearest).map fun chunk ↦
    .neighbours (chunk.map fun r ↦ ⟨(s.entries r).endpoint, (s.entries r).id⟩)

/-- The cases of `onReceived`; the answer is whether the sender is noted as active afterwards. -/
def onPacket (sender : NodeID) (echo : H256) (origin : UdpEndpoint) (packet : Packet) (now : ℕ) :
    TableM Bool :=
  match packet with
  | .pingNode _ source _ => do
    let source := { source with address := origin.address, udpPort := origin.port }
    addNode sha3 ⟨sender, source⟩ .unknown now
    send source.toUdp (.pong source echo)
    return true
  | .pong destination _ => onPong sha3 sender origin destination now
  | .findNode target => do
    let s ← Eff.get
    Eff.forEach (s.neighbourPackets (s.nearestNodeEntries sha3 target)) (send origin)
    return true
  | .neighbours neighbours => do
    let s ← Eff.get
    let expected := s.findNodeTimeout.any fun t ↦ t.1 = sender ∧ now - t.2 < cReqTimeout
    Eff.modify fun s ↦ { s with
      findNodeTimeout := s.findNodeTimeout.filter fun t ↦
        t.1 ≠ sender ∨ now - t.2 < cReqTimeout }
    if expected then
      Eff.forEach neighbours fun n ↦ addNode sha3 ⟨n.node, n.endpoint⟩ .unknown now
    else pure ()
    return true

variable (crypto : Crypto)

/-- `onReceived`, at a time of the steady clock and a time in seconds since the epoch. An exception
of the parser is logged and dropped. -/
def onReceived (origin : UdpEndpoint) (packet : Bytes) (now seconds : ℕ) : TableM Unit :=
  match DiscoveryDatagram.interpretUDP crypto packet with
  | .error _ | .ok none => pure ()
  | .ok (some datagram) =>
    if datagram.ts.toNat < seconds then pure ()
    else do
      if ← onPacket crypto.sha3 datagram.sourceid datagram.echo origin datagram.packet now then
        noteActiveNode datagram.sourceid origin now
      else pure ()

end Received

section Timers

/-- What the timer of `doCheckEvictions` does, for an order in which the map of evictions is
walked. -/
def checkEvictions (order : List (NodeID × EvictionTimeout)) (now : ℕ) : TableM Unit := do
  let s ← Eff.get
  let drop := order.filterMap fun e ↦
    if cReqTimeout < now - e.2.evictedTimePoint then s.nodes e.2.newNodeID else none
  Eff.forEach (drop.destutter (· ≠ ·)) dropNode
  Eff.modify fun s ↦ { s with evictionChecks := s.evictionChecks - 1 }
  if drop.length < s.evictions.length then doCheckEvictions else pure ()

def doDiscovery : TableM Unit := Eff.modify fun s ↦ { s with discovery := .refresh }

def findNode (target : NodeID) (now : ℕ) (r : Ref) : TableM Unit := do
  Eff.modify fun s ↦ { s with
    findNodeTimeout := s.findNodeTimeout ++ [((s.entries r).id, now)] }
  let s ← Eff.get
  send (s.entries r).endpoint.toUdp (.findNode target)

def doDiscover (target : NodeID) (round : ℕ) (tried : List Ref) (now : ℕ) : TableM Unit := do
  let s ← Eff.get
  if !s.isOpen then Eff.modify fun s ↦ { s with discovery := .stopped }
  else if round = sMaxSteps then doDiscovery
  else do
    let triedList :=
      ((s.nearestNodeEntries sha3 target).filter fun r ↦ !tried.contains r).take sAlpha
    Eff.forEach triedList (findNode target now)
    if triedList.isEmpty then doDiscovery
    else Eff.modify fun s ↦ { s with discovery := .search target (round + 1) (tried ++ triedList) }

/-- The timer of the discovery: a search for a random target is begun, or the next round of the
one under way. -/
def onDiscoveryTimer (target : NodeID) (now : ℕ) : TableM Unit := do
  let s ← Eff.get
  match s.discovery with
  | .stopped => pure ()
  | .refresh => doDiscover sha3 target 0 [] now
  | .search target round tried => doDiscover sha3 target round tried now

/-- `NodeTableEventHandler::processEvents`: the events handed to the host. -/
def processEvents (s : NodeTable) : List (NodeID × Option NodeTableEventType) × NodeTable :=
  ((s.eventNodes.destutter (· ≠ ·)).map fun n ↦ (n, s.events n),
    { s with eventNodes := [], events := fun _ ↦ none })

end Timers

end NodeTable

inductive TableEvent
  | addNode (node : Node) (relation : NodeRelation)
  | onReceived (origin : UdpEndpoint) (packet : Bytes) (seconds : ℕ)
  | checkEvictions (order : List (NodeID × EvictionTimeout))
  | discoveryTimer (target : NodeID)
  | processEvents
  | disconnect

namespace NodeTable

variable (crypto : Crypto)

def perform (now : ℕ) : TableEvent → TableM Unit
  | .addNode node relation => addNode crypto.sha3 node relation now
  | .onReceived origin packet seconds => onReceived crypto origin packet now seconds
  | .checkEvictions order => checkEvictions order now
  | .discoveryTimer target => onDiscoveryTimer crypto.sha3 target now
  | .processEvents => Eff.modify fun s ↦ s.processEvents.2
  | .disconnect => Eff.modify fun s ↦ { s with isOpen := false }

end NodeTable

end GseNetwork.Net
