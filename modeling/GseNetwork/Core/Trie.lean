import GseNetwork.Core.Block

namespace GseNetwork.Core

open Foundation.BigEndian
open Std (ExtTreeMap)

namespace Trie

section Merkle

variable (sha3 : Bytes → H256)

def makeTrieLeft (value : H256) : H256 := value &&& ~~~(1#256 <<< 255)

def makeTrieRight (value : H256) : H256 := value ||| (1#256 <<< 255)

def hexBytes (value : H256) : Bytes := value.toHex.toList.map fun c ↦ UInt8.ofNat c.toNat

def hashPair (l r : H256) : H256 := sha3 (hexBytes (makeTrieLeft l) ++ hexBytes (makeTrieRight r))

/-- One round of `merkle`; an odd last element is paired with itself. -/
def pairUp : List H256 → List H256
  | [] => []
  | [x] => [hashPair sha3 x x]
  | x :: y :: rest => hashPair sha3 x y :: pairUp rest

def merkleLoop : ℕ → List H256 → H256
  | _, [] => 0
  | _, [x] => x
  | 0, x :: _ => x
  | fuel + 1, ids => merkleLoop fuel (pairUp sha3 ids)

def merkle (ids : List H256) : H256 := merkleLoop sha3 ids.length ids

end Merkle

section Patricia

variable (sha3 : Bytes → H256)

def asNibbles (s : Bytes) : Bytes := s.flatMap fun i ↦ [i / 16, i % 16]

def packNibbles : Bytes → Bytes
  | x :: y :: rest => (x * 16 + y) :: packNibbles rest
  | _ => []

/-- `hexPrefixEncode` of the nibbles from `first` up to `last`. -/
def hexPrefixEncode (hexVector : Bytes) (leaf : Bool) (first last : ℕ) : Bytes :=
  let nibbles := (hexVector.take last).drop first
  let flag : UInt8 := if leaf then 2 else 0
  match nibbles.length % 2, nibbles with
  | 1, x :: rest => ((flag ||| 1) * 16 ||| x) :: packNibbles rest
  | _, _ => (flag * 16) :: packNibbles nibbles

abbrev HexMap := List (Bytes × Bytes)

/-- Where `shared` stops in `hash256rlp`: the position up to which both keys agree, counted from
`preLen` on. -/
def sharedNibbles (x y : Bytes) (preLen : ℕ) : ℕ :=
  preLen + (((x.drop preLen).zip (y.drop preLen)).takeWhile fun i ↦ i.1 == i.2).length

def sharedPrefix (first : Bytes) (rest : HexMap) (preLen : ℕ) : ℕ :=
  rest.foldl (fun n i ↦ min n (sharedNibbles first i.1 preLen)) (2 ^ 32 - 1)

/-- `hash256aux`: a node of 32 bytes or more is replaced by its hash. -/
def hash256aux (node : RLPStream → RLPStream) (rlp : RLPStream) : RLPStream :=
  let out := (node {}).out
  if out.length < 32 then rlp.appendRaw out else rlp.appendHash 32 (sha3 out)

def hasNibble (preLen : ℕ) (i : UInt8) (entry : Bytes × Bytes) : Bool :=
  entry.1[preLen]? == some i

/-- The loop over the sixteen slots of a branch: each takes the entries at the front of the range
whose next nibble is its own. -/
def branchSlots (child : HexMap → RLPStream → RLPStream) (preLen : ℕ) :
    List UInt8 → HexMap → RLPStream → RLPStream
  | [], _, rlp => rlp
  | i :: slots, range, rlp =>
    let taken := range.takeWhile (hasNibble preLen i)
    branchSlots child preLen slots (range.dropWhile (hasNibble preLen i))
      (if taken.isEmpty then rlp.append [] else hash256aux sha3 (child taken) rlp)

def nibbles : List UInt8 := [0, 1, 2, 3, 4, 5, 6, 7, 8, 9, 10, 11, 12, 13, 14, 15]

/-- `hash256rlp`; each call goes deeper into the keys, so their length bounds the calls. -/
def hash256rlp : ℕ → HexMap → ℕ → RLPStream → RLPStream
  | 0, _, _, rlp => rlp
  | _ + 1, [], _, rlp => rlp.append []
  | _ + 1, [(key, value)], preLen, rlp =>
    ((rlp.appendList 2).append (hexPrefixEncode key true preLen key.length)).append value
  | fuel + 1, (key, value) :: next :: rest, preLen, rlp =>
    let sharedPre := sharedPrefix key (next :: rest) preLen
    if preLen < sharedPre then
      hash256aux sha3 (hash256rlp fuel ((key, value) :: next :: rest) sharedPre)
        ((rlp.appendList 2).append (hexPrefixEncode key false preLen sharedPre))
    else if preLen = key.length then
      (branchSlots sha3 (fun range ↦ hash256rlp fuel range (preLen + 1)) preLen nibbles
        (next :: rest) (rlp.appendList 17)).append value
    else
      (branchSlots sha3 (fun range ↦ hash256rlp fuel range (preLen + 1)) preLen nibbles
        ((key, value) :: next :: rest) (rlp.appendList 17)).append []

def hexMap (bytesMap : ExtTreeMap Bytes Bytes) : HexMap :=
  (bytesMap.toList.reverse.foldl (fun m i ↦ m.insert (asNibbles i.1) i.2)
    (∅ : ExtTreeMap Bytes Bytes)).toList

def depth (range : HexMap) : ℕ := (range.map fun i ↦ i.1.length).foldl max 0

def trieRLP256 (bytesMap : ExtTreeMap Bytes Bytes) : Bytes :=
  if bytesMap.isEmpty then ((RLPStream.append {} [])).out
  else (hash256rlp sha3 (depth (hexMap bytesMap) + 1) (hexMap bytesMap) 0 {}).out

def trieHash256 (bytesMap : ExtTreeMap Bytes Bytes) : H256 := sha3 (trieRLP256 sha3 bytesMap)

end Patricia

end Trie

namespace Block

variable (sha3 : Bytes → H256)

def addTransaction (transaction : Transaction) (x : Block) : Block :=
  { x with transactions := x.transactions ++ [transaction] }

def transactionsMap (x : Block) : ExtTreeMap Bytes Bytes :=
  x.transactions.zipIdx.foldl (fun m i ↦
    m.insertIfNew (RLPStream.appendInt {} i.2).out (i.1.streamRLP {}).out) ∅

def setRoots (x : Block) : Block :=
  { x with
    blockHeader.mklRoot := Trie.merkle sha3 (x.transactions.map fun i ↦ i.getHash sha3)
    blockHeader.transactionsRoot := Trie.trieHash256 sha3 x.transactionsMap
    blockHeader.receiptRoot := Trie.trieHash256 sha3 ∅ }

/-- `Block::sign`, with a key given by what it signs; `signWith h` is the zero signature where
`SignatureStruct::isValid` refuses the result. -/
def sign (signWith : H256 → SignatureStruct) (x : Block) : Block :=
  { x with blockHeader.signature := signWith (x.getHash sha3) }

end Block

end GseNetwork.Core
