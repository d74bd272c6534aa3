import GseNetwork.Core.RoundTrip

namespace GseNetwork.Core

open Foundation.BigEndian Foundation.SelfDelimiting RLP

namespace RLPStream

variable (cast : ℤ → Except Exception UInt8)

variable {cast} {s : RLPStream} {i : ℤ}

end RLPStream

namespace Transaction

def contentFields (t : Transaction) : List Bytes :=
  [encodeInt t.chainID.toNat, encodeInt t.type.toNat, encodeHash 20 t.sender,
    encodeHash 20 t.recipient, encodeInt t.timestamp.toInt, encodeBytes t.data,
    encodeInt t.value.toNat]

def content (t : Transaction) : Bytes := (t.streamRLPContent {}).out

theorem content_eq (t : Transaction) : t.content = encodeList t.contentFields := by
  have h := RLPStream.appendList_items {} t.contentFields
  simp only [contentFields, List.foldl_cons, List.foldl_nil, List.length_cons, List.length_nil] at h
  rw [content, streamRLPContent, streamFields, RLPStream.appendInt_eq,
    RLPStream.append_eq, RLPStream.appendInt_eq, RLPStream.appendHash_eq, RLPStream.appendHash_eq,
    RLPStream.appendInt_eq, RLPStream.appendInt_eq, h, RLPStream.out_appendRaw]
  rfl

def Produced (t : Transaction) : Prop := ∃ d, ofRLP d = .ok t

variable {x y : Transaction}

theorem Produced.length_lt (h : x.Produced) : x.data.length < maxLength := by
  obtain ⟨d, hd⟩ := h
  obtain ⟨z, hdata, hlisting⟩ := ofRLP_eq_ok.mp hd
  exact length_lt_of_toBytes (hlisting.items z (by simp [wireItems])) hdata

end Transaction

namespace BlockHeader

def Produced (h : BlockHeader) : Prop := ∃ d, populate {} d = .ok h

variable {x y : BlockHeader}

theorem Produced.length_lt (h : x.Produced) : x.extra.length < maxLength := by
  obtain ⟨d, hd⟩ := h
  rcases populate_eq_ok.mp hd with ⟨z, v, hfits, hlisting⟩ | ⟨rfl, -⟩
  · exact length_lt_of_toBytes (hlisting.items z (by simp [wireItems])) hfits.extra
  · decide

end BlockHeader

end GseNetwork.Core
