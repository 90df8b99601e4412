import CalvinConstrained.Runtime.Answer
import CalvinConstrained.Runtime.BufferFit
import CalvinConstrained.Runtime.PeerMessage

namespace CalvinConstrained

/-- The bytes of an answer of which `data` tell what it returns. -/
def Size.answer (nodeId msgUuid toRtUuid : Bytes) (status : UInt32) (data : Nat) : Nat :=
  92+text msgUuid.length+text toRtUuid.length+text nodeId.length+number status+data

/-- The message is written, and it stays in its buffer. -/
def Encoder.Fits (mp : Msgpuck) (prefixLen : Nat) (e : Encoder) (s : Node) : Prop :=
  ∀ ofFloat, (e.payload mp ofFloat prefixLen s).isSome=true

namespace Outgoing

/-- The call that writes an answer. -/
def encoder : Outgoing → Option Encoder
  | .reply msgUuid toRtUuid status => some (.reply msgUuid toRtUuid (.ofNat status))
  | .tunnelNewReply msgUuid toRtUuid status tunnelId =>
    some (.tunnelNewReply msgUuid toRtUuid (.ofNat status) tunnelId)
  | .portConnectReply msgUuid toRtUuid status portId =>
    some (.portConnectReply msgUuid toRtUuid (.ofNat status) portId)
  | .portDisconnectReply msgUuid toRtUuid status =>
    some (.portDisconnectReply msgUuid toRtUuid (.ofNat status))
  | _ => none

theorem encoder_eq_none {m : Outgoing} (h : m.kind ≠ .reply) : m.encoder=none := by
  cases m <;> first | rfl | exact absurd rfl h

/-- The bytes of what an answer returns. -/
def dataSize : Outgoing → Nat
  | .tunnelNewReply _ _ _ tunnelId => 10+Size.text tunnelId.length
  | .portConnectReply _ _ _ portId => 8+Size.text portId.length
  | .portDisconnectReply _ _ _ => 18
  | _ => 0

end Outgoing

theorem Encode.hasTransport_eq {s : Node} (hs : s.host.transport.isSome=true) :
    hasTransport s=some (true,s) := congrArg (fun x => some (x,s)) hs

section Fits

variable {mp : Msgpuck} (hmp : mp.Sized)

include hmp

theorem Encode.size_replyWith (nodeId msgUuid toRtUuid : Bytes) (value : List (Bytes × Doc)) :
    (replyWith mp nodeId msgUuid toRtUuid value).size=
      51+Size.text msgUuid.length+Size.text toRtUuid.length+Size.text nodeId.length+
        Doc.sizeEntries value := by
  simp [replyWith,kvStr,size_text hmp,Size.text_of_lt,Size.header_of_lt,ascii]
  omega

theorem Encode.size_successList : Doc.sizeEntries [successList mp]=28 := by
  simp [successList,size_uint hmp,Size.text_of_lt,Size.header_of_lt,ascii]
  decide

theorem Encoder.fits_iff {prefixLen : Nat} {e : Encoder} {s t : Node} {d : Doc}
    (h : ∀ ofFloat, e.doc mp ofFloat prefixLen s=some (some d,t)) :
    e.Fits mp prefixLen s ↔ e.prefixOf prefixLen+d.size ≤ e.bufferSize s := by
  have hpayload : ∀ ofFloat, (e.payload mp ofFloat prefixLen s).isSome=true ↔
      e.prefixOf prefixLen+d.size ≤ e.bufferSize s := by
    intro ofFloat
    simp only [payload,h ofFloat,Option.bind_eq_bind,Option.bind_some,Doc.length_encode hmp]
    split <;> simp_all
  exact ⟨fun hfits => (hpayload fun _ => 0).mp (hfits _),fun hroom f => (hpayload f).mpr hroom⟩

/-- An answer fits its buffer exactly when its texts leave it enough room. -/
theorem Outgoing.fits_iff {prefixLen : Nat} {m : Outgoing} {e : Encoder} {s : Node}
    {msgUuid toRtUuid : Bytes} {status : Nat} (hs : s.host.transport.isSome=true)
    (hm : m.answer=some (msgUuid,toRtUuid,status)) (he : m.encoder=some e) :
    e.Fits mp prefixLen s ↔
      prefixLen+Size.answer s.host.id msgUuid toRtUuid (.ofNat status) m.dataSize ≤ 1000 := by
  have hlist := Encode.size_successList hmp
  simp only [Doc.sizeEntries_cons,Doc.sizeEntries_nil] at hlist
  have hsize : ∀ value : List (Bytes × Doc), e.prefixOf prefixLen=prefixLen →
      e.bufferSize s=1000 → Doc.sizeEntries value=41+Size.number (.ofNat status)+m.dataSize →
      (∀ ofFloat, e.doc mp ofFloat prefixLen s=
        some (some (Encode.replyWith mp s.host.id msgUuid toRtUuid value),s)) →
      (e.Fits mp prefixLen s ↔
        prefixLen+Size.answer s.host.id msgUuid toRtUuid (.ofNat status) m.dataSize ≤ 1000) := by
    intro value hpre hbuffer hvalue hdoc
    rw [Encoder.fits_iff hmp hdoc,hpre,hbuffer,Encode.size_replyWith hmp,hvalue,Size.answer]
    omega
  have hreply : ∀ data : Bytes × Doc,
      Size.text data.1.length+data.2.size=m.dataSize →
      Doc.sizeEntries (Encode.replyData mp (.ofNat status) data)=
        41+Size.number (.ofNat status)+m.dataSize := by
    intro data hdata
    simp only [Encode.replyData,Doc.sizeEntries_cons,Doc.sizeEntries_nil,Doc.size_map,
      Encode.size_uint hmp,hdata]
    have hstatus : Size.text (ascii "status").length=7 := by decide
    have hkey : Size.text (ascii "data").length=5 := by decide
    have hone : Size.header 1=1 := by decide
    omega
  cases m <;> cases hm <;> cases he
  case reply =>
    have hvalue : Doc.sizeEntries [(ascii "status",Encode.uint mp (.ofNat status)),
        (ascii "data",Encode.nil mp),Encode.successList mp]=41+Size.number (.ofNat status)+0 := by
      have hstatus : Size.text (ascii "status").length=7 := by decide
      have hkey : Size.text (ascii "data").length=5 := by decide
      simp only [Doc.sizeEntries_cons,Doc.sizeEntries_nil,Encode.size_uint hmp,Encode.nil,
        Doc.size_raw,hmp.length_nil]
      omega
    refine hsize _ rfl rfl hvalue fun ofFloat => ?_
    rw [Encoder.doc,Encode.reply,Atom.bind_apply,Encode.hasTransport_eq hs]
    rfl
  case tunnelNewReply tunnelId =>
    refine hsize _ rfl rfl (hreply (Encode.kvStr mp "tunnel_id" tunnelId) ?_) fun ofFloat => ?_
    · rw [Encode.kvStr,Encode.size_text hmp]
      rfl
    · rw [Encoder.doc,Encode.tunnelNewReply,Atom.bind_apply,Encode.hasTransport_eq hs]
      rfl
  case portConnectReply portId =>
    refine hsize _ rfl rfl (hreply (Encode.kvStr mp "port_id" portId) ?_) fun ofFloat => ?_
    · rw [Encode.kvStr,Encode.size_text hmp]
      rfl
    · rw [Encoder.doc,Encode.portConnectReply,Atom.bind_apply,Encode.needTransport_eq hs]
      rfl
  case portDisconnectReply =>
    refine hsize _ rfl rfl (hreply (ascii "remaining_tokens",.map 0 []) ?_) fun ofFloat => ?_
    · rw [Doc.size_map,Doc.sizeEntries_nil]
      rfl
    · rw [Encoder.doc,Encode.portDisconnectReply,Atom.bind_apply,Encode.needTransport_eq hs]
      rfl

/-- Every status of a request takes at most as much room as that of a failure. -/
theorem Outgoing.fits_of_room {prefixLen : Nat} {m : Outgoing} {s : Node} {msgUuid toRtUuid : Bytes}
    {status : Nat} (hs : s.host.transport.isSome=true)
    (hm : m.answer=some (msgUuid,toRtUuid,status)) (hstatus : status<65536)
    (hroom : prefixLen+Size.answer s.host.id msgUuid toRtUuid 500 m.dataSize ≤ 1000) :
    ∀ e ∈ m.encoder, e.Fits mp prefixLen s := by
  intro e he
  have hsmall : UInt32.ofNat status<65536 := by
    rw [UInt32.lt_iff_toNat_lt,UInt32.toNat_ofNat_of_lt' (by simp [UInt32.size]; omega)]
    exact hstatus
  have hnumber : Size.number (.ofNat status) ≤ Size.number 500 := by
    change _ ≤ 3
    rw [Size.number,if_pos hsmall]
    split_ifs <;> omega
  rw [fits_iff hmp hs hm he]
  unfold Size.answer at hroom ⊢
  omega

end Fits

end CalvinConstrained
