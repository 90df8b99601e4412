import CalvinConstrained.Runtime.AttemptBound
import CalvinConstrained.Runtime.Live
import CalvinConstrained.Runtime.NameLookup
import CalvinConstrained.Runtime.TokenWire

namespace CalvinConstrained

open Prog

namespace Atom

theorem portHandleConnect_text (p : Ref) (b r : Bytes) :
    portHandleConnect p ⟨b++r,b.length⟩=portHandleConnect p (.ofString b) := by
  have hon : portOnTunnel p ⟨b++r,b.length⟩=portOnTunnel p (.ofString b) := by
    unfold portOnTunnel Text.ofString
    simp only [strncmpEq_append_right _ _ _ (Nat.le_refl b.length)]
  have hin : ∀ ts, tunnelGetFromIdIn ⟨b++r,b.length⟩ ts=tunnelGetFromIdIn (.ofString b) ts := by
    intro ts
    induction ts with
    | nil => rfl
    | cons t ts ih => simp only [tunnelGetFromIdIn,listIdMatches_text,ih]
  simp only [portHandleConnect,hon,tunnelGetFromId,hin]

theorem portGetFromPeerPortId_text (b r : Bytes) :
    portGetFromPeerPortId ⟨b++r,b.length⟩=portGetFromPeerPortId (.ofString b) := by
  have hin : ∀ ps, portWithPeerIn ⟨b++r,b.length⟩ ps=portWithPeerIn ⟨b,b.length⟩ ps := by
    intro ps
    induction ps with
    | nil => rfl
    | cons p ps ih =>
      simp only [portWithPeerIn,strncmpEq_append_right _ _ _ (Nat.le_refl b.length),ih]
  have hfrom : ∀ as, portGetFromPeerPortIdIn ⟨b++r,b.length⟩ as=
      portGetFromPeerPortIdIn ⟨b,b.length⟩ as := by
    intro as
    induction as with
    | nil => rfl
    | cons a as ih => simp only [portGetFromPeerPortIdIn,hin,ih]
  simp only [portGetFromPeerPortId,hfrom,Text.ofString]

end Atom

/-- The request that a reply with the given id answers. -/
def Node.pending (s : Node) (msgUuid : Bytes) : Option PendingMsg :=
  s.host.pendingMsgs.find? fun m => listIdMatches m.msgUuid (.ofString msgUuid)

section Results

variable {mp : Msgpuck} {α : Type} {s t : Node} {a : α}

theorem Flow.yields_of_host {x : Atom α} (h : (host x : Flow mp α).Yields s a t) :
    ∃ u, x s=some (a,u) ∧ t={s with host := u.host} := by
  obtain ⟨r,v,hread,h₁⟩ := h.of_bind
  obtain ⟨hr,hv⟩ := hread.unique (yields_read s)
  subst r v
  cases hx : x s with
  | none =>
    rw [hx] at h₁
    obtain ⟨ops,h₁⟩ := h₁
    cases h₁
  | some r =>
    rw [hx] at h₁
    obtain ⟨_,v,hact,h₂⟩ := h₁.of_bind
    obtain ⟨_,hv⟩ := hact.unique (yields_act rfl)
    subst v
    obtain ⟨ha,ht⟩ := h₂.unique (yields_pure _ _)
    subst a t
    exact ⟨r.2,rfl,rfl⟩

end Results

namespace TokenRoute

variable (mp : Msgpuck) (c : TokenRoute)

def connectEntries (uuid : Bytes) : List (Bytes × Doc) :=
  [Encode.kvStr mp "to_rt_uuid" c.toRt,
    Encode.kvStr mp "from_rt_uuid" c.fromRt,
    Encode.kvStr mp "msg_uuid" uuid,
    Encode.kvStr mp "tunnel_id" c.tunnelId,
    Encode.kvStr mp "cmd" (ascii "PORT_CONNECT"),
    (ascii "peer_port_name",Encode.nil mp),
    (ascii "peer_actor_id",Encode.nil mp),
    Encode.kvStr mp "peer_port_id" c.peerPortId,
    Encode.kvStr mp "port_id" c.portId,
    (ascii "peer_port_properties",Encode.nil mp),
    (ascii "port_properties",.map 3 [
      Encode.kvStr mp "direction" (Encode.directionText .dirOut),
      Encode.kvStr mp "routing" (ascii "default"),
      (ascii "nbr_peers",Encode.uint mp 1)])]

theorem connectEntries_keys (uuid : Bytes) : (c.connectEntries mp uuid).map Prod.fst=
    [ascii "to_rt_uuid",ascii "from_rt_uuid",ascii "msg_uuid",ascii "tunnel_id",ascii "cmd",
      ascii "peer_port_name",ascii "peer_actor_id",ascii "peer_port_id",ascii "port_id",
      ascii "peer_port_properties",ascii "port_properties"] := rfl

/-- The PORT_CONNECT of the end with the out-port. -/
def connectMessage (uuid : Bytes) : Doc := .map 11 (c.connectEntries mp uuid)

def connectBytes (uuid : Bytes) : Bytes := (c.connectMessage mp uuid).encode mp

/-- The REPLY to it. -/
def answerMessage (uuid : Bytes) (status : UInt32) : Doc :=
  Encode.replyWith mp c.toRt uuid c.fromRt
    (Encode.replyData mp status (Encode.kvStr mp "port_id" c.peerPortId))

def answerBytes (uuid : Bytes) (status : UInt32) : Bytes :=
  (c.answerMessage mp uuid status).encode mp

section Valid

open PortDoc (valid_str valid_uint valid_nil)

variable {mp c} (hmp : mp.Lawful) (hc : c.Short) {uuid : Bytes} (hu : uuid.length<2^32)

include hmp hc hu

theorem valid_connectMessage : Doc.Valid mp (c.connectMessage mp uuid) := by
  have hproperties : Doc.Valid mp (.map 3 [
      Encode.kvStr mp "direction" (Encode.directionText .dirOut),
      Encode.kvStr mp "routing" (ascii "default"),
      (ascii "nbr_peers",Encode.uint mp 1)]) := by
    rw [Doc.valid_map]
    refine ⟨rfl,by decide,?_⟩
    simp only [Encode.kvStr,Encode.text,Encode.uint,Doc.entriesValid_cons]
    exact ⟨by decide,valid_str hmp (by decide),by decide,
      valid_str hmp (by decide),by decide,valid_uint hmp 1,Doc.entriesValid_nil⟩
  rw [connectMessage,Doc.valid_map]
  refine ⟨rfl,by decide,?_⟩
  simp only [connectEntries,Encode.kvStr,Encode.text,Encode.nil,Doc.entriesValid_cons]
  exact ⟨by decide,valid_str hmp hc.toRt,by decide,valid_str hmp hc.fromRt,
    by decide,valid_str hmp hu,by decide,valid_str hmp hc.tunnelId,by decide,
    valid_str hmp (by decide),by decide,valid_nil hmp,by decide,
    valid_nil hmp,by decide,valid_str hmp hc.peerPortId,by decide,
    valid_str hmp hc.portId,by decide,valid_nil hmp,by decide,hproperties,
    Doc.entriesValid_nil⟩

omit hu in
theorem valid_answerData : Doc.Valid mp (.map 1 [Encode.kvStr mp "port_id" c.peerPortId]) := by
  rw [Doc.valid_map]
  refine ⟨rfl,by decide,?_⟩
  simp only [Encode.kvStr,Encode.text,Doc.entriesValid_cons]
  exact ⟨by decide,valid_str hmp hc.peerPortId,Doc.entriesValid_nil⟩

omit hu in
theorem valid_answerValue (status : UInt32) : Doc.Valid mp
    (.map 3 (Encode.replyData mp status (Encode.kvStr mp "port_id" c.peerPortId))) := by
  have hlist : Doc.Valid mp (Encode.successList mp).2 := by
    simp only [Encode.successList,Encode.uint,Doc.valid_array,Doc.itemsValid_cons]
    exact ⟨rfl,by decide,valid_uint hmp _,valid_uint hmp _,
      valid_uint hmp _,valid_uint hmp _,valid_uint hmp _,
      valid_uint hmp _,valid_uint hmp _,Doc.itemsValid_nil⟩
  rw [Doc.valid_map]
  refine ⟨rfl,by decide,?_⟩
  simp only [Encode.replyData,Encode.uint,Doc.entriesValid_cons]
  have hkey : (ascii "success_list").length<2^32 := by decide
  exact ⟨by decide,valid_uint hmp status,hkey,hlist,by decide,
    valid_answerData hmp hc,Doc.entriesValid_nil⟩

theorem valid_answerMessage (status : UInt32) : Doc.Valid mp (c.answerMessage mp uuid status) := by
  rw [answerMessage,Encode.replyWith,Doc.valid_map]
  refine ⟨rfl,by decide,?_⟩
  simp only [Encode.kvStr,Encode.text,Doc.entriesValid_cons]
  exact ⟨by decide,valid_str hmp hu,by decide,valid_str hmp hc.fromRt,
    by decide,valid_str hmp hc.toRt,by decide,valid_str hmp (by decide),
    by decide,valid_answerValue hmp hc status,Doc.entriesValid_nil⟩

end Valid

section Reads

variable {mp : Msgpuck} (hmp : mp.Lawful) {c : TokenRoute} (hc : c.Short) {uuid : Bytes}
  (hu : uuid.length<2^32) {v : Node} {client : Transport}

theorem called_portConnect (r : Bytes) : Top.called mp
      ⟨ascii "PORT_CONNECT"++r,(ascii "PORT_CONNECT").length⟩=
    some (ascii "PORT_CONNECT",fun r => Flow.toTop (Flow.parsePortConnect mp r)) := by
  have hname : (fun e : Bytes × (Bytes → Top mp Result) =>
      strncmpEq (ascii "PORT_CONNECT"++r) e.1 (ascii "PORT_CONNECT").length)=
    fun e => strncmpEq (ascii "PORT_CONNECT") e.1 (ascii "PORT_CONNECT").length := by
    funext e
    exact strncmpEq_append_left _ _ _ (Nat.le_refl _)
  rw [Top.called,hname]
  rfl

theorem called_answer (r : Bytes) : Top.called mp ⟨ascii "REPLY"++r,(ascii "REPLY").length⟩=
    some (ascii "REPLY",Top.parseReply mp) := by
  have hname : (fun e : Bytes × (Bytes → Top mp Result) =>
      strncmpEq (ascii "REPLY"++r) e.1 (ascii "REPLY").length)=
    fun e => strncmpEq (ascii "REPLY") e.1 (ascii "REPLY").length := by
    funext e
    exact strncmpEq_append_left _ _ _ (Nat.le_refl _)
  rw [Top.called,hname]
  rfl

include hmp hc hu

theorem parseMessage_connect (hv : v.host.transport=some client) (hclient : client.state=.enabled) :
    (Top.parseMessage mp (c.connectBytes mp uuid)).run v=
      (Flow.toTop (Flow.parsePortConnect mp (c.connectBytes mp uuid))).run v := by
  have hcmd := Coder.decodeStringFromMap_at hmp 4 (valid_connectMessage hmp hc hu)
    (c.connectEntries_keys mp uuid) rfl [] rfl (by decide) (by decide)
  rw [List.append_nil] at hcmd
  refine (parseMessage_called hv hclient hcmd).trans ?_
  rw [called_portConnect]
  rfl

theorem parseMessage_answer (hv : v.host.transport=some client) (hclient : client.state=.enabled)
    (status : UInt32) : (Top.parseMessage mp (c.answerBytes mp uuid status)).run v=
      (Top.parseReply mp (c.answerBytes mp uuid status)).run v := by
  have hkeys : [Encode.kvStr mp "msg_uuid" uuid,Encode.kvStr mp "to_rt_uuid" c.fromRt,
      Encode.kvStr mp "from_rt_uuid" c.toRt,Encode.kvStr mp "cmd" (ascii "REPLY"),
      (ascii "value",.map 3 (Encode.replyData mp status
        (Encode.kvStr mp "port_id" c.peerPortId)))].map Prod.fst=
    [ascii "msg_uuid",ascii "to_rt_uuid",ascii "from_rt_uuid",ascii "cmd",ascii "value"] := rfl
  have hcmd := Coder.decodeStringFromMap_at hmp 3 (valid_answerMessage hmp hc hu status)
    hkeys rfl [] rfl (by decide) (by decide)
  rw [List.append_nil] at hcmd
  refine (parseMessage_called hv hclient hcmd).trans ?_
  rw [called_answer]
  rfl

/-- `cc_proto_parse_port_connect` reads back what `cc_proto_send_port_connect` wrote. -/
theorem parsePortConnect_arrives {q : Ref} {r : Result} {w : Node}
    (hq : (Atom.portGet (.ofString c.peerPortId) v).map Prod.fst=some (some q))
    (h : (Flow.parsePortConnect mp (c.connectBytes mp uuid)).Yields v r w) :
    ∃ result u z, Atom.portHandleConnect q (.ofString c.tunnelId) v=some (result,u) ∧
      Atom.send (.portConnectReply uuid c.fromRt (if result=.success then 200 else 404)
        c.peerPortId) u=some (r,z) ∧ w={u with host := z.host} := by
  have hv := valid_connectMessage hmp hc hu
  have hkeys := c.connectEntries_keys mp uuid
  have hfrom := Coder.decodeStringFromMap_at hmp 1 hv hkeys rfl [] rfl hc.fromRt (by decide)
  have hid := Coder.decodeStringFromMap_at hmp 2 hv hkeys rfl [] rfl hu (by decide)
  have hpeer := Coder.decodeStringFromMap_at hmp 7 hv hkeys rfl [] rfl hc.peerPortId
    (by decide)
  have htunnel := Coder.decodeStringFromMap_at hmp 3 hv hkeys rfl [] rfl hc.tunnelId
    (by decide)
  rw [List.append_nil] at hfrom hid hpeer htunnel
  obtain ⟨found,hfound,hfst⟩ := Option.map_eq_some_iff.mp hq
  change (Flow.parsePortConnect mp (Doc.encode mp (.map 11 _))).Yields v r w at h
  simp only [Flow.parsePortConnect,Flow.bind_text hfrom,Flow.bind_text hid,Flow.bind_text hpeer,
    Flow.bind_text htunnel] at h
  rw [Atom.portGet_text] at h
  obtain ⟨o,v₁,hlook,h₁⟩ := h.of_bind
  obtain ⟨ho,hv₁⟩ := hlook.unique (yields_look (a := some q) (t := found.2) (by rw [hfound,← hfst]))
  subst o v₁
  obtain ⟨result,u,hconnect,h₂⟩ := h₁.of_bind
  have hhandle := hconnect.of_perform
  rw [Atom.portHandleConnect_text] at hhandle
  have hsend : (Flow.host (Atom.send (.portConnectReply uuid c.fromRt
      (if result=.success then 200 else 404) c.peerPortId)) : Flow mp Result).Yields u r w := by
    dsimp only [Text.content] at h₂
    rw [List.take_left,List.take_left,List.take_left] at h₂
    split at h₂
    · next hresult =>
      rw [Prog.pure_bind] at h₂
      rwa [if_pos hresult]
    · next hresult =>
      rw [Prog.pure_bind] at h₂
      rwa [if_neg hresult]
  obtain ⟨z,hz,hw⟩ := Flow.yields_of_host hsend
  exact ⟨result,u,z,hhandle,hz,hw⟩

/-- `cc_port_connect_reply_handler` finds the port by the id of its peer. -/
theorem connectReply_arrives {p : Ref} {status : UInt32} {r : Result} {t : Node}
    (hp : scanNames v.peerPortName v.listedPorts (.ofString c.peerPortId)=some p)
    (h : (Flow.portConnectReplyHandler mp (c.answerBytes mp uuid status)).Yields v r t) :
    Atom.portSetState p (if status=200 then .enabled else .disconnected) v=some ((),t) := by
  have hkeys : [Encode.kvStr mp "msg_uuid" uuid,Encode.kvStr mp "to_rt_uuid" c.fromRt,
      Encode.kvStr mp "from_rt_uuid" c.toRt,Encode.kvStr mp "cmd" (ascii "REPLY"),
      (ascii "value",.map 3 (Encode.replyData mp status
        (Encode.kvStr mp "port_id" c.peerPortId)))].map Prod.fst=
    [ascii "msg_uuid",ascii "to_rt_uuid",ascii "from_rt_uuid",ascii "cmd",ascii "value"] := rfl
  have hkeys₁ : (Encode.replyData mp status
      (Encode.kvStr mp "port_id" c.peerPortId)).map Prod.fst=
    [ascii "status",ascii "success_list",ascii "data"] := rfl
  have hkeys₂ : [Encode.kvStr mp "port_id" c.peerPortId].map Prod.fst=[ascii "port_id"] := rfl
  have hvalue := Coder.getValueFromMap_at hmp 4 (valid_answerMessage hmp hc hu status) hkeys rfl
    [] (by decide)
  rw [List.append_nil] at hvalue
  have hstatus := fun r => Coder.decodeUintFromMap_at hmp 0 (valid_answerValue hmp hc status)
    hkeys₁ rfl r rfl (by decide)
  have hdata := fun r => Coder.getValueFromMap_at hmp 2 (valid_answerValue hmp hc status)
    hkeys₁ rfl r (by decide)
  have hid := fun r => Coder.decodeStringFromMap_at hmp 0 (valid_answerData hmp hc) hkeys₂ rfl
    r rfl hc.peerPortId (by decide)
  change (Flow.portConnectReplyHandler mp (Doc.encode mp (.map 5 _))).Yields v r t at h
  simp only [Flow.portConnectReplyHandler,Flow.bind_value hvalue] at h
  rw [Flow.number,hstatus,Prog.ofOption,Prog.pure_bind] at h
  dsimp only at h
  simp only [Flow.bind_value (hdata _),Flow.bind_text (hid _)] at h
  rw [Atom.portGetFromPeerPortId_text] at h
  obtain ⟨o,w,hlook,h₁⟩ := h.of_bind
  obtain ⟨hfound,hw⟩ := hlook.of_look
  subst w
  obtain ⟨⟨o,w⟩,hscan,ho⟩ := Option.map_eq_some_iff.mp hfound
  cases ho
  obtain ⟨-,ho⟩ := Atom.portGetFromPeerPortId_scan hscan
  rw [hp] at ho
  subst o
  dsimp only at h₁
  obtain ⟨_,w,hset,h₂⟩ := h₁.of_bind
  obtain ⟨-,ht⟩ := h₂.unique (yields_pure _ _)
  subst t
  obtain ⟨r,hr,he⟩ := Option.map_eq_some_iff.mp hset.of_act
  cases he
  exact hr

omit hmp hc hu in
theorem removePending_ends {s t : Node} {msgUuid : Bytes}
    (h : (Flow.host (Atom.removePendingMsg msgUuid) : Flow mp Unit).Yields s () t) :
    s.SameEnds t := by
  obtain ⟨w,hw,ht⟩ := Flow.yields_of_host h
  cases hw
  subst t
  dsimp only
  split
  · exact .of_host rfl rfl
  · exact .of_host rfl rfl

theorem answer_id (status : UInt32) : ∃ r, Coder.decodeStringFromMap mp (c.answerBytes mp uuid status)
    (ascii "msg_uuid")=some (some ⟨uuid++r,uuid.length⟩) := by
  have hkeys : [Encode.kvStr mp "msg_uuid" uuid,Encode.kvStr mp "to_rt_uuid" c.fromRt,
      Encode.kvStr mp "from_rt_uuid" c.toRt,Encode.kvStr mp "cmd" (ascii "REPLY"),
      (ascii "value",.map 3 (Encode.replyData mp status
        (Encode.kvStr mp "port_id" c.peerPortId)))].map Prod.fst=
    [ascii "msg_uuid",ascii "to_rt_uuid",ascii "from_rt_uuid",ascii "cmd",ascii "value"] := rfl
  have hid := Coder.decodeStringFromMap_at hmp 0 (valid_answerMessage hmp hc hu status) hkeys
    rfl [] rfl hu (by decide)
  rw [List.append_nil] at hid
  exact ⟨_,hid⟩

theorem answer_arrives {p : Ref} {status : UInt32} {r : Result} {t : Node}
    (hp : scanNames v.peerPortName v.listedPorts (.ofString c.peerPortId)=some p)
    (hpending : ∀ m ∈ v.pending (cstr uuid), m.handler=.portConnect)
    (h : (Top.parseReply mp (c.answerBytes mp uuid status)).Yields v r t) :
    t=v ∨ ∃ u, Atom.portSetState p (if status=200 then .enabled else .disconnected) v=some ((),u) ∧
      u.SameEnds t := by
  obtain ⟨rest,hid⟩ := answer_id hmp hc hu status
  obtain ⟨o,v₁,htext,h₁⟩ := h.of_bind
  obtain ⟨ho,hv₁⟩ := htext.of_lift.of_ofOption
  subst v₁
  cases hid.symm.trans ho
  dsimp only at h₁
  obtain ⟨msgUuid,v₁,hcopy,h₂⟩ := h₁.of_bind
  obtain ⟨hcopied,hv₁⟩ := hcopy.of_ofOption
  subst v₁
  rw [Text.copy,List.take_left] at hcopied
  split at hcopied
  swap
  · cases hcopied
  cases hcopied
  obtain ⟨found,v₁,hlook,h₃⟩ := h₂.of_bind
  obtain ⟨hfound,hv₁⟩ := hlook.of_look
  subst v₁
  cases hfound
  dsimp only at h₃
  split at h₃
  · obtain ⟨-,ht⟩ := h₃.unique (yields_pure _ _)
    exact .inl ht
  next m hm =>
  obtain ⟨result,v₁,hhandler,h₄⟩ := h₃.of_bind
  rw [Top.replyHandler,hpending m hm] at hhandler
  obtain ⟨⟨⟩,v₂,hremove,h₅⟩ := h₄.of_bind
  obtain ⟨-,ht⟩ := h₅.unique (yields_pure _ _)
  subst v₂
  exact .inr ⟨v₁,connectReply_arrives hmp hc hu hp hhandler.of_lift,removePending_ends hremove.of_lift⟩

end Reads

end TokenRoute

/-- While a node connects its id and its transport stay, and none of its messages is an answer. -/
def Host.Connects (h k : Host) : Prop :=
  k.id=h.id ∧ k.transport=h.transport ∧
    ∃ new, k.sent=h.sent++new ∧ ∀ m ∈ new, m.kind=.notice

theorem Host.Connects.refl (h : Host) : h.Connects h :=
  ⟨rfl,rfl,[],(List.append_nil _).symm,fun m hm => by cases hm⟩

theorem Host.Connects.trans {h k l : Host} (hk : h.Connects k) (hl : k.Connects l) :
    h.Connects l := by
  obtain ⟨hid,htransport,new,hnew,hkind⟩ := hk
  obtain ⟨kid,ktransport,new',hnew',hkind'⟩ := hl
  refine ⟨kid.trans hid,ktransport.trans htransport,new++new',?_,fun m hm => ?_⟩
  · rw [hnew',hnew,List.append_assoc]
  · rcases List.mem_append.mp hm with hm | hm
    · exact hkind m hm
    · exact hkind' m hm

instance : Host.Admits Host.Connects where
  moves := by
    intro h k hm
    induction hm with
    | refl => exact .refl h
    | fate f _ _ ih => exact ih.trans ⟨rfl,rfl,[],(List.append_nil _).symm,fun m hm => by cases hm⟩
    | sent m hm _ ih =>
      exact ih.trans ⟨rfl,rfl,[m],rfl,fun m' hm' => by rwa [List.mem_singleton.mp hm']⟩
    | register id _ _ ih =>
      exact ih.trans ⟨rfl,rfl,[],(List.append_nil _).symm,fun m hm => by cases hm⟩
    | withdraw id _ ih =>
      exact ih.trans ⟨rfl,rfl,[],(List.append_nil _).symm,fun m hm => by cases hm⟩

/-- What a port keeps while it is connected. -/
def Port.lasting (x : Port) : (Bytes × Bytes × Bytes × PortDirection × Ref) × Option (Fifo Bytes) :=
  (Atom.fixedPart x,x.fifo)

/-- Ports and actors are as before but for their states and the tunnels and peers of the ports. -/
abbrev Node.Lasts (s t : Node) : Prop := SameViewBy Host.Connects Port.lasting Actor.ports s t

namespace Node.Lasts

variable {s t u : Node}

theorem refl (s : Node) : s.Lasts s := ⟨rfl,fun _ => rfl,fun _ => rfl,rfl,rfl,.refl s.host⟩

theorem trans (h : s.Lasts t) (k : t.Lasts u) : s.Lasts u where
  actors := k.actors.trans h.actors
  port := fun p => (k.port p).trans (h.port p)
  actor := fun a => (k.actor a).trans (h.actor a)
  nextPort := k.nextPort.trans h.nextPort
  nextActor := k.nextActor.trans h.nextActor
  host := h.host.trans k.host

theorem sameView (h : s.Lasts t) : SameView Port.lasting Actor.ports s t :=
  ⟨h.actors,h.port,h.actor,h.nextPort,h.nextActor,trivial⟩

theorem fixed (h : s.Lasts t) : SameView Atom.fixedPart Actor.ports s t :=
  h.sameView.coarsen (fun _ _ he => congrArg Prod.fst he) fun _ _ he => he

end Node.Lasts

namespace Atom

variable {s : Node} (p : Ref)

theorem lasts_portSetState (state : PortState) : Preserves s.Lasts (portSetState p state) :=
  preserves_portSetState_view (fun _ _ h _ hs => Node.Lasts.trans hs h) (fun _ _ _ => rfl)
    (fun _ _ => rfl) p state

theorem lasts_updatePort {k : Port → Port} (h : ∀ x, (k x).lasting=x.lasting) :
    Preserves s.Lasts (updatePort p k) :=
  preserves_updatePort (fun _ _ h _ hs => Node.Lasts.trans hs h) p h

theorem lasts_graph (t u : Node) (h : SameGraph t u) (ht : s.Lasts t) : s.Lasts u :=
  Node.Lasts.trans ht (h.sameView _ _)

theorem lasts_portDetach : Preserves s.Lasts (portDetach p) := by
  refine preserves_bind (preserves_port p) fun x => ?_
  split
  · exact preserves_pure _
  · exact preserves_bind (preserves_tunnelRemoveRef lasts_graph _) fun _ =>
      lasts_updatePort p fun _ => rfl

theorem lasts_portEnableOn (t : Ref) : Preserves s.Lasts (portEnableOn p t) :=
  preserves_bind (lasts_updatePort p fun _ => rfl) fun _ =>
    preserves_bind (preserves_tunnelAddRef lasts_graph _) fun _ =>
      preserves_bind (lasts_portSetState p _) fun _ => preserves_bind (preserves_tunnel _) fun _ =>
        preserves_bind (preserves_link _) fun _ => lasts_updatePort p fun _ => rfl

theorem lasts_portHandleConnect {t u : Node} {r : Result} {tunnelId : Text}
    (h : portHandleConnect p tunnelId t=some (r,u)) : t.Lasts u := by
  obtain ⟨-,hdetach⟩ | ⟨-,hset⟩ | ⟨-,q,hon⟩ := portHandleConnect_cases h
  · exact lasts_portDetach p t () u hdetach (.refl t)
  · exact lasts_portSetState p _ t () u hset (.refl t)
  · exact preserves_bind (lasts_portDetach p) (fun _ => lasts_portEnableOn p q) t () u hon (.refl t)

theorem lasts_portDropTunnel {t u : Node} (h : portDropTunnel p t=some ((),u)) : t.Lasts u :=
  preserves_bind (lasts_portDetach p) (fun _ => lasts_portSetState p _) t () u h (.refl t)

/-- A port that is on the tunnel already stays on it. -/
theorem portHandleConnect_again {t u : Node} {r : Result} {tunnelId : Text}
    (ht : t.Connected p tunnelId) (h : portHandleConnect p tunnelId t=some (r,u)) : r=.success := by
  obtain ⟨x,a,y,hx,-,ha,hy,hid⟩ := ht
  have hport : port p t=some (x,t) := by rw [port,hx,Option.map_some]
  have htunnel : tunnel a t=some (y,t) := by rw [tunnel,hy,Option.map_some]
  have hon : portOnTunnel p tunnelId t=some (true,t) := by
    rw [portOnTunnel,bind_apply,hport,Option.bind_some,ha]
    dsimp only
    rw [bind_apply,htunnel,Option.bind_some,hid]
    rfl
  rw [portHandleConnect,bind_apply,hon,Option.bind_some] at h
  obtain ⟨⟨⟩,w,-,h₁⟩ := bind_eq_some.mp h
  cases h₁
  rfl

end Atom

/-- The end of the route with the out-port, whose queue is `f`, whatever state the port is in. A
tunnel that it has is that of the route. -/
structure Asks (c : TokenRoute) (p : Ref) (f : Fifo Bytes) (s : Node) : Prop where
  transport : ∃ client, s.host.transport=some client ∧ client.state=.enabled
  id : s.host.id=c.fromRt
  port : ∃ x a, s.portMem.get p=some x ∧ s.actorMem.get x.actor=some a ∧ x.direction=.dirOut ∧
    x.fifo=some f ∧ x.id=c.portId ∧ x.peerPortId=c.peerPortId
  route : ∀ x, s.portMem.get p=some x → ∀ t, x.tunnel=some t →
    x.peerId=c.toRt ∧ ∃ y, s.tunnelMem.get t=some y ∧ y.id=c.tunnelId
  found : (Atom.portGet (.ofString c.portId) s).map Prod.fst=some (some p)
  peer : scanNames s.peerPortName s.listedPorts (.ofString c.peerPortId)=some p

section Ends

variable {c : TokenRoute} {p q : Ref} {f g : Fifo Bytes} {state : ActorState} {s t : Node}

theorem scanPeers_view (h : SameView Atom.fixedPart Actor.ports s t) (peerPortId : Text) :
    scanNames t.peerPortName t.listedPorts peerPortId=
      scanNames s.peerPortName s.listedPorts peerPortId := by
  have hname : t.peerPortName=s.peerPortName := by
    funext r
    have hport := congrArg (Option.map fun b => cstr b.2.2.1) (h.port r)
    rwa [Option.map_map,Option.map_map] at hport
  have hports : t.portsOf=s.portsOf := by
    funext a
    have hactor := congrArg (fun o => Option.elim o [] id) (h.actor a)
    rwa [Option.elim_map,Option.elim_map] at hactor
  rw [hname,Node.listedPorts,hports,h.actors]
  rfl

theorem Asks.lasts (hs : Asks c p f s) (h : s.Lasts t)
    (hroute : ∀ x, t.portMem.get p=some x → ∀ r, x.tunnel=some r →
      x.peerId=c.toRt ∧ ∃ y, t.tunnelMem.get r=some y ∧ y.id=c.tunnelId) : Asks c p f t where
  transport := by
    rw [h.host.2.1]
    exact hs.transport
  id := h.host.1.trans hs.id
  port := by
    obtain ⟨x,a,hx,ha,hdir,hf,hid,hpeer⟩ := hs.port
    obtain ⟨y,hy,he⟩ := SameView.port_after h.sameView hx
    obtain ⟨b,hb,-⟩ := SameView.actor_after h.sameView ha
    simp only [Port.lasting,Atom.fixedPart,Prod.mk.injEq] at he
    obtain ⟨⟨hyid,-,hypeer,hydir,hyactor⟩,hyf⟩ := he
    exact ⟨y,b,hy,by rwa [hyactor],hydir.trans hdir,hyf.trans hf,hyid.trans hid,hypeer.trans hpeer⟩
  route := hroute
  found := by
    rw [Atom.portGet_view (fun _ _ he => he) h.fixed]
    exact hs.found
  peer := by
    rw [scanPeers_view h.fixed]
    exact hs.peer

theorem Asks.portSetState (hs : Asks c p f s) {new : PortState}
    (h : Atom.portSetState p new s=some ((),t)) : Asks c p f t := by
  refine hs.lasts (Atom.lasts_portSetState p new s () t h (.refl s)) ?_
  obtain ⟨x,a,state,hx,-,rfl⟩ := Atom.portSetState_eq h
  intro y hy r hr
  cases (Heap.get_set_self hx _).symm.trans hy
  exact hs.route x hx r hr

theorem Asks.dropTunnel (hs : Asks c p f s) (h : Atom.portDropTunnel p s=some ((),t)) :
    Asks c p f t := by
  refine hs.lasts (Atom.lasts_portDropTunnel p h) ?_
  obtain ⟨⟨⟩,u,hdetach,hset⟩ := Atom.bind_eq_some.mp h
  obtain ⟨x,a,state,hx,-,rfl⟩ := Atom.portSetState_eq hset
  intro y hy r hr
  cases (Heap.get_set_self hx _).symm.trans hy
  obtain ⟨-,-,-,hports⟩ := Atom.portDetach_ports hdetach
  rw [hports p] at hx
  obtain ⟨z,-,hz⟩ := Option.map_eq_some_iff.mp hx
  rw [if_pos rfl] at hz
  subst x
  cases hr

theorem Asks.host (hs : Asks c p f s) {h : Host} (hh : s.host.Connects h) :
    Asks c p f {s with host := h} :=
  hs.lasts ⟨rfl,fun _ => rfl,fun _ => rfl,rfl,rfl,hh⟩ hs.route

theorem Node.SameEnds.view (h : s.SameEnds t) : SameView Atom.fixedPart Actor.ports s t :=
  h.sameView.coarsen (fun _ _ he => congrArg _ he) fun x y he => by
    have hshape := Actor.shape_of_core he
    simp only [Actor.shape,Prod.mk.injEq] at hshape
    rw [Actor.ports,Actor.ports,hshape.2.2.1,hshape.2.2.2]

theorem Asks.sameEnds (hs : Asks c p f s) (h : s.SameEnds t) : Asks c p f t where
  transport := by
    rw [h.transport]
    exact hs.transport
  id := h.id.trans hs.id
  port := by
    obtain ⟨x,a,hx,ha,hrest⟩ := hs.port
    obtain ⟨b,hb,-⟩ := SameView.actor_after h.view ha
    exact ⟨x,b,by rwa [h.port],hb,hrest⟩
  route := by
    rw [h.port,h.tunnel]
    exact hs.route
  found := by
    rw [h.portGet]
    exact hs.found
  peer := by
    rw [scanPeers_view h.view]
    exact hs.peer

/-- An enabled out-port that has its tunnel sends on the route. -/
theorem Asks.sends (hs : Asks c p f s) {x : Port} {r : Ref} {a : Actor}
    (hx : s.portMem.get p=some x) (hstate : x.state=.enabled) (hr : x.tunnel=some r)
    (ha : s.actorMem.get x.actor=some a) (hactor : a.state=.enabled) : Sends c p f s where
  transport := hs.transport
  port := by
    obtain ⟨x',-,hx',-,hdir,hf,hid,hpeer⟩ := hs.port
    cases hx.symm.trans hx'
    obtain ⟨hto,y,hy,htunnel⟩ := hs.route x hx r hr
    exact ⟨x,r,y,a,hx,hstate,hdir,hr,hy,ha,hactor,hf,by rw [hs.id,hto,htunnel,hid,hpeer]⟩
  found := hs.found

theorem Takes.lasts (hs : Takes c q g state s) (h : s.Lasts t) : ∃ state', Takes c q g state' t := by
  obtain ⟨y,b,hy,hg,hb,-⟩ := hs.port
  obtain ⟨z,hz,he⟩ := SameView.port_after h.sameView hy
  obtain ⟨a,ha,-⟩ := SameView.actor_after h.sameView hb
  simp only [Port.lasting,Atom.fixedPart,Prod.mk.injEq] at he
  obtain ⟨⟨-,-,-,-,hactor⟩,hfifo⟩ := he
  refine ⟨a.state,?_,h.host.1.trans hs.id,⟨z,a,hz,hfifo.trans hg,by rwa [hactor],rfl⟩,?_⟩
  · rw [h.host.2.1]
    exact hs.transport
  · rw [Atom.portGet_view (fun _ _ he => he) h.fixed]
    exact hs.found

theorem Node.Connected.sameEnds {tunnelId : Text} (hs : s.Connected p tunnelId) (h : s.SameEnds t) :
    t.Connected p tunnelId := by
  obtain ⟨x,r,y,hx,hrest⟩ := hs
  refine ⟨x,r,y,?_,?_⟩
  · rwa [h.port]
  · rwa [h.tunnel]

end Ends

/-- Two nodes one of which asks the other to connect a port, and the messages between them as bytes,
oldest first: PORT_CONNECTs one way and the REPLYs to them the other. -/
structure ConnectWire where
  sender : Node
  receiver : Node
  requests : List Bytes
  replies : List Bytes

inductive ConnectEvent
  | connect (fate : Fate)
  | deliverRequest (fate : Fate)
  | deliverReply (fate : Fate)

namespace ConnectWire

/-- The payload of a PORT_CONNECT that the port sends from `s`. -/
def requestPayload (mp : Msgpuck) (p : Ref) (s : Node) : Outgoing → Option Bytes
  | .portConnect _ _ _ => ((Encode.portConnect mp p s).bind Prod.fst).map fun d => d.encode mp
  | _ => none

def replyPayload (mp : Msgpuck) (t : Node) : Outgoing → Option Bytes
  | .portConnectReply msgUuid toRtUuid status portId =>
    ((Encode.portConnectReply mp msgUuid toRtUuid (.ofNat status) portId t).bind Prod.fst).map
      fun d => d.encode mp
  | _ => none

/-- The id of the request that a REPLY answers. -/
def repliesTo (mp : Msgpuck) (m : Bytes) : Option Bytes :=
  ((Coder.decodeStringFromMap mp m (ascii "msg_uuid")).join).bind fun t => t.copy uuidBufferSize

variable (mp : Msgpuck) (p : Ref)

/-- A step of the two nodes. A message that cannot be sent is not among those in between. -/
def step : ConnectEvent → ConnectWire → Option ConnectWire
  | .connect fate,w => do
      let s := w.sender.withFate fate
      let (_,t,_) ← (Flow.portConnectWithPendingTunnel mp p).run s
      return {w with
        sender := t
        requests := w.requests++(s.sentSince t).filterMap (requestPayload mp p s)}
  | .deliverRequest fate,w =>
      match w.requests with
      | [] => none
      | m::rest => do
        let s := w.receiver.withFate fate
        let (_,t,_) ← (Top.handleMessage mp m).run s
        return {w with
          receiver := t
          requests := rest
          replies := w.replies++(s.sentSince t).filterMap (replyPayload mp t)}
  | .deliverReply fate,w =>
      match w.replies with
      | [] => none
      | m::rest => do
        let (_,t,_) ← (Top.handleMessage mp m).run (w.sender.withFate fate)
        return {w with sender := t,replies := rest}

/-- The id of a PORT_CONNECT is not also that of a request of another kind. -/
def OwnIds : ConnectEvent → ConnectWire → Prop
  | .deliverReply _,w => ∀ m ∈ w.replies.head?, ∀ msgUuid ∈ repliesTo mp m,
      ∀ x ∈ w.sender.pending msgUuid, x.handler=.portConnect
  | _,_ => True

instance (e : ConnectEvent) (w : ConnectWire) : Decidable (OwnIds mp e w) := by
  cases e <;> unfold OwnIds <;> infer_instance

/-- Every answer in between that says the port is connected is true. -/
structure Agreed (mp : Msgpuck) (c : TokenRoute) (p q : Ref) (f g : Fifo Bytes) (w : ConnectWire) :
    Prop where
  asks : Asks c p f w.sender
  takes : ∃ state, Takes c q g state w.receiver
  requests : ∀ m ∈ w.requests, ∃ uuid, uuid.length<uuidBufferSize ∧ m=c.connectBytes mp uuid
  replies : ∀ m ∈ w.replies, ∃ uuid status, uuid.length<uuidBufferSize ∧ m=c.answerBytes mp uuid status ∧
    (status=200 → w.receiver.Connected q (.ofString c.tunnelId))
  enabled : ∀ x, w.sender.portMem.get p=some x → x.state=.enabled →
    w.receiver.Connected q (.ofString c.tunnelId)

section Steps

variable {mp : Msgpuck} {c : TokenRoute} {p q : Ref} {f g : Fifo Bytes} {w w' : ConnectWire}
  {s t : Node}

theorem short_id {uuid : Bytes} (h : uuid.length<uuidBufferSize) : uuid.length<2^32 :=
  Nat.lt_trans h (by decide)

theorem uuid_outcome (s : Node) (pre : Bytes) : ∃ uuid fate, uuid.length=pre.length+36 ∧
    Atom.uuid pre s=some (uuid,{s with host := {s.host with fate := fate}}) := by
  unfold Atom.uuid
  split
  · exact ⟨_,_,by simp [genUuid],rfl⟩
  · exact ⟨_,_,by simp [genUuid],rfl⟩

/-- Every PORT_CONNECT of the port is that of the route. -/
theorem requestPayload_eq (hs : Asks c p f s) {m : Outgoing} {b : Bytes}
    (hb : requestPayload mp p s m=some b) :
    ∃ uuid, uuid.length<uuidBufferSize ∧ b=c.connectBytes mp uuid := by
  obtain ⟨x,-,hx,-,hdir,-,hid,hpeer⟩ := hs.port
  obtain ⟨client,hclient,-⟩ := hs.transport
  obtain ⟨uuid,fate,hlength,huuid⟩ := uuid_outcome s (ascii "MSGID_")
  have hport : Atom.port p {s with host := {s.host with fate := fate}}=
      some (x,{s with host := {s.host with fate := fate}}) := by
    rw [Atom.port]
    dsimp only
    rw [hx,Option.map_some]
  have hneed : Atom.needTransport {s with host := {s.host with fate := fate}}=
      some ((),{s with host := {s.host with fate := fate}}) :=
    Encode.needTransport_eq (by
      dsimp only
      rw [hclient]
      rfl)
  have hdoc : ∀ r y, x.tunnel=some r → s.tunnelMem.get r=some y → x.peerId=c.toRt →
      y.id=c.tunnelId → (Encode.portConnect mp p s).bind Prod.fst=some (c.connectMessage mp uuid) := by
    intro r y hr hy hto htunnel
    have hread := Encode.portTunnelId_eq (s := {s with host := {s.host with fate := fate}}) hr hy
    simp only [Encode.portConnect,Encode.msgUuid,Atom.bind_apply,huuid,hneed,hport,hread,
      Encode.nodeId_eq,Option.bind_some,Atom.pure_apply]
    simp only [hs.id,hto,htunnel,hid,hpeer,hdir]
    rfl
  have hnone : x.tunnel=none → Encode.portConnect mp p s=none := by
    intro hr
    simp only [Encode.portConnect,Encode.msgUuid,Atom.bind_apply,huuid,hneed,hport,
      Encode.portTunnelId,hr,Option.bind_some]
    rfl
  unfold requestPayload at hb
  split at hb
  swap
  · cases hb
  cases hr : x.tunnel with
  | none =>
    rw [hnone hr] at hb
    cases hb
  | some r =>
    obtain ⟨hto,y,hy,htunnel⟩ := hs.route x hx r hr
    rw [hdoc r y hr hy hto htunnel] at hb
    cases hb
    exact ⟨uuid,by rw [hlength]; decide,rfl⟩

theorem sendPortConnect_connects {r : Result} (h : Atom.sendPortConnect p s=some (r,t)) :
    s.host.Connects t.host :=
  preserves_sendPortConnect (P := fun u => s.host.Connects u.host)
    (fun _ _ hm hu => Host.Connects.trans hu (Host.Admits.moves hm)) p s r t h (.refl s.host)

theorem portSetState_state {new : PortState} (h : Atom.portSetState p new s=some ((),t)) {x : Port}
    (hx : t.portMem.get p=some x) : x.state=new := by
  obtain ⟨y,a,state,hy,-,rfl⟩ := Atom.portSetState_eq h
  cases (Heap.get_set_self hy _).symm.trans hx
  rfl

theorem Agreed.connect (h : Agreed mp c p q f g w) {fate : Fate}
    (hs : step mp p (.connect fate) w=some w') : Agreed mp c p q f g w' := by
  have hasks : Asks c p f (w.sender.withFate fate) := h.asks.sameEnds (.of_host rfl rfl)
  obtain ⟨⟨r,t,ops⟩,hrun,hs⟩ := Option.bind_eq_some_iff.mp hs
  cases hs
  have hrequests : ∀ m ∈ w.requests++((w.sender.withFate fate).sentSince t).filterMap
      (requestPayload mp p (w.sender.withFate fate)),
      ∃ uuid, uuid.length<uuidBufferSize ∧ m=c.connectBytes mp uuid := by
    intro m hm
    rcases List.mem_append.mp hm with hm | hm
    · exact h.requests m hm
    · obtain ⟨o,-,ho⟩ := List.mem_filterMap.mp hm
      exact requestPayload_eq hasks ho
  obtain ⟨-,rfl,-⟩ | ⟨u,-,-,hsend,hset⟩ | ⟨host,sends,-,-,hhost,hdrop⟩ := pendingTunnel_cases hrun
  · exact {h with
      asks := hasks
      requests := hrequests}
  · exact {h with
      asks := (hasks.host (sendPortConnect_connects hsend)).portSetState hset
      requests := hrequests
      enabled := fun x hx hstate => by
        rw [portSetState_state hset hx] at hstate
        cases hstate}
  · have hconnects : (w.sender.withFate fate).host.Connects host := by
      rcases hhost with ⟨-,rfl⟩ | ⟨result,u,-,hsend,-,rfl⟩
      · exact .refl _
      · exact sendPortConnect_connects hsend
    obtain ⟨⟨⟩,v,-,hset⟩ := Atom.bind_eq_some.mp hdrop
    exact {h with
      asks := (hasks.host hconnects).dropTunnel hdrop
      requests := hrequests
      enabled := fun x hx hstate => by
        rw [portSetState_state hset hx] at hstate
        cases hstate}

theorem Agreed.deliverReply (hmp : mp.Lawful) (hc : c.Short) (h : Agreed mp c p q f g w) {fate : Fate}
    (hok : OwnIds mp (.deliverReply fate) w) (hs : step mp p (.deliverReply fate) w=some w') :
    Agreed mp c p q f g w' := by
  have hasks : Asks c p f (w.sender.withFate fate) := h.asks.sameEnds (.of_host rfl rfl)
  obtain ⟨client,hclient,henabled⟩ := hasks.transport
  obtain ⟨u,v,requests,replies⟩ := w
  cases replies with
  | nil => cases hs
  | cons m rest =>
    obtain ⟨uuid,status,hid,rfl,hstatus⟩ := h.replies _ List.mem_cons_self
    obtain ⟨⟨r,t,ops⟩,hrun,hs⟩ := Option.bind_eq_some_iff.mp hs
    cases hs
    have hown : ∀ x ∈ (u.withFate fate).pending (cstr uuid), x.handler=.portConnect := by
      refine hok _ (Option.mem_some.mpr rfl) (cstr uuid) ?_
      obtain ⟨rid,hfield⟩ := TokenRoute.answer_id hmp hc (short_id hid) status
      rw [repliesTo,Option.mem_def]
      rw [hfield,Option.join_some,Option.bind_some,Text.copy,if_pos hid,List.take_left]
    obtain ⟨r',z,⟨ops',hparse⟩,hcheck⟩ := handleMessage_parsed hrun
    rw [TokenRoute.parseMessage_answer hmp hc (short_id hid) hclient henabled] at hparse
    have hrest : ∀ m ∈ rest, ∃ uuid status, uuid.length<uuidBufferSize ∧
        m=c.answerBytes mp uuid status ∧ (status=200 → v.Connected q (.ofString c.tunnelId)) :=
      fun m hm => h.replies m (List.mem_cons_of_mem _ hm)
    obtain hz | ⟨z',hset,hends⟩ :=
      TokenRoute.answer_arrives hmp hc (short_id hid) hasks.peer hown ⟨ops',hparse⟩
    · subst z
      exact {
        asks := hasks.sameEnds hcheck.toSameEnds
        takes := h.takes
        requests := h.requests
        replies := hrest
        enabled := fun x hx => h.enabled x (by rwa [hcheck.port] at hx)}
    · exact {
        asks := ((hasks.portSetState hset).sameEnds hends).sameEnds hcheck.toSameEnds
        takes := h.takes
        requests := h.requests
        replies := hrest
        enabled := fun x hx hstate => by
          rw [hcheck.port,hends.port] at hx
          rw [portSetState_state hset hx] at hstate
          by_cases h200 : status=200
          · exact hstatus h200
          · rw [if_neg h200] at hstate
            cases hstate}

/-- Notices are not answers to a PORT_CONNECT. -/
theorem replyPayload_notices {new : List Outgoing} (h : ∀ m ∈ new, m.kind=.notice) :
    new.filterMap (replyPayload mp t)=[] := by
  refine List.filterMap_eq_nil_iff.mpr fun m hm => ?_
  have hkind := h m hm
  unfold replyPayload
  split
  · cases hkind
  · rfl

theorem replyPayload_eq {state : ActorState} (ht : Takes c q g state t) (uuid : Bytes) (status : Nat) :
    replyPayload mp t (.portConnectReply uuid c.fromRt status c.peerPortId)=
      some (c.answerBytes mp uuid (.ofNat status)) := by
  obtain ⟨client,hclient,-⟩ := ht.transport
  have hneed : Atom.needTransport t=some ((),t) :=
    Encode.needTransport_eq (by
      rw [hclient]
      rfl)
  rw [replyPayload]
  simp only [Encode.portConnectReply,Atom.bind_apply,hneed,Encode.nodeId_eq,Option.bind_some,
    Atom.pure_apply,ht.id]
  rfl

/-- The node that reads a PORT_CONNECT answers with what has become of its port, or not at all. -/
theorem request_arrives (hmp : mp.Lawful) (hc : c.Short) {state : ActorState} (hv : Takes c q g state s) {uuid : Bytes}
    (hid : uuid.length<uuidBufferSize) {ops : List TopOp}
    (hrun : (Top.handleMessage mp (c.connectBytes mp uuid)).run s=some ((),t,ops)) :
    (∃ state', Takes c q g state' t) ∧
      (s.Connected q (.ofString c.tunnelId) → t.Connected q (.ofString c.tunnelId)) ∧
      ∀ m ∈ (s.sentSince t).filterMap (replyPayload mp t), ∃ status, m=c.answerBytes mp uuid status ∧
        (status=200 → t.Connected q (.ofString c.tunnelId)) := by
  obtain ⟨client,hclient,henabled⟩ := hv.transport
  obtain ⟨r,z,⟨ops',hparse⟩,hcheck⟩ := handleMessage_parsed hrun
  rw [TokenRoute.parseMessage_connect hmp hc (short_id hid) hclient henabled] at hparse
  have hread : (Flow.toTop (Flow.parsePortConnect mp (c.connectBytes mp uuid))).Yields s r z :=
    ⟨ops',hparse⟩
  obtain ⟨result,u,w,hhandle,hsend,hz⟩ :=
    TokenRoute.parsePortConnect_arrives hmp hc (short_id hid) hv.found hread.of_lift
  have hlasts := Atom.lasts_portHandleConnect q hhandle
  obtain ⟨state',hu⟩ := hv.lasts hlasts
  obtain ⟨client',hclient',-⟩ := hu.transport
  obtain ⟨r',w',hsend',hends,hw,hsent⟩ := send_outcome (s := u) (.portConnectReply uuid c.fromRt
    (if result=.success then 200 else 404) c.peerPortId) (by
      rw [hclient']
      rfl)
  cases hsend.symm.trans hsend'
  rw [← hw] at hz
  subst z
  have ht := (hu.sameEnds hends).sameEnds hcheck.toSameEnds
  have hconnected : result=.success → t.Connected q (.ofString c.tunnelId) := fun h =>
    (((Atom.portHandleConnect_connected hhandle).mp h).sameEnds hends).sameEnds hcheck.toSameEnds
  refine ⟨⟨state',ht⟩,fun hs => hconnected (Atom.portHandleConnect_again q hs hhandle),?_⟩
  obtain ⟨-,-,new,hnew,hnotice⟩ := hlasts.host
  rw [hnew] at hsent
  intro m hm
  have hstatus : UInt32.ofNat (if result=.success then 200 else 404)=200 → result=.success := by
    intro h
    by_contra hne
    rw [if_neg hne] at h
    exact absurd h (by decide)
  by_cases hr : r=.success
  · rw [if_pos hr,List.append_assoc] at hsent
    rw [sentSince_of_append (hcheck.sent.trans hsent),List.filterMap_append,
      replyPayload_notices hnotice,List.nil_append,List.filterMap_cons_some (replyPayload_eq ht _ _),
      List.filterMap_nil,List.mem_singleton] at hm
    exact ⟨_,hm,fun h => hconnected (hstatus h)⟩
  · rw [if_neg hr] at hsent
    rw [sentSince_of_append (hcheck.sent.trans hsent),replyPayload_notices hnotice] at hm
    cases hm

theorem Agreed.deliverRequest (hmp : mp.Lawful) (hc : c.Short) (h : Agreed mp c p q f g w) {fate : Fate}
    (hs : step mp p (.deliverRequest fate) w=some w') : Agreed mp c p q f g w' := by
  obtain ⟨state,htakes⟩ := h.takes
  have hv : Takes c q g state (w.receiver.withFate fate) := htakes.sameEnds (.of_host rfl rfl)
  have hsame : ∀ {tunnelId : Text}, w.receiver.Connected q tunnelId →
      (w.receiver.withFate fate).Connected q tunnelId := fun hon => hon.sameEnds (.of_host rfl rfl)
  obtain ⟨u,v,requests,replies⟩ := w
  cases requests with
  | nil => cases hs
  | cons m rest =>
    obtain ⟨uuid,hid,rfl⟩ := h.requests _ List.mem_cons_self
    obtain ⟨⟨r,t,ops⟩,hrun,hs⟩ := Option.bind_eq_some_iff.mp hs
    cases hs
    obtain ⟨ht,hstays,hnew⟩ := request_arrives hmp hc hv hid hrun
    exact {
      asks := h.asks
      takes := ht
      requests := fun m hm => h.requests m (List.mem_cons_of_mem _ hm)
      replies := fun m hm => by
        rcases List.mem_append.mp hm with hm | hm
        · obtain ⟨uuid,status,hid,hm,hstatus⟩ := h.replies m hm
          exact ⟨uuid,status,hid,hm,fun h200 => hstays (hsame (hstatus h200))⟩
        · obtain ⟨status,hm,hstatus⟩ := hnew m hm
          exact ⟨uuid,status,hid,hm,hstatus⟩
      enabled := fun x hx hstate => hstays (hsame (h.enabled x hx hstate))}

theorem Agreed.step (hmp : mp.Lawful) (hc : c.Short) (h : Agreed mp c p q f g w) {e : ConnectEvent} (hok : OwnIds mp e w)
    (hs : ConnectWire.step mp p e w=some w') : Agreed mp c p q f g w' := by
  cases e with
  | connect fate => exact h.connect hs
  | deliverRequest fate => exact h.deliverRequest hmp hc hs
  | deliverReply fate => exact h.deliverReply hmp hc hok hs

/-- A node with one actor whose port is not connected, and a tunnel. -/
def idleNode (id portId peerPortId peerId : Bytes) (direction : PortDirection) (tunnel : Option Ref) :
    Node :=
  {Node.init {bareHost with id := id,transport := some ⟨.enabled,ascii "px"⟩} with
    portMem := ⟨[some ⟨portId,ascii "p",peerPortId,peerId,direction,none,tunnel,.disconnected,
      some (.init 4),0,0⟩]⟩
    tunnelMem := ⟨[some ⟨ascii "tn",0,.enabled,1,.token⟩]⟩
    linkMem := ⟨[some ⟨peerId,1,false⟩]⟩
    actorMem := ⟨[some ((⟨ascii "t",some (ascii "a"),none,.actor,.pending,true,none,[],[],[],[]⟩ :
      Actor).withPort direction 0)]⟩
    actors := [0]
    tunnels := [0]
    links := [0]}

/-- The answer to the first PORT_CONNECT cannot be sent, and the node asks again. -/
def askedTwice : List ConnectEvent :=
  [.connect .fine,.deliverRequest {Fate.fine with sends := [false]},.connect .fine,
    .deliverRequest .fine,.deliverReply .fine]

def firstToken : List WireEvent := [.produce (msgpack.encodeUint 7),.transmit .fine,.deliverToken .fine]

end Steps

end ConnectWire

end CalvinConstrained
