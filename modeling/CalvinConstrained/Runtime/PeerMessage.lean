import CalvinConstrained.Runtime.Dispatch
import CalvinConstrained.Runtime.Payload
import CalvinConstrained.Runtime.PortRoundTrip

namespace CalvinConstrained

/-- A short text has a header of one byte. -/
structure Msgpuck.Compact (mp : Msgpuck) : Prop extends Msgpuck.Lawful mp where
  encode_fixstr : ∀ {b : Bytes}, b.length<32 → mp.encodeStr b=UInt8.ofNat (0xa0+b.length)::b

theorem msgpack_compact : msgpack.Compact where
  toLawful := msgpack_lawful
  encode_fixstr hb := by simp [msgpack,hb]

/-- What names the two ends of a tunnel to each other, seen from the end with the out-port. -/
structure TokenRoute where
  fromRt : Bytes
  toRt : Bytes
  tunnelId : Bytes
  portId : Bytes
  peerPortId : Bytes
  deriving DecidableEq

namespace TokenRoute

/-- Ids that MessagePack can carry. -/
structure Short (c : TokenRoute) : Prop where
  fromRt : c.fromRt.length<2^32
  toRt : c.toRt.length<2^32
  tunnelId : c.tunnelId.length<2^32
  portId : c.portId.length<2^32
  peerPortId : c.peerPortId.length<2^32

instance (c : TokenRoute) : Decidable c.Short :=
  decidable_of_iff (c.fromRt.length<2^32 ∧ c.toRt.length<2^32 ∧ c.tunnelId.length<2^32 ∧
      c.portId.length<2^32 ∧ c.peerPortId.length<2^32)
    ⟨fun ⟨h₁,h₂,h₃,h₄,h₅⟩ => ⟨h₁,h₂,h₃,h₄,h₅⟩,fun h => ⟨h.1,h.2,h.3,h.4,h.5⟩⟩

variable (mp : Msgpuck) (c : TokenRoute) (n : UInt32)

def tokenEntries (token : Option Bytes) : List (Bytes × Doc) :=
  [Encode.kvStr mp "cmd" (ascii "TOKEN"),
    (ascii "sequencenbr",Encode.uint mp n),
    Encode.kvStr mp "port_id" c.portId,
    Encode.kvStr mp "peer_port_id" c.peerPortId,
    Encode.tokenEntry mp token]

def replyEntries (ack : Bool) : List (Bytes × Doc) :=
  [Encode.kvStr mp "cmd" (ascii "TOKEN_REPLY"),
    (ascii "sequencenbr",Encode.uint mp n),
    Encode.kvStr mp "peer_port_id" c.peerPortId,
    Encode.kvStr mp "port_id" c.portId,
    Encode.kvStr mp "value" (if ack then ascii "ACK" else ascii "NACK")]

theorem tokenEntries_keys (token : Option Bytes) : (c.tokenEntries mp n token).map Prod.fst=
    [ascii "cmd",ascii "sequencenbr",ascii "port_id",ascii "peer_port_id",ascii "token"] := rfl

theorem replyEntries_keys (ack : Bool) : (c.replyEntries mp n ack).map Prod.fst=
    [ascii "cmd",ascii "sequencenbr",ascii "peer_port_id",ascii "port_id",ascii "value"] := rfl

/-- The TOKEN on this route. -/
def tokenMessage (token : Option Bytes) : Doc :=
  Encode.tunnelData mp (Encode.toFrom mp c.toRt c.fromRt) c.tunnelId
    (.map 5 (c.tokenEntries mp n token))

/-- The TOKEN_REPLY, which goes back. -/
def replyMessage (ack : Bool) : Doc :=
  Encode.tunnelData mp (Encode.toFrom mp c.fromRt c.toRt) c.tunnelId
    (.map 5 (c.replyEntries mp n ack))

def tokenBytes (token : Option Bytes) : Bytes := (c.tokenMessage mp n token).encode mp

def replyBytes (ack : Bool) : Bytes := (c.replyMessage mp n ack).encode mp

end TokenRoute

namespace Encode

variable {mp : Msgpuck} {s : Node} {c : TokenRoute}

theorem nodeId_eq (s : Node) : nodeId s=some (s.host.id,s) := rfl

theorem portTunnelId_eq {x : Port} {t : Ref} {y : Tunnel} (ht : x.tunnel=some t)
    (hy : s.tunnelMem.get t=some y) : portTunnelId x s=some (y.id,s) := by
  have htunnel : Atom.tunnel t s=some (y,s) := by rw [Atom.tunnel,hy,Option.map_some]
  rw [portTunnelId,ht]
  dsimp only
  rw [Atom.bind_apply,htunnel,Option.bind_some,Atom.pure_apply]

theorem needTransport_eq (h : s.host.transport.isSome=true) :
    Atom.needTransport s=some ((),s) := by
  obtain ⟨client,hclient⟩ := Option.isSome_iff_exists.mp h
  rw [Atom.needTransport,hclient,Option.map_some]

theorem token_eq {p t : Ref} {x : Port} {y : Tunnel} (htransport : s.host.transport.isSome=true)
    (hx : s.portMem.get p=some x) (ht : x.tunnel=some t) (hy : s.tunnelMem.get t=some y)
    (hc : c=⟨s.host.id,x.peerId,y.id,x.id,x.peerPortId⟩) (token : Option Bytes) (n : UInt32) :
    Encode.token mp p token n s=some (some (c.tokenMessage mp n token),s) := by
  have hport : Atom.port p s=some (x,s) := by rw [Atom.port,hx,Option.map_some]
  subst hc
  simp only [Encode.token,Atom.bind_apply,needTransport_eq htransport,hport,
    portTunnelId_eq ht hy,nodeId_eq,Option.bind_some,Atom.pure_apply]
  rfl

theorem tokenReply_eq (htransport : s.host.transport.isSome=true) (hid : s.host.id=c.toRt)
    (n : UInt32) (ack : Bool) :
    Encode.tokenReply mp c.fromRt c.tunnelId c.peerPortId c.portId n ack s=
      some (some (c.replyMessage mp n ack),s) := by
  simp only [Encode.tokenReply,Atom.bind_apply,needTransport_eq htransport,nodeId_eq,hid,
    Option.bind_some,Atom.pure_apply]
  rfl

end Encode

namespace Atom

theorem listIdMatches_text (id b r : Bytes) :
    listIdMatches id ⟨b++r,b.length⟩=listIdMatches id (.ofString b) := by
  unfold listIdMatches Text.ofString
  rw [strncmpEq_append_right _ _ _ (Nat.le_refl b.length)]

/-- The port that is found does not depend on what follows the id in the message. -/
theorem portGet_text (b r : Bytes) : portGet ⟨b++r,b.length⟩=portGet (.ofString b) := by
  have hin : ∀ ps, portIn ⟨b++r,b.length⟩ ps=portIn (.ofString b) ps := by
    intro ps
    induction ps with
    | nil => rfl
    | cons p ps ih => simp only [portIn,listIdMatches_text,ih]
  have hfrom : ∀ as, portGetFrom ⟨b++r,b.length⟩ as=portGetFrom (.ofString b) as := by
    intro as
    induction as with
    | nil => rfl
    | cons a as ih => simp only [portGetFrom,hin,ih]
  simp only [portGet,hfrom]

end Atom

namespace Flow

open Prog (look)

/-- What a TOKEN asks of the node that reads it. -/
def tokenArrives (mp : Msgpuck) (c : TokenRoute) (n : UInt32) (data : Bytes) : Flow mp Result := do
  let ack ← match ← look (Atom.portGet (.ofString c.peerPortId)) with
    | none => pure false
    | some p => pure (decide ((← handleToken mp p data n)=.success))
  host do
    Atom.needTransport
    Atom.send (.tokenReply c.fromRt c.peerPortId c.portId n ack)

/-- What a TOKEN_REPLY asks of the node that reads it. -/
def replyArrives (mp : Msgpuck) (c : TokenRoute) (n : UInt32) (ack : Bool) : Flow mp Result := do
  handleTokenReply mp (.ofString c.portId) (if ack then .ack else .nack) n
  return .success

end Flow

namespace TokenRoute

variable {mp : Msgpuck} (hmp : mp.Lawful) {c : TokenRoute} (hc : c.Short) {n : UInt32}

include hmp

open PortDoc (valid_str valid_uint valid_token)

theorem valid_tunnelData {toRt fromRt tunnelId : Bytes} {value : Doc} (hto : toRt.length<2^32)
    (hfrom : fromRt.length<2^32) (htunnel : tunnelId.length<2^32) (hv : Doc.Valid mp value) :
    Doc.Valid mp
      (Encode.tunnelData mp (Encode.toFrom mp toRt fromRt) tunnelId value) := by
  rw [Encode.tunnelData,Doc.valid_map]
  refine ⟨rfl,by decide,?_⟩
  simp only [Encode.toFrom,Encode.kvStr,Encode.text,Doc.entriesValid_cons]
  exact ⟨by decide,valid_str hmp hto,by decide,valid_str hmp hfrom,by decide,
    valid_str hmp (by decide),by decide,valid_str hmp htunnel,by decide,hv,
    Doc.entriesValid_nil⟩

include hc

theorem valid_tokenEntries {token : Option Bytes} (ht : ∀ b, token=some b → mp.IsValue b) :
    Doc.Valid mp (.map 5 (c.tokenEntries mp n token)) := by
  rw [Doc.valid_map]
  refine ⟨rfl,by decide,?_⟩
  simp only [tokenEntries,Encode.kvStr,Encode.text,Encode.uint,Encode.tokenEntry,
    Doc.entriesValid_cons]
  exact ⟨by decide,valid_str hmp (by decide),by decide,valid_uint hmp n,
    by decide,valid_str hmp hc.portId,by decide,valid_str hmp hc.peerPortId,
    by decide,valid_token hmp ht,Doc.entriesValid_nil⟩

theorem valid_replyEntries (ack : Bool) : Doc.Valid mp (.map 5 (c.replyEntries mp n ack)) := by
  have hstatus : (if ack then ascii "ACK" else ascii "NACK").length<2^32 := by
    cases ack <;> decide
  rw [Doc.valid_map]
  refine ⟨rfl,by decide,?_⟩
  simp only [replyEntries,Encode.kvStr,Encode.text,Encode.uint,Doc.entriesValid_cons]
  exact ⟨by decide,valid_str hmp (by decide),by decide,valid_uint hmp n,
    by decide,valid_str hmp hc.peerPortId,by decide,valid_str hmp hc.portId,
    by decide,valid_str hmp hstatus,Doc.entriesValid_nil⟩

theorem valid_tokenMessage {token : Option Bytes} (ht : ∀ b, token=some b → mp.IsValue b) :
    Doc.Valid mp (c.tokenMessage mp n token) :=
  valid_tunnelData hmp hc.toRt hc.fromRt hc.tunnelId (valid_tokenEntries hmp hc ht)

theorem valid_replyMessage (ack : Bool) : Doc.Valid mp (c.replyMessage mp n ack) :=
  valid_tunnelData hmp hc.fromRt hc.toRt hc.tunnelId (valid_replyEntries hmp hc ack)

end TokenRoute

section Lookups

variable {mp : Msgpuck} (hmp : mp.Lawful) {toRt fromRt tunnelId : Bytes} {value : Doc}
  (hd : Doc.Valid mp (Encode.tunnelData mp (Encode.toFrom mp toRt fromRt) tunnelId value))

/-- The message as it is read. -/
def tunnelBytes (mp : Msgpuck) (toRt fromRt tunnelId : Bytes) (value : Doc) : Bytes :=
  (Encode.tunnelData mp (Encode.toFrom mp toRt fromRt) tunnelId value).encode mp

include hmp hd

theorem tunnelData_fields (hfrom : fromRt.length<2^32) (htunnel : tunnelId.length<2^32) :
    ∃ rcmd rfrom rtunnel rvalue,
      Coder.decodeStringFromMap mp (tunnelBytes mp toRt fromRt tunnelId value) (ascii "cmd")=
        some (some ⟨ascii "TUNNEL_DATA"++rcmd,(ascii "TUNNEL_DATA").length⟩) ∧
      Coder.decodeStringFromMap mp (tunnelBytes mp toRt fromRt tunnelId value)
        (ascii "from_rt_uuid")=some (some ⟨fromRt++rfrom,fromRt.length⟩) ∧
      Coder.decodeStringFromMap mp (tunnelBytes mp toRt fromRt tunnelId value)
        (ascii "tunnel_id")=some (some ⟨tunnelId++rtunnel,tunnelId.length⟩) ∧
      Coder.getValueFromMap mp (tunnelBytes mp toRt fromRt tunnelId value) (ascii "value")=
        some (some (value.encode mp++rvalue)) := by
  have hkeys : [(Encode.toFrom mp toRt fromRt).1,(Encode.toFrom mp toRt fromRt).2,
      Encode.kvStr mp "cmd" (ascii "TUNNEL_DATA"),
      Encode.kvStr mp "tunnel_id" tunnelId,(ascii "value",value)].map Prod.fst=
    [ascii "to_rt_uuid",ascii "from_rt_uuid",ascii "cmd",ascii "tunnel_id",ascii "value"] := rfl
  have hcmd := Coder.decodeStringFromMap_at hmp 2 hd hkeys rfl [] rfl (by decide) (by decide)
  have hfrom := Coder.decodeStringFromMap_at hmp 1 hd hkeys rfl [] rfl hfrom (by decide)
  have htunnel := Coder.decodeStringFromMap_at hmp 3 hd hkeys rfl [] rfl htunnel (by decide)
  have hvalue := Coder.getValueFromMap_at hmp 4 hd hkeys rfl [] (by decide)
  simp only [List.append_nil] at hcmd hfrom htunnel hvalue
  exact ⟨_,_,_,_,hcmd,hfrom,htunnel,hvalue⟩

omit hd

/-- A key that no key of the map starts is not found. -/
theorem hasKey_missing {n : Nat} {entries : List (Bytes × Doc)} {key : Bytes}
    (hd : Doc.Valid mp (.map n entries))
    (hmiss : ∀ k ∈ entries.map Prod.fst, strncmpEq k key k.length=false) (r : Bytes) :
    Coder.hasKey mp (Doc.encode mp (.map n entries)++r) key=some false := by
  rw [Coder.hasKey_map hmp hd]
  have hvalid := ((Doc.valid_map _ _).mp hd).2.2
  clear hd
  induction entries with
  | nil => rfl
  | cons e entries ih =>
    obtain ⟨hk,hv,hrest⟩ := (Doc.entriesValid_cons _ _).mp hvalid
    rw [List.length_cons,Coder.hasKeyLoop_miss hmp hk hv (hmiss _ List.mem_cons_self)]
    exact ih (fun k hk => hmiss k (List.mem_cons_of_mem _ hk)) hrest

end Lookups

namespace TokenRoute

section Reads

variable {mp : Msgpuck} (hmp : mp.Lawful) {c : TokenRoute} (hc : c.Short) {n : UInt32} {s : Node}
  {client : Transport} (hs : s.host.transport=some client) (hclient : client.state=.enabled)

include hmp hs hclient in
/-- A message through a tunnel that is no reply is handled by its command. -/
theorem parseMessage_tunnelData {toRt fromRt tunnelId : Bytes} {entries : List (Bytes × Doc)}
    {m : Nat} (hd : Doc.Valid mp (Encode.tunnelData mp
      (Encode.toFrom mp toRt fromRt) tunnelId (.map m entries)))
    (hentries : Doc.Valid mp (.map m entries)) (hfrom : fromRt.length<2^32)
    (htunnel : tunnelId.length<2^32) {cmd : Bytes}
    (hcmd : entries[0]?=some (Encode.kvStr mp "cmd" cmd)) (hlen : cmd.length<2^32)
    {keys : List Bytes} (hkeys : entries.map Prod.fst=keys)
    (hmiss : ∀ k ∈ keys, strncmpEq k (ascii "msg_uuid") k.length=false) :
    ∃ r, (Top.parseMessage mp (tunnelBytes mp toRt fromRt tunnelId (.map m entries))).run s=
      (TunnelCommand.answer mp (tunnelBytes mp toRt fromRt tunnelId (.map m entries))
        (TunnelCommand.called ⟨cmd++(Doc.encodeEntries mp (entries.drop 1)++r),cmd.length⟩)).run s := by
  obtain ⟨rcmd,rfrom,rtunnel,rvalue,hcommand,-,-,hvalue⟩ := tunnelData_fields hmp hd hfrom htunnel
  refine ⟨rvalue,?_⟩
  have hcalled : Top.called mp ⟨ascii "TUNNEL_DATA"++rcmd,(ascii "TUNNEL_DATA").length⟩=
      some (ascii "TUNNEL_DATA",Top.parseTunnelData mp) := by
    have hname : (fun e : Bytes × (Bytes → Top mp Result) =>
        strncmpEq (ascii "TUNNEL_DATA"++rcmd) e.1 (ascii "TUNNEL_DATA").length)=
      fun e => strncmpEq (ascii "TUNNEL_DATA") e.1 (ascii "TUNNEL_DATA").length := by
      funext e
      exact strncmpEq_append_left _ _ _ (Nat.le_refl _)
    rw [Top.called,hname]
    rfl
  have hcmdText := Coder.decodeStringFromMap_at hmp 0 hentries rfl hcmd rvalue rfl hlen
    (fun k hk => by cases hk)
  have hhas : Coder.hasKey mp (Doc.encode mp (.map m entries)++rvalue) (ascii "cmd")=
      some true := by
    rw [Coder.hasKey_map hmp hentries]
    obtain ⟨rest,rfl⟩ : ∃ rest, entries=Encode.kvStr mp "cmd" cmd::rest := by
      cases entries with
      | nil => cases hcmd
      | cons e rest => exact ⟨rest,congrArg (·::rest) (Option.some.inj hcmd)⟩
    exact Coder.hasKeyLoop_hit hmp (by decide) (strncmpEq_self _ _)
  rw [parseMessage_called hs hclient hcommand,hcalled,Top.answer]
  dsimp only
  rw [parseTunnelData_called hvalue
    (hasKey_missing hmp hentries (fun k hk => hmiss k (hkeys ▸ hk)) rvalue) hhas hcmdText]

/-- `TOKEN` is not read on to `TOKEN_REPLY`: the key behind it starts with its length. -/
theorem called_token (hcompact : mp.Compact) (token : Option Bytes) (r : Bytes) :
    TunnelCommand.called ⟨ascii "TOKEN"++(Doc.encodeEntries mp
      ((c.tokenEntries mp n token).drop 1)++r),(ascii "TOKEN").length⟩=some .token := by
  obtain ⟨tail,htail⟩ : ∃ tail, Doc.encodeEntries mp ((c.tokenEntries mp n token).drop 1)++r=
      0xab::tail := by
    have hkey : mp.encodeStr (ascii "sequencenbr")=0xab::ascii "sequencenbr" :=
      hcompact.encode_fixstr (by decide)
    simp only [tokenEntries,List.drop_succ_cons,List.drop_zero,Doc.encodeEntries,hkey,
      List.cons_append]
    exact ⟨_,rfl⟩
  have hreply : strncmpEq (ascii "TOKEN"++0xab::tail) (ascii "TOKEN_REPLY") 11=false := by
    rw [← Bool.not_eq_true]
    intro h
    have hname : 0 ∉ ascii "TOKEN_REPLY" := by decide
    have hpre := (strncmpEq_name (t := ⟨ascii "TOKEN"++0xab::tail,0⟩) hname).mp h
    simp [ascii,List.cons_prefix_cons] at hpre
  have htoken : strncmpEq (ascii "TOKEN"++0xab::tail) (ascii "TOKEN") 5=true :=
    (strncmpEq_append_left (ascii "TOKEN") (ascii "TOKEN") (0xab::tail) (n := 5) (by decide)).trans
      (strncmpEq_self _ _)
  rw [htail,TunnelCommand.called,hreply,htoken]
  rfl

theorem called_reply (ack : Bool) (r : Bytes) :
    TunnelCommand.called ⟨ascii "TOKEN_REPLY"++(Doc.encodeEntries mp
      ((c.replyEntries mp n ack).drop 1)++r),(ascii "TOKEN_REPLY").length⟩=some .tokenReply := by
  have h : strncmpEq (ascii "TOKEN_REPLY"++(Doc.encodeEntries mp
      ((c.replyEntries mp n ack).drop 1)++r)) (ascii "TOKEN_REPLY") 11=true :=
    (strncmpEq_append_left _ _ _ (n := 11) (by decide)).trans (strncmpEq_self _ _)
  rw [TunnelCommand.called,h]
  rfl

include hmp

theorem tokenDoc_data {token : Option Bytes} (ht : ∀ b, token=some b → mp.IsValue b)
    (r : Bytes) :
    ∃ rdata, Coder.getValueFromMap mp (Doc.encode mp (Atom.tokenDoc mp token)++r)
      (ascii "data")=some (some (token.getD mp.encodeNil++rdata)) := by
  have hkeys : [(ascii "type",Doc.raw (mp.encodeStr (ascii "Token"))),
      (ascii "data",Doc.raw (token.getD mp.encodeNil))].map Prod.fst=
    [ascii "type",ascii "data"] := rfl
  have hdata := Coder.getValueFromMap_at hmp 1 (PortDoc.valid_token hmp ht)
    hkeys rfl r (by decide)
  rw [Doc.encode] at hdata
  exact ⟨_,hdata⟩

include hc

/-- `proto_parse_token` reads back what `cc_proto_send_token` wrote. -/
theorem parseToken_eq {token : Option Bytes} (ht : ∀ b, token=some b → mp.IsValue b) :
    Flow.parseToken mp (c.tokenBytes mp n token)=
      Flow.tokenArrives mp c n (token.getD mp.encodeNil) := by
  obtain ⟨rcmd,rfrom,rtunnel,rvalue,-,hfrom,htunnel,hvalue⟩ :=
    tunnelData_fields hmp (valid_tokenMessage hmp hc (n := n) ht) hc.fromRt hc.tunnelId
  have hv := valid_tokenEntries hmp hc (n := n) ht
  have hkeys := c.tokenEntries_keys mp n token
  have hpeer := Coder.decodeStringFromMap_at hmp 3 hv hkeys rfl rvalue rfl hc.peerPortId
    (by decide)
  have hport := Coder.decodeStringFromMap_at hmp 2 hv hkeys rfl rvalue rfl hc.portId
    (by decide)
  have hnumber := Coder.decodeUintFromMap_at hmp 1 hv hkeys rfl rvalue rfl (by decide)
  have htoken := Coder.getValueFromMap_at hmp 4 hv hkeys rfl rvalue (by decide)
  obtain ⟨rdata,hdata⟩ := tokenDoc_data hmp ht
    (Doc.encodeEntries mp ((c.tokenEntries mp n token).drop (4+1))++rvalue)
  have hvalueSize : mp.IsValue (token.getD mp.encodeNil) := by
    cases token with
    | none => exact hmp.isValue_nil
    | some b => exact ht b rfl
  change Flow.parseToken mp (tunnelBytes mp _ _ _ _)=_
  simp only [Flow.parseToken,Flow.bind_text hfrom,Flow.bind_text htunnel,Flow.bind_value hvalue,
    Flow.bind_text hpeer,Flow.bind_text hport]
  rw [Flow.number,hnumber,Prog.ofOption,Prog.pure_bind]
  dsimp only
  simp only [Flow.bind_value htoken,Flow.bind_value hdata]
  rw [Atom.portGet_text]
  unfold Flow.tokenArrives
  refine congrArg (Prog.look _ >>= ·) (funext fun r => ?_)
  cases r with
  | none => simp only [Text.content,List.take_left,Prog.pure_bind]
  | some p =>
    simp only [Text.content,List.take_left,Coder.getSizeOfValue_eq hvalueSize,Prog.ofOption,
      Prog.pure_bind]

/-- `proto_parse_token_reply` reads back what `proto_parse_token` answered. -/
theorem parseTokenReply_eq (ack : Bool) :
    Flow.parseTokenReply mp (c.replyBytes mp n ack)=Flow.replyArrives mp c n ack := by
  obtain ⟨rcmd,rfrom,rtunnel,rvalue,-,-,-,hvalue⟩ :=
    tunnelData_fields hmp (valid_replyMessage hmp hc (n := n) ack) hc.toRt hc.tunnelId
  have hv := valid_replyEntries hmp hc (n := n) ack
  have hkeys := c.replyEntries_keys mp n ack
  have hport := Coder.decodeStringFromMap_at hmp 3 hv hkeys rfl rvalue rfl hc.portId
    (by decide)
  have hnumber := Coder.decodeUintFromMap_at hmp 1 hv hkeys rfl rvalue rfl (by decide)
  have hstatusLen : (if ack then ascii "ACK" else ascii "NACK").length<2^32 := by
    cases ack <;> decide
  have hstatus := Coder.decodeStringFromMap_at hmp 4 hv hkeys rfl rvalue rfl hstatusLen
    (by decide)
  have hcalled : ∀ r, PortReplyType.called ⟨(if ack then ascii "ACK" else ascii "NACK")++r,
      (if ack then ascii "ACK" else ascii "NACK").length⟩=
        some (if ack then (ascii "ACK",.ack) else (ascii "NACK",.nack)) := by
    intro r
    unfold PortReplyType.called
    simp only [strncmpEq_append_left _ _ r (Nat.le_refl _)]
    cases ack <;> decide
  change Flow.parseTokenReply mp (tunnelBytes mp _ _ _ _)=_
  rw [parseTokenReply_called hvalue hport hstatus hnumber,hcalled,PortReplyType.answer,
    Flow.replyArrives,Flow.handleTokenReply,Flow.handleTokenReply,Atom.portGet_text]
  cases ack with
  | false => rfl
  | true => rfl

include hs hclient

omit hmp in
theorem parseMessage_token (hcompact : mp.Compact) {token : Option Bytes}
    (ht : ∀ b, token=some b → mp.IsValue b) :
    (Top.parseMessage mp (c.tokenBytes mp n token)).run s=
      (Flow.toTop (Flow.tokenArrives mp c n (token.getD mp.encodeNil))).run s := by
  have hmp := hcompact.toLawful
  obtain ⟨r,hr⟩ := parseMessage_tunnelData hmp hs hclient (valid_tokenMessage hmp hc (n := n) ht)
    (valid_tokenEntries hmp hc ht) hc.fromRt hc.tunnelId rfl (by decide)
    (c.tokenEntries_keys mp n token) (by decide)
  have hcalled := called_token (c := c) (n := n) hcompact token r
  rw [← parseToken_eq hmp hc ht]
  rw [hcalled] at hr
  exact hr

theorem parseMessage_reply (ack : Bool) :
    (Top.parseMessage mp (c.replyBytes mp n ack)).run s=
      (Flow.toTop (Flow.replyArrives mp c n ack)).run s := by
  obtain ⟨r,hr⟩ := parseMessage_tunnelData hmp hs hclient (valid_replyMessage hmp hc (n := n) ack)
    (valid_replyEntries hmp hc ack) hc.toRt hc.tunnelId rfl (by decide) (c.replyEntries_keys mp n ack)
    (by decide)
  have hcalled := @called_reply mp c n ack r
  rw [← parseTokenReply_eq hmp hc ack]
  rw [hcalled] at hr
  exact hr

end Reads

end TokenRoute

end CalvinConstrained
