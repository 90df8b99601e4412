import CalvinConstrained.Runtime.Flow

namespace CalvinConstrained

/-- The bytes of a text up to a NUL. -/
def Text.bytes (t : Text) : Bytes := cstr (t.ptr.take t.len)

/-- `key+n` with the length `key_len-n`, which is unsigned. -/
def Text.skip (t : Text) (n : Nat) : Text := ⟨t.ptr.drop n,(t.len+2^32-n)%2^32⟩

namespace Flow

variable (mp : Msgpuck)

open Prog (look)

/-- A lookup in a message; `none` is `CC_FAIL`. -/
def value (r : Bytes) (key : String) : Flow mp (Option Bytes) :=
  Prog.ofOption (Coder.getValueFromMap mp r (ascii key))

def text (r : Bytes) (key : String) : Flow mp (Option Text) :=
  Prog.ofOption (Coder.decodeStringFromMap mp r (ascii key))

def number (r : Bytes) (key : String) : Flow mp (Option UInt32) :=
  Prog.ofOption (Coder.decodeUintFromMap mp r (ascii key))

section Fields

variable {mp} {α : Type} {r : Bytes} {key : String}

theorem bind_value {x : Option Bytes} (h : Coder.getValueFromMap mp r (ascii key)=some x)
    (f : Option Bytes → Flow mp α) : value mp r key >>= f=f x := Prog.bind_ofOption h f

theorem bind_text {x : Option Text} (h : Coder.decodeStringFromMap mp r (ascii key)=some x)
    (f : Option Text → Flow mp α) : text mp r key >>= f=f x := Prog.bind_ofOption h f

end Fields

/-- `cc_node_setup_reply_handler`. -/
def nodeSetupReplyHandler (data : Bytes) : Flow mp Result := do
  let some v ← value mp data "value" | return .fail
  let some v ← value mp v "value" | return .fail
  let some status ← number mp v "status" | return .fail
  let some objData ← value mp v "data" | return .fail
  let some objTime ← value mp objData "time" | return .fail
  if status ≠ 200 then return .fail
  let type ← Prog.ofOption (mp.typeOf objTime)
  if type ≠ .float ∧ type ≠ .double then return .fail
  host (Atom.setNodeState .started)
  return .success

/-- `cc_node_enter_sleep_reply_handler`. -/
def enterSleepReplyHandler (data : Bytes) : Flow mp Result := do
  let some v ← value mp data "value" | return .fail
  let some v ← value mp v "value" | return .fail
  match ← number mp v "status" with
  | none => pure ()
  | some status => host (Atom.setNodeState (if status=200 then .doSleep else .started))
  return .success

/-- `tunnel_request_handler`. -/
def tunnelRequestReplyHandler (data : Bytes) : Flow mp Result := do
  let some v ← value mp data "value" | return .fail
  let some dataValue ← value mp v "data" | return .fail
  let some tunnelId ← text mp dataValue "tunnel_id" | return .fail
  let some status ← number mp v "status" | return .fail
  let some t ← look (Atom.tunnelGetFromId tunnelId) | return .fail
  if status=200 then
    Prog.act (.tunnelUpdate t (← Prog.ofOption (tunnelId.copy uuidBufferSize)) .enabled)
  else
    Prog.act (.tunnelUpdate t (← look (Atom.tunnel t)).id .disconnected)
  return .success

/-- `cc_port_store_reply_handler` and `actor_set_reply_handler`, which only log. -/
def storeReplyHandler (known : Text → Atom (Option Ref)) (pre : Bytes) (data : Bytes) :
    Flow mp Result := do
  let some v ← value mp data "value" | return .fail
  let some key ← text mp v "key" | return .fail
  if !strncmpEq key.ptr pre pre.length then return .fail
  let some _ ← look (known (key.skip pre.length)) | return .success
  let some response ← value mp v "response" | return .fail
  let some _ ← number mp response "status" | return .fail
  return .success

/-- `cc_port_get_peer_port_reply_handler`. -/
def getPeerPortReplyHandler (data : Bytes) : Flow mp Result := do
  let some v ← value mp data "value" | return .fail
  let some key ← text mp v "key" | return .fail
  let some p ← look (Atom.portGetFromPeerPortId (key.skip 5)) | return .success
  if (← look (Atom.port p)).state=.enabled then return .success
  let some valueValue ← value mp v "value" | return .fail
  let some nodeId ← text mp valueValue "node_id" | do
    setState p .doDelete
    return .fail
  Prog.act (.setPeerId p (← Prog.ofOption (nodeId.copy uuidBufferSize)))
  portConnect mp p
  return .success

/-- `cc_port_connect_reply_handler`. The port is found by its peer's id alone. -/
def portConnectReplyHandler (data : Bytes) : Flow mp Result := do
  let some v ← value mp data "value" | return .fail
  let some status ← number mp v "status" | return .fail
  let some valueData ← value mp v "data" | return .fail
  match ← text mp valueData "port_id" with
  | none => pure ()
  | some peerPortId =>
    match ← look (Atom.portGetFromPeerPortId peerPortId) with
    | none => pure ()
    | some p => setState p (if status=200 then .enabled else .disconnected)
  return .success

/-- `cc_actor_migrate_reply_handler`, which reads the id of the actor it was sent for. -/
def actorMigrateReplyHandler (data : Bytes) (msgData : Option Ref) : Flow mp Result := do
  let a ← Prog.ofOption msgData
  let id ← look (Atom.actorId a)
  let some v ← value mp data "value" | return .fail
  let some status ← number mp v "status" | return .fail
  let some b ← look (Atom.actorGet ⟨id,strnlen id uuidBufferSize⟩) | return .fail
  if status=200 then
    Prog.act (.freeActor b false)
    return .success
  return .fail

/-- `cc_actor_req_match_reply_handler`. -/
def reqMatchReplyHandler (data : Bytes) : Flow mp Result := do
  let some v ← value mp data "value" | return .fail
  let some v ← value mp v "value" | return .fail
  let some objData ← value mp v "data" | return .fail
  let some status ← number mp v "status" | return .fail
  if status ≠ 200 then return .success
  let some actorId ← text mp objData "actor_id" | return .fail
  let some a ← look (Atom.actorGet actorId) | return .fail
  let some placements ← value mp objData "possible_placements" | return .fail
  if (← Prog.ofOption (mp.typeOf placements)) ≠ .array then return .fail
  if 0<(← Prog.ofOption (Coder.getSizeOfArray mp placements)) then
    let some peerId ← Prog.ofOption (Coder.decodeStringFromArray mp placements 0)
      | return .fail
    actorMigrate mp a peerId.content
  else
    return .success

/-- `proto_parse_token`. -/
def parseToken (root : Bytes) : Flow mp Result := do
  let some fromRtUuid ← text mp root "from_rt_uuid" | return .fail
  let some _ ← text mp root "tunnel_id" | return .fail
  let some objValue ← value mp root "value" | return .fail
  let some portId ← text mp objValue "peer_port_id" | return .fail
  let some peerPortId ← text mp objValue "port_id" | return .fail
  let some sequencenbr ← number mp objValue "sequencenbr" | return .fail
  let some objToken ← value mp objValue "token" | return .fail
  let some objData ← value mp objToken "data" | return .fail
  let ack ← match ← look (Atom.portGet portId) with
    | none => pure false
    | some p => do
      let size ← Prog.ofOption (Coder.getSizeOfValue mp objData)
      pure (decide ((← handleToken mp p (objData.take size) sequencenbr)=.success))
  host do
    Atom.needTransport
    Atom.send (.tokenReply fromRtUuid.content portId.content peerPortId.content sequencenbr ack)

/-- `proto_parse_token_reply`. -/
def parseTokenReply (root : Bytes) : Flow mp Result := do
  let some v ← value mp root "value" | return .fail
  let some portId ← text mp v "port_id" | return .fail
  let some status ← text mp v "value" | return .fail
  let some sequencenbr ← number mp v "sequencenbr" | return .fail
  if strncmpEq status.ptr (ascii "ACK") status.len then
    handleTokenReply mp portId .ack sequencenbr
    return .success
  else if strncmpEq status.ptr (ascii "NACK") status.len then
    handleTokenReply mp portId .nack sequencenbr
    return .success
  else if strncmpEq status.ptr (ascii "ABORT") status.len then
    handleTokenReply mp portId .abort sequencenbr
    return .success
  return .fail

/-- `proto_parse_destroy`. -/
def parseDestroy (root : Bytes) : Flow mp Result := do
  let some fromRtUuid ← text mp root "from_rt_uuid" | return .fail
  let some _ ← text mp root "tunnel_id" | return .fail
  let some objValue ← value mp root "value" | return .fail
  let some method ← text mp objValue "method" | return .fail
  let stopMethod := if strncmpEq method.ptr (ascii "/migrate") 8 then .migrate else .clean
  host do
    Atom.modifyHost fun h => {h with state := .stop,stopMethod := stopMethod}
    Atom.needTransport
    Atom.send (.destroyReply fromRtUuid.content)

/-- `cc_proto_send_req_match`, with or without the requirements of the actor. -/
def sendReqMatch (a : Ref) (requirements : Bytes) (requires : Bool) : Flow mp Result := do
  if requires then
    let _ ← Prog.ofOption (Coder.getSizeOfArray mp requirements)
  else
    let _ ← Prog.ofOption (Coder.getSizeOfValue mp requirements)
  host do
    Atom.needTransport
    Atom.needProxy
    Atom.request (.reqMatch (← Atom.actorId a)) .reqMatch none

/-- `cc_proto_parse_actor_migrate`. -/
def parseActorMigrate (root : Bytes) : Flow mp Result := do
  let some fromRtUuid ← text mp root "from_rt_uuid" | return .fail
  let some tmp ← text mp root "msg_uuid" | return .fail
  let msgUuid ← Prog.ofOption (tmp.copy uuidBufferSize)
  let reply := fun status : Nat =>
    (host (Atom.send (.reply msgUuid fromRtUuid.content status)) : Flow mp Result)
  let some actorId ← text mp root "actor_id" | do
    let _ ← reply 400
    return .fail
  let some a ← look (Atom.actorGet actorId) | do
    let _ ← reply 404
    return .fail
  if ← Prog.ofOption (Coder.hasKey mp root (ascii "peer_node_id")) then
    let some peerNodeId ← text mp root "peer_node_id" | do
      let _ ← reply 500
      return .fail
    if (← actorMigrate mp a peerNodeId.content)=.success then
      reply 200
    else
      reply 500
  else
    let some requirements ← value mp root "requirements" | do
      let _ ← reply 400
      return .fail
    let requires ← if (← look (Atom.actor a)).loaded then host Atom.effect else pure none
    match requires with
    | some ⟨false,_,_,_,_⟩ =>
      let _ ← reply 500
      return .fail
    | requires =>
      if (← sendReqMatch mp a requirements requires.isSome)=.success then
        reply 200
      else
        reply 500

def appDestroyLoop (objActorUuids : Bytes) : Nat → Nat → Flow mp Result
  | 0,_ => return .success
  | n+1,i => do
      let some actorId ← Prog.ofOption (Coder.decodeStringFromArray mp objActorUuids i)
        | return .fail
      match ← look (Atom.actorGet actorId) with
      | none => pure ()
      | some a => Prog.act (.freeActor a true)
      appDestroyLoop objActorUuids n (i+1)

/-- `cc_proto_parse_app_destroy`. -/
def parseAppDestroy (root : Bytes) : Flow mp Result := do
  let some fromRtUuid ← text mp root "from_rt_uuid" | return .fail
  let some tmp ← text mp root "msg_uuid" | return .fail
  let msgUuid ← Prog.ofOption (tmp.copy uuidBufferSize)
  let some objActorUuids ← value mp root "actor_uuids" | return .fail
  let size ← Prog.ofOption (Coder.getSizeOfArray mp objActorUuids)
  let result ← appDestroyLoop mp objActorUuids size 0
  host (Atom.send (.reply msgUuid fromRtUuid.content (if result=.success then 200 else 500)))

/-- `cc_proto_parse_port_disconnect`. -/
def parsePortDisconnect (root : Bytes) : Flow mp Result := do
  let some fromRtUuid ← text mp root "from_rt_uuid" | return .fail
  let some msgUuid ← text mp root "msg_uuid" | return .fail
  let some peerPortId ← text mp root "peer_port_id" | return .fail
  let status ← match ← look (Atom.portGet peerPortId) with
    | none => pure 500
    | some p => do
      Prog.act (.handleDisconnect p)
      pure 200
  host (Atom.send (.portDisconnectReply msgUuid.content fromRtUuid.content status))

/-- `cc_proto_parse_port_connect`. -/
def parsePortConnect (root : Bytes) : Flow mp Result := do
  let some fromRtUuid ← text mp root "from_rt_uuid" | return .fail
  let some msgUuid ← text mp root "msg_uuid" | return .fail
  let some peerPortId ← text mp root "peer_port_id" | return .fail
  let some tunnelId ← text mp root "tunnel_id" | return .fail
  let status ← match ← look (Atom.portGet peerPortId) with
    | none => pure 404
    | some p => do
      if (← handleConnect p tunnelId)=.success then pure 200 else pure 404
  host (Atom.send
    (.portConnectReply msgUuid.content fromRtUuid.content status peerPortId.content))

/-- `cc_proto_parse_tunnel_new`. On a failure the link loses a reference that it did not
get here. -/
def parseTunnelNew (root : Bytes) : Flow mp Result := do
  let some fromRtUuid ← text mp root "from_rt_uuid" | return .fail
  let some msgUuid ← text mp root "msg_uuid" | return .fail
  let some type ← text mp root "type" | return .fail
  let some tunnelId ← text mp root "tunnel_id" | return .fail
  let link ← if !strncmpEq type.ptr (ascii "token") 5 then pure none else do
    match ← look (Atom.linkGet fromRtUuid) with
    | some l => pure (some l)
    | none => linkCreate fromRtUuid false
  let result ← match link with
    | none => pure .fail
    | some _ => handleTunnelNewRequest mp fromRtUuid tunnelId
  let reply := fun status : Nat => (host (Atom.send
    (.tunnelNewReply msgUuid.content fromRtUuid.content status tunnelId.content)) : Flow mp Result)
  if result=.success then
    reply 200
  else
    match link with
    | none => pure ()
    | some l => Prog.act (.linkRemoveRef l)
    reply 500

end Flow

end CalvinConstrained
