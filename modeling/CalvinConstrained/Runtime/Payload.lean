import CalvinConstrained.Runtime.Counted
import CalvinConstrained.Runtime.Flow

namespace CalvinConstrained

def TunnelState.toUInt32 : TunnelState → UInt32
  | .disconnected => 0
  | .enabled => 1
  | .pending => 2
  | .unknown value => value

def TunnelType.toUInt32 : TunnelType → UInt32
  | .storage => 0
  | .token => 1
  | .proxy => 2
  | .unknown value => value

def NodeState.toUInt32 : NodeState → UInt32
  | .doStart => 0
  | .doSleep => 1
  | .pending => 2
  | .started => 3
  | .stop => 4
  | .unknown value => value

/-- The bytes behind a text of a message; undefined where they are not there. -/
def Text.whole (t : Text) : Option Bytes :=
  if t.len ≤ t.ptr.length then some (t.ptr.take t.len) else none

/-- What is read from a buffer of `size` bytes that `snprintf` filled with `text`, for the
length `snprintf` returns: the whole text also where the buffer is shorter. -/
def printed (size : Nat) (text : Bytes) : Option Bytes :=
  if text.length<size then some text
  else if text.length=size then some (text.take (size-1)++[0])
  else none

/-- A call of a function that writes a message or a state, with the values of its
arguments. -/
inductive Encoder
  | joinRequest (serializer : Bytes)
  | nodeSetup (attributes : Option Bytes)
  | wakeSignal
  | getActorModule (actorType : Bytes)
  | reqMatch (a : Ref) (requirements : Option Bytes)
  | reqMatchActor (a : Ref) (deployReqs : Bytes) (requires : List Bytes)
  | sleepRequest (timeToSleep : UInt32)
  | tunnelRequest (t : Ref)
  | tunnelDestroy (t : Ref)
  | reply (msgUuid toRtUuid : Bytes) (status : UInt32)
  | tunnelNewReply (msgUuid toRtUuid : Bytes) (status : UInt32) (tunnelId : Bytes)
  | routeRequestReply (msgUuid toRtUuid : Bytes) (status : UInt32) (destPeerId : Bytes)
  | portConnectReply (msgUuid toRtUuid : Bytes) (status : UInt32) (portId : Bytes)
  | portDisconnectReply (msgUuid toRtUuid : Bytes) (status : UInt32)
  | token (p : Ref) (token : Option Bytes) (sequencenbr : UInt32)
  | tokenReply (fromRtUuid tunnelId portId peerPortId : Bytes) (sequencenbr : UInt32) (ack : Bool)
  | destroyReply (fromRtUuid tunnelId : Bytes)
  | portConnect (p : Ref)
  | portDisconnect (p : Ref)
  | setActor (a : Ref)
  | removeActor (a : Ref)
  | removeReplica (a : Ref)
  | removeReplicaNode (a : Ref)
  | setPort (p : Ref)
  | getPort (portId : Bytes)
  | removePort (p : Ref)
  | actorNew (a : Ref) (toRtUuid : Bytes)
  | actorSerialize (a : Ref) (includeState : Bool)
  | nodeSetState (attributes : Option Bytes) (proxyUris : List Bytes) (includeState : Bool)

namespace Encode

variable (mp : Msgpuck)

def text (b : Bytes) : Doc := .raw (mp.encodeStr b)
def uint (x : UInt32) : Doc := .raw (mp.encodeUint x)
def bool (x : Bool) : Doc := .raw (mp.encodeBool x)
def nil : Doc := .raw mp.encodeNil

def textOrNil (b : Option Bytes) : Doc := b.elim (nil mp) (text mp)

def kvStr (key : String) (value : Bytes) : Bytes × Doc := (ascii key,text mp value)

/-- A message for another node inside a tunnel; the two node ids come in either order. -/
def tunnelData (nodes : (Bytes × Doc) × (Bytes × Doc)) (tunnelId : Bytes) (value : Doc) : Doc :=
  .map 5 [nodes.1,nodes.2,
    kvStr mp "cmd" (ascii "TUNNEL_DATA"),
    kvStr mp "tunnel_id" tunnelId,
    (ascii "value",value)]

def toFrom (toRtUuid fromRtUuid : Bytes) : (Bytes × Doc) × (Bytes × Doc) :=
  (kvStr mp "to_rt_uuid" toRtUuid,kvStr mp "from_rt_uuid" fromRtUuid)

def fromTo (fromRtUuid toRtUuid : Bytes) : (Bytes × Doc) × (Bytes × Doc) :=
  (kvStr mp "from_rt_uuid" fromRtUuid,kvStr mp "to_rt_uuid" toRtUuid)

def successList : Bytes × Doc :=
  (ascii "success_list",.array 7 [uint mp 200,uint mp 201,uint mp 202,uint mp 203,uint mp 204,
    uint mp 205,uint mp 206])

/-- The replies, which differ in what they return as data. -/
def replyWith (nodeId msgUuid toRtUuid : Bytes) (value : List (Bytes × Doc)) : Doc :=
  .map 5 [kvStr mp "msg_uuid" msgUuid,
    kvStr mp "to_rt_uuid" toRtUuid,
    kvStr mp "from_rt_uuid" nodeId,
    kvStr mp "cmd" (ascii "REPLY"),
    (ascii "value",.map 3 value)]

def replyData (status : UInt32) (data : Bytes × Doc) : List (Bytes × Doc) :=
  [(ascii "status",uint mp status),successList mp,(ascii "data",.map 1 [data])]

def directionText : PortDirection → Bytes
  | .dirIn => ascii "in"
  | .dirOut => ascii "out"

def tunnelTypeText : TunnelType → Option Bytes
  | .storage => some (ascii "storage")
  | .proxy => some (ascii "proxy")
  | .token => some (ascii "token")
  | .unknown _ => none

/-- `cc_token_encode` with the key `token`. -/
def tokenEntry (token : Option Bytes) : Bytes × Doc := (ascii "token",Atom.tokenDoc mp token)

def portEntry (x : Port) : Doc := .map 2 [kvStr mp "id" x.id,kvStr mp "name" x.name]

/-- `cc_link_serialize`. -/
def linkDoc (l : Link) : Doc :=
  .map 2 [kvStr mp "peer_id" l.peerId,(ascii "is_proxy",bool mp l.isProxy)]

/-- `cc_tunnel_serialize`. -/
def tunnelDoc (t : Tunnel) (l : Link) : Doc :=
  .map 4 [kvStr mp "id" t.id,
    kvStr mp "peer_id" l.peerId,
    (ascii "state",uint mp t.state.toUInt32),
    (ascii "type",uint mp t.type.toUInt32)]

/-- The text of the join request, which is JSON. -/
def joinText (nodeId msgUuid serializer : Bytes) : Bytes :=
  ascii "\x7b\"cmd\": \"JOIN_REQUEST\", \"id\": \""++nodeId++ascii "\", \"sid\": \""++msgUuid++
    ascii "\", \"serializers\": [\""++serializer++ascii "\"]\x7d"

/-- Where a message for the proxy goes: the peer of the proxy tunnel and the tunnel. -/
def proxyHeader : Atom (Bytes × Bytes) := do
  match (← get).proxyTunnel with
  | none => Atom.undefined
  | some t =>
    let t ← Atom.tunnel t
    let l ← Atom.link t.link
    return (l.peerId,t.id)

/-- Where a request to the registry goes: the peer of the proxy link and the storage
tunnel. -/
def storageHeader : Atom (Bytes × Bytes) := do
  match (← get).proxyLink,(← get).storageTunnel with
  | some l,some t =>
    let l ← Atom.link l
    let t ← Atom.tunnel t
    return (l.peerId,t.id)
  | _,_ => Atom.undefined

def nodeId : Atom Bytes := do return (← get).host.id

def msgUuid : Atom Bytes := Atom.uuid (ascii "MSGID_")

def hasTransport : Atom Bool := do return (← get).host.transport.isSome

/-- `port->tunnel->id`. -/
def portTunnelId (x : Port) : Atom Bytes := do
  match x.tunnel with
  | none => Atom.undefined
  | some t => return (← Atom.tunnel t).id

/-- A request to the proxy. -/
def toProxy (value : Bytes → Doc) : Atom Doc := do
  Atom.needTransport
  let uuid ← msgUuid
  let (peerId,tunnelId) ← proxyHeader
  return tunnelData mp (toFrom mp peerId (← nodeId)) tunnelId (value uuid)

/-- A request to the registry. -/
def toStorage (nodes : Bytes → Bytes → (Bytes × Doc) × (Bytes × Doc)) (value : Bytes → Doc) :
    Atom Doc := do
  Atom.needTransport
  let uuid ← msgUuid
  let (peerId,tunnelId) ← storageHeader
  return tunnelData mp (nodes peerId (← nodeId)) tunnelId (value uuid)

/-- `cc_proto_send_node_setup`. -/
def nodeSetup (attributes : Option Bytes) : Atom (Option Doc) := do
  if !(← hasTransport) then return none
  let capabilities := (← get).host.capabilities
  return some (← toProxy mp fun uuid => .map 5 [
    kvStr mp "msg_uuid" uuid,
    kvStr mp "cmd" (ascii "CONFIG"),
    (ascii "attributes",textOrNil mp attributes),
    (ascii "capabilities",.array capabilities.length (capabilities.map fun c => text mp c.name)),
    kvStr mp "port_property_capability" (ascii "runtime.constrained.1"),
    (ascii "redeploy",bool mp false)])

/-- `cc_proto_send_wake_signal`. -/
def wakeSignal : Atom (Option Doc) := do
  if !(← hasTransport) then return none
  return some (← toProxy mp fun uuid => .map 2 [
    kvStr mp "msg_uuid" uuid,
    kvStr mp "cmd" (ascii "WAKEUP")])

/-- `cc_proto_send_get_actor_module`. -/
def getActorModule (actorType : Bytes) : Atom (Option Doc) := do
  return some (← toProxy mp fun uuid => .map 4 [
    kvStr mp "msg_uuid" uuid,
    kvStr mp "cmd" (ascii "GET_ACTOR_MODULE"),
    kvStr mp "actor_type" actorType,
    kvStr mp "compiler" (ascii "mpy-cross")])

/-- `cc_proto_send_req_match`. -/
def reqMatch (a : Ref) (requirements : Option Bytes) : Atom (Option Doc) := do
  let actorId ← Atom.actorId a
  return some (← toProxy mp fun uuid => .map 5 [
    kvStr mp "msg_uuid" uuid,
    kvStr mp "cmd" (ascii "REQ_MATCH"),
    kvStr mp "actor_id" actorId,
    (ascii "requirements",.raw (requirements.getD mp.encodeNil)),
    (ascii "max_placements",uint mp 1)])

/-- The requirements of a deployment, which are copied one by one. -/
def deployReqs (reqs : Bytes) : List Nat → Option (Option (List Doc))
  | [] => return some []
  | i::is => do
      match ← Coder.getValueFromArray mp reqs i with
      | none => return none
      | some req =>
        let size ← Coder.getSizeOfValue mp req
        match ← deployReqs reqs is with
        | none => return none
        | some items => return some (.raw (req.take size)::items)

/-- The requirements of a deployment with those of the actor behind them. -/
def actorReqs (reqs : Bytes) (requires : List Bytes) : Option (Option Doc) := do
  let nbrOfReqs ← Coder.getSizeOfArray mp reqs
  match ← deployReqs mp reqs (List.range nbrOfReqs) with
  | none => return none
  | some items => return some (.array (nbrOfReqs+1) (items++[.map 3 [
      kvStr mp "op" (ascii "actor_reqs_match"),
      kvStr mp "type" (ascii "+"),
      (ascii "kwargs",.map 1 [
        (ascii "requires",.array requires.length (requires.map (text mp)))])]]))

/-- `cc_proto_send_req_match_with_actor_reqs`, which encodes the requirements in a buffer of its
own. -/
def reqMatchActor (a : Ref) (reqs : Bytes) (requires : List Bytes) : Atom (Option Doc) := do
  match ← Atom.ofOption (actorReqs mp reqs requires) with
  | none => return none
  | some requirements =>
    let buffer := requirements.encode mp
    if buffer.length ≤ 1000 then reqMatch mp a (some buffer) else Atom.undefined

/-- `cc_proto_send_sleep_request`. -/
def sleepRequest (timeToSleep : UInt32) : Atom (Option Doc) := do
  return some (← toProxy mp fun uuid => .map 3 [
    kvStr mp "msg_uuid" uuid,
    kvStr mp "cmd" (ascii "WILL_SLEEP"),
    (ascii "time",uint mp timeToSleep)])

/-- `cc_proto_send_tunnel_request`. -/
def tunnelRequest (t : Ref) : Atom (Option Doc) := do
  let t ← Atom.tunnel t
  match tunnelTypeText t.type with
  | none => return none
  | some type =>
    let uuid ← msgUuid
    Atom.needTransport
    let l ← Atom.link t.link
    return some (.map 7 [
      kvStr mp "msg_uuid" uuid,
      kvStr mp "from_rt_uuid" (← nodeId),
      kvStr mp "to_rt_uuid" l.peerId,
      kvStr mp "cmd" (ascii "TUNNEL_NEW"),
      kvStr mp "tunnel_id" t.id,
      kvStr mp "type" type,
      (ascii "policy",.map 0 [])])

/-- `cc_proto_send_tunnel_destroy`. -/
def tunnelDestroy (t : Ref) : Atom (Option Doc) := do
  let t ← Atom.tunnel t
  let uuid ← msgUuid
  Atom.needTransport
  let l ← Atom.link t.link
  return some (.map 5 [
    kvStr mp "msg_uuid" uuid,
    kvStr mp "from_rt_uuid" (← nodeId),
    kvStr mp "to_rt_uuid" l.peerId,
    kvStr mp "cmd" (ascii "TUNNEL_DESTROY"),
    kvStr mp "tunnel_id" t.id])

/-- `proto_send_reply`. -/
def reply (uuid toRtUuid : Bytes) (status : UInt32) : Atom (Option Doc) := do
  if !(← hasTransport) then return none
  return some (replyWith mp (← nodeId) uuid toRtUuid [
    (ascii "status",uint mp status),
    (ascii "data",nil mp),
    successList mp])

/-- `proto_send_tunnel_new_reply`. -/
def tunnelNewReply (uuid toRtUuid : Bytes) (status : UInt32) (tunnelId : Bytes) :
    Atom (Option Doc) := do
  if !(← hasTransport) then return none
  return some (replyWith mp (← nodeId) uuid toRtUuid
    (replyData mp status (kvStr mp "tunnel_id" tunnelId)))

/-- `proto_send_route_request_reply`. -/
def routeRequestReply (uuid toRtUuid : Bytes) (status : UInt32) (destPeerId : Bytes) :
    Atom (Option Doc) := do
  if !(← hasTransport) then return none
  return some (replyWith mp (← nodeId) uuid toRtUuid
    (replyData mp status (kvStr mp "peer_id" destPeerId)))

/-- `cc_proto_send_port_connect_reply`. -/
def portConnectReply (uuid toRtUuid : Bytes) (status : UInt32) (portId : Bytes) :
    Atom (Option Doc) := do
  Atom.needTransport
  return some (replyWith mp (← nodeId) uuid toRtUuid
    (replyData mp status (kvStr mp "port_id" portId)))

/-- `cc_proto_send_port_disconnect_reply`. -/
def portDisconnectReply (uuid toRtUuid : Bytes) (status : UInt32) : Atom (Option Doc) := do
  Atom.needTransport
  return some (replyWith mp (← nodeId) uuid toRtUuid
    (replyData mp status (ascii "remaining_tokens",.map 0 [])))

/-- `cc_proto_send_token`. -/
def token (p : Ref) (token : Option Bytes) (sequencenbr : UInt32) : Atom (Option Doc) := do
  Atom.needTransport
  let x ← Atom.port p
  let tunnelId ← portTunnelId x
  return some (tunnelData mp (toFrom mp x.peerId (← nodeId)) tunnelId (.map 5 [
    kvStr mp "cmd" (ascii "TOKEN"),
    (ascii "sequencenbr",uint mp sequencenbr),
    kvStr mp "port_id" x.id,
    kvStr mp "peer_port_id" x.peerPortId,
    tokenEntry mp token]))

/-- The answer of `proto_parse_token`. -/
def tokenReply (fromRtUuid tunnelId portId peerPortId : Bytes) (sequencenbr : UInt32)
    (ack : Bool) : Atom (Option Doc) := do
  Atom.needTransport
  return some (tunnelData mp (toFrom mp fromRtUuid (← nodeId)) tunnelId (.map 5 [
    kvStr mp "cmd" (ascii "TOKEN_REPLY"),
    (ascii "sequencenbr",uint mp sequencenbr),
    kvStr mp "peer_port_id" portId,
    kvStr mp "port_id" peerPortId,
    kvStr mp "value" (if ack then ascii "ACK" else ascii "NACK")]))

/-- The answer of `proto_parse_destroy`. -/
def destroyReply (fromRtUuid tunnelId : Bytes) : Atom (Option Doc) := do
  Atom.needTransport
  return some (tunnelData mp (toFrom mp fromRtUuid (← nodeId)) tunnelId (.map 2 [
    kvStr mp "cmd" (ascii "DESTROY_REPLY"),
    (ascii "value",uint mp 200)]))

/-- `cc_proto_send_port_connect`. -/
def portConnect (p : Ref) : Atom (Option Doc) := do
  let uuid ← msgUuid
  Atom.needTransport
  let x ← Atom.port p
  let tunnelId ← portTunnelId x
  return some (.map 11 [
    kvStr mp "to_rt_uuid" x.peerId,
    kvStr mp "from_rt_uuid" (← nodeId),
    kvStr mp "msg_uuid" uuid,
    kvStr mp "tunnel_id" tunnelId,
    kvStr mp "cmd" (ascii "PORT_CONNECT"),
    (ascii "peer_port_name",nil mp),
    (ascii "peer_actor_id",nil mp),
    kvStr mp "peer_port_id" x.peerPortId,
    kvStr mp "port_id" x.id,
    (ascii "peer_port_properties",nil mp),
    (ascii "port_properties",.map 3 [
      kvStr mp "direction" (directionText x.direction),
      kvStr mp "routing" (ascii "default"),
      (ascii "nbr_peers",uint mp 1)])])

/-- `cc_proto_send_port_disconnect`. -/
def portDisconnect (p : Ref) : Atom (Option Doc) := do
  let uuid ← msgUuid
  Atom.needTransport
  let x ← Atom.port p
  let tunnelId ← portTunnelId x
  return some (.map 10 [
    kvStr mp "to_rt_uuid" x.peerId,
    kvStr mp "from_rt_uuid" (← nodeId),
    kvStr mp "msg_uuid" uuid,
    kvStr mp "tunnel_id" tunnelId,
    kvStr mp "cmd" (ascii "PORT_DISCONNECT"),
    (ascii "peer_port_name",nil mp),
    (ascii "peer_actor_id",nil mp),
    kvStr mp "peer_port_id" x.peerPortId,
    kvStr mp "port_id" x.id,
    (ascii "peer_port_dir",nil mp)])

/-- A text of the replication attribute. -/
def replicationText (data : Bytes) (key : String) : Option Doc := do
  match ← Coder.decodeStringFromMap mp data (ascii key) with
  | none => return nil mp
  | some t => return text mp (← t.whole)

/-- `cc_coder_decode_uint`; `ofFloat` converts the floats of a message. -/
def decodeUint (ofFloat : Bytes → UInt32) (buffer : Bytes) : Option (Option UInt32) := do
  match ← mp.typeOf buffer with
  | .uint => return some (← mp.decodeUint buffer)
  | .float => return some (ofFloat buffer)
  | .double => return some (ofFloat buffer)
  | _ => return none

def replicationIndex (ofFloat : Bytes → UInt32) (data : Bytes) : Option UInt32 := do
  match ← Coder.getValueFromMap mp data (ascii "index") with
  | none => return 0
  | some value => return (← decodeUint mp ofFloat value).getD 0

/-- What a replica adds to the entry of an actor. -/
def replicationEntries (ofFloat : Bytes → UInt32) (data : Bytes) :
    Option (List (Bytes × Doc)) := do
  return [
    (ascii "replication_id",← replicationText mp data "id"),
    (ascii "replication_master_id",← replicationText mp data "original_actor_id"),
    (ascii "replication_index",uint mp (← replicationIndex mp ofFloat data))]

def portEntries : List Ref → Atom (List Doc)
  | [] => return []
  | p::ps => do
      let x ← Atom.port p
      return portEntry mp x::(← portEntries ps)

/-- The entry of an actor in the registry. -/
def actorEntry (nodeId name : Bytes) (x : Actor) (inPorts outPorts : List Doc)
    (size : Nat) (replication : List (Bytes × Doc)) : Doc :=
  .map size ([
    (ascii "is_shadow",bool mp false),
    kvStr mp "name" name,
    kvStr mp "node_id" nodeId,
    kvStr mp "type" x.type,
    (ascii "inports",.array x.inPorts.length inPorts),
    (ascii "outports",.array x.outPorts.length outPorts)]++replication)

/-- `cc_proto_send_set_actor`. -/
def setActor (ofFloat : Bytes → UInt32) (a : Ref) : Atom (Option Doc) := do
  let key ← Atom.ofOption (printed 50 (ascii "actor-"++(← Atom.actorId a)))
  let x ← Atom.actor a
  let name ← Atom.ofOption x.name
  let inPorts ← portEntries mp x.inPorts
  let outPorts ← portEntries mp x.outPorts
  let node ← nodeId
  let set := fun (value : Doc) (uuid : Bytes) => Doc.map 4 [
    kvStr mp "msg_uuid" uuid,
    kvStr mp "cmd" (ascii "SET"),
    kvStr mp "key" key,
    (ascii "value",value)]
  match ← Atom.replicationId mp a with
  | none =>
    let value := actorEntry mp node name x inPorts outPorts 6 []
    return some (← toStorage mp (fun peer node => fromTo mp node peer) (set value))
  | some data =>
    let replication ← Atom.ofOption (replicationEntries mp ofFloat data)
    let value := actorEntry mp node name x inPorts outPorts 9 replication
    return some (← toStorage mp (fun peer node => fromTo mp node peer) (set value))

/-- A `DELETE` request to the registry. -/
def deleteKey (key uuid : Bytes) : Doc :=
  .map 3 [
    kvStr mp "cmd" (ascii "DELETE"),
    kvStr mp "key" key,
    kvStr mp "msg_uuid" uuid]

/-- `cc_proto_send_remove_actor`. -/
def removeActor (a : Ref) : Atom (Option Doc) := do
  let key ← Atom.ofOption (printed 50 (ascii "actor-"++(← Atom.actorId a)))
  return some (← toStorage mp (fun peer node => fromTo mp node peer) (deleteKey mp key))

/-- The two messages of `cc_proto_send_remove_replica`. -/
def removeIndex (a : Ref) (index : String) (value : Bytes) : Atom (Option Doc) := do
  let some data ← Atom.replicationId mp a | return none
  let some id ← Atom.ofOption (Coder.decodeStringFromMap mp data (ascii "id")) | return none
  let id ← Atom.ofOption (id.copy 40)
  return some (← toStorage mp (fun peer node => fromTo mp node peer) fun uuid => .map 5 [
    kvStr mp "cmd" (ascii "REMOVE_INDEX"),
    kvStr mp "prefix" (ascii "index-"),
    (ascii "index",.array 1 [text mp (ascii index++id)]),
    kvStr mp "value" value,
    kvStr mp "msg_uuid" uuid])

def removeReplica (a : Ref) : Atom (Option Doc) := do
  removeIndex mp a "replicas/actors/" (← Atom.actorId a)

def removeReplicaNode (a : Ref) : Atom (Option Doc) := do
  removeIndex mp a "replicas/nodes/" (← nodeId)

/-- `cc_proto_send_set_port`. -/
def setPort (p : Ref) : Atom (Option Doc) := do
  let x ← Atom.port p
  let key ← Atom.ofOption (printed 50 (ascii "port-"++x.id))
  let actorId ← Atom.actorId x.actor
  let node ← nodeId
  return some (← toStorage mp (toFrom mp) fun uuid => .map 4 [
    kvStr mp "msg_uuid" uuid,
    kvStr mp "cmd" (ascii "SET"),
    kvStr mp "key" key,
    (ascii "value",.map 6 [
      (ascii "peers",.array 1 [.array 2 [
        if x.peerId.length=0 then nil mp else text mp x.peerId,
        text mp x.peerPortId]]),
      (ascii "properties",.map 3 [
        kvStr mp "direction" (directionText x.direction),
        kvStr mp "routing" (ascii "default"),
        (ascii "nbr_peers",uint mp 1)]),
      kvStr mp "name" x.name,
      kvStr mp "node_id" node,
      kvStr mp "connected" (if x.state=.enabled then ascii "true" else ascii "false"),
      kvStr mp "actor_id" actorId])])

/-- `cc_proto_send_get_port`, which looks for the end of the key in its buffer. -/
def getPort (portId : Bytes) : Atom (Option Doc) := do
  let key := (ascii "port-"++portId).take 49
  return some (← toStorage mp (toFrom mp) fun uuid => .map 3 [
    kvStr mp "cmd" (ascii "GET"),
    kvStr mp "key" key,
    kvStr mp "msg_uuid" uuid])

/-- `cc_proto_send_remove_port`. -/
def removePort (p : Ref) : Atom (Option Doc) := do
  let x ← Atom.port p
  let key ← Atom.ofOption (printed 50 (ascii "port-"++x.id))
  return some (← toStorage mp (toFrom mp) (deleteKey mp key))

/-- `cc_actor_serialize`, whose result nobody checks. -/
def actorState (a : Ref) (includeState : Bool) : Atom Doc := do
  match ← Atom.actorSerialize mp a includeState with
  | none => Atom.undefined
  | some doc => return doc

/-- `cc_proto_send_actor_new`. -/
def actorNew (a : Ref) (toRtUuid : Bytes) : Atom (Option Doc) := do
  let uuid ← msgUuid
  Atom.needTransport
  let state ← actorState mp a false
  return some (.map 5 [
    kvStr mp "to_rt_uuid" toRtUuid,
    kvStr mp "from_rt_uuid" (← nodeId),
    kvStr mp "cmd" (ascii "ACTOR_NEW"),
    kvStr mp "msg_uuid" uuid,
    (ascii "state",state)])

def linkDocs : List Ref → Atom (List Doc)
  | [] => return []
  | l::ls => do
      let l ← Atom.link l
      return linkDoc mp l::(← linkDocs ls)

def tunnelDocs : List Ref → Atom (List Doc)
  | [] => return []
  | t::ts => do
      let t ← Atom.tunnel t
      let l ← Atom.link t.link
      return tunnelDoc mp t l::(← tunnelDocs ts)

def actorDocs : List Ref → Atom (List Doc)
  | [] => return []
  | a::as => do
      let state ← actorState mp a true
      return .map 1 [(ascii "state",state)]::(← actorDocs as)

/-- The entries of a state that are there without `include_state`. -/
def nodeEntries (id : Bytes) (attributes : Option Bytes) (proxyUris : List Bytes) :
    List (Bytes × Doc) :=
  [kvStr mp "id" id,
    (ascii "attributes",textOrNil mp attributes),
    (ascii "proxy_uris",.array proxyUris.length (proxyUris.map (text mp)))]

/-- `cc_node_set_state`. -/
def nodeSetState (attributes : Option Bytes) (proxyUris : List Bytes) (includeState : Bool) :
    Atom (Option Doc) := do
  let s ← get
  if !(← Atom.alloc) then return none
  if includeState then
    let links ← linkDocs mp s.links
    let tunnels ← tunnelDocs mp s.tunnels
    let actors ← actorDocs mp s.actors
    return some (.map 7 (nodeEntries mp s.host.id attributes proxyUris++[
      (ascii "state",uint mp s.host.state.toUInt32),
      (ascii "links",.array s.links.length links),
      (ascii "tunnels",.array s.tunnels.length tunnels),
      (ascii "actors",.array s.actors.length actors)]))
  else
    return some (.map 3 (nodeEntries mp s.host.id attributes proxyUris))

/-- `cc_proto_send_join_request` with the room the prefix leaves in its buffer. -/
def joinRequest (serializer : Bytes) (prefixLen : Nat) : Atom (Option Doc) := do
  let uuid ← msgUuid
  let text ← Atom.ofOption (printed (600-prefixLen) (joinText (← nodeId) uuid serializer))
  return some (.raw text)

end Encode

namespace Encoder

/-- What an encoder writes; nothing where it returns before it has written anything. -/
def doc (mp : Msgpuck) (ofFloat : Bytes → UInt32) (prefixLen : Nat) :
    Encoder → Atom (Option Doc)
  | .joinRequest serializer => Encode.joinRequest serializer prefixLen
  | .nodeSetup attributes => Encode.nodeSetup mp attributes
  | .wakeSignal => Encode.wakeSignal mp
  | .getActorModule actorType => Encode.getActorModule mp actorType
  | .reqMatch a requirements => Encode.reqMatch mp a requirements
  | .reqMatchActor a deployReqs requires => Encode.reqMatchActor mp a deployReqs requires
  | .sleepRequest timeToSleep => Encode.sleepRequest mp timeToSleep
  | .tunnelRequest t => Encode.tunnelRequest mp t
  | .tunnelDestroy t => Encode.tunnelDestroy mp t
  | .reply uuid toRtUuid status => Encode.reply mp uuid toRtUuid status
  | .tunnelNewReply uuid toRtUuid status tunnelId =>
    Encode.tunnelNewReply mp uuid toRtUuid status tunnelId
  | .routeRequestReply uuid toRtUuid status destPeerId =>
    Encode.routeRequestReply mp uuid toRtUuid status destPeerId
  | .portConnectReply uuid toRtUuid status portId =>
    Encode.portConnectReply mp uuid toRtUuid status portId
  | .portDisconnectReply uuid toRtUuid status =>
    Encode.portDisconnectReply mp uuid toRtUuid status
  | .token p data sequencenbr => Encode.token mp p data sequencenbr
  | .tokenReply fromRtUuid tunnelId portId peerPortId sequencenbr ack =>
    Encode.tokenReply mp fromRtUuid tunnelId portId peerPortId sequencenbr ack
  | .destroyReply fromRtUuid tunnelId => Encode.destroyReply mp fromRtUuid tunnelId
  | .portConnect p => Encode.portConnect mp p
  | .portDisconnect p => Encode.portDisconnect mp p
  | .setActor a => Encode.setActor mp ofFloat a
  | .removeActor a => Encode.removeActor mp a
  | .removeReplica a => Encode.removeReplica mp a
  | .removeReplicaNode a => Encode.removeReplicaNode mp a
  | .setPort p => Encode.setPort mp p
  | .getPort portId => Encode.getPort mp portId
  | .removePort p => Encode.removePort mp p
  | .actorNew a toRtUuid => Encode.actorNew mp a toRtUuid
  | .actorSerialize a includeState => do return some (← Encode.actorState mp a includeState)
  | .nodeSetState attributes proxyUris includeState =>
    Encode.nodeSetState mp attributes proxyUris includeState

/-- The room for a message and its prefix, or for a state. `cc_actor_serialize` writes
into a buffer of its caller. -/
def bufferSize (s : Node) : Encoder → Nat
  | .joinRequest _ => 600
  | .wakeSignal => 500
  | .tokenReply .. => 400
  | .destroyReply .. => 400
  | .setPort _ => 2000
  | .actorNew .. => 3000
  | .actorSerialize .. => 2^32-1
  | .nodeSetState _ _ includeState =>
    (500+if includeState then s.actors.length*2000 else 0)%2^32
  | _ => 1000

/-- The bytes in front of a message, which the transport fills in. -/
def prefixOf (prefixLen : Nat) : Encoder → Nat
  | .actorSerialize .. => 0
  | .nodeSetState .. => 0
  | _ => prefixLen

/-- The payload an encoder builds. There is none where it returns early, reads through a
pointer that is not set or writes behind its buffer. -/
def payload (mp : Msgpuck) (ofFloat : Bytes → UInt32) (prefixLen : Nat) (e : Encoder)
    (s : Node) : Option Bytes := do
  let (d,_) ← e.doc mp ofFloat prefixLen s
  let b := (← d).encode mp
  if e.prefixOf prefixLen+b.length ≤ e.bufferSize s then some b else none

end Encoder

end CalvinConstrained
