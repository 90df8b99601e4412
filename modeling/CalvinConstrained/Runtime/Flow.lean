import CalvinConstrained.Runtime.Ops

namespace CalvinConstrained

/-- `cc_fifo_write` of a token, which may be without a value. -/
def Fifo.writeToken (f : Fifo Bytes) (token : Option Bytes) : Result × Fifo Bytes :=
  if f.slotsAvailable 1 then
    (.success,{f.setSlot f.writePos token with writePos := f.writePos+1})
  else (.fail,f)

namespace Atom

/-- The queue of a port. Positions are taken modulo its size, so a queue without slots
cannot be used. -/
def portFifo (p : Ref) : Atom (Fifo Bytes) := do
  match (← port p).fifo with
  | none => undefined
  | some f => if f.size=0 then undefined else return f

/-- `cc_proto_send_port_connect`. -/
def sendPortConnect (p : Ref) : Atom Result := do
  needTransport
  let x ← port p
  match x.tunnel with
  | none => undefined
  | some t => request (.portConnect x.id x.peerPortId (← tunnel t).id) .portConnect none

/-- `cc_proto_send_get_port`. -/
def sendGetPort (p : Ref) : Atom Result := do
  needTransport
  needStorage
  request (.getPort (← port p).peerPortId) .getPeerPort none

/-- `cc_proto_send_token`. -/
def sendToken (p : Ref) (token : Option Bytes) (sequencenbr : UInt32) : Atom Result := do
  needTransport
  let x ← port p
  match x.tunnel with
  | none => undefined
  | some t =>
    let _ ← tunnel t
    send (.token x.id x.peerPortId sequencenbr token)

def actorGetIn (actorId : Text) : List Ref → Atom (Option Ref)
  | [] => return none
  | a::as => do
      if listIdMatches (← Atom.actorId a) actorId then
        return some a
      actorGetIn actorId as

/-- `cc_actor_get`. -/
def actorGet (actorId : Text) : Atom (Option Ref) := do
  actorGetIn actorId (← get).actors

/-- `cc_node_get_pending_msg`. -/
def getPendingMsg (msgUuid : Bytes) : Atom (Option PendingMsg) := do
  return (← get).host.pendingMsgs.find? fun m => listIdMatches m.msgUuid (.ofString msgUuid)

/-- The replication attribute of an actor, when it is a map. -/
def replicationId (mp : Msgpuck) (a : Ref) : Atom (Option Bytes) := do
  let items := (← actor a).privateAttributes
  match items.find? fun i => listGetMatches i.id (ascii "_replication_id") with
  | none => return none
  | some item =>
    let data := item.data.getD []
    if (← ofOption (mp.typeOf data))=.map then return some data else return none

/-- `cc_proto_send_remove_replica`, for the actor and for its node. -/
def sendRemoveReplica (mp : Msgpuck) (a : Ref) : Atom Result := do
  let some data ← replicationId mp a | return .fail
  let some id ← ofOption (Coder.decodeStringFromMap mp data (ascii "id")) | return .fail
  if 40 ≤ id.len then undefined
  needTransport
  needStorage
  if (← request (.removeReplica (← actorId a)) .replicaRemove none) ≠ .success then
    return .fail
  request (.removeReplica (← get).host.id) .replicaRemove none

def setNodeState (state : NodeState) : Atom Unit := modifyHost fun h => {h with state := state}

end Atom

/-- The item behind `a` in a list of the node. -/
def nextAfter (a : Ref) (refs : List Ref) : Option Ref := ((refs.dropWhile (· ≠ a)).drop 1).head?

namespace Flow

variable (mp : Msgpuck)

open Prog (look)

/-- `cc_port_connect_with_pending_tunnel`. -/
def portConnectWithPendingTunnel (p : Ref) : Flow mp Result := do
  let t ← look do
    match (← Atom.port p).tunnel with
    | none => Atom.undefined
    | some t => Atom.tunnel t
  if t.state=.pending then
    return .success
  if t.state=.enabled then
    if (← host (Atom.sendPortConnect p))=.success then
      setState p .pendingConnect
      return .success
  Prog.act (.dropTunnel p)
  return .fail

/-- `cc_port_do_peer_lookup`. -/
def portDoPeerLookup (p : Ref) : Flow mp Unit := do
  if (← host (Atom.sendGetPort p)) ≠ .success then
    setState p .disconnected
  else
    setState p .pendingLookup

/-- `cc_port_connect`. After a failure on the tunnel the port has none left. -/
def portConnect (p : Ref) : Flow mp Unit := do
  let x ← look (Atom.port p)
  if x.state=.enabled then return
  if x.retries=5 then
    setState p .doDelete
    return
  Prog.act (.retry p)
  if (← connectLocal p)=.success then return
  Prog.act (.getTunnel p)
  if (← look (Atom.port p)).tunnel.isSome then
    if (← portConnectWithPendingTunnel mp p)=.success then return
  Prog.act (.setPeerId p [])
  setState p .disconnected
  portDoPeerLookup mp p

/-- The transmission of a token from an enabled out-port. -/
def portTransmitToken (p : Ref) (x : Port) : Flow mp Unit := do
  let f ← look (Atom.portFifo p)
  if f.tokensAvailable 1 then
    let ((token,sequencenbr),f) := f.comPeek
    Prog.act (.setFifo p f)
    match x.tunnel,x.peerPort with
    | some _,_ =>
      if (← host (Atom.sendToken p token sequencenbr)) ≠ .success then
        Prog.act (.setFifo p (f.comCancelRead sequencenbr))
    | none,some q =>
      let (result,g) := (← look (Atom.portFifo q)).writeToken token
      Prog.act (.setFifo q g)
      let f ← look (Atom.portFifo p)
      if result=.success then
        Prog.act (.setFifo p (f.commitRead false))
      else
        Prog.act (.setFifo p f.cancelCommit)
    | none,none => Prog.act (.setFifo p (f.comCancelRead sequencenbr))

/-- `cc_port_transmit`. -/
def portTransmit (p : Ref) : Flow mp Unit := do
  let x ← look (Atom.port p)
  if x.state=.enabled then
    if (← look (Atom.actor x.actor)).state=.enabled then
      if x.direction=.dirOut then
        portTransmitToken mp p x
  else if x.state=.pendingTunnel then
    match x.tunnel with
    | none => pure ()
    | some t =>
      if (← look (Atom.tunnel t)).state=.enabled then
        let _ ← portConnectWithPendingTunnel mp p

/-- What the scheduler does with an actor it does not delete. -/
def fireActor (a : Ref) : Flow mp Unit := do
  let x ← look (Atom.actor a)
  if x.state=.enabled then
    Prog.act (.fire a)
  Prog.each (portTransmit mp) x.ports

/-- The loop of `fire_actors`; the list does not grow during a pass. -/
def fireLoop : Nat → Option Ref → Flow mp Unit
  | _,none => pure ()
  | 0,some _ => pure ()
  | n+1,some a => do
      let s ← Prog.read
      if a ∉ s.actors then Prog.undefined
      if (← look (Atom.actor a)).state=.doDelete then
        Prog.act (.freeActor a true)
        fireLoop n (nextAfter a s.actors)
      else
        fireActor mp a
        fireLoop n (nextAfter a s.actors)

/-- `fire_actors`. -/
def fireActors : Flow mp Unit := do
  let s ← Prog.read
  fireLoop mp s.actors.length s.actors.head?

/-- `cc_proto_send_actor_new`. -/
def sendActorNew (a : Ref) (toRtUuid : Bytes) : Flow mp Result := do
  let msgUuid ← host do
    Atom.needTransport
    Atom.uuid (ascii "MSGID_")
  match ← serialize a false with
  | none => Prog.undefined
  | some state =>
    host do
      if (← Atom.addPendingMsg ⟨msgUuid,.actorMigrate,some a⟩)=.success then
        if (← Atom.send (.actorNew a toRtUuid (state.encode mp)))=.success then
          return .success
        Atom.removePendingMsg msgUuid
      return .fail

/-- `cc_actor_migrate`. -/
def actorMigrate (a : Ref) (toRtUuid : Bytes) : Flow mp Result := do
  Prog.act (.callbackIfSet a)
  Prog.act (.disconnectPorts a)
  sendActorNew mp a toRtUuid

/-- `cc_node_handle_token`. -/
def handleToken (p : Ref) (data : Bytes) (sequencenbr : UInt32) : Flow mp Result := do
  let x ← look (Atom.port p)
  if (← look (Atom.actor x.actor)).state ≠ .enabled then
    return .fail
  let f ← look (Atom.portFifo p)
  if !f.slotsAvailable 1 then
    return .fail
  if !(← host Atom.alloc) then
    return .fail
  let (result,f) := f.comWrite data sequencenbr
  Prog.act (.setFifo p f)
  return result

/-- `cc_node_handle_token_reply`. -/
def handleTokenReply (portId : Text) (replyType : PortReplyType) (sequencenbr : UInt32) :
    Flow mp Unit := do
  match ← look (Atom.portGet portId) with
  | none => pure ()
  | some p =>
    match replyType with
    | .ack => Prog.act (.setFifo p ((← look (Atom.portFifo p)).comCommitRead sequencenbr))
    | .nack => Prog.act (.setFifo p ((← look (Atom.portFifo p)).comCancelRead sequencenbr))
    | .abort => pure ()

/-- `cc_tunnel_handle_tunnel_new_request`. -/
def handleTunnelNewRequest (peerId tunnelId : Text) : Flow mp Result := do
  match ← look (Atom.tunnelGetFromPeeridAndType peerId .token) with
  | some t =>
    let x ← look (Atom.tunnel t)
    if x.state=.enabled then
      return .success
    let signed := (← Prog.read).host.signedChar
    if uuidIsHigher signed tunnelId.ptr tunnelId.len x.id (strnlen x.id uuidBufferSize) then
      let id ← Prog.ofOption (tunnelId.copy uuidBufferSize)
      let rest := if id.length=tunnelId.len then x.id.drop id.length else []
      Prog.act (.tunnelUpdate t (id++rest) .enabled)
    else
      Prog.act (.tunnelUpdate t x.id .enabled)
    return .success
  | none =>
    if (← tunnelCreate .token .enabled peerId (some tunnelId)).isSome then
      return .success
    return .fail

/-- `cc_node_stop` for one actor: a replica that ends with its node is removed, a
migrating node sends its actors to the proxy. -/
def stopActor (a : Ref) : Flow mp Unit := do
  let terminate ← match ← look (Atom.replicationId mp a) with
    | none => pure false
    | some data => do
      let _ ← Prog.ofOption (Coder.decodeStringFromMap mp data (ascii "id"))
      let value ← Prog.ofOption (Coder.getValueFromMap mp data (ascii "_terminate_with_node"))
      match value with
      | none => pure false
      | some value => pure ((← Prog.ofOption (Coder.decodeBool mp value)).getD false)
  if (← Prog.read).host.stopMethod=.migrate then
    if terminate then
      Prog.act (.disconnectActor a)
      let _ ← host (Atom.sendRemoveReplica mp a)
      Prog.act (.freeActor a true)
    else
      let l ← look do
        match (← get).proxyLink with
        | none => Atom.undefined
        | some l => Atom.link l
      let _ ← actorMigrate mp a l.peerId
      Prog.act (.freeActor a false)
  else
    Prog.act (.freeActor a true)

def stopLoop : Nat → Option Ref → Flow mp Unit
  | _,none => pure ()
  | 0,some _ => pure ()
  | n+1,some a => do
      let s ← Prog.read
      if a ∉ s.actors then Prog.undefined
      stopActor mp a
      stopLoop n (nextAfter a s.actors)

/-- `cc_node_stop`. -/
def nodeStop : Flow mp Unit := do
  let s ← Prog.read
  stopLoop mp s.actors.length s.actors.head?
  Prog.act .releaseProxy
  Prog.act .releaseStorage

end Flow

end CalvinConstrained
