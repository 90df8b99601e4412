import CalvinConstrained.Runtime.Tunnel

namespace CalvinConstrained

namespace Atom

def updatePort (p : Ref) (f : Port → Port) : Atom Unit := do
  setPort p (f (← port p))

/-- The loops of `cc_actor_port_state_changed`, which end at the first port that is not
enabled. -/
def portsState : List Ref → Atom ActorState
  | [] => return .enabled
  | p::ps => do
      let state := (← port p).state
      if state=.doDelete then
        return .doDelete
      else if state ≠ .enabled then
        return .pending
      else portsState ps

/-- `cc_actor_set_state`. -/
def actorSetState (a : Ref) (state : ActorState) : Atom Unit := do
  setActor a {← actor a with state := state}

/-- `cc_actor_port_state_changed`: in-ports first, then out-ports. -/
def actorPortStateChanged (a : Ref) : Atom Unit := do
  actorSetState a (← portsState (← actor a).ports)

/-- `cc_port_set_state`. -/
def portSetState (p : Ref) (state : PortState) : Atom Unit := do
  let x ← port p
  let retries := if state=.enabled && x.state ≠ .enabled then 0 else x.retries
  setPort p {x with state := state,retries := retries}
  actorPortStateChanged x.actor

def portIn (portId : Text) : List Ref → Atom (Option Ref)
  | [] => return none
  | p::ps => do
      if listIdMatches (← port p).id portId then
        return some p
      portIn portId ps

def portGetFrom (portId : Text) : List Ref → Atom (Option Ref)
  | [] => return none
  | a::as => do
      match ← portIn portId (← actor a).ports with
      | some p => return some p
      | none => portGetFrom portId as

/-- `cc_port_get`. -/
def portGet (portId : Text) : Atom (Option Ref) := do
  portGetFrom portId (← get).actors

def portWithPeerIn (peerPortId : Text) : List Ref → Atom (Option Ref)
  | [] => return none
  | p::ps => do
      if strncmpEq (← port p).peerPortId peerPortId.ptr peerPortId.len then
        return some p
      portWithPeerIn peerPortId ps

def portGetFromPeerPortIdIn (peerPortId : Text) : List Ref → Atom (Option Ref)
  | [] => return none
  | a::as => do
      match ← portWithPeerIn peerPortId (← actor a).ports with
      | some p => return some p
      | none => portGetFromPeerPortIdIn peerPortId as

/-- `cc_port_get_from_peer_port_id`. -/
def portGetFromPeerPortId (peerPortId : Text) : Atom (Option Ref) := do
  portGetFromPeerPortIdIn peerPortId (← get).actors

/-- `cc_fifo_cancel(port->fifo)`. -/
def portFifoCancel (p : Ref) : Atom Unit := do
  let x ← port p
  match x.fifo with
  | none => undefined
  | some f => setPort p {x with fifo := some f.cancel}

/-- A holder lets go of its tunnel: `cc_tunnel_remove_ref` and the pointer set to NULL. -/
def portDetach (p : Ref) : Atom Unit := do
  match (← port p).tunnel with
  | none => return
  | some t =>
    tunnelRemoveRef t
    updatePort p fun x => {x with tunnel := none}

/-- The end of `cc_port_get_tunnel`. -/
def portAttach (p t : Ref) : Atom Unit := do
  updatePort p fun x => {x with tunnel := some t}
  tunnelAddRef t
  portSetState p .pendingTunnel

/-- The tunnel to a peer, which is created when there is none. -/
def tunnelGetOrCreate (peerId : Text) : Atom (Option Ref) := do
  if let some t ← tunnelGetFromPeeridAndType peerId .token then
    return some t
  tunnelCreate .token .disconnected peerId none

/-- `cc_port_get_tunnel` and the checks before it in `cc_port_connect`. -/
def portGetTunnel (p : Ref) : Atom Unit := do
  let x ← port p
  let peerId : Text := ⟨x.peerId,strnlen x.peerId uuidBufferSize⟩
  if x.tunnel=none ∧ 0<peerId.len then
    match ← tunnelGetOrCreate peerId with
    | none => pure ()
    | some t => portAttach p t

/-- The end of `cc_port_connect_with_pending_tunnel`. -/
def portDropTunnel (p : Ref) : Atom Unit := do
  portDetach p
  portSetState p .disconnected

/-- One end of a local connection. -/
def portPeer (p q : Ref) : Atom Unit := do
  let nodeId := (← get).host.id
  updatePort p fun x => {x with peerPort := some q,peerId := nodeId}
  portSetState p .enabled

/-- `cc_port_connect_local`. -/
def portConnectLocal (p : Ref) : Atom Result := do
  let peerPortId := (← port p).peerPortId
  let some q ← portGet ⟨peerPortId,strnlen peerPortId uuidBufferSize⟩ | return .fail
  portDetach p
  portDetach q
  portPeer p q
  portPeer q p
  return .success

/-- Whether the port is on the tunnel already. -/
def portOnTunnel (p : Ref) (tunnelId : Text) : Atom Bool := do
  match (← port p).tunnel with
  | none => return false
  | some t => return strncmpEq (← tunnel t).id tunnelId.ptr tunnelId.len

/-- The port moves to a tunnel found by its id. -/
def portEnableOn (p t : Ref) : Atom Unit := do
  updatePort p fun x => {x with tunnel := some t}
  tunnelAddRef t
  portSetState p .enabled
  let peerId := (← link (← tunnel t).link).peerId
  updatePort p fun x => {x with peerId := peerId}

/-- `cc_port_handle_connect` on the port found. -/
def portHandleConnect (p : Ref) (tunnelId : Text) : Atom Result := do
  if ← portOnTunnel p tunnelId then
    portSetState p .enabled
    return .success
  portDetach p
  let some t ← tunnelGetFromId tunnelId | return .fail
  portEnableOn p t
  return .success

/-- `cc_port_handle_disconnect` on the port found. The local peer stays set. -/
def portHandleDisconnect (p : Ref) : Atom Unit := do
  portFifoCancel p
  portSetState p .disconnected
  updatePort p fun x => {x with peerId := []}
  portDetach p

/-- `cc_proto_send_port_disconnect`. -/
def sendPortDisconnect (p : Ref) : Atom Result := do
  let x ← port p
  match x.tunnel with
  | none => undefined
  | some t =>
    request (.portDisconnect x.id x.peerPortId (← tunnel t).id) .portDisconnect none

/-- The tunnel of a port that is disconnected. -/
def portLeaveTunnel (p : Ref) (unrefTunnel : Bool) : Atom Unit := do
  if (← port p).tunnel.isSome && unrefTunnel then
    let _ ← sendPortDisconnect p
    portDetach p
  else
    updatePort p fun x => {x with tunnel := none}

/-- The local peer of a port that is disconnected. Only this end is cleared. -/
def portLeavePeer (p : Ref) : Atom Unit := do
  match (← port p).peerPort with
  | none => pure ()
  | some q =>
    portSetState q .disconnected
    updatePort p fun x => {x with peerPort := none}

/-- `cc_port_disconnect`. -/
def portDisconnect (p : Ref) (unrefTunnel : Bool) : Atom Unit := do
  portLeaveTunnel p unrefTunnel
  portLeavePeer p
  updatePort p fun x => {x with peerId := []}
  portSetState p .disconnected
  portFifoCancel p

/-- `cc_proto_send_remove_port`. -/
def sendRemovePort (p : Ref) : Atom Result := do
  needTransport
  needStorage
  request (.removePort (← port p).id) .portRemove none

/-- The port gives up its tunnel and is freed; `cc_fifo_free` reads the fifo without a
check. -/
def portRelease (p : Ref) : Atom Unit := do
  portDetach p
  if (← port p).fifo.isNone then undefined
  modify fun s => {s with portMem := s.portMem.free p}

/-- `cc_port_free`. -/
def portFree (p : Ref) (removeFromRegistry : Bool) : Atom Unit := do
  if removeFromRegistry then
    let _ ← sendRemovePort p
  portRelease p

end Atom

end CalvinConstrained
