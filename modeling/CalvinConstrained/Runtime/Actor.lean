import CalvinConstrained.Runtime.Serialize

namespace CalvinConstrained

/-- The test of `cc_list_get`. -/
def listGetMatches (itemId id : Bytes) : Bool :=
  decide (strnlen itemId uuidBufferSize=strnlen id uuidBufferSize) &&
    strncmpEq itemId id itemId.length

namespace Atom

/-- `cc_calvinsys_close`. The object is found by `cc_list_get` and its item removed by
`cc_list_remove`; where these differ the list keeps a freed object. -/
def calvinsysClose (id : Bytes) : Atom Unit := do
  let objects := (← get).host.objects
  match objects.find? fun o => listGetMatches o.id id with
  | none => pure ()
  | some o =>
    if objects.find? (fun o => listRemoveMatches o.id id) ≠ some o then undefined
    modifyHost fun h => {h with objects := removeById CalvinsysObject.id id h.objects}

def closeEach : List Bytes → Atom Unit
  | [] => pure ()
  | id::ids => do
      calvinsysClose id
      closeEach ids

def setFifos : List Ref → List (Fifo Bytes) → Atom Unit
  | p::ps,f::fs => do
      updatePort p fun x => {x with fifo := some f}
      setFifos ps fs
  | _,_ => pure ()

/-- What a callback did to its actor, the queues of its ports and its objects. -/
def applyEffect (a : Ref) (e : Effect) : Atom Unit := do
  let x ← actor a
  setActor a {x with instanceState := e.instanceState}
  setFifos x.ports e.fifos
  closeEach e.closed
  modifyHost fun h => {h with objects := h.objects++e.opened.map fun o => {o with actor := a}}

/-- A callback that is called without a look at the pointer. -/
def callback (a : Ref) : Atom Bool := do
  if !(← actor a).loaded then undefined
  match ← effect with
  | none => return true
  | some e =>
    applyEffect a e
    return e.result

/-- A callback that a type may leave out. -/
def callbackIfSet (a : Ref) : Atom Unit := do
  if (← actor a).loaded then
    let _ ← callback a

/-- `cc_proto_send_set_actor`. -/
def sendSetActor (a : Ref) : Atom Result := do
  needTransport
  needStorage
  match (← actor a).id with
  | none => undefined
  | some id => request (.setActor id) .actorSet none

/-- `cc_proto_send_remove_actor`. -/
def sendRemoveActor (id : Bytes) : Atom Result := do
  needTransport
  needStorage
  request (.removeActor id) .actorRemove none

/-- The objects of the actor, closed by their ids. -/
def closeOwn (a : Ref) : Atom Unit := do
  closeEach (((← get).host.objects.filter fun o => o.actor=a).map CalvinsysObject.id)

def freePorts (removeFromRegistry : Bool) : List Ref → Atom Unit
  | [] => pure ()
  | p::ps => do
      portFree p removeFromRegistry
      freePorts removeFromRegistry ps

def actorId (a : Ref) : Atom Bytes := do
  match (← actor a).id with
  | none => undefined
  | some id => return id

/-- The end of `cc_actor_free`: the actor leaves the list by its id. -/
def actorUnlink (a : Ref) (removeFromRegistry : Bool) : Atom Unit := do
  match (← actor a).id with
  | none => pure ()
  | some id =>
    if removeFromRegistry then
      let _ ← sendRemoveActor id
    let actors ← listRemove actorId id (← get).actors
    modify fun s => {s with actors := actors}
  modify fun s => {s with actorMem := s.actorMem.free a}

/-- `cc_actor_free`: `will_end`, `free_state`, the calvinsys objects, the ports and the
actor itself. -/
def actorFree (a : Ref) (removeFromRegistry : Bool) : Atom Unit := do
  callbackIfSet a
  if (← actor a).instanceState.isSome then
    callbackIfSet a
  closeOwn a
  freePorts removeFromRegistry (← actor a).ports
  actorUnlink a removeFromRegistry

/-- `cc_actor_free` of an actor of the node. -/
def actorFreeListed (a : Ref) (removeFromRegistry : Bool) : Atom Unit := do
  if a ∉ (← get).actors then undefined
  actorFree a removeFromRegistry

/-- An iteration of the first loop of `cc_node_reset`. -/
def actorPop : Atom Unit := do
  match (← get).actors with
  | [] => pure ()
  | a::rest =>
    modify fun s => {s with actors := rest}
    actorFree a true

def disconnectEach (unrefTunnel : Bool) : List Ref → Atom Unit
  | [] => pure ()
  | p::ps => do
      portDisconnect p unrefTunnel
      disconnectEach unrefTunnel ps

/-- The loops of `cc_actor_migrate` and `cc_actor_disconnect`. -/
def actorDisconnectPorts (a : Ref) (unrefTunnel : Bool) : Atom Unit := do
  disconnectEach unrefTunnel (← actor a).ports

/-- `cc_actor_disconnect`. -/
def actorDisconnect (a : Ref) (unrefTunnel : Bool) : Atom Unit := do
  actorDisconnectPorts a unrefTunnel
  actorSetState a .pending

def actorDisconnectEach (unrefTunnel : Bool) : List Ref → Atom Unit
  | [] => pure ()
  | a::as => do
      actorDisconnect a unrefTunnel
      actorDisconnectEach unrefTunnel as

/-- Frees the first tunnel of the list until none is left; an iteration removes at least
one, so the length of the list bounds the loop. -/
def tunnelFreeAll : Nat → Atom Unit
  | 0 => pure ()
  | n+1 => do
      match (← get).tunnels with
      | [] => pure ()
      | t::rest =>
        modify fun s => {s with tunnels := rest}
        tunnelFree t false
        tunnelFreeAll n

def linkFreeAll : Nat → Atom Unit
  | 0 => pure ()
  | n+1 => do
      match (← get).links with
      | [] => pure ()
      | l::rest =>
        modify fun s => {s with links := rest}
        linkFree l
        linkFreeAll n

/-- What `cc_node_connect_to_proxy` does on a new proxy, and `cc_node_reset` once no
actor is left. -/
def nodeForgetProxy : Atom Unit := do
  tunnelFreeAll (← get).tunnels.length
  modify fun s => {s with storageTunnel := none,proxyTunnel := none}
  linkFreeAll (← get).links.length
  modify fun s => {s with proxyLink := none}
  actorDisconnectEach false (← get).actors

end Atom

end CalvinConstrained
