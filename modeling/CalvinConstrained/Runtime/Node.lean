import CalvinConstrained.Framework.Heap
import CalvinConstrained.Framework.Program
import CalvinConstrained.Runtime.Coder
import CalvinConstrained.Runtime.Fifo

namespace CalvinConstrained

/-- Item of an attribute list; `data` is absent where the pointer is NULL. -/
structure Attribute where
  id : Bytes
  data : Option Bytes
  deriving DecidableEq

/-- `instance_state` of the actor types of the repository. A field that the actor holds
through a pointer is an `Option`. -/
inductive InstanceState
  | button (button : Bytes) (text : Option Bytes)
  | light (light : Bytes)
  | log (loglevel : Option Bytes)
  | camera (camera : Bytes)
  | identity (dump : Bool)
  | replicaIdentity (dump : Bool) (index : UInt32)
  | counttimer (timer : Bytes) (sleep start steps count : UInt32) (stopped : Bool)
  | temperature (temperature timer : Bytes) (period : Option Bytes)
  | temperatureTagged (temperature timer : Bytes)
  | triggeredTemperature (temperature : Bytes)
  | soilMoisture (soilmoisture timer : Bytes)
  | coap (source requires : Bytes)
  | gyroscope (level : Bytes) (period : Option Bytes)
  | accelerometer (level : Bytes) (period : Option Bytes)
  | registryAttribute (registry : Bytes)
  | mpy (attributes : List Attribute)
  deriving DecidableEq

structure Port where
  id : Bytes
  name : Bytes
  peerPortId : Bytes
  peerId : Bytes
  direction : PortDirection
  peerPort : Option Ref
  tunnel : Option Ref
  state : PortState
  fifo : Option (Fifo Bytes)
  retries : UInt8
  actor : Ref
  deriving DecidableEq

/-- `loaded` tells whether the callbacks of the type are set. -/
structure Actor where
  type : Bytes
  id : Option Bytes
  name : Option Bytes
  stateWas : StateWas
  state : ActorState
  loaded : Bool
  instanceState : Option InstanceState
  inPorts : List Ref
  outPorts : List Ref
  privateAttributes : List Attribute
  managedAttributes : List Attribute
  deriving DecidableEq

def Actor.ports (a : Actor) : List Ref := a.inPorts++a.outPorts

def Actor.withPort (x : Actor) (direction : PortDirection) (p : Ref) : Actor :=
  match direction with
  | .dirIn => {x with inPorts := x.inPorts++[p]}
  | .dirOut => {x with outPorts := x.outPorts++[p]}

structure Tunnel where
  id : Bytes
  link : Ref
  state : TunnelState
  refCount : UInt8
  type : TunnelType
  deriving DecidableEq

structure Link where
  peerId : Bytes
  refCount : UInt8
  isProxy : Bool
  deriving DecidableEq

/-- Reply handlers by the name of the C function. -/
inductive Handler
  | nodeSetup
  | enterSleep
  | tunnelRequest
  | tunnelDestroy
  | portStore
  | portRemove
  | portDisconnect
  | getPeerPort
  | portConnect
  | actorSet
  | actorRemove
  | actorMigrate
  | reqMatch
  | getCompiledActor
  | replicaRemove
  deriving DecidableEq,Repr

/-- `msgData` is kept for the one handler that reads it: the migrating actor, whose id
string the source points to. -/
structure PendingMsg where
  msgUuid : Bytes
  handler : Handler
  msgData : Option Ref
  deriving DecidableEq

/-- What the node hands to the transport, without the encoding. -/
inductive Outgoing
  | nodeSetup
  | wakeSignal
  | sleepRequest
  | getActorModule (type : Bytes)
  | reqMatch (actorId : Bytes)
  | tunnelRequest (tunnelId peerId : Bytes) (type : TunnelType)
  | tunnelDestroy (tunnelId : Bytes)
  | reply (msgUuid toRtUuid : Bytes) (status : Nat)
  | tunnelNewReply (msgUuid toRtUuid : Bytes) (status : Nat) (tunnelId : Bytes)
  | portConnectReply (msgUuid toRtUuid : Bytes) (status : Nat) (portId : Bytes)
  | portDisconnectReply (msgUuid toRtUuid : Bytes) (status : Nat)
  | token (portId peerPortId : Bytes) (sequencenbr : UInt32) (data : Option Bytes)
  | tokenReply (toRtUuid peerPortId portId : Bytes) (sequencenbr : UInt32) (ack : Bool)
  | destroyReply (toRtUuid : Bytes)
  | portConnect (portId peerPortId tunnelId : Bytes)
  | portDisconnect (portId peerPortId tunnelId : Bytes)
  | setActor (actorId : Bytes)
  | removeActor (actorId : Bytes)
  | removeReplica (value : Bytes)
  | setPort (portId : Bytes)
  | getPort (portId : Bytes)
  | removePort (portId : Bytes)
  | actorNew (actor : Ref) (toRtUuid state : Bytes)
  deriving DecidableEq

inductive TransportState
  | interfaceDown
  | interfaceUp
  | connected
  | disconnected
  | pending
  | enabled
  deriving DecidableEq,Repr

structure Transport where
  state : TransportState
  peerId : Bytes
  deriving DecidableEq

structure Capability where
  name : Bytes
  deserializes : Bool
  deriving DecidableEq

/-- `serialized` is what the serialize callback of the object writes: no callback, a
callback that gives up, or the value under the key `obj`, where no bytes stand for a callback
that returns its buffer as it is. -/
structure CalvinsysObject where
  id : Bytes
  capability : Bytes
  actor : Ref
  serialized : Option (Option Bytes)
  deriving DecidableEq

/-- What a callback of an actor did, seen from the node: its result, the new instance
state, the new queues of the actor's own ports, and the calvinsys objects it closed and
opened. -/
structure Effect where
  result : Bool
  instanceState : Option InstanceState
  fifos : List (Fifo Bytes)
  closed : List Bytes
  opened : List CalvinsysObject
  deriving DecidableEq

/-- Outcomes of the platform calls still to come in a step; a list that runs out stands
for success. -/
structure Fate where
  allocs : List Bool
  sends : List Bool
  uuids : List (List Nat)
  effects : List Effect
  deriving DecidableEq

/-- The part of the node outside the object graph. -/
structure Host where
  id : Bytes
  state : NodeState
  stopMethod : StopMethod
  usePython : Bool
  checkpointing : Bool
  signedChar : Bool
  transport : Option Transport
  pendingMsgs : List PendingMsg
  actorTypes : List Bytes
  capabilities : List Capability
  objects : List CalvinsysObject
  fate : Fate
  sent : List Outgoing
  deriving DecidableEq

/-- `cc_node_t` with the objects it points to. -/
@[ext] structure Node where
  host : Host
  portMem : Heap Port
  actorMem : Heap Actor
  tunnelMem : Heap Tunnel
  linkMem : Heap Link
  actors : List Ref
  tunnels : List Ref
  links : List Ref
  storageTunnel : Option Ref
  proxyTunnel : Option Ref
  proxyLink : Option Ref
  deriving DecidableEq

/-- A piece of C code on a node; no outcome is undefined behaviour. -/
abbrev Atom (α : Type) := StateT Node Option α

namespace Atom

section Rules

variable {α β : Type}

@[simp] theorem pure_apply (a : α) (s : Node) : (pure a : Atom α) s=some (a,s) := rfl

theorem bind_apply (x : Atom α) (f : α → Atom β) (s : Node) :
    (x >>= f) s=(x s).bind fun r => f r.1 r.2 := rfl

/-- A sequence runs when its first part does and the rest runs from there. -/
theorem bind_eq_some {x : Atom α} {f : α → Atom β} {s u : Node} {b : β} :
    (x >>= f) s=some (b,u) ↔ ∃ a t, x s=some (a,t) ∧ f a t=some (b,u) := by
  rw [bind_apply,Option.bind_eq_some_iff]
  constructor
  · rintro ⟨⟨a,t⟩,hx,hf⟩
    exact ⟨a,t,hx,hf⟩
  · rintro ⟨a,t,hx,hf⟩
    exact ⟨(a,t),hx,hf⟩

@[simp] theorem get_apply (s : Node) : (get : Atom Node) s=some (s,s) := rfl

@[simp] theorem set_apply (s t : Node) : (set t : Atom PUnit) s=some ((),t) := rfl

@[simp] theorem modify_apply (f : Node → Node) (s : Node) :
    (modify f : Atom PUnit) s=some ((),f s) := rfl

end Rules

def undefined {α : Type} : Atom α := fun _ => none

def ofOption {α : Type} (x : Option α) : Atom α := fun s => x.map fun a => (a,s)

def port (p : Ref) : Atom Port := fun s => (s.portMem.get p).map fun x => (x,s)
def actor (a : Ref) : Atom Actor := fun s => (s.actorMem.get a).map fun x => (x,s)
def tunnel (t : Ref) : Atom Tunnel := fun s => (s.tunnelMem.get t).map fun x => (x,s)
def link (l : Ref) : Atom Link := fun s => (s.linkMem.get l).map fun x => (x,s)

def setPort (p : Ref) (x : Port) : Atom Unit := fun s =>
  some ((),{s with portMem := s.portMem.set p x})
def setActor (a : Ref) (x : Actor) : Atom Unit := fun s =>
  some ((),{s with actorMem := s.actorMem.set a x})
def setTunnel (t : Ref) (x : Tunnel) : Atom Unit := fun s =>
  some ((),{s with tunnelMem := s.tunnelMem.set t x})
def setLink (l : Ref) (x : Link) : Atom Unit := fun s =>
  some ((),{s with linkMem := s.linkMem.set l x})

def modifyHost (f : Host → Host) : Atom Unit := fun s => some ((),{s with host := f s.host})

/-- `cc_platform_mem_alloc`. -/
def alloc : Atom Bool := fun s =>
  match s.host.fate.allocs with
  | [] => some (true,s)
  | b::rest => some (b,{s with host := {s.host with fate := {s.host.fate with allocs := rest}}})

/-- Allocations one after the other, up to the first that fails. -/
def allocN : Nat → Atom Bool
  | 0 => return true
  | n+1 => do
      if !(← alloc) then return false
      allocN n

/-- `cc_gen_uuid`. -/
def uuid (pre : Bytes) : Atom Bytes := fun s =>
  match s.host.fate.uuids with
  | [] => some (genUuid (fun _ => 0) pre,s)
  | r::rest => some (genUuid (fun i => r.getD i 0) pre,
      {s with host := {s.host with fate := {s.host.fate with uuids := rest}}})

/-- `cc_transport_send`. -/
def send (m : Outgoing) : Atom Result := fun s =>
  match s.host.transport with
  | none => some (.fail,s)
  | some _ =>
    match s.host.fate.sends with
    | [] => some (.success,{s with host := {s.host with sent := s.host.sent++[m]}})
    | true::rest => some (.success,{s with host := {s.host with
        sent := s.host.sent++[m],fate := {s.host.fate with sends := rest}}})
    | false::rest => some (.fail,{s with host := {s.host with
        fate := {s.host.fate with sends := rest}}})

/-- The outcome of a callback; none left stands for a callback that does nothing. -/
def effect : Atom (Option Effect) := fun s =>
  match s.host.fate.effects with
  | [] => some (none,s)
  | e::rest =>
    some (some e,{s with host := {s.host with fate := {s.host.fate with effects := rest}}})

/-- `node->transport_client->…`, which every encoder without a check does. -/
def needTransport : Atom Unit := fun s => s.host.transport.map fun _ => ((),s)

/-- Removal of the first item whose id starts `id`. -/
def removeById {β : Type} (idOf : β → Bytes) (id : Bytes) : List β → List β
  | [] => []
  | x::xs => if listRemoveMatches (idOf x) id then xs else x::removeById idOf id xs

/-- `cc_node_add_pending_msg`: the entry, the copy of its id and the list item. -/
def addPendingMsg (m : PendingMsg) : Atom Result := do
  if !(← allocN 3) then return .fail
  modifyHost fun h => {h with pendingMsgs := h.pendingMsgs++[m]}
  return .success

/-- `cc_node_remove_pending_msg`. -/
def removePendingMsg (msgUuid : Bytes) : Atom Unit :=
  modifyHost fun h =>
    if h.pendingMsgs.any fun m => listIdMatches m.msgUuid (.ofString msgUuid) then
      {h with pendingMsgs := removeById PendingMsg.msgUuid msgUuid h.pendingMsgs}
    else h

/-- The common shape of the requests of `cc_proto.c` that expect a reply. -/
def request (m : Outgoing) (handler : Handler) (msgData : Option Ref) : Atom Result := do
  needTransport
  let msgUuid ← uuid (ascii "MSGID_")
  if (← addPendingMsg ⟨msgUuid,handler,msgData⟩)=.success then
    if (← send m)=.success then
      return .success
    removePendingMsg msgUuid
  return .fail

/-- The header of a request to the registry: proxy link and storage tunnel. -/
def needStorage : Atom Unit := do
  match (← get).proxyLink,(← get).storageTunnel with
  | some l,some t =>
    let _ ← link l
    let _ ← tunnel t
  | _,_ => undefined

/-- The header of a request to the proxy: proxy tunnel and its link. -/
def needProxy : Atom Unit := do
  match (← get).proxyTunnel with
  | some t =>
    let t ← tunnel t
    let _ ← link t.link
  | none => undefined

end Atom

end CalvinConstrained
