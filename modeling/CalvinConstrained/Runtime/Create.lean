import CalvinConstrained.Runtime.Actor

namespace CalvinConstrained

/-- `CC_MAX_PORT_NAME_LENGTH`. -/
def maxPortNameLength : Nat := 20

/-- What `cc_port_create` reads from a message before it allocates the port. -/
structure PortDescription where
  id : Text
  name : Text
  peerId : Option Text
  peerPortId : Text
  queue : Option Bytes
  properties : Bytes

namespace Decode

variable (mp : Msgpuck)

/-- The peer of a port in the previous connections. -/
def prevConnection (portId : Text) (direction : PortDirection) (objPrevConnections : Bytes) :
    Option (Option (Option Text × Text)) := do
  let key := match direction with
    | .dirIn => ascii "inports"
    | .dirOut => ascii "outports"
  let some objPrevPorts ← Coder.getValueFromMap mp objPrevConnections key | return none
  let some objPrevPort ← Coder.getValueFromMapN mp objPrevPorts portId | return none
  let some objPeer ← Coder.getValueFromArray mp objPrevPort 0 | return none
  let some tmpValue ← Coder.getValueFromArray mp objPeer 0 | return none
  let peerId ← if (← mp.typeOf tmpValue)=.str then Coder.decodeStr mp tmpValue else pure none
  let some peerPortId ← Coder.decodeStringFromArray mp objPeer 1 | return none
  return some (peerId,peerPortId)

/-- The loop over the connection list. -/
def connectionLoop (portId : Text) : Nat → Bytes → Option (Option (Option Text × Text))
  | 0,_ => return none
  | n+1,cl => do
      let some tmpPortId ← Coder.decodeStringFromArray mp cl 1 | return none
      if !strncmpEq portId.ptr tmpPortId.ptr tmpPortId.len then
        connectionLoop portId n (← mp.next cl)
      else
        let peerId ← Coder.decodeStringFromArray mp cl 2
        let some peerPortId ← Coder.decodeStringFromArray mp cl 3 | return none
        return some (peerId,peerPortId)

/-- The peer of a port in the connection list, which has to name the peer's node. -/
def connection (portId : Text) (objConnectionList : Bytes) :
    Option (Option (Option Text × Text)) := do
  let (size,cl) ← mp.decodeArray objConnectionList
  match ← connectionLoop mp portId size cl with
  | some (some peerId,peerPortId) => return some (some peerId,peerPortId)
  | _ => return none

/-- The first part of `cc_port_create`. -/
def portDescription (objPort objPrevConnections : Bytes) (direction : PortDirection)
    (objConnectionList : Option Bytes) : Option (Option PortDescription) := do
  let some id ← Coder.decodeStringFromMap mp objPort (ascii "id") | return none
  let some name ← Coder.decodeStringFromMap mp objPort (ascii "name") | return none
  let some properties ← Coder.getValueFromMap mp objPort (ascii "properties") | return none
  let some routing ← Coder.decodeStringFromMap mp properties (ascii "routing") | return none
  if !strncmpEq (ascii "default") routing.ptr routing.len &&
      !strncmpEq (ascii "fanout") routing.ptr routing.len then
    return none
  let some nbrPeers ← Coder.decodeUintFromMap mp properties (ascii "nbr_peers") | return none
  if nbrPeers ≠ 1 then return none
  let queue ← Coder.getValueFromMap mp objPort (ascii "queue")
  let peer ← if (← mp.typeOf objPrevConnections) ≠ .nil then
      prevConnection mp id direction objPrevConnections
    else
      match objConnectionList with
      | none => none
      | some objConnectionList => connection mp id objConnectionList
  let some (peerId,peerPortId) := peer | return none
  return some ⟨id,name,peerId,peerPortId,queue,properties⟩

end Decode

namespace Atom

variable (mp : Msgpuck)

/-- The tokens of a queue. A token without a slot is written behind the array. -/
def fifoTokens (objTokens : Bytes) (f : Fifo Bytes) : Nat → Nat → Atom (Option (Fifo Bytes))
  | 0,_ => return some f
  | n+1,i => do
      let some objToken ← ofOption (Coder.getValueFromArray mp objTokens i) | return none
      let some objData ← ofOption (Coder.getValueFromMap mp objToken (ascii "data")) | return none
      if f.readPos ≠ f.tentativeReadPos ∨ f.writePos ≠ f.readPos then
        let size ← ofOption (Coder.getSizeOfValue mp objData)
        if !(← alloc) then return none
        if f.tokens.length ≤ i then undefined
        fifoTokens objTokens {f with tokens := f.tokens.set i (some (objData.take size))} n (i+1)
      else fifoTokens objTokens f n (i+1)

/-- The read position, which is only decoded after the tentative one. -/
def fifoReadPos (tentative : Option UInt32) (objReadPos reader : Bytes) :
    Option (Option UInt32) :=
  if tentative.isSome then Coder.decodeUintFromMap mp objReadPos reader else some none

/-- The tokens of a queue, if the state has any. -/
def fifoTokensFrom (objTokens : Option Bytes) (f : Fifo Bytes) : Atom (Option (Fifo Bytes)) := do
  match objTokens with
  | none => return some f
  | some objTokens =>
    fifoTokens mp objTokens f (← ofOption (Coder.getSizeOfArray mp objTokens)) 0

/-- The positions and tokens of a queue that comes with a state. The name of the reader is copied
into `reader_len + 1` bytes, a `uint32_t`. -/
def fifoRestore (r : Bytes) (f : Fifo Bytes) : Atom (Option (Fifo Bytes)) := do
  let some writePos ← ofOption (Coder.decodeUintFromMap mp r (ascii "write_pos")) | return none
  let some objTentative ← ofOption (Coder.getValueFromMap mp r (ascii "tentative_read_pos"))
    | return none
  let some objReaders ← ofOption (Coder.getValueFromMap mp r (ascii "readers")) | return none
  let some reader ← ofOption (Coder.decodeStringFromArray mp objReaders 0) | return none
  if !(← alloc) then return none
  if 2^32 ≤ reader.len+1 then undefined
  let reader := cstr (reader.ptr.take reader.len)
  let tentative ← ofOption (Coder.decodeUintFromMap mp objTentative reader)
  let some objReadPos ← ofOption (Coder.getValueFromMap mp r (ascii "read_pos")) | return none
  let readPos ← ofOption (fifoReadPos mp tentative objReadPos reader)
  let objTokens ← ofOption (Coder.getValueFromMap mp r (ascii "fifo"))
  let f ← fifoTokensFrom mp objTokens {f with
    writePos := writePos
    tentativeReadPos := tentative.getD 0
    readPos := readPos.getD 0}
  return if readPos.isSome then f else none

/-- `sizeof(cc_token_t)` where a pointer has 64 bits. -/
def sizeofToken : Nat := 16

/-- The token array. `cc_platform_mem_alloc` takes a `uint32_t`, so that an array can be allocated
too short, and clearing its slots then writes behind it. -/
def fifoAlloc (tokenSize : Nat) (size : UInt32) : Atom (Option (Fifo Bytes)) := do
  if !(← alloc) then return none
  if (tokenSize*size.toNat)%2^32<tokenSize*size.toNat then undefined
  return some (Fifo.init size)

/-- `cc_fifo_init`. -/
def fifoInit (tokenSize : Nat) (objFifo : Option Bytes) (objProperties : Bytes) :
    Atom (Option (Fifo Bytes)) := do
  if !(← alloc) then return none
  match objFifo with
  | none =>
    let size ← ofOption (Coder.decodeUintFromMap mp objProperties (ascii "queue_length"))
    fifoAlloc tokenSize (size.getD 4)
  | some r =>
    let some queuetype ← ofOption (Coder.decodeStringFromMap mp r (ascii "queuetype"))
      | return none
    if !strncmpEq (ascii "fanout_fifo") queuetype.ptr queuetype.len then return none
    let some size ← ofOption (Coder.decodeUintFromMap mp r (ascii "N")) | return none
    let some f ← fifoAlloc tokenSize size | return none
    fifoRestore mp r f

/-- `cc_proto_send_set_port`. -/
def sendSetPort (p : Ref) : Atom Result := do
  needTransport
  needStorage
  let x ← port p
  let _ ← actorId x.actor
  request (.setPort x.id) .portStore none

def textCopy : Option Text → Atom Bytes
  | none => return []
  | some t => ofOption (t.copy uuidBufferSize)

def portAdd (x : Port) : Atom Ref := fun s =>
  some (s.portMem.next,{s with portMem := s.portMem.alloc x})

/-- The allocation of the port in `cc_port_create`, without its queue. -/
def portAlloc (a : Ref) (direction : PortDirection) (d : PortDescription) : Atom Ref := do
  let id ← ofOption (d.id.copy uuidBufferSize)
  let name ← ofOption (d.name.copy maxPortNameLength)
  let peerPortId ← ofOption (d.peerPortId.copy uuidBufferSize)
  let peerId ← textCopy d.peerId
  portAdd {
    id := id
    name := name
    peerPortId := peerPortId
    peerId := peerId
    direction := direction
    peerPort := none
    tunnel := none
    state := .disconnected
    fifo := none
    retries := 0
    actor := a}

/-- The tunnel of a port whose saved state is enabled. -/
def portRestoreTunnel (p : Ref) (peerId : Text) : Atom Unit := do
  match ← tunnelGetFromPeeridAndType peerId .token with
  | none => portSetState p .disconnected
  | some t =>
    updatePort p fun x => {x with tunnel := some t}
    tunnelAddRef t

/-- The peer of a port whose saved state is enabled. The result of a local connect is not
looked at. -/
def portRestore (p : Ref) (peerIdLen : Nat) : Atom Unit := do
  let x ← port p
  if strncmpEq x.peerId (← get).host.id (strnlen x.peerId uuidBufferSize) then
    let _ ← portConnectLocal p
  else
    portRestoreTunnel p ⟨x.peerId,peerIdLen⟩

/-- A port takes over a saved state. -/
def portTakeState (p : Ref) (value : UInt32) (peerIdLen : Nat) : Atom Unit := do
  updatePort p fun x => {x with state := .ofUInt32 value}
  if (← port p).state=.enabled then
    portRestore p peerIdLen

/-- The middle of `cc_port_create`: the port with its queue, before anything else knows
about it. -/
def portNew (a : Ref) (direction : PortDirection) (d : PortDescription) : Atom (Option Ref) := do
  if !(← alloc) then return none
  let p ← portAlloc a direction d
  match ← fifoInit mp sizeofToken d.queue d.properties with
  | none =>
    portFree p false
    return none
  | some f =>
    updatePort p fun x => {x with fifo := some f}
    return some p

/-- The end of an iteration of `cc_actor_create_ports`; a port that does not enter the
list of its actor stays behind. -/
def portLink (a : Ref) (direction : PortDirection) (p : Ref) : Atom Bool := do
  if !(← alloc) then return false
  setActor a ((← actor a).withPort direction p)
  return true

/-- `cc_proto_send_get_actor_module`. -/
def sendGetActorModule (type : Bytes) : Atom Result := do
  needTransport
  needProxy
  request (.getActorModule type) .getCompiledActor none

def actorAlloc (type : Bytes) (state : ActorState) (loaded : Bool)
    (instanceState : Option InstanceState) : Atom Ref := fun s =>
  some (s.actorMem.next,{s with actorMem := s.actorMem.alloc {
    type := type
    id := none
    name := none
    stateWas := .actor
    state := state
    loaded := loaded
    instanceState := instanceState
    inPorts := []
    outPorts := []
    privateAttributes := []
    managedAttributes := []}})

/-- A Python actor is loaded from its module, or its module is requested. -/
def actorCreatePython (type : Bytes) : Atom (Option Ref) := do
  if (← effect).elim false Effect.result then
    let e ← effect
    if e.elim true Effect.result then
      return some (← actorAlloc type .pending true (e.bind Effect.instanceState))
    return none
  if (← sendGetActorModule type)=.success then
    return some (← actorAlloc type .pendingImpl false none)
  return none

/-- `cc_actor_create_from_type`. -/
def actorCreateFromType (type : Text) : Atom (Option Ref) := do
  if !(← allocN 2) then return none
  let name := cstr (type.ptr.take type.len)
  let h := (← get).host
  if h.actorTypes.any fun t => listIdMatches t type then
    return some (← actorAlloc name .pending true none)
  if !h.usePython then return none
  actorCreatePython name

/-- `cc_actor_mpy_init_from_type`. -/
def actorLoad (a : Ref) : Atom Bool := do
  let e ← effect
  if e.elim true Effect.result then
    setActor a {← actor a with loaded := true,instanceState := e.bind Effect.instanceState}
    return true
  return false

/-- `cc_list_add` of an actor to the actors of the node. -/
def nodeAddActor (a : Ref) : Atom Bool := do
  if !(← alloc) then return false
  modify fun s => {s with actors := s.actors++[a]}
  return true

end Atom

end CalvinConstrained
