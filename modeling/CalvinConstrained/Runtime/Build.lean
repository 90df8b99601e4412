import CalvinConstrained.Runtime.Proto

namespace CalvinConstrained

/-- What `cc_actor_get_attributes` leaves behind, also when it fails. -/
structure Attributes where
  ok : Bool
  items : List Attribute
  id : Option Bytes
  name : Option Bytes

namespace Atom

variable (mp : Msgpuck)

/-- A field of the actor that is taken over from an attribute whose key starts with
`key`. -/
def attributeField (attr : Text) (data : Bytes) (key : String) (old : Option Bytes) :
    Atom (Bool × Option Bytes) := do
  if strncmpEq attr.ptr (ascii key) key.length then
    let some tmp ← ofOption (Coder.decodeStr mp data) | return (false,old)
    if !(← alloc) then return (false,old)
    return (true,some tmp.bytes)
  return (true,old)

def attributesLoop (privateOnly : Bool) : Nat → Bytes → Attributes → Atom Attributes
  | 0,_,acc => return acc
  | n+1,managed,acc => do
      let some key ← ofOption (Coder.decodeStr mp managed) | return {acc with ok := false}
      let data ← ofOption (mp.next managed)
      if (privateOnly && key.ptr.headD 0 ≠ 95) || strncmpEq key.ptr (ascii "_shadow_args") 12 then
        attributesLoop privateOnly n (← ofOption (mp.next data)) acc
      else
        let size ← ofOption (Coder.getSizeOfValue mp data)
        if !(← alloc) then return {acc with ok := false,items := []}
        let item := data.take size
        let rest ← ofOption (mp.next data)
        let (ok,id) ← attributeField mp key item "_id" acc.id
        if !ok then return {acc with ok := false,items := []}
        let (ok,name) ← attributeField mp key item "_name" acc.name
        if !ok then return ⟨false,[],id,acc.name⟩
        if !(← allocN 2) then return ⟨false,[],id,name⟩
        attributesLoop privateOnly n rest ⟨true,acc.items++[⟨key.bytes,some item⟩],id,name⟩

/-- `cc_actor_get_attributes`. -/
def actorGetAttributes (objManaged : Bytes) (items : List Attribute) (id name : Option Bytes)
    (privateOnly : Bool) : Atom Attributes := do
  let (size,managed) ← ofOption (mp.decodeMap objManaged)
  attributesLoop mp privateOnly size managed ⟨true,items,id,name⟩

/-- The arguments of a calvinsys object, which are only collected for its capability. -/
def calvinsysArgs : Nat → Bytes → Atom Bool
  | 0,_ => return true
  | n+1,args => do
      let some _ ← ofOption (Coder.decodeStr mp args) | return false
      let args ← ofOption (mp.next args)
      let args ← ofOption (mp.next args)
      if !(← allocN 2) then return false
      calvinsysArgs n args

/-- One object of `cc_calvinsys_deserialize`. Once in the list it stays there, also when
its capability refuses it. -/
def calvinsysDeserializeObject (a : Ref) (key : Text) (buffer : Bytes) : Atom Bool := do
  let some name ← ofOption (Coder.decodeStringFromMap mp buffer (ascii "name")) | return false
  let some capability := (← get).host.capabilities.find? fun c => listIdMatches c.name name
    | return false
  if !capability.deserializes then return false
  if !(← allocN 3) then return false
  let e ← effect
  let serialized := e.bind fun e => e.opened.head?.bind CalvinsysObject.serialized
  modifyHost fun h => {h with
    objects := h.objects++[⟨key.bytes,capability.name,a,serialized⟩]}
  let some args ← ofOption (Coder.getValueFromMap mp buffer (ascii "obj")) | return false
  if (← ofOption (mp.typeOf args)) ≠ .nil then
    let (size,args) ← ofOption (mp.decodeMap args)
    if !(← calvinsysArgs mp size args) then return false
  return e.elim true Effect.result

def calvinsysDeserializeLoop (a : Ref) : Nat → Bytes → Atom Bool
  | 0,_ => return true
  | n+1,buffer => do
      let some key ← ofOption (Coder.decodeStr mp buffer) | return false
      let buffer ← ofOption (mp.next buffer)
      if !(← calvinsysDeserializeObject mp a key buffer) then return false
      calvinsysDeserializeLoop a n (← ofOption (mp.next buffer))

/-- `cc_calvinsys_deserialize`. -/
def calvinsysDeserialize (a : Ref) (buffer : Bytes) : Atom Bool := do
  let (size,buffer) ← ofOption (mp.decodeMap buffer)
  calvinsysDeserializeLoop mp a size buffer

/-- The attributes without those that are written when the actor is serialized. An item
that `cc_list_remove` takes in place of the one found keeps freed data. -/
def withoutAttribute (key : Bytes) (items : List Attribute) : Atom (List Attribute) := do
  match items.find? fun i => listGetMatches i.id key with
  | none => return items
  | some item =>
    if items.find? (fun i => listRemoveMatches i.id key) ≠ some item then undefined
    return removeById Attribute.id key items

end Atom

namespace Build

variable (mp : Msgpuck) (a : Ref)

open Prog (look)

/-- Takes over what `cc_actor_get_attributes` found. -/
def describe (id name : Option Bytes) (privateAttributes managedAttributes : List Attribute)
    (stateWas : StateWas) : Build mp a Unit :=
  Prog.act (.base (.describe a id name privateAttributes managedAttributes stateWas))

def createPort (direction : PortDirection) (d : PortDescription) : Build mp a (Option Ref) :=
  Prog.perform (.createPort direction d) (Atom.portNew mp a direction d) fun _ => rfl

def linkPort (direction : PortDirection) (p : Ref) : Build mp a Bool :=
  Prog.perform (.linkPort direction p) (Atom.portLink a direction p) fun _ => rfl

/-- A port that `cc_port_create` gives up. -/
def portReject (p : Ref) : Build mp a Bool := do
  Prog.act (.freePort p)
  return false

/-- The end of `cc_port_create`: the port takes over its saved state or is stored in the
registry. -/
def portFinish (p : Ref) (objPort : Bytes) (peerIdLen : Nat) : Build mp a Bool := do
  if ← Prog.ofOption (Coder.hasKey mp objPort (ascii "constrained_state")) then
    match ← Prog.ofOption (Coder.decodeUintFromMap mp objPort (ascii "constrained_state")) with
    | none => portReject mp a p
    | some value =>
      Prog.act (.takeState p value peerIdLen)
      return true
  else if (← Prog.read).host.transport.isNone then
    return true
  else if (← Flow.toBuild (Flow.host (Atom.sendSetPort p)))=.success then
    return true
  else portReject mp a p

/-- `cc_port_create`. -/
def portCreate (objPort objPrevConnections : Bytes) (direction : PortDirection)
    (objConnectionList : Option Bytes) : Build mp a (Option Ref) := do
  let some d ← Prog.ofOption
    (Decode.portDescription mp objPort objPrevConnections direction objConnectionList)
    | return none
  let some p ← createPort mp a direction d | return none
  if ← portFinish mp a p objPort (d.peerId.elim 0 Text.len) then
    return some p
  else
    return none

/-- An iteration of `cc_actor_create_ports`, with `cc_port_create`. -/
def addPort (objPort objPrevConnections : Bytes) (direction : PortDirection)
    (objConnectionList : Option Bytes) : Build mp a Bool := do
  let some d ← Prog.ofOption
    (Decode.portDescription mp objPort objPrevConnections direction objConnectionList)
    | return false
  let some p ← createPort mp a direction d | return false
  if ← portFinish mp a p objPort (d.peerId.elim 0 Text.len) then
    linkPort mp a direction p
  else
    return false

theorem addPort_eq (objPort objPrevConnections : Bytes) (direction : PortDirection)
    (objConnectionList : Option Bytes) :
    addPort mp a objPort objPrevConnections direction objConnectionList=
      portCreate mp a objPort objPrevConnections direction objConnectionList >>= fun r =>
        r.elim (pure false) (linkPort mp a direction) := by
  unfold portCreate
  rw [Prog.bind_assoc]
  refine congrArg _ (funext fun d => ?_)
  cases d with
  | none => exact (Prog.pure_bind _ _).symm
  | some d =>
    dsimp only
    rw [Prog.bind_assoc]
    refine congrArg _ (funext fun p => ?_)
    cases p with
    | none => exact (Prog.pure_bind _ _).symm
    | some p =>
      dsimp only
      rw [Prog.bind_assoc]
      refine congrArg _ (funext fun ok => ?_)
      cases ok with
      | false => exact (Prog.pure_bind _ _).symm
      | true => exact (Prog.pure_bind _ _).symm

def createPortsLoop (objPrevConnections : Bytes) (direction : PortDirection)
    (objConnectionList : Option Bytes) : Nat → Bytes → Build mp a Bool
  | 0,_ => return true
  | n+1,ports => do
      let ports ← Prog.ofOption (mp.next ports)
      if !(← addPort mp a ports objPrevConnections direction objConnectionList) then
        return false
      let (keys,ports) ← Prog.ofOption (mp.decodeMap ports)
      let ports ← Prog.ofOption (Coder.skip mp (2*keys) ports)
      createPortsLoop objPrevConnections direction objConnectionList n ports

/-- `cc_actor_create_ports`. -/
def actorCreatePorts (objPorts objPrevConnections : Bytes) (direction : PortDirection)
    (objConnectionList : Option Bytes) : Build mp a Bool := do
  let (size,ports) ← Prog.ofOption (mp.decodeMap objPorts)
  createPortsLoop mp a objPrevConnections direction objConnectionList size ports

/-- Whether the message describes the master of a replication. -/
def isReplicationMaster (objPrivate : Bytes) (id : Text) : Option Bool := do
  let some objReplicationData ← Coder.getValueFromMap mp objPrivate (ascii "_replication_data")
    | return false
  let some master ← Coder.decodeStringFromMap mp objReplicationData (ascii "master")
    | return false
  return decide (master.len=id.len) && strncmpEq id.ptr master.ptr id.len

/-- The index of a replica, which `did_replicate` gets. -/
def replicationIndex (items : List Attribute) : Option Unit := do
  match items.find? fun i => listGetMatches i.id (ascii "_replication_id") with
  | none => return ()
  | some item =>
    let _ ← Coder.decodeUintFromMap mp (item.data.getD []) (ascii "index")
    return ()

/-- The callbacks of a new actor: `init` and `did_replicate`, or `set_state` and
`did_migrate`. -/
def actorStart : Flow mp Bool := do
  let x ← look (Atom.actor a)
  let result ← Flow.callback a
  if x.stateWas=.actor then
    if result then
      Prog.act (.callbackIfSet a)
  else if x.stateWas=.replica then
    Prog.ofOption (replicationIndex mp x.privateAttributes)
    Prog.act (.callbackIfSet a)
  return result

/-- The attributes of a shadow actor or of a replica. -/
def actorShadow (x : Actor) (objActorState objManaged : Bytes) : Build mp a Bool := do
  let replica ← Prog.ofOption (Coder.hasKey mp objActorState (ascii "replication"))
  let stateWas := if replica then .replica else .shadow
  describe mp a x.id x.name x.privateAttributes x.managedAttributes stateWas
  let some objShadowArgs ←
    Prog.ofOption (Coder.getValueFromMap mp objManaged (ascii "_shadow_args")) | return false
  let r ← Flow.toBuild (Flow.host
    (Atom.actorGetAttributes mp objShadowArgs x.managedAttributes x.id x.name false))
  describe mp a r.id r.name x.privateAttributes r.items stateWas
  return r.ok

/-- A new actor is started, unless its implementation is missing. -/
def actorBegin (x : Actor) : Build mp a Bool := do
  if x.state=.pendingImpl then
    return true
  Flow.toBuild (actorStart mp a)

/-- The state of the actor, from the shadow arguments or from the managed attributes. -/
def actorStateFrom (objActorState objManaged : Bytes) : Build mp a Bool := do
  let x ← look (Atom.actor a)
  if ← Prog.ofOption (Coder.hasKey mp objManaged (ascii "_shadow_args")) then
    if ← actorShadow mp a x objActorState objManaged then
      actorBegin mp a x
    else
      return false
  else
    describe mp a x.id x.name x.privateAttributes x.managedAttributes .actor
    actorBegin mp a x

/-- The calvinsys objects of the message, if it has any. -/
def actorCalvinsys (objPrivate : Bytes) : Build mp a Bool := do
  if ← Prog.ofOption (Coder.hasKey mp objPrivate (ascii "_calvinsys")) then
    let some objCalvinsys ←
      Prog.ofOption (Coder.getValueFromMap mp objPrivate (ascii "_calvinsys")) | return false
    Flow.toBuild (Flow.host (Atom.calvinsysDeserialize mp a objCalvinsys))
  else
    return true

/-- The connection list, which is only read without previous connections. -/
def connectionList (objState objPrevConnections : Bytes) : Option (Option Bytes) := do
  if (← mp.typeOf objPrevConnections)=.nil then
    Coder.getValueFromMap mp objState (ascii "connection_list")
  else
    return none

/-- The in-ports and the out-ports. -/
def actorPorts (objState objPrivate : Bytes) : Build mp a Bool := do
  let some objPrevConnections ←
    Prog.ofOption (Coder.getValueFromMap mp objState (ascii "prev_connections")) | return false
  let objConnectionList ← Prog.ofOption (connectionList mp objState objPrevConnections)
  if (← Prog.ofOption (mp.typeOf objPrevConnections))=.nil && objConnectionList.isNone then
    return false
  let some id ←
    Prog.ofOption (Coder.decodeStringFromMap mp objPrivate (ascii "_id")) | return false
  if ← Prog.ofOption (isReplicationMaster mp objPrivate id) then return false
  let some objPorts ←
    Prog.ofOption (Coder.getValueFromMap mp objPrivate (ascii "inports")) | return false
  if !(← actorCreatePorts mp a objPorts objPrevConnections .dirIn objConnectionList) then
    return false
  let some objPorts ←
    Prog.ofOption (Coder.getValueFromMap mp objPrivate (ascii "outports")) | return false
  actorCreatePorts mp a objPorts objPrevConnections .dirOut objConnectionList

/-- A new actor is stored in the registry. -/
def actorStore : Build mp a Bool := do
  if (← Prog.read).host.transport.isNone then
    return true
  return decide ((← Flow.toBuild (Flow.host (Atom.sendSetActor a)))=.success)

/-- The fallible steps of `cc_actor_create` on the new actor. -/
def actorFill (objState : Bytes) : Build mp a Bool := do
  let some objActorState ←
    Prog.ofOption (Coder.getValueFromMap mp objState (ascii "actor_state")) | return false
  let some objPrivate ←
    Prog.ofOption (Coder.getValueFromMap mp objActorState (ascii "private")) | return false
  if !(← actorCalvinsys mp a objPrivate) then return false
  let some _ ←
    Prog.ofOption (Coder.decodeStringFromMap mp objPrivate (ascii "_id")) | return false
  let r ← Flow.toBuild (Flow.host (Atom.actorGetAttributes mp objPrivate [] none none true))
  describe mp a r.id r.name r.items [] .actor
  if !r.ok then return false
  if !(← actorPorts mp a objState objPrivate) then return false
  let some objManaged ←
    Prog.ofOption (Coder.getValueFromMap mp objActorState (ascii "managed")) | return false
  let m ← Flow.toBuild (Flow.host (Atom.actorGetAttributes mp objManaged [] r.id r.name false))
  describe mp a m.id m.name r.items m.items .actor
  if !m.ok || m.id.isNone || m.name.isNone then return false
  if !(← actorStateFrom mp a objActorState objManaged) then return false
  actorStore mp a

/-- The attributes that a new actor keeps. -/
def actorTidy (ok : Bool) : Build mp a Unit := do
  let x ← look (Atom.actor a)
  let items ← look (Atom.withoutAttribute (ascii "_calvinsys") x.privateAttributes)
  let items ← look (Atom.withoutAttribute (ascii "inports") items)
  let items ← look (Atom.withoutAttribute (ascii "outports") items)
  let managed := if ok && x.state=.pendingImpl then x.managedAttributes else []
  describe mp a x.id x.name items managed x.stateWas

end Build

end CalvinConstrained
