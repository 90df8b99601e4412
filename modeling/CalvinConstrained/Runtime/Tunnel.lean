import CalvinConstrained.Runtime.Node

namespace CalvinConstrained

namespace Atom

/-- `cc_list_remove` on a list whose items take their id from the object itself. -/
def listRemove (idOf : Ref → Atom Bytes) (id : Bytes) : List Ref → Atom (List Ref)
  | [] => return []
  | r::rs => do
      if listRemoveMatches (← idOf r) id then
        return rs
      return r::(← listRemove idOf id rs)

def linkGetFrom (peerId : Text) : List Ref → Atom (Option Ref)
  | [] => return none
  | l::ls => do
      if strncmpEq (← link l).peerId peerId.ptr peerId.len then
        return some l
      linkGetFrom peerId ls

/-- `cc_link_get`. -/
def linkGet (peerId : Text) : Atom (Option Ref) := do
  linkGetFrom peerId (← get).links

/-- A new link at the end of the list. -/
def linkAdd (x : Link) : Atom Ref := fun s =>
  some (s.linkMem.next,{s with linkMem := s.linkMem.alloc x,links := s.links++[s.linkMem.next]})

/-- `cc_link_create`. -/
def linkCreate (peerId : Text) (isProxy : Bool) : Atom (Option Ref) := do
  if let some l ← linkGet peerId then
    return some l
  if !(← alloc) then return none
  let id ← ofOption (peerId.copy uuidBufferSize)
  if !(← alloc) then return none
  return some (← linkAdd ⟨id,0,isProxy⟩)

/-- `cc_link_free`. -/
def linkFree (l : Ref) : Atom Unit := do
  let x ← link l
  let links ← listRemove (fun r => do return (← link r).peerId) x.peerId (← get).links
  modify fun s => {s with links := links,linkMem := s.linkMem.free l}

def linkAddRef (l : Ref) : Atom Unit := do
  let x ← link l
  setLink l {x with refCount := x.refCount+1}

def linkRemoveRef (l : Ref) : Atom Unit := do
  let x ← link l
  setLink l {x with refCount := x.refCount-1}
  if x.refCount-1=0 then
    linkFree l

def tunnelGetFromIdIn (tunnelId : Text) : List Ref → Atom (Option Ref)
  | [] => return none
  | t::ts => do
      if listIdMatches (← tunnel t).id tunnelId then
        return some t
      tunnelGetFromIdIn tunnelId ts

/-- `cc_tunnel_get_from_id`. -/
def tunnelGetFromId (tunnelId : Text) : Atom (Option Ref) := do
  tunnelGetFromIdIn tunnelId (← get).tunnels

def tunnelGetFromPeeridIn (peerId : Text) (type : TunnelType) : List Ref → Atom (Option Ref)
  | [] => return none
  | t::ts => do
      let x ← tunnel t
      if x.type=type then
        if strncmpEq (← link x.link).peerId peerId.ptr peerId.len then
          return some t
      tunnelGetFromPeeridIn peerId type ts

/-- `cc_tunnel_get_from_peerid_and_type`. -/
def tunnelGetFromPeeridAndType (peerId : Text) (type : TunnelType) : Atom (Option Ref) := do
  tunnelGetFromPeeridIn peerId type (← get).tunnels

/-- `cc_proto_send_tunnel_request`. -/
def sendTunnelRequest (x : Tunnel) : Atom Result := do
  match x.type with
  | .unknown _ => return .fail
  | _ => request (.tunnelRequest x.id (← link x.link).peerId x.type) .tunnelRequest none

/-- The link of a new tunnel, which is created when there is none. -/
def tunnelLink (peerId : Text) : Atom (Option Ref) := do
  if let some l ← linkGet peerId then
    return some l
  match (← get).proxyLink with
  | none => undefined
  | some proxy => linkCreate peerId (strncmpEq (← link proxy).peerId peerId.ptr peerId.len)

/-- The id of a new tunnel; without one given it is generated. -/
def tunnelNewId : Option Text → Atom Bytes
  | none => uuid []
  | some tunnelId => ofOption (tunnelId.copy uuidBufferSize)

/-- A tunnel that is not created enabled is requested from the peer. -/
def tunnelRequest (x : Tunnel) : Atom (Option Tunnel) := do
  if x.state=.enabled then
    return some x
  if (← sendTunnelRequest x)=.success then
    return some {x with state := .pending}
  return none

/-- A new tunnel at the end of the list. -/
def tunnelAdd (x : Tunnel) : Atom Ref := fun s =>
  some (s.tunnelMem.next,
    {s with tunnelMem := s.tunnelMem.alloc x,tunnels := s.tunnels++[s.tunnelMem.next]})

/-- `cc_tunnel_create` once the link is there. -/
def tunnelCreateOn (l : Ref) (type : TunnelType) (state : TunnelState) (tunnelId : Option Text) :
    Atom (Option Ref) := do
  if !(← alloc) then return none
  let id ← tunnelNewId tunnelId
  let some x ← tunnelRequest ⟨id,l,state,0,type⟩ | return none
  if !(← alloc) then return none
  let t ← tunnelAdd x
  linkAddRef l
  return some t

/-- `cc_tunnel_create`. -/
def tunnelCreate (type : TunnelType) (state : TunnelState) (peerId : Text)
    (tunnelId : Option Text) : Atom (Option Ref) := do
  if let some t ← tunnelGetFromPeeridAndType peerId type then
    return some t
  let some l ← tunnelLink peerId | return none
  tunnelCreateOn l type state tunnelId

/-- The end of `cc_tunnel_free`: the tunnel leaves the list by its id. -/
def tunnelUnlink (t : Ref) (id : Bytes) : Atom Unit := do
  let tunnels ← listRemove (fun r => do return (← tunnel r).id) id (← get).tunnels
  modify fun s => {s with tunnels := tunnels,tunnelMem := s.tunnelMem.free t}

/-- `cc_tunnel_free`. -/
def tunnelFree (t : Ref) (unrefLink : Bool) : Atom Unit := do
  let x ← tunnel t
  if unrefLink then
    linkRemoveRef x.link
  tunnelUnlink t x.id

def tunnelAddRef (t : Ref) : Atom Unit := do
  let x ← tunnel t
  setTunnel t {x with refCount := x.refCount+1}

/-- The message to the peer when a tunnel is given up. -/
def sendTunnelDestroy (x : Tunnel) : Atom Unit := do
  let h := (← get).host
  if h.state ≠ .doSleep && h.transport.isSome then
    let _ ← link x.link
    let _ ← request (.tunnelDestroy x.id) .tunnelDestroy none

/-- `cc_tunnel_remove_ref`. -/
def tunnelRemoveRef (t : Ref) : Atom Unit := do
  let x ← tunnel t
  setTunnel t {x with refCount := x.refCount-1}
  if x.refCount-1=0 then
    sendTunnelDestroy x
    tunnelFree t true

end Atom

end CalvinConstrained
