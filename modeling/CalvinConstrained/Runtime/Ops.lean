import CalvinConstrained.Runtime.Create

namespace CalvinConstrained

namespace Atom

/-- The storage tunnel of `cc_node_connect_to_proxy`. -/
def nodeStorageTunnel (peerId : Text) : Atom Bool := do
  match (← get).storageTunnel with
  | some _ => return true
  | none =>
    match ← tunnelCreate .storage .disconnected peerId none with
    | none => return false
    | some t =>
      modify fun s => {s with storageTunnel := some t}
      tunnelAddRef t
      return true

/-- The proxy tunnel of `cc_node_connect_to_proxy`. -/
def nodeProxyTunnel (peerId : Text) : Atom Bool := do
  match (← get).proxyTunnel with
  | some _ => return true
  | none =>
    match ← tunnelCreate .proxy .disconnected peerId none with
    | none => return false
    | some t =>
      modify fun s => {s with proxyTunnel := some t}
      tunnelAddRef t
      return true

/-- The end of `cc_node_stop`. -/
def nodeReleaseProxy : Atom Unit := do
  match (← get).proxyTunnel with
  | none => pure ()
  | some t =>
    tunnelRemoveRef t
    modify fun s => {s with proxyTunnel := none}

def nodeReleaseStorage : Atom Unit := do
  match (← get).storageTunnel with
  | none => pure ()
  | some t =>
    tunnelRemoveRef t
    modify fun s => {s with storageTunnel := none}

def tunnelUpdate (t : Ref) (id : Bytes) (state : TunnelState) : Atom Unit := do
  setTunnel t {← tunnel t with id := id,state := state}

/-- The fields `cc_actor_create` fills in from the message. -/
def actorDescribe (a : Ref) (id name : Option Bytes)
    (privateAttributes managedAttributes : List Attribute) (stateWas : StateWas) : Atom Unit := do
  let x ← actor a
  setActor a {x with
    id := id
    name := name
    privateAttributes := privateAttributes
    managedAttributes := managedAttributes
    stateWas := stateWas}

end Atom

/-- What a node does to its object graph outside the creation of an actor. -/
inductive Op
  | host (h : Host)
  | setState (p : Ref) (state : PortState)
  | setPeerId (p : Ref) (peerId : Bytes)
  | retry (p : Ref)
  | setFifo (p : Ref) (f : Fifo Bytes)
  | connectLocal (p : Ref)
  | handleConnect (p : Ref) (tunnelId : Text)
  | handleDisconnect (p : Ref)
  | getTunnel (p : Ref)
  | dropTunnel (p : Ref)
  | disconnect (p : Ref)
  | disconnectPorts (a : Ref)
  | disconnectActor (a : Ref)
  | tunnelCreate (type : TunnelType) (state : TunnelState) (peerId : Text)
      (tunnelId : Option Text)
  | tunnelUpdate (t : Ref) (id : Bytes) (state : TunnelState)
  | linkCreate (peerId : Text) (isProxy : Bool)
  | linkRemoveRef (l : Ref)
  | setProxyLink (l : Ref)
  | storageTunnel (peerId : Text)
  | proxyTunnel (peerId : Text)
  | restoreStorage (t : Ref)
  | restoreProxy (t : Ref)
  | releaseStorage
  | releaseProxy
  | describe (a : Ref) (id name : Option Bytes)
      (privateAttributes managedAttributes : List Attribute) (stateWas : StateWas)
  | callback (a : Ref)
  | callbackIfSet (a : Ref)
  | fire (a : Ref)
  | serialize (a : Ref) (includeState : Bool)
  | freeActor (a : Ref) (removeFromRegistry : Bool)

def Op.apply (mp : Msgpuck) : Op → Node → Option Node
  | .host h,s => some {s with host := h}
  | .setState p state,s => (Atom.portSetState p state s).map Prod.snd
  | .setPeerId p peerId,s =>
    (Atom.updatePort p (fun x => {x with peerId := peerId}) s).map Prod.snd
  | .retry p,s =>
    (Atom.updatePort p (fun x => {x with retries := x.retries+1}) s).map Prod.snd
  | .setFifo p f,s => (Atom.updatePort p (fun x => {x with fifo := some f}) s).map Prod.snd
  | .connectLocal p,s => (Atom.portConnectLocal p s).map Prod.snd
  | .handleConnect p tunnelId,s => (Atom.portHandleConnect p tunnelId s).map Prod.snd
  | .handleDisconnect p,s => (Atom.portHandleDisconnect p s).map Prod.snd
  | .getTunnel p,s => (Atom.portGetTunnel p s).map Prod.snd
  | .dropTunnel p,s => (Atom.portDropTunnel p s).map Prod.snd
  | .disconnect p,s => (Atom.portDisconnect p true s).map Prod.snd
  | .disconnectPorts a,s => (Atom.actorDisconnectPorts a true s).map Prod.snd
  | .disconnectActor a,s => (Atom.actorDisconnect a true s).map Prod.snd
  | .tunnelCreate type state peerId tunnelId,s =>
    (Atom.tunnelCreate type state peerId tunnelId s).map Prod.snd
  | .tunnelUpdate t id state,s => (Atom.tunnelUpdate t id state s).map Prod.snd
  | .linkCreate peerId isProxy,s => (Atom.linkCreate peerId isProxy s).map Prod.snd
  | .linkRemoveRef l,s => (Atom.linkRemoveRef l s).map Prod.snd
  | .setProxyLink l,s => some {s with proxyLink := some l}
  | .storageTunnel peerId,s => (Atom.nodeStorageTunnel peerId s).map Prod.snd
  | .proxyTunnel peerId,s => (Atom.nodeProxyTunnel peerId s).map Prod.snd
  | .restoreStorage t,s => some {s with storageTunnel := some t}
  | .restoreProxy t,s => some {s with proxyTunnel := some t}
  | .releaseStorage,s => (Atom.nodeReleaseStorage s).map Prod.snd
  | .releaseProxy,s => (Atom.nodeReleaseProxy s).map Prod.snd
  | .describe a id name privateAttributes managedAttributes stateWas,s =>
    (Atom.actorDescribe a id name privateAttributes managedAttributes stateWas s).map Prod.snd
  | .callback a,s => (Atom.callback a s).map Prod.snd
  | .callbackIfSet a,s => (Atom.callbackIfSet a s).map Prod.snd
  | .fire a,s => (Atom.callback a s).map Prod.snd
  | .serialize a includeState,s => (Atom.actorSerialize mp a includeState s).map Prod.snd
  | .freeActor a removeFromRegistry,s =>
    (Atom.actorFreeListed a removeFromRegistry s).map Prod.snd

/-- What `cc_actor_create` does while the actor is not in the list yet. -/
inductive BuildOp
  | base (o : Op)
  | createPort (direction : PortDirection) (d : PortDescription)
  | takeState (p : Ref) (value : UInt32) (peerIdLen : Nat)
  | freePort (p : Ref)
  | linkPort (direction : PortDirection) (p : Ref)

def BuildOp.apply (mp : Msgpuck) (a : Ref) : BuildOp → Node → Option Node
  | .base o,s => o.apply mp s
  | .createPort direction d,s => (Atom.portNew mp a direction d s).map Prod.snd
  | .takeState p value peerIdLen,s => (Atom.portTakeState p value peerIdLen s).map Prod.snd
  | .freePort p,s => (Atom.portFree p false s).map Prod.snd
  | .linkPort direction p,s => (Atom.portLink a direction p s).map Prod.snd

/-- All steps of a node. `connectPorts` marks the entry of `cc_actor_connect_ports` and
`assign` is its last statement; `loadFailed` marks that an implementation could not be
loaded. -/
inductive TopOp
  | base (o : Op)
  | build (a : Ref) (o : BuildOp)
  | newActor (type : Text)
  | addActor (a : Ref)
  | freeNew (a : Ref)
  | connectPorts (a : Ref)
  | assign (a : Ref) (state : ActorState)
  | load (a : Ref)
  | loadFailed (a : Ref)
  | forgetProxy
  | popActor

def TopOp.apply (mp : Msgpuck) : TopOp → Node → Option Node
  | .base o,s => o.apply mp s
  | .build a o,s => o.apply mp a s
  | .newActor type,s => (Atom.actorCreateFromType type s).map Prod.snd
  | .addActor a,s => (Atom.nodeAddActor a s).map Prod.snd
  | .freeNew a,s => (Atom.actorFree a false s).map Prod.snd
  | .connectPorts _,s => some s
  | .assign a state,s => (Atom.actorSetState a state s).map Prod.snd
  | .load a,s => (Atom.actorLoad a s).map Prod.snd
  | .loadFailed _,s => some s
  | .forgetProxy,s => (Atom.nodeForgetProxy s).map Prod.snd
  | .popActor,s => (Atom.actorPop s).map Prod.snd

def BuildOp.toTop (a : Ref) : BuildOp → TopOp
  | .base o => .base o
  | o => .build a o

abbrev Flow (mp : Msgpuck) (α : Type) := Prog (Op.apply mp) α
abbrev Build (mp : Msgpuck) (a : Ref) (α : Type) := Prog (BuildOp.apply mp a) α
abbrev Top (mp : Msgpuck) (α : Type) := Prog (TopOp.apply mp) α

def Flow.toBuild {mp : Msgpuck} {a : Ref} {α : Type} (m : Flow mp α) : Build mp a α :=
  m.lift .base fun _ _ => rfl

def Flow.toTop {mp : Msgpuck} {α : Type} (m : Flow mp α) : Top mp α := m.lift .base fun _ _ => rfl

theorem BuildOp.apply_toTop (mp : Msgpuck) (a : Ref) (o : BuildOp) (s : Node) :
    (o.toTop a).apply mp s=o.apply mp a s := by
  cases o <;> rfl

def Build.toTop {mp : Msgpuck} {a : Ref} {α : Type} (m : Build mp a α) : Top mp α :=
  m.lift (BuildOp.toTop a) (BuildOp.apply_toTop mp a)

namespace Prog

variable {ω α : Type} {apply : ω → Node → Option Node}

/-- A computation that leaves the node as it is. -/
def look (x : Atom α) : Prog apply α := do
  match x (← read) with
  | some (a,_) => pure a
  | none => undefined

theorem run_look {x : Atom α} {s t : Node} {a : α} (h : x s=some (a,t)) :
    (look x : Prog apply α).run s=some (a,s,[]) := by
  refine (run_bind_of_quiet (m := read) rfl).trans ?_
  rw [h]
  rfl

theorem yields_look {x : Atom α} {s t : Node} {a : α} (h : x s=some (a,t)) :
    (look x : Prog apply α).Yields s a s := ⟨[],run_look h⟩

theorem Yields.of_look {x : Atom α} {s t : Node} {a : α} (h : (look x : Prog apply α).Yields s a t) :
    (x s).map Prod.fst=some a ∧ t=s := by
  obtain ⟨u,v,hread,h₁⟩ := h.of_bind
  obtain ⟨hu,hv⟩ := hread.unique (yields_read s)
  subst u v
  cases hx : x s with
  | none =>
    rw [hx] at h₁
    obtain ⟨ops,h₁⟩ := h₁
    cases h₁
  | some r =>
    rw [hx] at h₁
    obtain ⟨ha,ht⟩ := h₁.unique (yields_pure _ _)
    subst a t
    exact ⟨rfl,rfl⟩

end Prog

namespace Flow

variable {mp : Msgpuck} {α : Type}

/-- A computation that changes nothing but the host. -/
def host (x : Atom α) : Flow mp α := do
  match x (← Prog.read) with
  | some (a,t) =>
    Prog.act (.host t.host)
    pure a
  | none => Prog.undefined

theorem yields_host {x : Atom α} {s t : Node} {a : α} (h : x s=some (a,t)) :
    (host x : Flow mp α).Yields s a {s with host := t.host} := by
  refine Prog.yields_bind (Prog.yields_read s) ?_
  rw [h]
  exact Prog.yields_bind (Prog.yields_act rfl) (Prog.yields_pure a _)

def setState (p : Ref) (state : PortState) : Flow mp Unit := Prog.act (.setState p state)

def connectLocal (p : Ref) : Flow mp Result :=
  Prog.perform (.connectLocal p) (Atom.portConnectLocal p) fun _ => rfl

def handleConnect (p : Ref) (tunnelId : Text) : Flow mp Result :=
  Prog.perform (.handleConnect p tunnelId) (Atom.portHandleConnect p tunnelId) fun _ => rfl

def tunnelCreate (type : TunnelType) (state : TunnelState) (peerId : Text)
    (tunnelId : Option Text) : Flow mp (Option Ref) :=
  Prog.perform (.tunnelCreate type state peerId tunnelId)
    (Atom.tunnelCreate type state peerId tunnelId) fun _ => rfl

def linkCreate (peerId : Text) (isProxy : Bool) : Flow mp (Option Ref) :=
  Prog.perform (.linkCreate peerId isProxy) (Atom.linkCreate peerId isProxy) fun _ => rfl

def storageTunnel (peerId : Text) : Flow mp Bool :=
  Prog.perform (.storageTunnel peerId) (Atom.nodeStorageTunnel peerId) fun _ => rfl

def proxyTunnel (peerId : Text) : Flow mp Bool :=
  Prog.perform (.proxyTunnel peerId) (Atom.nodeProxyTunnel peerId) fun _ => rfl

def callback (a : Ref) : Flow mp Bool :=
  Prog.perform (.callback a) (Atom.callback a) fun _ => rfl

def serialize (a : Ref) (includeState : Bool) : Flow mp (Option Doc) :=
  Prog.perform (.serialize a includeState) (Atom.actorSerialize mp a includeState) fun _ => rfl

end Flow

end CalvinConstrained
