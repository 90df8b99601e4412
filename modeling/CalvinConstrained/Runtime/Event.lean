import CalvinConstrained.Runtime.Build

namespace CalvinConstrained

namespace Top

variable (mp : Msgpuck)

open Prog (look)

/-- The loops of `cc_actor_connect_ports`; the result tells whether all ports were
enabled. -/
def connectEach : List Ref → Flow mp Bool
  | [] => return true
  | p::ps => do
      let enabled := decide ((← look (Atom.port p)).state=.enabled)
      if !enabled then
        Flow.portConnect mp p
      let rest ← connectEach ps
      return enabled && rest

/-- `cc_actor_connect_ports`. The state it assigns was computed before the ports were
connected. -/
def actorConnectPorts (a : Ref) : Top mp Unit := do
  Prog.act (.connectPorts a)
  let x ← look (Atom.actor a)
  let enabled ← Flow.toTop (connectEach mp x.ports)
  Prog.act (.assign a (if enabled then .enabled else .pending))

def newActor (type : Text) : Top mp (Option Ref) :=
  Prog.perform (.newActor type) (Atom.actorCreateFromType type) fun _ => rfl

def addActor (a : Ref) : Top mp Bool :=
  Prog.perform (.addActor a) (Atom.nodeAddActor a) fun _ => rfl

def load (a : Ref) : Top mp Bool :=
  Prog.perform (.load a) (Atom.actorLoad a) fun _ => rfl

/-- A new actor of the node connects its ports, unless its implementation is missing. -/
def actorJoin (a : Ref) : Top mp Unit := do
  if (← look (Atom.actor a)).state ≠ .pendingImpl then
    actorConnectPorts mp a

/-- `cc_actor_create` gives up. -/
def actorReject (a : Ref) : Top mp (Option Ref) := do
  Prog.act (.freeNew a)
  return none

/-- The end of `cc_actor_create`. -/
def actorFinish (a : Ref) (ok : Bool) : Top mp (Option Ref) := do
  if !ok then
    actorReject mp a
  else if ← addActor mp a then
    actorJoin mp a
    return some a
  else
    actorReject mp a

/-- `cc_actor_create`. Without a state or a type there is no actor, and the cleanup reads
its managed attributes all the same. -/
def actorCreate (root : Bytes) : Top mp (Option Ref) := do
  let some objState ← Prog.ofOption (Coder.getValueFromMap mp root (ascii "state"))
    | Prog.undefined
  let some type ← Prog.ofOption (Coder.decodeStringFromMap mp objState (ascii "actor_type"))
    | Prog.undefined
  let some a ← newActor mp type | return none
  let ok ← Build.toTop (a := a) do
    let ok ← Build.actorFill mp a objState
    Build.actorTidy mp a ok
    return ok
  actorFinish mp a ok

/-- The managed attributes have served their purpose. -/
def dropManaged (a : Ref) : Flow mp Unit := do
  let x ← look (Atom.actor a)
  Prog.act (.describe a x.id x.name x.privateAttributes [] x.stateWas)

/-- `cc_actor_update_pending` for an actor that could not be loaded. -/
def actorSendBack (a : Ref) : Top mp Unit := do
  Prog.act (.loadFailed a)
  Flow.toTop do
    dropManaged mp a
    let l ← look do
      match (← get).proxyLink with
      | none => Atom.undefined
      | some l => Atom.link l
    if (← Flow.actorMigrate mp a l.peerId) ≠ .success then
      Prog.act (.freeActor a true)

/-- `cc_actor_update_pending` for an actor whose module was loaded. -/
def actorStartLoaded (a : Ref) : Top mp Unit := do
  if ← Flow.toTop (Build.actorStart mp a) then
    Flow.toTop (dropManaged mp a)
    actorConnectPorts mp a
  else
    actorSendBack mp a

/-- `cc_actor_update_pending` for one actor. -/
def actorUpdatePending (a : Ref) (type : Text) (status : UInt32) : Top mp Unit := do
  let x ← look (Atom.actor a)
  if x.state=.pendingImpl ∧ strncmpEq x.type type.ptr type.len then
    if status ≠ 200 then
      actorSendBack mp a
    else if ← load mp a then
      actorStartLoaded mp a
    else
      actorSendBack mp a

/-- The loop of `cc_actor_update_pending`, which reads the list item of an actor after the
actor may have been freed. -/
def updatePendingLoop (type : Text) (status : UInt32) : Nat → Option Ref → Top mp Unit
  | _,none => pure ()
  | 0,some _ => pure ()
  | n+1,some a => do
      actorUpdatePending mp a type status
      let s ← Prog.read
      if a ∉ s.actors then Prog.undefined
      updatePendingLoop type status n (nextAfter a s.actors)

/-- `cc_actor_get_compiled_actor_reply_handler`. -/
def getCompiledActorReplyHandler (data : Bytes) : Top mp Result := do
  let some v ← Flow.toTop (Flow.value mp data "value") | return .fail
  let some v ← Flow.toTop (Flow.value mp v "value") | return .fail
  let some status ← Flow.toTop (Flow.number mp v "status") | return .fail
  let some objData ← Flow.toTop (Flow.value mp v "data") | return .fail
  let some type ← Flow.toTop (Flow.text mp objData "actor_type") | return .fail
  let s ← Prog.read
  updatePendingLoop mp type status s.actors.length s.actors.head?
  return .success

/-- The reply handler of a pending message. -/
def replyHandler (m : PendingMsg) (data : Bytes) : Top mp Result :=
  match m.handler with
  | .nodeSetup => Flow.toTop (Flow.nodeSetupReplyHandler mp data)
  | .enterSleep => Flow.toTop (Flow.enterSleepReplyHandler mp data)
  | .tunnelRequest => Flow.toTop (Flow.tunnelRequestReplyHandler mp data)
  | .portStore => Flow.toTop (Flow.storeReplyHandler mp Atom.portGet (ascii "port-") data)
  | .actorSet => Flow.toTop (Flow.storeReplyHandler mp Atom.actorGet (ascii "actor-") data)
  | .getPeerPort => Flow.toTop (Flow.getPeerPortReplyHandler mp data)
  | .portConnect => Flow.toTop (Flow.portConnectReplyHandler mp data)
  | .actorMigrate => Flow.toTop (Flow.actorMigrateReplyHandler mp data m.msgData)
  | .reqMatch => Flow.toTop (Flow.reqMatchReplyHandler mp data)
  | .getCompiledActor => getCompiledActorReplyHandler mp data
  | .tunnelDestroy => return .success
  | .portRemove => return .success
  | .portDisconnect => return .success
  | .actorRemove => return .success
  | .replicaRemove => return .success

/-- Calls the handler of a pending message and removes the message. -/
def handleReply (msgUuid data : Bytes) (unknown : Result) : Top mp Result := do
  match ← look (Atom.getPendingMsg msgUuid) with
  | none => return unknown
  | some m =>
    let result ← replyHandler mp m data
    Flow.toTop (Flow.host (Atom.removePendingMsg msgUuid))
    return result

/-- `cc_proto_parse_reply`. -/
def parseReply (data : Bytes) : Top mp Result := do
  let some tmp ← Flow.toTop (Flow.text mp data "msg_uuid") | return .fail
  handleReply mp (← Prog.ofOption (tmp.copy uuidBufferSize)) data .success

/-- `cc_proto_parse_tunnel_data`. -/
def parseTunnelData (root : Bytes) : Top mp Result := do
  let some v ← Flow.toTop (Flow.value mp root "value") | return .fail
  if ← Prog.ofOption (Coder.hasKey mp v (ascii "msg_uuid")) then
    let some tmp ← Flow.toTop (Flow.text mp v "msg_uuid") | return .fail
    handleReply mp (← Prog.ofOption (tmp.copy uuidBufferSize)) root .fail
  else if ← Prog.ofOption (Coder.hasKey mp v (ascii "cmd")) then
    let some cmd ← Flow.toTop (Flow.text mp v "cmd") | return .fail
    if strncmpEq cmd.ptr (ascii "TOKEN_REPLY") 11 then
      Flow.toTop (Flow.parseTokenReply mp root)
    else if strncmpEq cmd.ptr (ascii "TOKEN") 5 then
      Flow.toTop (Flow.parseToken mp root)
    else if strncmpEq cmd.ptr (ascii "DESTROY") 7 then
      Flow.toTop (Flow.parseDestroy mp root)
    else return .fail
  else return .fail

/-- `cc_proto_parse_actor_new`. -/
def parseActorNew (root : Bytes) : Top mp Result := do
  let some fromRtUuid ← Flow.toTop (Flow.text mp root "from_rt_uuid") | return .fail
  let some tmp ← Flow.toTop (Flow.text mp root "msg_uuid") | return .fail
  let msgUuid ← Prog.ofOption (tmp.copy uuidBufferSize)
  let a ← actorCreate mp root
  Flow.toTop (Flow.host
    (Atom.send (.reply msgUuid fromRtUuid.content (if a.isSome then 200 else 500))))

/-- `command_handlers`, in their order. The table has one entry more than its initialiser, with
an empty name and no handler. -/
def commandHandlers : List (Bytes × (Bytes → Top mp Result)) :=
  [(ascii "REPLY",parseReply mp),
    (ascii "TUNNEL_DATA",parseTunnelData mp),
    (ascii "ACTOR_NEW",parseActorNew mp),
    (ascii "APP_DESTROY",fun r => Flow.toTop (Flow.parseAppDestroy mp r)),
    (ascii "PORT_DISCONNECT",fun r => Flow.toTop (Flow.parsePortDisconnect mp r)),
    (ascii "PORT_CONNECT",fun r => Flow.toTop (Flow.parsePortConnect mp r)),
    (ascii "TUNNEL_NEW",fun r => Flow.toTop (Flow.parseTunnelNew mp r)),
    (ascii "ACTOR_MIGRATE",fun r => Flow.toTop (Flow.parseActorMigrate mp r)),
    ([],fun _ => Prog.undefined)]

/-- `cc_proto_parse_message` on an enabled transport; the reply to a join request, which
is JSON, is the event `transport`. -/
def parseMessage (data : Bytes) : Top mp Result := do
  match (← Prog.read).host.transport with
  | none => Prog.undefined
  | some transport =>
    if transport.state ≠ .enabled then return .fail
    let some cmd ← Flow.toTop (Flow.text mp data "cmd") | return .fail
    match (commandHandlers mp).find? fun c => strncmpEq cmd.ptr c.1 cmd.len with
    | some c => c.2 data
    | none =>
      let some tmp ← Flow.toTop (Flow.text mp data "msg_uuid") | return .fail
      let msgUuid ← Prog.ofOption (tmp.copy uuidBufferSize)
      let some fromRtUuid ← Flow.toTop (Flow.text mp data "from_rt_uuid") | return .fail
      Flow.toTop (Flow.host (Atom.send (.reply msgUuid fromRtUuid.content 500)))

/-- The part of `cc_node_set_state` that touches the node. -/
def nodeSetState : Flow mp Unit := do
  Prog.each (fun a => do
    if (← Flow.serialize a true).isNone then Prog.undefined) (← Prog.read).actors

/-- `cc_node_handle_message`. -/
def handleMessage (data : Bytes) : Top mp Unit := do
  if (← parseMessage mp data)=.success then
    let h := (← Prog.read).host
    if h.checkpointing && h.state=.started then
      Flow.toTop (nodeSetState mp)

/-- Proxy link, storage tunnel and proxy tunnel of `cc_node_connect_to_proxy`. -/
def nodeConnectTunnels (peerId : Text) : Flow mp Unit := do
  if (← Prog.read).proxyLink.isNone then
    match ← Flow.linkCreate peerId true with
    | none => return
    | some l => Prog.act (.setProxyLink l)
  if !(← Flow.storageTunnel peerId) then return
  let _ ← Flow.proxyTunnel peerId

/-- Whether the transport leads to another proxy than the proxy link. -/
def isNewProxy (peerId : Text) : Atom Bool := do
  match (← get).proxyLink with
  | none => return false
  | some l => return !strncmpEq (← Atom.link l).peerId peerId.ptr peerId.len

/-- `cc_node_connect_to_proxy` with an enabled transport. -/
def nodeConnectTo (peerId : Text) : Top mp Unit := do
  if ← look (isNewProxy peerId) then
    Prog.act .forgetProxy
    Flow.toTop (nodeConnectTunnels mp peerId)
  else
    Flow.toTop (nodeConnectTunnels mp peerId)

/-- `cc_node_connect_to_proxy` from the join reply to the wait for its tunnels. -/
def nodeConnectStart : Top mp Unit := do
  let s ← Prog.read
  match s.host.transport with
  | none => Prog.undefined
  | some transport =>
    if s.host.state ≠ .stop ∧ transport.state=.enabled then
      nodeConnectTo mp ⟨transport.peerId,strnlen transport.peerId uuidBufferSize⟩

/-- `cc_node_connect_to_proxy` once its tunnels are no longer pending. -/
def nodeConnectSetup (newProxy : Bool) : Flow mp Unit := do
  let s ← Prog.read
  match s.storageTunnel,s.proxyTunnel with
  | some storage,some proxy =>
    if (← look (Atom.tunnel storage)).state ≠ .enabled then return
    if (← look (Atom.tunnel proxy)).state ≠ .enabled then return
    let _ ← Flow.host do
      Atom.needProxy
      Atom.request (if newProxy then .nodeSetup else .wakeSignal) .nodeSetup none
  | _,_ => Prog.undefined

/-- The end of `cc_node_connect_to_proxy`. -/
def nodeConnectDone : Top mp Unit := do
  let s ← Prog.read
  if s.host.state=.started then
    Prog.each (actorConnectPorts mp) s.actors

/-- `cc_link_deserialize` and its use in `cc_node_get_state`. -/
def linkDeserialize (buffer : Bytes) : Flow mp Bool := do
  let some peerId ← Flow.text mp buffer "peer_id" | return false
  let some isProxy ← Prog.ofOption (Coder.decodeBoolFromMap mp buffer (ascii "is_proxy"))
    | return false
  let some l ← Flow.linkCreate peerId isProxy | return false
  if (← look (Atom.link l)).isProxy then
    Prog.act (.setProxyLink l)
  return true

/-- `cc_tunnel_deserialize` and its use in `cc_node_get_state`, which takes the storage
and the proxy tunnel without a reference. -/
def tunnelDeserialize (buffer : Bytes) : Flow mp Bool := do
  let some id ← Flow.text mp buffer "id" | return false
  let some peerId ← Flow.text mp buffer "peer_id" | return false
  let some state ← Flow.number mp buffer "state" | return false
  let some type ← Flow.number mp buffer "type" | return false
  let some t ← Flow.tunnelCreate (.ofUInt32 type) (.ofUInt32 state) peerId (some id)
    | return false
  match (← look (Atom.tunnel t)).type with
  | .storage => Prog.act (.restoreStorage t)
  | .proxy => Prog.act (.restoreProxy t)
  | _ => pure ()
  return true

/-- A loop of `cc_node_get_state` over an array; the first failure ends it. -/
def restoreEach (restore : Bytes → Top mp Bool) (array : Bytes) : Nat → Nat → Top mp Bool
  | 0,_ => return true
  | n+1,i => do
      match ← Prog.ofOption (Coder.getValueFromArray mp array i) with
      | none => restoreEach restore array n (i+1)
      | some v =>
        if !(← restore v) then return false
        restoreEach restore array n (i+1)

def restoreAll (restore : Bytes → Top mp Bool) (buffer : Bytes) (key : String) : Top mp Bool := do
  if !(← Prog.ofOption (Coder.hasKey mp buffer (ascii key))) then return true
  let some array ← Flow.toTop (Flow.value mp buffer key) | return true
  restoreEach mp restore array (← Prog.ofOption (Coder.getSizeOfArray mp array)) 0

/-- The state in which a node wakes up. -/
def restoreNodeState (buffer : Bytes) : Flow mp Unit := do
  if ← Prog.ofOption (Coder.hasKey mp buffer (ascii "state")) then
    match ← Flow.number mp buffer "state" with
    | none => pure ()
    | some state =>
      let state := if NodeState.ofUInt32 state=.doSleep then .started else .ofUInt32 state
      Flow.host (Atom.setNodeState state)

/-- `cc_node_get_state`, without the attributes and URIs of the node. -/
def nodeGetState (buffer : Bytes) : Top mp Bool := do
  let some id ← Flow.toTop (Flow.text mp buffer "id") | return false
  let id ← Prog.ofOption (id.copy uuidBufferSize)
  Flow.toTop (Flow.host (Atom.modifyHost fun h => {h with id := id}))
  Flow.toTop (restoreNodeState mp buffer)
  if !(← restoreAll mp (fun b => Flow.toTop (linkDeserialize mp b)) buffer "links") then
    return false
  if !(← restoreAll mp (fun b => Flow.toTop (tunnelDeserialize mp b)) buffer "tunnels") then
    return false
  restoreAll mp (fun b => do return (← actorCreate mp b).isSome) buffer "actors"

def popActors : Nat → Top mp Unit
  | 0 => pure ()
  | n+1 => do
      Prog.act .popActor
      popActors n

/-- `cc_node_reset`. -/
def nodeReset : Top mp Unit := do
  popActors mp (← Prog.read).actors.length
  Prog.act .forgetProxy
  Flow.toTop (Flow.host (Atom.modifyHost fun h => {h with pendingMsgs := []}))

def nodeNewId : Flow mp Unit :=
  Flow.host do
    let id ← Atom.uuid []
    Atom.modifyHost fun h => {h with id := id}

/-- `cc_node_setup` with the content of the state file. -/
def nodeSetup : Option Bytes → Top mp Unit
  | none => Flow.toTop (nodeNewId mp)
  | some buffer => do
    if !(← nodeGetState mp buffer) then
      nodeReset mp
      Flow.toTop (nodeNewId mp)

/-- The request of `cc_node_enter_sleep`. -/
def nodeEnterSleep : Flow mp Unit :=
  Flow.host do
    Atom.needTransport
    Atom.needProxy
    if (← Atom.request .sleepRequest .enterSleep none)=.success then
      Atom.setNodeState .pending
    else
      Atom.setNodeState .started

end Top

/-- A node that holds nothing yet. -/
def Node.init (h : Host) : Node where
  host := h
  portMem := .empty
  actorMem := .empty
  tunnelMem := .empty
  linkMem := .empty
  actors := []
  tunnels := []
  links := []
  storageTunnel := none
  proxyTunnel := none
  proxyLink := none

/-- What a node can be asked to do. `transport` stands for the transport layer, with the
reply to a join request; `connectStart`, `connectSetup` and `connectDone` are the parts of
`cc_node_connect_to_proxy` between its waits for other events. -/
inductive Event
  | start (file : Option Bytes)
  | message (data : Bytes)
  | transport (client : Option Transport)
  | connectStart
  | connectSetup (newProxy : Bool)
  | connectDone
  | schedule
  | stop
  | enterSleep
  | actorCreate (root : Bytes)
  | actorConnectPorts (a : Ref)
  | actorFree (a : Ref) (removeFromRegistry : Bool)
  | portConnect (p : Ref)
  | portConnectLocal (p : Ref)
  | portDisconnect (p : Ref)
  deriving DecidableEq

namespace Event

variable (mp : Msgpuck)

open Prog (look)

/-- An actor of the node. -/
def needActor (a : Ref) : Top mp Unit := do
  if a ∉ (← Prog.read).actors then Prog.undefined

/-- A port of an actor of the node. -/
def needPort (p : Ref) : Top mp Unit := do
  let a := (← look (Atom.port p)).actor
  needActor mp a
  if p ∉ (← look (Atom.actor a)).ports then Prog.undefined

def program : Event → Top mp Unit
  | .start file => do
    let s ← Prog.read
    if s ≠ .init s.host then Prog.undefined
    Top.nodeSetup mp file
  | .message data => Top.handleMessage mp data
  | .transport client =>
    Flow.toTop (Flow.host (Atom.modifyHost fun h => {h with transport := client}))
  | .connectStart => Top.nodeConnectStart mp
  | .connectSetup newProxy => Flow.toTop (Top.nodeConnectSetup mp newProxy)
  | .connectDone => Top.nodeConnectDone mp
  | .schedule => Flow.toTop (Flow.fireActors mp)
  | .stop => Flow.toTop (Flow.nodeStop mp)
  | .enterSleep => Flow.toTop (Top.nodeEnterSleep mp)
  | .actorCreate root => do
    let _ ← Top.actorCreate mp root
  | .actorConnectPorts a => do
    needActor mp a
    Top.actorConnectPorts mp a
  | .actorFree a removeFromRegistry => Prog.act (.base (.freeActor a removeFromRegistry))
  | .portConnect p => do
    needPort mp p
    Flow.toTop (Flow.portConnect mp p)
  | .portConnectLocal p => do
    needPort mp p
    let _ ← Flow.toTop (Flow.connectLocal p)
  | .portDisconnect p => do
    needPort mp p
    Prog.act (.base (.disconnect p))

/-- An event together with the outcomes of the platform calls made for it. -/
def run (e : Event × Fate) : Top mp Unit := do
  Flow.toTop (Flow.host (Atom.modifyHost fun h => {h with fate := e.2}))
  program mp e.1

/-- The node after an event. -/
def step (e : Event × Fate) (s : Node) : Option Node := ((run mp e).run s).map fun r => r.2.1

/-- All operations of the event meet `ok`. -/
def Admissible (ok : TopOp → Node → Prop) (e : Event × Fate) (s : Node) : Prop :=
  ∀ u t ops, (run mp e).run s=some (u,t,ops) → Runs (TopOp.apply mp) ok s ops t

/-- Executable form of an admissible step. -/
def stepChecked (ok : TopOp → Node → Prop) [∀ o s, Decidable (ok o s)] (e : Event × Fate)
    (s : Node) : Option Node :=
  match (run mp e).run s with
  | none => none
  | some (_,t,ops) => if (runChecked (TopOp.apply mp) ok ops s).isSome then some t else none

def runAll (step : Event × Fate → Node → Option Node) : List (Event × Fate) → Node → Option Node
  | [],s => some s
  | e::es,s => (step e s).bind (runAll step es)

/-- A run whose events are checked each against its own condition. -/
theorem runs_of_stepCheckedBy {ok : Event × Fate → TopOp → Node → Prop}
    [∀ e o s, Decidable (ok e o s)] {es : List (Event × Fate)} {s t : Node}
    (h : runAll (fun e => stepChecked mp (ok e) e) es s=some t) :
    Runs (step mp) (fun e => Admissible mp (ok e) e) s es t := by
  induction es generalizing s with
  | nil =>
    cases h
    exact .nil _
  | cons e es ih =>
    obtain ⟨u,hu,ht⟩ := Option.bind_eq_some_iff.mp h
    change stepChecked mp (ok e) e s=some u at hu
    unfold stepChecked at hu
    split at hu
    · cases hu
    · next v ops hrun =>
      split at hu
      · next hops =>
        cases hu
        refine .cons ?_ (by rw [step,hrun]; rfl) (ih ht)
        intro a w ops' hrun'
        rw [hrun] at hrun'
        cases hrun'
        obtain ⟨w,hw⟩ := Option.isSome_iff_exists.mp hops
        have hruns := Runs.of_runChecked hw
        exact hruns.unique ((run mp e).runs hrun) ▸ hruns
      · cases hu

theorem runs_of_stepChecked {ok : TopOp → Node → Prop} [∀ o s, Decidable (ok o s)]
    {es : List (Event × Fate)} {s t : Node} (h : runAll (stepChecked mp ok) es s=some t) :
    Runs (step mp) (Admissible mp ok) s es t :=
  @runs_of_stepCheckedBy mp (fun _ => ok) _ es s t h

theorem runs_of_step {es : List (Event × Fate)} {s t : Node} (h : runAll (step mp) es s=some t) :
    Runs (step mp) (fun _ _ => True) s es t := by
  induction es generalizing s with
  | nil =>
    cases h
    exact .nil _
  | cons e es ih =>
    obtain ⟨u,hu,ht⟩ := Option.bind_eq_some_iff.mp h
    exact .cons trivial hu (ih ht)

/-- What every admissible operation keeps holds after all admissible events. -/
theorem runs_invariant {ok : TopOp → Node → Prop} {P : Node → Prop}
    (h : ∀ o s t, ok o s → TopOp.apply mp o s=some t → P s → P t) {es : List (Event × Fate)}
    {s t : Node} (hr : Runs (step mp) (Admissible mp ok) s es t) (hs : P s) : P t := by
  refine hr.invariant P (fun e u v hok hv hu => ?_) hs
  obtain ⟨⟨⟨⟩,v',ops⟩,hrun,he⟩ := Option.map_eq_some_iff.mp hv
  cases he
  exact (hok () v' ops hrun).invariant P h hu

end Event

end CalvinConstrained
