import CalvinConstrained.Runtime.Answer
import CalvinConstrained.Runtime.LocalTransfer
import CalvinConstrained.Runtime.PeerMessage
import CalvinConstrained.Runtime.TokenTransfer

namespace CalvinConstrained

open Prog

section Checkpoint

/-- What two ends of a route have to do with each other is as in `s`. -/
structure Node.SameEnds (s t : Node) : Prop where
  port : t.portMem=s.portMem
  tunnel : t.tunnelMem=s.tunnelMem
  actors : t.actors=s.actors
  actor : ∀ a, (t.actorMem.get a).map Actor.core=(s.actorMem.get a).map Actor.core
  nextActor : t.actorMem.next=s.actorMem.next
  transport : t.host.transport=s.host.transport
  id : t.host.id=s.host.id

/-- What a checkpoint leaves of a node: attributes, instance states and outcomes still to come may
differ. -/
structure Node.Checkpointed (s t : Node) : Prop extends s.SameEnds t where
  sent : t.host.sent=s.host.sent

theorem Node.SameEnds.refl (s : Node) : s.SameEnds s := ⟨rfl,rfl,rfl,fun _ => rfl,rfl,rfl,rfl⟩

theorem Node.SameEnds.of_host {s : Node} {h : Host} (htransport : h.transport=s.host.transport)
    (hid : h.id=s.host.id) : s.SameEnds {s with host := h} :=
  ⟨rfl,rfl,rfl,fun _ => rfl,rfl,htransport,hid⟩

namespace Atom

section Fates

variable {P : Node → Prop} (hP : ∀ s f, P s → P {s with host := {s.host with fate := f}})

include hP

theorem fate_alloc : Preserves P alloc := by
  intro s b t h hs
  unfold alloc at h
  split at h <;> cases h
  · exact hs
  · exact hP s _ hs

theorem fate_allocN (n : Nat) : Preserves P (allocN n) := by
  induction n with
  | zero => exact preserves_pure _
  | succ n ih =>
    refine preserves_bind (fate_alloc hP) fun b => ?_
    split
    · exact preserves_pure _
    · exact ih

theorem fate_listAddN (id : Bytes) (data : Option Bytes) (attributes : List Attribute) :
    Preserves P (listAddN id data attributes) := by
  refine preserves_bind (fate_allocN hP 2) fun b => ?_
  split <;> exact preserves_pure _

theorem fate_addAllEncoded (entries : List (Bytes × Bytes)) (attributes : List Attribute) :
    Preserves P (addAllEncoded attributes entries) := by
  induction entries generalizing attributes with
  | nil => exact preserves_pure _
  | cons e entries ih =>
    refine preserves_bind (preserves_bind (fate_allocN hP 3) fun b => ?_) fun r => ?_
    · split <;> exact preserves_pure _
    · split
      · exact preserves_pure _
      · exact ih _

end Fates

variable {s₀ : Node}

theorem checkpoint_fate (s : Node) (f : Fate) (hs : s₀.Checkpointed s) :
    s₀.Checkpointed {s with host := {s.host with fate := f}} :=
  ⟨⟨hs.port,hs.tunnel,hs.actors,hs.actor,hs.nextActor,hs.transport,hs.id⟩,hs.sent⟩

theorem checkpoint_setActor {a : Ref} {x y : Actor} (h : y.core=x.core) :
    Ensures (fun s => s₀.Checkpointed s ∧ s.actorMem.get a=some x) (setActor a y) fun _ =>
      s₀.Checkpointed := by
  rintro s u t hset ⟨hs,hx⟩
  cases hset
  refine ⟨⟨hs.port,hs.tunnel,hs.actors,fun b => ?_,(Heap.next_set _ _ _).trans hs.nextActor,
    hs.transport,hs.id⟩,hs.sent⟩
  rw [← hs.actor b]
  change ((s.actorMem.set a y).get b).map Actor.core=_
  rw [Heap.get_set hx]
  split
  · next hb => rw [hb,hx,Option.map_some,Option.map_some,h]
  · rfl

theorem checkpoint_read (a : Ref) (x : Actor) (s : Node) (f : Fate)
    (hs : s₀.Checkpointed s ∧ s.actorMem.get a=some x) :
    s₀.Checkpointed {s with host := {s.host with fate := f}} ∧
      ({s with host := {s.host with fate := f}} : Node).actorMem.get a=some x :=
  ⟨checkpoint_fate s f hs.1,hs.2⟩

theorem checkpoint_managed (mp : Msgpuck) (a : Ref) :
    Preserves s₀.Checkpointed (getManagedAttributes mp a) := by
  have hdrop : ∀ {x : Actor} {α : Type} {m : Atom α},
      Preserves (fun s => s₀.Checkpointed s ∧ s.actorMem.get a=some x) m →
      Ensures (fun s => s₀.Checkpointed s ∧ s.actorMem.get a=some x) m fun _ => s₀.Checkpointed :=
    fun hm => ensures_mono hm (fun _ h => h) fun _ _ h => h.1
  refine ensures_bind (ensures_actor a) fun x => ?_
  have hread := @checkpoint_read s₀ a x
  split
  · exact hdrop (preserves_pure _)
  split
  · exact hdrop preserves_undefined
  · split
    · exact hdrop (fate_addAllEncoded hread _ _)
    · exact hdrop (preserves_pure _)
  · refine ensures_bind (fate_addAllEncoded hread _ _) fun r => ?_
    split
    · exact hdrop (preserves_pure _)
    split
    · exact hdrop (preserves_pure _)
    refine ensures_bind (fate_listAddN hread _ _ _) fun r => ?_
    split
    · exact hdrop (preserves_pure _)
    · exact ensures_bind (checkpoint_setActor rfl) fun _ => preserves_pure _

theorem checkpoint_calvinsys (mp : Msgpuck) (a : Ref) :
    Preserves s₀.Checkpointed (calvinsysGetAttributes mp a) := by
  refine preserves_bind preserves_get fun s =>
    preserves_bind (fate_alloc checkpoint_fate) fun b => ?_
  split
  · exact preserves_pure _
  refine ensures_bind (ensures_actor a) fun x =>
    ensures_bind (fate_listAddN (checkpoint_read a x) _ _ _) fun r => ?_
  split
  · exact ensures_mono (preserves_pure _) (fun _ h => h) fun _ _ h => h.1
  · exact ensures_bind (checkpoint_setActor rfl) fun _ => preserves_pure _

theorem checkpoint_serialize (mp : Msgpuck) (a : Ref) (includeState : Bool) :
    Preserves s₀.Checkpointed (actorSerialize mp a includeState) := by
  refine preserves_bind (preserves_actor a) fun x => ?_
  split
  · exact preserves_pure _
  refine preserves_bind (checkpoint_managed mp a) fun r => ?_
  split
  · exact preserves_pure _
  refine preserves_bind (checkpoint_calvinsys mp a) fun r => ?_
  split
  · exact preserves_pure _
  · exact preserves_bind (preserves_actor a) fun _ => preserves_bind (preserves_readPorts _)
      fun _ => preserves_bind (preserves_readPorts _) fun _ => preserves_pure _

end Atom

/-- The checkpoint after a message changes nothing that later messages depend on. -/
theorem nodeSetState_checkpointed {mp : Msgpuck} {s t : Node} {u : Unit} {ops : List Op}
    (h : (Top.nodeSetState mp).run s=some (u,t,ops)) : s.Checkpointed t := by
  have hspec : Spec (fun _ _ => True) s.Checkpointed (Top.nodeSetState mp) fun _ =>
      s.Checkpointed := by
    refine spec_bind (spec_read (Q := fun _ => s.Checkpointed) fun _ hp => hp) fun v =>
      spec_each fun a _ => spec_bind (Q := fun _ => s.Checkpointed)
        (spec_perform _ fun v r w hr _ hv => Atom.checkpoint_serialize mp a true v r w hr hv)
        fun r => ?_
    split
    · exact spec_undefined
    · exact spec_pure _ fun _ hp => hp
  exact hspec s u t ops h ((Top.nodeSetState mp).runs h) ⟨.refl s,rfl⟩

end Checkpoint

namespace Node

def portQueue (s : Node) (p : Ref) : Option (Fifo Bytes) := (s.portMem.get p).bind Port.fifo

/-- The actor of the port is enabled. -/
def Receives (s : Node) (p : Ref) : Prop :=
  ∀ x ∈ s.portMem.get p,∀ a ∈ s.actorMem.get x.actor,a.state=.enabled

instance (s : Node) (p : Ref) : Decidable (s.Receives p) := by
  unfold Receives
  infer_instance

end Node

/-- Two nodes and the messages between them as bytes, oldest first: TOKENs one way and
TOKEN_REPLYs the other. `written` and `accepted` record the tokens that entered the two queues. -/
structure TokenWire where
  sender : Node
  receiver : Node
  tokens : List Bytes
  replies : List Bytes
  written : List Bytes
  accepted : List Bytes

/-- `produce` and `consume` are what the actors at the two ends do to their port, `receiverState`
what other events make of the actor that receives. -/
inductive WireEvent
  | produce (data : Bytes)
  | transmit (fate : Fate)
  | deliverToken (fate : Fate)
  | deliverReply (fate : Fate)
  | consume
  | receiverState (state : ActorState)

/-- What an actor writes is one value. -/
def WireEvent.Whole (mp : Msgpuck) : WireEvent → Prop
  | .produce data => mp.IsValue data
  | _ => True

namespace TokenWire

section Steps

variable (mp : Msgpuck)

/-- The payload of a TOKEN that the port has sent. -/
def tokenPayload (p : Ref) (t : Node) : Outgoing → Option Bytes
  | .token _ _ n token =>
    ((Encode.token mp p token n t).bind Prod.fst).map fun d => d.encode mp
  | _ => none

/-- The payload of a TOKEN_REPLY, which goes back through the tunnel of its TOKEN. -/
def replyPayload (tunnelId : Bytes) (t : Node) : Outgoing → Option Bytes
  | .tokenReply toRtUuid peerPortId portId n ack =>
    ((Encode.tokenReply mp toRtUuid tunnelId peerPortId portId n ack t).bind Prod.fst).map
      fun d => d.encode mp
  | _ => none

/-- The tunnel that a message names. -/
def tunnelOf (m : Bytes) : Option Bytes :=
  ((Coder.decodeStringFromMap mp m (ascii "tunnel_id")).join).map Text.content

/-- The sequence number of a TOKEN. -/
def sequenceOf (m : Bytes) : Option UInt32 := do
  let v ← (Coder.getValueFromMap mp m (ascii "value")).join
  (Coder.decodeUintFromMap mp v (ascii "sequencenbr")).join

/-- The token that has entered a queue. -/
def entered (f g : Fifo Bytes) : Option Bytes :=
  if g.writePos=f.writePos then none else g.slot f.writePos

variable (p q : Ref)

/-- A step of two nodes with the out-port `p` and the in-port `q`. -/
def step : WireEvent → TokenWire → Option TokenWire
  | .produce data,w => do
      let (f,_) ← Atom.portFifo p w.sender
      let (_,sender) ← Atom.updatePort p (fun x => {x with fifo := some (f.write data).2}) w.sender
      return {w with
        sender := sender
        written := if (f.write data).1=.success then w.written++[data] else w.written}
  | .transmit fate,w => do
      let s := w.sender.withFate fate
      let (_,t,_) ← (Flow.portTransmit mp p).run s
      return {w with
        sender := t
        tokens := w.tokens++(s.sentSince t).filterMap (tokenPayload mp p t)}
  | .deliverToken fate,w =>
      match w.tokens with
      | [] => none
      | m::rest => do
        let s := w.receiver.withFate fate
        let (_,t,_) ← (Top.handleMessage mp m).run s
        let tunnelId ← tunnelOf mp m
        let f ← s.portQueue q
        let g ← t.portQueue q
        return {w with
          receiver := t
          tokens := rest
          replies := w.replies++(s.sentSince t).filterMap (replyPayload mp tunnelId t)
          accepted := w.accepted++(entered f g).toList}
  | .deliverReply fate,w =>
      match w.replies with
      | [] => none
      | m::rest => do
        let (_,t,_) ← (Top.handleMessage mp m).run (w.sender.withFate fate)
        return {w with sender := t,replies := rest}
  | .consume,w => do
      let (f,_) ← Atom.portFifo q w.receiver
      if f.tokensAvailable 1 then
        let (_,receiver) ← Atom.updatePort q
          (fun x => {x with fifo := some (f.peek.2.commitRead true)}) w.receiver
        return {w with receiver := receiver}
      else none
  | .receiverState state,w => do
      let x ← w.receiver.portMem.get q
      let (_,receiver) ← Atom.actorSetState x.actor state w.receiver
      return {w with receiver := receiver}

/-- The branch of `cc_fifo_com_write` marked TODO is not taken. -/
def InOrder : WireEvent → TokenWire → Prop
  | .deliverToken fate,w => ∀ m ∈ w.tokens.head?, ∀ n ∈ sequenceOf mp m,
      ∀ f ∈ w.receiver.portQueue q, w.receiver.Receives q → f.slotsAvailable 1=true →
        fate.allocs.head? ≠ some false → n ≤ f.writePos
  | _,_ => True

instance (e : WireEvent) (w : TokenWire) : Decidable (InOrder mp q e w) := by
  cases e <;> unfold InOrder <;> infer_instance

end Steps

end TokenWire

/-- The end of the route with the out-port, whose queue is `f`. -/
structure Sends (c : TokenRoute) (p : Ref) (f : Fifo Bytes) (s : Node) : Prop where
  transport : ∃ client, s.host.transport=some client ∧ client.state=.enabled
  port : ∃ x t y a, s.portMem.get p=some x ∧ x.state=.enabled ∧ x.direction=.dirOut ∧
    x.tunnel=some t ∧ s.tunnelMem.get t=some y ∧ s.actorMem.get x.actor=some a ∧
    a.state=.enabled ∧ x.fifo=some f ∧ c=⟨s.host.id,x.peerId,y.id,x.id,x.peerPortId⟩
  found : (Atom.portGet (.ofString c.portId) s).map Prod.fst=some (some p)

/-- The end of the route with the in-port, whose queue is `g` and whose actor is in `state`. -/
structure Takes (c : TokenRoute) (q : Ref) (g : Fifo Bytes) (state : ActorState) (s : Node) :
    Prop where
  transport : ∃ client, s.host.transport=some client ∧ client.state=.enabled
  id : s.host.id=c.toRt
  port : ∃ y b, s.portMem.get q=some y ∧ y.fifo=some g ∧ s.actorMem.get y.actor=some b ∧
    b.state=state
  found : (Atom.portGet (.ofString c.peerPortId) s).map Prod.fst=some (some q)

section Ends

variable {mp : Msgpuck} {c : TokenRoute} {p q : Ref} {f g : Fifo Bytes} {state : ActorState}
  {s t : Node}

theorem Node.SameEnds.sameView (h : s.SameEnds t) : SameView (fun x : Port => x) Actor.core s t where
  actors := h.actors
  port := fun p => by rw [h.port]
  actor := h.actor
  nextPort := by rw [h.port]
  nextActor := h.nextActor
  host := trivial

theorem Node.SameEnds.portGet (h : s.SameEnds t) (portId : Text) :
    (Atom.portGet portId t).map Prod.fst=(Atom.portGet portId s).map Prod.fst := by
  refine Atom.portGet_view (g := Actor.ports) (fun _ _ h => h)
    (h.sameView.coarsen (fun x y he => by rw [show x=y from he]) fun x y he => ?_) portId
  have hshape := Actor.shape_of_core he
  simp only [Actor.shape,Prod.mk.injEq] at hshape
  rw [Actor.ports,Actor.ports,hshape.2.2.1,hshape.2.2.2]

theorem Sends.sameEnds (hs : Sends c p f s) (h : s.SameEnds t) : Sends c p f t where
  transport := by
    rw [h.transport]
    exact hs.transport
  port := by
    obtain ⟨x,r,y,a,hx,hstate,hdir,hr,hy,ha,hen,hf,hc⟩ := hs.port
    have hcore := h.actor x.actor
    rw [ha,Option.map_some] at hcore
    obtain ⟨b,hb,hba⟩ := Option.map_eq_some_iff.mp hcore
    refine ⟨x,r,y,b,by rwa [h.port],hstate,hdir,hr,by rwa [h.tunnel],hb,?_,hf,?_⟩
    · have hshape := Actor.shape_of_core hba
      simp only [Actor.shape,Prod.mk.injEq] at hshape
      rw [hshape.2.1,hen]
    · rwa [h.id]
  found := by
    rw [h.portGet]
    exact hs.found

theorem Takes.sameEnds (hs : Takes c q g state s) (h : s.SameEnds t) :
    Takes c q g state t where
  transport := by
    rw [h.transport]
    exact hs.transport
  id := h.id.trans hs.id
  port := by
    obtain ⟨y,b,hy,hg,hb,hstate⟩ := hs.port
    have hcore := h.actor y.actor
    rw [hb,Option.map_some] at hcore
    obtain ⟨a,ha,hab⟩ := Option.map_eq_some_iff.mp hcore
    refine ⟨y,a,by rwa [h.port],hg,ha,?_⟩
    have hshape := Actor.shape_of_core hab
    simp only [Actor.shape,Prod.mk.injEq] at hshape
    rw [hshape.2.1,hstate]
  found := by
    rw [h.portGet]
    exact hs.found

/-- The node after a change of the queue of one port. -/
def Node.setQueue (s : Node) (p : Ref) (x : Port) (f : Fifo Bytes) : Node :=
  {s with portMem := s.portMem.set p {x with fifo := some f}}

theorem updatePort_queue {x : Port} (hx : s.portMem.get p=some x) :
    Atom.updatePort p (fun y => {y with fifo := some f}) s=some ((),s.setQueue p x f) := by
  have hport : Atom.port p s=some (x,s) := by rw [Atom.port,hx,Option.map_some]
  rw [Atom.updatePort,Atom.bind_apply,hport]
  rfl

theorem setQueue_portGet {x : Port} (hx : s.portMem.get p=some x) (f : Fifo Bytes)
    (portId : Text) : (Atom.portGet portId (s.setQueue p x f)).map Prod.fst=
      (Atom.portGet portId s).map Prod.fst := by
  have hport : ∀ r, ((s.setQueue p x f).portMem.get r).map Atom.fixedPart=
      (s.portMem.get r).map Atom.fixedPart := by
    intro r
    change ((s.portMem.set p _).get r).map Atom.fixedPart=_
    rw [Heap.get_set hx]
    split
    · next hr =>
      rw [hr,hx]
      rfl
    · rfl
  have hview : SameView Atom.fixedPart Actor.ports s (s.setQueue p x f) :=
    ⟨rfl,hport,fun _ => rfl,Heap.next_set s.portMem _ _,rfl,trivial⟩
  exact Atom.portGet_view (fun _ _ h => h) hview portId

theorem Sends.setQueue (hs : Sends c p f s) {x : Port} (hx : s.portMem.get p=some x)
    (g : Fifo Bytes) : Sends c p g (s.setQueue p x g) where
  transport := hs.transport
  port := by
    obtain ⟨x',r,y,a,hx',hstate,hdir,hr,hy,ha,hen,-,hc⟩ := hs.port
    cases hx.symm.trans hx'
    exact ⟨_,r,y,a,Heap.get_set_self hx _,hstate,hdir,hr,hy,ha,hen,rfl,hc⟩
  found := by
    rw [setQueue_portGet hx]
    exact hs.found

theorem Takes.setQueue (hs : Takes c q f state s) {x : Port} (hx : s.portMem.get q=some x)
    (g : Fifo Bytes) : Takes c q g state (s.setQueue q x g) where
  transport := hs.transport
  id := hs.id
  port := by
    obtain ⟨x',b,hx',-,hb,hstate⟩ := hs.port
    cases hx.symm.trans hx'
    exact ⟨_,b,Heap.get_set_self hx _,rfl,hb,hstate⟩
  found := by
    rw [setQueue_portGet hx]
    exact hs.found

theorem Takes.actorState (hs : Takes c q g state s) {y : Port} (hy : s.portMem.get q=some y)
    {state' : ActorState} (hset : Atom.actorSetState y.actor state' s=some ((),t)) :
    Takes c q g state' t := by
  obtain ⟨y',b,hy',hg,hb,-⟩ := hs.port
  cases hy.symm.trans hy'
  have hactor : Atom.actor y.actor s=some (b,s) := by rw [Atom.actor,hb,Option.map_some]
  have hset' : Atom.setActor y.actor {b with state := state'} s=some ((),t) := by
    rw [Atom.actorSetState,Atom.bind_apply,hactor] at hset
    exact hset
  cases hset'
  have hports : ∀ a, ((s.actorMem.set y.actor {b with state := state'}).get a).map Actor.ports=
      (s.actorMem.get a).map Actor.ports := by
    intro a
    rw [Heap.get_set hb]
    split
    · next ha =>
      rw [ha,hb]
      rfl
    · rfl
  have hview : SameView Atom.fixedPart Actor.ports s
      {s with actorMem := s.actorMem.set y.actor {b with state := state'}} :=
    ⟨rfl,fun _ => rfl,hports,rfl,Heap.next_set s.actorMem _ _,trivial⟩
  exact {
    transport := hs.transport
    id := hs.id
    port := ⟨y,_,hy,hg,Heap.get_set_self hb _,rfl⟩
    found := by
      rw [Atom.portGet_view (fun _ _ h => h) hview]
      exact hs.found}

theorem Sends.queue (hs : Sends c p f s) : s.portQueue p=some f := by
  obtain ⟨x,-,-,-,hx,-,-,-,-,-,-,hf,-⟩ := hs.port
  rw [Node.portQueue,hx,Option.bind_some,hf]

theorem Takes.queue (hs : Takes c q g state s) : s.portQueue q=some g := by
  obtain ⟨y,-,hy,hg,-⟩ := hs.port
  rw [Node.portQueue,hy,Option.bind_some,hg]

/-- A message is sent or it is not; nothing else depends on it. -/
theorem send_outcome (m : Outgoing) (h : s.host.transport.isSome=true) :
    ∃ r t, Atom.send m s=some (r,t) ∧ s.SameEnds t ∧ t={s with host := t.host} ∧
      t.host.sent=if r=.success then s.host.sent++[m] else s.host.sent := by
  obtain ⟨client,hclient⟩ := Option.isSome_iff_exists.mp h
  unfold Atom.send
  rw [hclient]
  dsimp only
  split
  · exact ⟨_,_,rfl,.of_host rfl rfl,rfl,rfl⟩
  · exact ⟨_,_,rfl,.of_host rfl rfl,rfl,rfl⟩
  · exact ⟨_,_,rfl,.of_host rfl rfl,rfl,rfl⟩

theorem sendToken_eq {x : Port} {r : Ref} {y : Tunnel} (htransport : s.host.transport.isSome=true)
    (hx : s.portMem.get p=some x) (hr : x.tunnel=some r) (hy : s.tunnelMem.get r=some y)
    (token : Option Bytes) (n : UInt32) :
    Atom.sendToken p token n s=Atom.send (.token x.id x.peerPortId n token) s := by
  have hport : Atom.port p s=some (x,s) := by rw [Atom.port,hx,Option.map_some]
  have htunnel : Atom.tunnel r s=some (y,s) := by rw [Atom.tunnel,hy,Option.map_some]
  rw [Atom.sendToken,Atom.bind_apply,Encode.needTransport_eq htransport,Option.bind_some,
    Atom.bind_apply,hport,Option.bind_some,hr]
  dsimp only
  rw [Atom.bind_apply,htunnel,Option.bind_some]

theorem Sends.tokenPayload (hs : Sends c p f s) (portId peerPortId : Bytes) (n : UInt32)
    (token : Option Bytes) :
    TokenWire.tokenPayload mp p s (.token portId peerPortId n token)=some (c.tokenBytes mp n token) := by
  obtain ⟨x,r,y,a,hx,-,-,hr,hy,-,-,-,hc⟩ := hs.port
  obtain ⟨client,hclient,-⟩ := hs.transport
  rw [TokenWire.tokenPayload,Encode.token_eq (by rw [hclient]; rfl) hx hr hy hc]
  rfl

theorem sentSince_of_append {new : List Outgoing} (h : t.host.sent=s.host.sent++new) :
    s.sentSince t=new := by
  rw [Node.sentSince,h,List.drop_left]

/-- `cc_port_transmit` is a transmission of the abstract transfer. -/
theorem Sends.transmit (hs : Sends c p f s) (hsize : f.size ≠ 0) :
    ∃ t sent, (Flow.portTransmit mp p).Yields s () t ∧
      Sends c p (transmitToken mp.encodeNil f sent).2 t ∧
      (s.sentSince t).filterMap (TokenWire.tokenPayload mp p t)=
        (transmitToken mp.encodeNil f sent).1.toList.map fun m =>
          c.tokenBytes mp m.1 (some m.2) := by
  obtain ⟨x,r,y,a,hx,hstate,hdir,hr,hy,ha,hen,hf,hc⟩ := hs.port
  obtain ⟨client,hclient,henabled⟩ := hs.transport
  have hport : Atom.port p s=some (x,s) := by rw [Atom.port,hx,Option.map_some]
  have hactor : Atom.actor x.actor s=some (a,s) := by rw [Atom.actor,ha,Option.map_some]
  have hstart : ∀ {t : Node}, (Flow.portTransmitToken mp p x).Yields s () t →
      (Flow.portTransmit mp p).Yields s () t := by
    intro t ht
    refine yields_bind (yields_look hport) ?_
    rw [if_pos hstate]
    refine yields_bind (yields_look hactor) ?_
    rwa [if_pos hen,if_pos hdir]
  by_cases htokens : f.tokensAvailable 1=true
  swap
  · have htransmit : transmitToken mp.encodeNil f true=(none,f) := by
      rw [transmitToken,if_neg htokens]
    refine ⟨s,true,hstart (yields_bind (yields_look (portFifo_eq hx hf hsize)) ?_),?_,?_⟩
    · rw [if_neg htokens]
      exact yields_pure _ _
    · rwa [htransmit]
    · rw [htransmit,sentSince_of_append (List.append_nil _).symm]
      rfl
  have hs₁ := hs.setQueue hx f.comPeek.2
  have hx₁ : (s.setQueue p x f.comPeek.2).portMem.get p=some {x with fifo := some f.comPeek.2} :=
    Heap.get_set_self hx _
  obtain ⟨result,u,hsend,hends,hu,hsent⟩ := send_outcome (s := s.setQueue p x f.comPeek.2)
    (.token x.id x.peerPortId f.comPeek.1.2 f.comPeek.1.1) (by
      change s.host.transport.isSome=true
      rw [hclient]
      rfl)
  have hsend' := (sendToken_eq (s := s.setQueue p x f.comPeek.2) (by
      change s.host.transport.isSome=true
      rw [hclient]
      rfl) hx₁ hr hy f.comPeek.1.1 f.comPeek.1.2).trans hsend
  have hset : (act (.setFifo p f.comPeek.2) : Flow mp Unit).Yields s ()
      (s.setQueue p x f.comPeek.2) :=
    yields_act (setFifo_apply mp _ hx)
  have hhost := @Flow.yields_host mp _ _ _ _ _ hsend'
  rw [← hu] at hhost
  have hs₂ := hs₁.sameEnds hends
  by_cases hresult : result=.success
  · subst hresult
    have htransmit : transmitToken mp.encodeNil f true=
        (some (f.comPeek.1.2,f.comPeek.1.1.getD mp.encodeNil),f.comPeek.2) := by
      rw [transmitToken,if_pos htokens]
      rfl
    refine ⟨u,true,hstart (yields_bind (yields_look (portFifo_eq hx hf hsize)) ?_),?_,?_⟩
    · rw [if_pos htokens]
      refine yields_bind hset ?_
      simp only [hr]
      exact yields_bind hhost (yields_pure _ _)
    · rwa [htransmit]
    · have hnew : u.host.sent=s.host.sent++[.token x.id x.peerPortId f.comPeek.1.2 f.comPeek.1.1] :=
        hsent.trans (if_pos rfl)
      rw [htransmit,sentSince_of_append hnew,List.filterMap_cons_some (hs₂.tokenPayload _ _ _ _)]
      rfl
  · have hu₁ : u.portMem.get p=some {x with fifo := some f.comPeek.2} := by
      rw [hends.port,hx₁]
    have htransmit : transmitToken mp.encodeNil f false=
        (none,f.comPeek.2.comCancelRead f.comPeek.1.2) := by
      rw [transmitToken,if_pos htokens]
      rfl
    obtain ⟨v,hback,hv,hnew⟩ : ∃ v, (act (.setFifo p (f.comPeek.2.comCancelRead f.comPeek.1.2)) :
        Flow mp Unit).Yields u () v ∧ Sends c p (f.comPeek.2.comCancelRead f.comPeek.1.2) v ∧
        v.host.sent=s.host.sent++[] :=
      ⟨_,yields_act (setFifo_apply mp _ hu₁),hs₂.setQueue hu₁ _,
        (hsent.trans (if_neg hresult)).trans (List.append_nil _).symm⟩
    refine ⟨v,false,hstart (yields_bind (yields_look (portFifo_eq hx hf hsize)) ?_),?_,?_⟩
    · rw [if_pos htokens]
      refine yields_bind hset ?_
      simp only [hr]
      refine yields_bind hhost ?_
      rw [if_pos hresult]
      exact hback
    · rwa [htransmit]
    · rw [htransmit,sentSince_of_append hnew]
      rfl

/-- The outcome of the first allocation. -/
def Node.allocates (s : Node) : Bool := s.host.fate.allocs.headD true

theorem alloc_outcome (s : Node) : ∃ t, Atom.alloc s=some (s.allocates,t) ∧ s.Checkpointed t ∧
    t={s with host := t.host} := by
  unfold Atom.alloc Node.allocates
  split
  · next hnil =>
    rw [hnil]
    exact ⟨_,rfl,⟨.refl s,rfl⟩,rfl⟩
  · next b rest hcons =>
    rw [hcons]
    exact ⟨_,rfl,⟨.of_host rfl rfl,rfl⟩,rfl⟩

/-- `cc_node_handle_token` at the in-port. -/
theorem Takes.handleToken (hs : Takes c q g state s) (hsize : g.size ≠ 0) (data : Bytes)
    (n : UInt32) : ∃ u, (Flow.handleToken mp q data n).Yields s
        (CalvinConstrained.handleToken state s.allocates g data n).1 u ∧
      Takes c q (CalvinConstrained.handleToken state s.allocates g data n).2 state u ∧
      u.host.sent=s.host.sent := by
  obtain ⟨y,b,hy,hg,hb,hstate⟩ := hs.port
  have hport : Atom.port q s=some (y,s) := by rw [Atom.port,hy,Option.map_some]
  have hactor : Atom.actor y.actor s=some (b,s) := by rw [Atom.actor,hb,Option.map_some]
  have hrest : ∀ {r : Result} {u : Node}, (state=.enabled → (do
      let f ← look (Atom.portFifo q)
      if !f.slotsAvailable 1 then
        return .fail
      if !(← Flow.host Atom.alloc) then
        return .fail
      Prog.act (.setFifo q (f.comWrite data n).2)
      return (f.comWrite data n).1 : Flow mp Result).Yields s r u) → (state ≠ .enabled → r=.fail ∧ u=s) →
      (Flow.handleToken mp q data n).Yields s r u := by
    intro r u henabled hother
    refine yields_bind (yields_look hport) (yields_bind (yields_look hactor) ?_)
    by_cases hen : state=.enabled
    · rw [if_neg (by rw [hstate,hen]; decide)]
      exact henabled hen
    · obtain ⟨rfl,rfl⟩ := hother hen
      rw [if_pos (by rwa [hstate])]
      exact yields_pure _ _
  unfold CalvinConstrained.handleToken
  split
  swap
  · next hen => exact ⟨s,hrest (fun h => absurd h hen) fun _ => ⟨rfl,rfl⟩,hs,rfl⟩
  next hen =>
  split
  swap
  · next hslots =>
    refine ⟨s,hrest (fun _ => yields_bind (yields_look (portFifo_eq hy hg hsize)) ?_)
      fun h => absurd hen h,hs,rfl⟩
    rw [if_pos (by rw [Bool.not_eq_true] at hslots; rw [hslots]; rfl)]
    exact yields_pure _ _
  next hslots =>
  obtain ⟨v,halloc,hv,hvs⟩ := alloc_outcome s
  have hhost := @Flow.yields_host mp _ _ _ _ _ halloc
  rw [← hvs] at hhost
  have hqueue : ∀ {r : Result} {u : Node}, (do
      if !s.allocates then
        return .fail
      Prog.act (.setFifo q (g.comWrite data n).2)
      return (g.comWrite data n).1 : Flow mp Result).Yields v r u →
      (Flow.handleToken mp q data n).Yields s r u := by
    intro r u h
    refine hrest (fun _ => yields_bind (yields_look (portFifo_eq hy hg hsize)) ?_)
      fun h => absurd hen h
    rw [if_neg (by rw [hslots]; decide)]
    exact yields_bind hhost h
  split
  · next hmem =>
    have hvy : v.portMem.get q=some y := by rw [hv.port,hy]
    refine ⟨v.setQueue q y (g.comWrite data n).2,hqueue ?_,(hs.sameEnds hv.toSameEnds).setQueue hvy _,
      hv.sent⟩
    rw [if_neg (by rw [hmem]; decide)]
    exact yields_bind (yields_act (setFifo_apply mp _ hvy)) (yields_pure _ _)
  · next hmem =>
    refine ⟨v,hqueue ?_,hs.sameEnds hv.toSameEnds,hv.sent⟩
    rw [if_pos (by rw [Bool.not_eq_true] at hmem; rw [hmem]; rfl)]
    exact yields_pure _ _

theorem Takes.replyPayload (hs : Takes c q g state s) (n : UInt32) (ack : Bool) :
    TokenWire.replyPayload mp c.tunnelId s (.tokenReply c.fromRt c.peerPortId c.portId n ack)=
      some (c.replyBytes mp n ack) := by
  obtain ⟨client,hclient,-⟩ := hs.transport
  rw [TokenWire.replyPayload,Encode.tokenReply_eq (by rw [hclient]; rfl) hs.id]
  rfl

/-- A TOKEN enters the queue or not, and the reply that says which may be lost. -/
theorem Takes.tokenArrives (hs : Takes c q g state s) (hsize : g.size ≠ 0) (data : Bytes)
    (n : UInt32) : ∃ r u new, (Flow.tokenArrives mp c n data).Yields s r u ∧
      Takes c q (CalvinConstrained.handleToken state s.allocates g data n).2 state u ∧
      u.host.sent=s.host.sent++new ∧ (new=[] ∨ new=[.tokenReply c.fromRt c.peerPortId c.portId n
        (decide ((CalvinConstrained.handleToken state s.allocates g data n).1=.success))]) := by
  obtain ⟨found,hfound,hq⟩ := Option.map_eq_some_iff.mp hs.found
  obtain ⟨u,hyields,hu,hsent⟩ := hs.handleToken hsize data n
  obtain ⟨client,hclient,-⟩ := hu.transport
  have htransport : u.host.transport.isSome=true := by rw [hclient]; rfl
  obtain ⟨r,v,hsend,hends,hv,hnew⟩ := send_outcome (s := u)
    (.tokenReply c.fromRt c.peerPortId c.portId n
      (decide ((CalvinConstrained.handleToken state s.allocates g data n).1=.success))) htransport
  have hreply : (do
      Atom.needTransport
      Atom.send (.tokenReply c.fromRt c.peerPortId c.portId n
        (decide ((CalvinConstrained.handleToken state s.allocates g data n).1=.success))) :
          Atom Result) u=some (r,v) := by
    rw [Atom.bind_apply,Encode.needTransport_eq htransport,Option.bind_some,hsend]
  have hhost := @Flow.yields_host mp _ _ _ _ _ hreply
  rw [← hv] at hhost
  rw [hsent] at hnew
  have hlook : Atom.portGet (.ofString c.peerPortId) s=some (some q,found.2) := by rw [hfound,← hq]
  have harrives : (Flow.tokenArrives mp c n data).Yields s r v :=
    yields_bind (yields_look hlook) (yields_bind hyields (yields_bind (yields_pure _ _) hhost))
  by_cases hr : r=.success
  · exact ⟨r,v,_,harrives,hu.sameEnds hends,hnew.trans (if_pos hr),.inr rfl⟩
  · exact ⟨r,v,[],harrives,hu.sameEnds hends,
      (hnew.trans (if_neg hr)).trans (List.append_nil _).symm,.inl rfl⟩

/-- `cc_node_handle_token_reply` at the out-port. -/
theorem Sends.replyArrives (hs : Sends c p f s) (hsize : f.size ≠ 0) (n : UInt32) (ack : Bool) :
    ∃ u, (Flow.replyArrives mp c n ack).Yields s .success u ∧
      Sends c p (handleTokenReply f (if ack then .ack else .nack) n) u := by
  obtain ⟨found,hfound,hp⟩ := Option.map_eq_some_iff.mp hs.found
  obtain ⟨x,-,-,-,hx,-,-,-,-,-,-,hf,-⟩ := hs.port
  have hlook : Atom.portGet (.ofString c.portId) s=some (some p,found.2) := by rw [hfound,← hp]
  have hset : ∀ g, (act (.setFifo p g) : Flow mp Unit).Yields s () (s.setQueue p x g) :=
    fun g => yields_act (setFifo_apply mp _ hx)
  refine ⟨s.setQueue p x (handleTokenReply f (if ack then .ack else .nack) n),
    yields_bind (t := s.setQueue p x _) (a := ()) (yields_bind (yields_look hlook) ?_)
      (yields_pure _ _),hs.setQueue hx _⟩
  cases ack with
  | true => exact yields_bind (yields_look (portFifo_eq hx hf hsize)) (hset _)
  | false => exact yields_bind (yields_look (portFifo_eq hx hf hsize)) (hset _)

/-- What a message has asked for, up to the checkpoint that may follow. -/
theorem handleMessage_parsed {data : Bytes} {ops : List TopOp}
    (hrun : (Top.handleMessage mp data).run s=some ((),t,ops)) :
    ∃ r u, (Top.parseMessage mp data).Yields s r u ∧ u.Checkpointed t := by
  obtain ⟨r,u,hparse,hrest⟩ := Yields.of_bind ⟨ops,hrun⟩
  refine ⟨r,u,hparse,?_⟩
  split at hrest
  swap
  · obtain ⟨-,rfl⟩ := hrest.unique (yields_pure _ _)
    exact ⟨.refl _,rfl⟩
  obtain ⟨v,w,hread,hcheck⟩ := hrest.of_bind
  obtain ⟨rfl,rfl⟩ := hread.unique (yields_read u)
  dsimp only at hcheck
  split at hcheck
  · obtain ⟨ops',hstate⟩ := hcheck.of_lift
    exact nodeSetState_checkpointed hstate
  · obtain ⟨-,rfl⟩ := hcheck.unique (yields_pure _ _)
    exact ⟨.refl _,rfl⟩

theorem handleMessage_checkpointed {data : Bytes} {m : Flow mp Result} {r : Result} {u : Node}
    {ops : List TopOp} (hparse : (Top.parseMessage mp data).run s=(Flow.toTop m).run s)
    (hm : m.Yields s r u) (hrun : (Top.handleMessage mp data).run s=some ((),t,ops)) :
    u.Checkpointed t := by
  obtain ⟨r',u',⟨ops',hread⟩,hcheck⟩ := handleMessage_parsed hrun
  obtain ⟨-,rfl⟩ := Yields.unique ⟨ops',hparse.symm.trans hread⟩ (yields_lift hm)
  exact hcheck

end Ends

namespace TokenWire

section Messages

variable {mp : Msgpuck} (hmp : mp.Lawful) {c : TokenRoute} (hc : c.Short) {data : Bytes}
  (hdata : mp.IsValue data) (n : UInt32)

include hmp hc hdata

theorem tunnelOf_token : tunnelOf mp (c.tokenBytes mp n (some data))=some c.tunnelId := by
  have htoken : ∀ b, some data=some b → mp.IsValue b := fun b hb => by cases hb; exact hdata
  obtain ⟨-,-,rtunnel,-,-,-,htunnel,-⟩ := tunnelData_fields hmp
    (TokenRoute.valid_tokenMessage hmp hc (n := n) htoken) hc.fromRt hc.tunnelId
  change (Option.map Text.content (Coder.decodeStringFromMap mp (tunnelBytes mp _ _ _ _)
    (ascii "tunnel_id")).join)=_
  rw [htunnel,Option.join_some,Option.map_some,Text.content,List.take_left]

theorem sequenceOf_token : sequenceOf mp (c.tokenBytes mp n (some data))=some n := by
  have htoken : ∀ b, some data=some b → mp.IsValue b := fun b hb => by cases hb; exact hdata
  obtain ⟨-,-,-,rvalue,-,-,-,hvalue⟩ := tunnelData_fields hmp
    (TokenRoute.valid_tokenMessage hmp hc (n := n) htoken) hc.fromRt hc.tunnelId
  have hnumber := Coder.decodeUintFromMap_at hmp 1 (TokenRoute.valid_tokenEntries hmp hc htoken)
    (c.tokenEntries_keys mp n (some data)) rfl rvalue rfl (by decide)
  change (Coder.getValueFromMap mp (tunnelBytes mp _ _ _ _) (ascii "value")).join.bind _=_
  rw [hvalue,Option.join_some,Option.bind_some,hnumber]
  rfl

end Messages

/-- Every token of a queue is a whole value. -/
def Values (mp : Msgpuck) (f : Fifo Bytes) : Prop := ∀ b, some b ∈ f.tokens → mp.IsValue b

/-- The nodes and the bytes between them are those of a transfer of tokens. -/
structure Mirrors (mp : Msgpuck) (c : TokenRoute) (p q : Ref) (w : TokenWire)
    (s : Transfer Bytes) : Prop where
  sends : Sends c p s.out w.sender
  takes : Takes c q s.inp s.receiver w.receiver
  tokens : w.tokens=s.tokens.map fun m => c.tokenBytes mp m.1 (some m.2)
  replies : w.replies=s.replies.map fun r => c.replyBytes mp r.2 (decide (r.1=.ack))
  written : w.written=s.written
  accepted : w.accepted=s.accepted
  inv : s.Inv
  queued : Values mp s.out
  values : ∀ m ∈ s.tokens, mp.IsValue m.2
  answers : ∀ r ∈ s.replies, r.1 ≠ .abort

section Steps

variable {mp : Msgpuck} {c : TokenRoute} {p q : Ref} {f : Fifo Bytes} {s t : Transfer Bytes}
  {w w' : TokenWire}

theorem Values.setSlot (h : Values mp f) (pos : UInt32) {x : Option Bytes}
    (hx : ∀ b, x=some b → mp.IsValue b) : Values mp (f.setSlot pos x) := by
  intro b hb
  rcases List.mem_or_eq_of_mem_set hb with hb | hb
  · exact h b hb
  · exact hx b hb.symm

theorem Values.write (h : Values mp f) {data : Bytes} (hdata : mp.IsValue data) :
    Values mp (f.write data).2 := by
  unfold Fifo.write
  split
  · exact h.setSlot f.writePos fun b hb => by cases hb; exact hdata
  · exact h

theorem Values.slot (hmp : mp.Lawful) (h : Values mp f) (pos : UInt32) :
    mp.IsValue ((f.slot pos).getD mp.encodeNil) := by
  cases hslot : f.slot pos with
  | none => exact hmp.isValue_nil
  | some b => exact h b (List.mem_of_getElem? (Option.join_eq_some_iff.mp hslot))

theorem Values.comCommitRead (h : Values mp f) (n : UInt32) : Values mp (f.comCommitRead n) := by
  unfold Fifo.comCommitRead
  split
  · exact h
  split
  · split
    · exact h.setSlot f.readPos fun b hb => by cases hb
    · exact h
  · exact h

theorem Values.comCancelRead (h : Values mp f) (n : UInt32) : Values mp (f.comCancelRead n) := by
  unfold Fifo.comCancelRead
  split
  · exact h
  · exact h

theorem Values.transmit (hmp : mp.Lawful) (h : Values mp f) (sent : Bool) :
    Values mp (transmitToken mp.encodeNil f sent).2 ∧
      ∀ m ∈ (transmitToken mp.encodeNil f sent).1,mp.IsValue m.2 := by
  unfold transmitToken
  split
  · split
    · exact ⟨h,fun m hm => by cases hm; exact h.slot hmp _⟩
    · exact ⟨Values.comCancelRead (f := f.comPeek.2) h _,fun m hm => by cases hm⟩
  · exact ⟨h,fun m hm => by cases hm⟩

theorem Values.handleTokenReply (h : Values mp f) (reply : PortReplyType) (n : UInt32) :
    Values mp (handleTokenReply f reply n) := by
  cases reply with
  | ack => exact h.comCommitRead n
  | nack => exact h.comCancelRead n
  | abort => exact h

theorem Mirrors.outSize (h : Mirrors mp c p q w s) : s.out.size ≠ 0 := by
  intro hsize
  have hroom := h.inv.sender.room
  rw [hsize] at hroom
  exact Nat.not_lt_zero _ hroom

theorem Mirrors.inSize (h : Mirrors mp c p q w s) : s.inp.size ≠ 0 := by
  intro hsize
  obtain ⟨queue,hq,-⟩ := h.inv.receiver
  have hroom := hq.stores.room
  rw [hsize] at hroom
  exact Nat.not_lt_zero _ hroom

theorem step_written {e : WireEvent} (h : step mp p q e w=some w') :
    w.written.length ≤ w'.written.length := by
  cases e with
  | produce data =>
    obtain ⟨r,-,h⟩ := Option.bind_eq_some_iff.mp h
    obtain ⟨u,-,hw⟩ := Option.bind_eq_some_iff.mp h
    cases hw
    dsimp only
    split <;> simp
  | transmit fate =>
    obtain ⟨r,-,hw⟩ := Option.bind_eq_some_iff.mp h
    cases hw
    exact Nat.le_refl _
  | deliverToken fate =>
    simp only [step] at h
    split at h
    · cases h
    · obtain ⟨r,-,h⟩ := Option.bind_eq_some_iff.mp h
      obtain ⟨i,-,h⟩ := Option.bind_eq_some_iff.mp h
      obtain ⟨f,-,h⟩ := Option.bind_eq_some_iff.mp h
      obtain ⟨g,-,hw⟩ := Option.bind_eq_some_iff.mp h
      cases hw
      exact Nat.le_refl _
  | deliverReply fate =>
    simp only [step] at h
    split at h
    · cases h
    · obtain ⟨r,-,hw⟩ := Option.bind_eq_some_iff.mp h
      cases hw
      exact Nat.le_refl _
  | consume =>
    obtain ⟨r,-,h⟩ := Option.bind_eq_some_iff.mp h
    dsimp only at h
    split at h
    · obtain ⟨u,-,hw⟩ := Option.bind_eq_some_iff.mp h
      cases hw
      exact Nat.le_refl _
    · cases h
  | receiverState state =>
    obtain ⟨x,-,h⟩ := Option.bind_eq_some_iff.mp h
    obtain ⟨u,-,hw⟩ := Option.bind_eq_some_iff.mp h
    cases hw
    exact Nat.le_refl _

/-- A token that is accepted lies in the slot behind what was there before. -/
theorem entered_handleToken (hlength : f.tokens.length=f.size.toNat) (hsize : f.size ≠ 0)
    (state : ActorState) (alloc : Bool) (a : Bytes) (n : UInt32) :
    entered f (handleToken state alloc f a n).2=
      if (handleToken state alloc f a n).2.writePos=f.writePos then none else some a := by
  have hsame : ∀ g : Fifo Bytes, g=f → entered f g=if g.writePos=f.writePos then none else some a := by
    intro g hg
    rw [entered,hg,if_pos rfl,if_pos rfl]
  rcases handleToken_cases state alloc f a n with h | ⟨-,hslots,-,h⟩
  · exact hsame _ (congrArg Prod.snd h)
  rw [h,Fifo.comWrite]
  split
  swap
  · exact hsame f rfl
  rw [Fifo.write,if_pos hslots]
  have hindex : f.index f.writePos<f.tokens.length := by
    rw [hlength,Fifo.index,UInt32.toNat_mod]
    exact Nat.mod_lt _ (Nat.pos_of_ne_zero fun h0 => hsize (UInt32.toNat_inj.mp h0))
  have hslot : ({f.setSlot f.writePos (some a) with writePos := f.writePos+1}).slot f.writePos=
      some a := by
    change ((f.tokens.set (f.index f.writePos) (some a))[f.index f.writePos]?).join=_
    rw [List.getElem?_set_self hindex]
    rfl
  rw [entered,hslot]

/-- Replies that are lost are not missed by what holds between the ends. -/
theorem inv_lost (h : s.Inv) {replies : List (PortReplyType × UInt32)}
    (hr : ∀ r ∈ replies, r ∈ s.replies) : ({s with replies := replies} : Transfer Bytes).Inv :=
  {h with
    acks := fun n hn => h.acks n (hr _ hn)
    nacks := fun n hn => h.nacks n (hr _ hn)}

theorem Mirrors.produce (h : Mirrors mp c p q w s) {data : Bytes} (hdata : mp.IsValue data)
    (hs : step mp p q (.produce data) w=some w') (hw : w'.written.length<2^32) :
    ∃ t, Mirrors mp c p q w' t := by
  obtain ⟨x,-,-,-,hx,-,-,-,-,-,-,hf,-⟩ := h.sends.port
  obtain ⟨⟨f,u⟩,hfifo,hs⟩ := Option.bind_eq_some_iff.mp hs
  cases (portFifo_eq hx hf h.outSize).symm.trans hfifo
  obtain ⟨⟨_,v⟩,hset,hs⟩ := Option.bind_eq_some_iff.mp hs
  cases (updatePort_queue hx).symm.trans hset
  cases hs
  rw [h.written] at hw
  exact ⟨{s with
    out := (s.out.write data).2
    written := if (s.out.write data).1=.success then s.written++[data] else s.written},{h with
    sends := h.sends.setQueue hx _
    written := by rw [h.written]
    inv := h.inv.produce mp.encodeNil data rfl hw
    queued := h.queued.write hdata}⟩

theorem Mirrors.transmit (hmp : mp.Lawful) (h : Mirrors mp c p q w s) {fate : Fate}
    (hs : step mp p q (.transmit fate) w=some w') : ∃ t, Mirrors mp c p q w' t := by
  obtain ⟨v,sent,⟨ops,hrun⟩,hv,hnew⟩ :=
    (h.sends.sameEnds (t := w.sender.withFate fate) (.of_host rfl rfl)).transmit h.outSize
  obtain ⟨⟨_,v',ops'⟩,hrun',hs⟩ := Option.bind_eq_some_iff.mp hs
  cases hrun.symm.trans hrun'
  cases hs
  obtain ⟨hqueued,hsent⟩ := h.queued.transmit hmp sent
  exact ⟨{s with
    out := (transmitToken mp.encodeNil s.out sent).2
    tokens := s.tokens++(transmitToken mp.encodeNil s.out sent).1.toList},{h with
    sends := hv
    tokens := by rw [hnew,h.tokens,List.map_append]
    inv := h.inv.transmit mp.encodeNil sent rfl
    queued := hqueued
    values := fun m hm => by
      rcases List.mem_append.mp hm with hm | hm
      · exact h.values m hm
      · exact hsent m (Option.mem_toList.mp hm)}⟩

theorem Mirrors.deliverReply (hmp : mp.Lawful) (hc : c.Short) (h : Mirrors mp c p q w s) {fate : Fate}
    (hs : step mp p q (.deliverReply fate) w=some w') : ∃ t, Mirrors mp c p q w' t := by
  have hsends := h.sends.sameEnds (t := w.sender.withFate fate) (.of_host rfl rfl)
  obtain ⟨client,hclient,henabled⟩ := hsends.transport
  have hreplies := h.replies
  cases hsr : s.replies with
  | nil =>
    rw [hsr] at hreplies
    rw [step,hreplies] at hs
    cases hs
  | cons r rest =>
    obtain ⟨type,n⟩ := r
    rw [hsr] at hreplies
    rw [step,hreplies] at hs
    obtain ⟨⟨_,v,ops⟩,hrun,hs⟩ := Option.bind_eq_some_iff.mp hs
    cases hs
    obtain ⟨u,hyields,hu⟩ := hsends.replyArrives h.outSize n (decide (type=.ack))
    have hv := hu.sameEnds (handleMessage_checkpointed
      (TokenRoute.parseMessage_reply hmp hc hclient henabled (n := n) _) hyields hrun).toSameEnds
    have htype : (if decide (type=.ack) then PortReplyType.ack else .nack)=type := by
      have habort := h.answers (type,n) (by rw [hsr]; exact List.mem_cons_self)
      cases type with
      | ack => rfl
      | nack => rfl
      | abort => exact absurd rfl habort
    rw [htype] at hv
    have hstep : Transfer.step mp.encodeNil .deliverReply s=
        some {s with out := handleTokenReply s.out type n,replies := rest} := by
      rw [Transfer.step,hsr]
    exact ⟨{s with out := handleTokenReply s.out type n,replies := rest},{h with
      sends := hv
      replies := rfl
      inv := h.inv.deliverReply mp.encodeNil hstep
      queued := h.queued.handleTokenReply type n
      answers := fun r hr => h.answers r (by rw [hsr]; exact List.mem_cons_of_mem _ hr)}⟩

theorem receives_of_takes {state : ActorState} {g : Fifo Bytes} {v : Node}
    (h : Takes c q g state v) (hstate : state=.enabled) : v.Receives q := by
  obtain ⟨y,b,hy,-,hb,hbs⟩ := h.port
  intro x hx a ha
  cases hy.symm.trans hx
  cases hb.symm.trans ha
  exact hbs.trans hstate

theorem Mirrors.inOrder (hmp : mp.Lawful) (hc : c.Short) (h : Mirrors mp c p q w s) {fate : Fate}
    (hok : InOrder mp q (.deliverToken fate) w) :
    Transfer.InOrder (.deliverToken (fate.allocs.headD true)) s := by
  intro m hm hstate hslots halloc
  have hmem : m ∈ s.tokens := List.mem_of_mem_head? hm
  refine hok (c.tokenBytes mp m.1 (some m.2)) ?_ m.1 (sequenceOf_token hmp hc (h.values m hmem) m.1) s.inp
    h.takes.queue (receives_of_takes h.takes hstate) hslots ?_
  · rw [h.tokens,List.head?_map,Option.mem_def.mp hm]
    rfl
  · intro hfalse
    rw [List.headD_eq_head?_getD,hfalse] at halloc
    cases halloc

theorem Mirrors.deliverToken (hmp : mp.Compact) (hc : c.Short) (h : Mirrors mp c p q w s) {fate : Fate}
    (hok : InOrder mp q (.deliverToken fate) w) (hs : step mp p q (.deliverToken fate) w=some w') :
    ∃ t, Mirrors mp c p q w' t := by
  have htakes := h.takes.sameEnds (t := w.receiver.withFate fate) (.of_host rfl rfl)
  obtain ⟨client,hclient,henabled⟩ := htakes.transport
  have hin := h.inOrder hmp.toLawful hc hok
  have htokens := h.tokens
  cases hst : s.tokens with
  | nil =>
    rw [hst] at htokens
    rw [step,htokens] at hs
    cases hs
  | cons m rest =>
    obtain ⟨n,data⟩ := m
    have hdata : mp.IsValue data := h.values (n,data) (by rw [hst]; exact List.mem_cons_self)
    rw [hst] at htokens
    rw [step,htokens] at hs
    obtain ⟨⟨_,v,ops⟩,hrun,hs⟩ := Option.bind_eq_some_iff.mp hs
    obtain ⟨tunnelId,htunnel,hs⟩ := Option.bind_eq_some_iff.mp hs
    cases (tunnelOf_token hmp.toLawful hc hdata n).symm.trans htunnel
    obtain ⟨f,hf,hs⟩ := Option.bind_eq_some_iff.mp hs
    cases htakes.queue.symm.trans hf
    obtain ⟨r,u,new,hyields,hu,hsent,hnew⟩ := htakes.tokenArrives h.inSize data n
    have halloc : (w.receiver.withFate fate).allocates=fate.allocs.headD true := rfl
    rw [halloc] at hu hnew
    generalize hR : handleToken s.receiver (fate.allocs.headD true) s.inp data n=R at hu hnew
    have htoken : ∀ b, some data=some b → mp.IsValue b := fun b hb => by cases hb; exact hdata
    have hparse := TokenRoute.parseMessage_token hc hclient henabled hmp (n := n) htoken
    have hcheck := handleMessage_checkpointed hparse hyields hrun
    have hv := hu.sameEnds hcheck.toSameEnds
    obtain ⟨g,hg,hs⟩ := Option.bind_eq_some_iff.mp hs
    cases hv.queue.symm.trans hg
    cases hs
    have hreply : ∃ replies : List (PortReplyType × UInt32), (∀ r ∈ replies, r ∈ s.replies++
        [(if R.1=.success then .ack else .nack,n)]) ∧
        w.replies++((w.receiver.withFate fate).sentSince v).filterMap (replyPayload mp c.tunnelId v)=
          replies.map fun r => c.replyBytes mp r.2 (decide (r.1=.ack)) := by
      rw [sentSince_of_append (hcheck.sent.trans hsent)]
      rcases hnew with rfl | rfl
      · exact ⟨s.replies,fun r hr => List.mem_append_left _ hr,(List.append_nil _).trans h.replies⟩
      · refine ⟨_,fun r hr => hr,?_⟩
        rw [List.filterMap_cons_some (hv.replyPayload _ _),List.map_append,h.replies]
        refine congrArg (_++[·]) (congrArg (c.replyBytes mp n) ?_)
        by_cases hr : R.1=.success
        · rw [if_pos hr,decide_eq_true hr]
          rfl
        · rw [if_neg hr,decide_eq_false hr]
          rfl
    obtain ⟨replies,hsub,hbytes⟩ := hreply
    have hstep : Transfer.step mp.encodeNil (.deliverToken (fate.allocs.headD true)) s=
        some {s with
          inp := R.2
          tokens := rest
          replies := s.replies++[(if R.1=.success then .ack else .nack,n)]
          accepted := if R.2.writePos=s.inp.writePos then s.accepted else s.accepted++[data]} := by
      rw [Transfer.step,hst]
      dsimp only
      rw [hR]
    have hinv := inv_lost (h.inv.deliverToken mp.encodeNil _ hin hstep) hsub
    have hlength : s.inp.tokens.length=s.inp.size.toNat := by
      obtain ⟨queue,hq,-⟩ := h.inv.receiver
      exact hq.stores.length
    refine ⟨{s with
      inp := R.2
      tokens := rest
      replies := replies
      accepted := if R.2.writePos=s.inp.writePos then s.accepted else s.accepted++[data]},{h with
      takes := hv
      tokens := rfl
      replies := hbytes
      accepted := ?_
      inv := hinv
      values := fun m hm => h.values m (by rw [hst]; exact List.mem_cons_of_mem _ hm)
      answers := ?_}⟩
    · rw [h.accepted,← hR,entered_handleToken hlength h.inSize]
      split
      · exact List.append_nil _
      · rfl
    · intro r hr
      rcases List.mem_append.mp (hsub r hr) with hr | hr
      · exact h.answers r hr
      · rw [List.mem_singleton.mp hr]
        dsimp only
        split
        · exact PortReplyType.noConfusion
        · exact PortReplyType.noConfusion

theorem Mirrors.consume (h : Mirrors mp c p q w s) (hs : step mp p q .consume w=some w') :
    ∃ t, Mirrors mp c p q w' t := by
  obtain ⟨y,-,hy,hg,-⟩ := h.takes.port
  obtain ⟨⟨f,u⟩,hfifo,hs⟩ := Option.bind_eq_some_iff.mp hs
  cases (portFifo_eq hy hg h.inSize).symm.trans hfifo
  dsimp only at hs
  split at hs
  swap
  · cases hs
  next htokens =>
  obtain ⟨⟨_,v⟩,hset,hs⟩ := Option.bind_eq_some_iff.mp hs
  cases (updatePort_queue hy).symm.trans hset
  cases hs
  have hstep : Transfer.step mp.encodeNil .consume s=
      some {s with inp := s.inp.peek.2.commitRead true} := by
    rw [Transfer.step,if_pos htokens]
  exact ⟨{s with inp := s.inp.peek.2.commitRead true},{h with
    takes := h.takes.setQueue hy _
    inv := h.inv.consume mp.encodeNil hstep}⟩

theorem Mirrors.receiverState (h : Mirrors mp c p q w s) {state : ActorState}
    (hs : step mp p q (.receiverState state) w=some w') : ∃ t, Mirrors mp c p q w' t := by
  obtain ⟨y,hy,hs⟩ := Option.bind_eq_some_iff.mp hs
  obtain ⟨⟨_,v⟩,hset,hs⟩ := Option.bind_eq_some_iff.mp hs
  cases hs
  exact ⟨{s with receiver := state},{h with
    takes := h.takes.actorState hy hset
    inv := {h.inv with}}⟩

theorem Mirrors.step (hmp : mp.Compact) (hc : c.Short) (h : Mirrors mp c p q w s) {e : WireEvent}
    (hwhole : e.Whole mp) (hok : InOrder mp q e w) (hs : TokenWire.step mp p q e w=some w') (hw : w'.written.length<2^32) :
    ∃ t, Mirrors mp c p q w' t := by
  cases e with
  | produce data => exact h.produce hwhole hs hw
  | transmit fate => exact h.transmit hmp.toLawful hs
  | deliverToken fate => exact h.deliverToken hmp hc hok hs
  | deliverReply fate => exact h.deliverReply hmp.toLawful hc hs
  | consume => exact h.consume hs
  | receiverState state => exact h.receiverState hs

theorem mirrors_of_run (hmp : mp.Compact) (hc : c.Short) {u v : Node} {outSize inSize : UInt32}
    {state : ActorState} (hu : Sends c p (.init outSize) u) (hv : Takes c q (.init inSize) state v)
    (ho : 1 ≤ outSize.toNat) (hi : 1 ≤ inSize.toNat) {es : List WireEvent}
    (hwhole : ∀ e ∈ es, e.Whole mp)
    (hr : Runs (TokenWire.step mp p q) (InOrder mp q) ⟨u,v,[],[],[],[]⟩ es w)
    (hw : w.written.length<2^32) : ∃ s, Mirrors mp c p q w s := by
  have hstart : Mirrors mp c p q ⟨u,v,[],[],[],[]⟩ {Transfer.init outSize inSize with receiver := state} :=
    { sends := hu
      takes := hv
      tokens := rfl
      replies := rfl
      written := rfl
      accepted := rfl
      inv := {Transfer.init_inv outSize inSize ho hi with}
      queued := fun b hb => by cases (List.mem_replicate.mp hb).2
      values := fun m hm => by cases hm
      answers := fun r hr => by cases hr }
  exact (hr.and_mem hwhole).invariant (fun w => w.written.length<2^32 → ∃ s, Mirrors mp c p q w s)
    (fun e x y hok hs h hy => by
      obtain ⟨s,hx⟩ := h (Nat.lt_of_le_of_lt (step_written hs) hy)
      exact hx.step hmp hc hok.1 hok.2 hs hy)
    (fun _ => ⟨_,hstart⟩) hw

/-- A node with one actor whose port leads into a tunnel. -/
def endNode (id portId peerPortId peerId : Bytes) (direction : PortDirection) : Node :=
  {Node.init {bareHost with id := id,transport := some ⟨.enabled,ascii "px"⟩} with
    portMem := ⟨[some ⟨portId,ascii "p",peerPortId,peerId,direction,none,some 0,.enabled,
      some (.init 4),0,0⟩]⟩
    tunnelMem := ⟨[some ⟨ascii "tn",0,.enabled,1,.token⟩]⟩
    actorMem := ⟨[some ((⟨ascii "t",some (ascii "a"),none,.actor,.enabled,true,none,[],[],[],[]⟩ :
      Actor).withPort direction 0)]⟩
    actors := [0]}

/-- The first token is refused, its NACK makes the out-port send it again, and the second reply to
it cannot be sent. -/
def refusedOnce : List WireEvent :=
  [.produce (msgpack.encodeUint 7),.transmit .fine,.receiverState .pending,.deliverToken .fine,
    .deliverReply .fine,.transmit .fine,.receiverState .enabled,
    .deliverToken {Fate.fine with sends := [false]},.consume]

end Steps

end TokenWire

end CalvinConstrained
