import CalvinConstrained.Runtime.Live
import CalvinConstrained.Runtime.Message
import CalvinConstrained.Runtime.PortRoundTrip

namespace CalvinConstrained

/-- A request goes through where no allocation and no transmission fails. -/
theorem Atom.request_success {m : Outgoing} {handler : Handler} {msgData : Option Ref} {s : Node}
    (hallocs : s.host.fate.allocs=[]) (hsends : s.host.fate.sends=[])
    (htransport : s.host.transport.isSome=true) :
    ∃ h, request m handler msgData s=some (.success,{s with host := h}) := by
  obtain ⟨client,hclient⟩ := Option.isSome_iff_exists.mp htransport
  have hneed : needTransport s=some ((),s) := by simp [needTransport,hclient]
  have huuid : ∃ id u, uuid (ascii "MSGID_") s=some (id,u) ∧ u={s with host := u.host} ∧
      u.host.fate.allocs=[] ∧ u.host.fate.sends=[] ∧ u.host.transport=some client := by
    unfold uuid
    split
    · exact ⟨_,s,rfl,rfl,hallocs,hsends,hclient⟩
    · exact ⟨_,_,rfl,rfl,hallocs,hsends,hclient⟩
  obtain ⟨id,u,hid,hu,hallocs,hsends,hclient⟩ := huuid
  have halloc : allocN 3 u=some (true,u) := by simp [allocN,bind_apply,alloc,hallocs]
  unfold request
  rw [bind_apply,hneed,Option.bind_some,bind_apply,hid,Option.bind_some,hu]
  rw [hu] at halloc
  simp only [bind_apply,addPendingMsg,halloc,modifyHost,send,hclient,hsends,Option.bind_some,
    Bool.not_true,Bool.false_eq_true,if_false,if_true,pure_apply]
  exact ⟨_,rfl⟩

namespace PortDoc

/-- The texts and the queue of a port, apart from the peer's node. -/
def keptPart (x : Port) : Bytes × Bytes × PortDirection × Bytes × Option (Fifo Bytes) :=
  (x.id,x.name,x.direction,x.peerPortId,x.fifo)

/-- A port of the node is created anew from what was written of `x`, with the peer of `y`. -/
def newPort (mp : Msgpuck) (a : Ref) (x y : Port) (f : Fifo Bytes) : Port where
  id := x.id
  name := x.name
  peerPortId := y.peerPortId
  peerId := y.peerId
  direction := x.direction
  peerPort := none
  tunnel := none
  state := .disconnected
  fifo := some (restoredFifo mp f)
  retries := 0
  actor := a

/-- A node on which a port can be created for the actor `a`: no allocation and no transmission
fails, references are live, and with a transport there is a registry. -/
structure Ready (s : Node) (a : Ref) : Prop where
  allocs : s.host.fate.allocs=[]
  sends : s.host.fate.sends=[]
  linked : Linked s
  routed : Routed s
  actor : ∃ x id, s.actorMem.get a=some x ∧ x.id=some id
  registry : s.host.transport.isSome=true → ∃ l t, s.proxyLink=some l ∧ s.storageTunnel=some t ∧
    (∃ x, s.linkMem.get l=some x) ∧ ∃ x, s.tunnelMem.get t=some x

section Create

variable {mp : Msgpuck} (hmp : mp.Lawful) {x y : Port} {f : Fifo Bytes} {a : Ref} {s : Node}

include hmp in
theorem portNew_eq (hs : s.host.fate.allocs=[]) (hx : x.Fits) (hf : f.Settled mp x.direction)
    {d : PortDescription} (hd : Describes mp x y f d) :
    Atom.portNew mp a x.direction d s=
      some (some s.portMem.next,{s with portMem := s.portMem.alloc (newPort mp a x y f)}) := by
  obtain ⟨r,hqueue⟩ := hd.queue
  obtain ⟨hcopy,hport,-⟩ := hd.peer
  have halloc := alloc_calm hs
  have hinit := fun mem => fifoInit_eq hmp (s := {s with portMem := mem}) hs hx hf d.properties r
  simp only [Atom.portNew,Atom.bind_apply,halloc,Option.bind_some,Bool.not_true,Bool.false_eq_true,
    if_false,Atom.portAlloc,hd.id,hd.name,hport,ofOption_some,hcopy,Atom.portAdd,hqueue]
  rw [hinit]
  simp only [Option.bind_some,Atom.updatePort,Atom.bind_apply,Atom.port,Heap.get_alloc,if_true,
    Option.map_some,Atom.setPort,Heap.set_alloc]
  rfl

theorem linked_new (hs : Linked s) (ha : ∃ x, s.actorMem.get a=some x) {z : Port}
    (hz : z.actor=a) : Linked {s with portMem := s.portMem.alloc z} where
  actors := hs.actors
  ports := by
    intro b w hw p hp
    obtain ⟨y,hy⟩ := hs.ports b w hw p hp
    refine ⟨y,?_⟩
    change (s.portMem.alloc z).get p=some y
    rw [Heap.get_alloc,if_neg (Nat.ne_of_lt (Heap.lt_next hy)),hy]
  owner := by
    intro p w hw
    change (s.portMem.alloc z).get p=some w at hw
    rw [Heap.get_alloc] at hw
    split at hw
    · cases hw
      rw [hz]
      exact ha
    · exact hs.owner p w hw

theorem routed_new (hs : Routed s) {z : Port} (hz : z.tunnel=none) :
    Routed {s with portMem := s.portMem.alloc z} where
  tunnels := hs.tunnels
  links := hs.links
  link := hs.link
  tunnel := by
    intro p w t hw ht
    change (s.portMem.alloc z).get p=some w at hw
    rw [Heap.get_alloc] at hw
    split at hw
    · cases hw
      rw [hz] at ht
      cases ht
    · exact hs.tunnel p w t hw ht

end Create

section Peer

/-- Whether a port with the id of the peer is on the node. -/
def finds (s : Node) (y : Port) : Bool :=
  (Atom.portGet ⟨y.peerPortId,strnlen y.peerPortId uuidBufferSize⟩ s).any fun r => r.1.isSome

variable {s t : Node} {p : Ref} {z : Port}

/-- A local connection leaves a port its texts and its queue; the node of its peer is this
one when the peer is found. -/
theorem connectLocal_port {r : Result} (hz : s.portMem.get p=some z)
    (h : Atom.portConnectLocal p s=some (r,t)) :
    ∃ w, t.portMem.get p=some w ∧ keptPart w=keptPart z ∧
      w.peerId=if finds s z then s.host.id else z.peerId := by
  obtain ⟨x,u,hread,h₁⟩ := Atom.bind_eq_some.mp h
  obtain ⟨hx,rfl⟩ := Atom.port_eq_some hread
  cases hz.symm.trans hx
  obtain ⟨found,v,hget,h₂⟩ := Atom.bind_eq_some.mp h₁
  obtain ⟨rfl,-⟩ := Atom.portGet_found hget
  have hfinds : finds v z=found.isSome := by simp [finds,hget]
  cases found with
  | none =>
    cases h₂
    exact ⟨z,hz,rfl,by simp [hfinds]⟩
  | some q =>
    have hid : ∀ r u w, Atom.portDetach r u=some ((),w) → w.host.id=u.host.id := by
      intro r u w hw
      refine Atom.keeps_portDetach (P := fun x => x.host.id=u.host.id) (fun _ _ _ _ h => h)
        (fun _ _ _ hh h => hh ▸ h) r ?_ u () w hw rfl
      intro a b c hc ha
      obtain ⟨-,-,rfl⟩ := Atom.updatePort_eq hc
      exact ha
    obtain ⟨⟨⟩,u₁,hd₁,h₃⟩ := Atom.bind_eq_some.mp h₂
    obtain ⟨⟨⟩,u₂,hd₂,h₄⟩ := Atom.bind_eq_some.mp h₃
    obtain ⟨⟨⟩,u₃,hp₁,h₅⟩ := Atom.bind_eq_some.mp h₄
    obtain ⟨⟨⟩,u₄,hp₂,h₆⟩ := Atom.bind_eq_some.mp h₅
    cases h₆
    obtain ⟨-,-,-,hget₁⟩ := Atom.portDetach_ports hd₁
    obtain ⟨-,-,-,hget₂⟩ := Atom.portDetach_ports hd₂
    have hid₂ : u₂.host.id=v.host.id := (hid _ _ _ hd₂).trans (hid _ _ _ hd₁)
    obtain ⟨x₂,hx₂,hkept₂⟩ : ∃ x₂, u₂.portMem.get p=some x₂ ∧ keptPart x₂=keptPart z := by
      rw [hget₂,hget₁,hz]
      simp only [Option.map_some,if_true]
      split
      · exact ⟨_,rfl,rfl⟩
      · exact ⟨_,rfl,rfl⟩
    obtain ⟨hhost₃,-,-,x₃,-,retries,-,hx₃,-,-,hget₃⟩ := Atom.portPeer_ports hp₁
    cases hx₂.symm.trans hx₃
    obtain ⟨hhost₄,-,-,x₄,-,retries₄,-,hx₄,-,-,hget₄⟩ := Atom.portPeer_ports hp₂
    have hfound : u₃.portMem.get p=some {x₂ with
        peerPort := some q
        peerId := u₂.host.id
        state := .enabled
        retries := retries} := by rw [hget₃,if_pos rfl]
    rw [hfinds,Option.isSome_some,if_pos rfl,hget₄,← hid₂]
    by_cases hq : p=q
    · subst q
      cases hx₄.symm.trans hfound
      rw [if_pos rfl]
      exact ⟨_,rfl,hkept₂,congrArg Host.id hhost₃⟩
    · rw [if_neg hq,hfound]
      exact ⟨_,rfl,hkept₂,rfl⟩

theorem restoreTunnel_port {peerId : Text} (hz : s.portMem.get p=some z)
    (h : Atom.portRestoreTunnel p peerId s=some ((),t)) :
    ∃ w, t.portMem.get p=some w ∧ keptPart w=keptPart z ∧ w.peerId=z.peerId := by
  obtain ⟨found,u,hget,h₁⟩ := Atom.bind_eq_some.mp h
  obtain ⟨rfl,-⟩ := Atom.tunnelGetFromPeeridAndType_found hget
  cases found with
  | none =>
    obtain ⟨x,y,actorState,hx,-,rfl⟩ := Atom.portSetState_eq h₁
    cases hz.symm.trans hx
    refine ⟨_,(Heap.get_set hz _ p).trans (if_pos rfl),rfl,rfl⟩
  | some r =>
    obtain ⟨⟨⟩,v,hupdate,h₂⟩ := Atom.bind_eq_some.mp h₁
    obtain ⟨x,hx,rfl⟩ := Atom.updatePort_eq hupdate
    cases hz.symm.trans hx
    obtain ⟨y,w,hread,h₃⟩ := Atom.bind_eq_some.mp h₂
    obtain ⟨-,rfl⟩ := Atom.tunnel_eq_some hread
    cases h₃
    exact ⟨_,(Heap.get_set hz _ p).trans (if_pos rfl),rfl,rfl⟩

theorem finds_view {u : Node} {y : Port} (h : SameView Atom.fixedPart Actor.ports s u) :
    finds u y=finds s y := by
  have hget := Atom.portGet_view (g := Actor.ports) (fun _ _ h => h) h
    ⟨y.peerPortId,strnlen y.peerPortId uuidBufferSize⟩
  have hany : ∀ v : Node, finds v y=((Atom.portGet ⟨y.peerPortId,
      strnlen y.peerPortId uuidBufferSize⟩ v).map Prod.fst).any Option.isSome := by
    intro v
    rw [finds,Option.any_map]
  rw [hany,hany,hget]

/-- The port takes over the state that was written. -/
theorem takeState_port (hl : Linked s) (hr : Routed s) (hz : s.portMem.get p=some z)
    (htunnel : z.tunnel=none) (value : UInt32) (n : Nat) :
    ∃ t w, Atom.portTakeState p value n s=some ((),t) ∧ t.portMem.get p=some w ∧
      keptPart w=keptPart z ∧
      w.peerId=if PortState.ofUInt32 value=.enabled ∧
          strncmpEq z.peerId s.host.id (strnlen z.peerId uuidBufferSize)=true ∧ finds s z=true then
        s.host.id else z.peerId := by
  let z' : Port := {z with state := .ofUInt32 value}
  let u : Node := {s with portMem := s.portMem.set p z'}
  have hget : ∀ q, u.portMem.get q=if q=p then some z' else s.portMem.get q := Heap.get_set hz z'
  have hz' : u.portMem.get p=some z' := by rw [hget,if_pos rfl]
  have hview : SameView Atom.fixedPart Actor.ports s u := by
    refine ⟨rfl,fun q => ?_,fun _ => rfl,Heap.next_set _ _ _,rfl,trivial⟩
    rw [hget]
    split
    · next hq =>
      rw [hq,hz]
      rfl
    · rfl
  have hlinked : Linked u := hl.of_sameView hview
  have hrouted : Routed u := by
    refine ⟨hr.tunnels,hr.links,hr.link,fun q x r hx hq => ?_⟩
    rw [hget] at hx
    split at hx
    · cases hx
      exact hr.tunnel p z r hz hq
    · exact hr.tunnel q x r hx hq
  have hstart : Atom.portTakeState p value n s=
      (if PortState.ofUInt32 value=.enabled then Atom.portRestore p n else pure () : Atom Unit) u := by
    simp only [Atom.portTakeState,Atom.updatePort,Atom.bind_apply,Atom.port,hz,Option.map_some,
      Option.bind_some,Atom.setPort]
    rw [show (s.portMem.set p {z with state := .ofUInt32 value}).get p=some z' from hz']
    rfl
  rw [hstart]
  by_cases henabled : PortState.ofUInt32 value=.enabled
  swap
  · rw [if_neg henabled,if_neg fun h => henabled h.1]
    exact ⟨u,z',rfl,hz',rfl,rfl⟩
  rw [if_pos henabled]
  have hrestore : Atom.portRestore p n u=(if strncmpEq z.peerId s.host.id
      (strnlen z.peerId uuidBufferSize) then do
        let _ ← Atom.portConnectLocal p
      else Atom.portRestoreTunnel p ⟨z.peerId,n⟩ : Atom Unit) u := by
    simp only [Atom.portRestore,Atom.bind_apply,Atom.port,hz',Option.map_some,Option.bind_some,
      Atom.get_apply]
    rfl
  rw [hrestore]
  by_cases hlocal : strncmpEq z.peerId s.host.id (strnlen z.peerId uuidBufferSize)=true
  · rw [if_pos hlocal]
    obtain ⟨r,t,ht⟩ := Atom.defined_portConnectLocal p u ⟨hlinked,hrouted,z',hz',htunnel⟩
    obtain ⟨w,hw,hkept,hpeer⟩ := connectLocal_port hz' ht
    refine ⟨t,w,by rw [Atom.bind_apply,ht]; rfl,hw,hkept,?_⟩
    rw [hpeer,finds_view hview]
    by_cases hfinds : finds s z=true
    · rw [if_pos (show finds s z'=true from hfinds),if_pos ⟨henabled,hlocal,hfinds⟩]
    · rw [if_neg (show ¬finds s z'=true from hfinds),if_neg fun h => hfinds h.2.2]
  · rw [if_neg hlocal]
    obtain ⟨⟨⟩,t,ht⟩ := Atom.defined_portRestoreTunnel p ⟨z.peerId,n⟩ u ⟨hlinked,hrouted,z',hz'⟩
    obtain ⟨w,hw,hkept,hpeer⟩ := restoreTunnel_port hz' ht
    refine ⟨t,w,ht,hw,hkept,?_⟩
    rw [hpeer,if_neg fun h => hlocal h.2.1]

/-- A port that is in no list yet is not found. -/
theorem finds_new (hl : Linked s) (w : Port) (y : Port) :
    finds {s with portMem := s.portMem.alloc w} y=finds s y := by
  let u : Node := {s with portMem := s.portMem.alloc w}
  let id : Text := ⟨y.peerPortId,strnlen y.peerPortId uuidBufferSize⟩
  have hget : ∀ q, (∃ x, s.portMem.get q=some x) → u.portMem.get q=s.portMem.get q := by
    rintro q ⟨x,hx⟩
    exact (Heap.get_alloc _ _ _).trans (if_neg (Nat.ne_of_lt (Heap.lt_next hx)))
  have hin : ∀ ps : List Ref, (∀ q ∈ ps, ∃ x, s.portMem.get q=some x) → ∀ r v,
      Atom.portIn id ps s=some (r,v) → Atom.portIn id ps u=some (r,u) := by
    intro ps
    induction ps with
    | nil =>
      rintro - r v ⟨⟩
      rfl
    | cons q ps ih =>
      intro hps r v h
      obtain ⟨x,v,hread,h₁⟩ := Atom.bind_eq_some.mp h
      obtain ⟨hx,rfl⟩ := Atom.port_eq_some hread
      have hread' : Atom.port q u=some (x,u) := by
        rw [Atom.port,hget q ⟨x,hx⟩,hx]
        rfl
      rw [Atom.portIn,Atom.bind_apply,hread',Option.bind_some]
      dsimp only
      split at h₁
      · next hmatch =>
        cases h₁
        rw [if_pos hmatch]
        rfl
      · next hmatch =>
        rw [if_neg hmatch]
        exact ih (fun q hq => hps q (by simp [hq])) r _ h₁
  have hfrom : ∀ as r v, Atom.portGetFrom id as s=some (r,v) →
      Atom.portGetFrom id as u=some (r,u) := by
    intro as
    induction as with
    | nil =>
      rintro r v ⟨⟩
      rfl
    | cons a as ih =>
      intro r v h
      obtain ⟨x,v,hread,h₁⟩ := Atom.bind_eq_some.mp h
      obtain ⟨hx,rfl⟩ := Atom.actor_eq_some hread
      obtain ⟨found,v',hports,h₂⟩ := Atom.bind_eq_some.mp h₁
      have hv : v=v' := Atom.preserves_portIn id x.ports v found v' hports rfl
      subst v'
      have hread' : Atom.actor a u=some (x,u) := by
        change (v.actorMem.get a).map _=_
        rw [hx]
        rfl
      rw [Atom.portGetFrom,Atom.bind_apply,hread',Option.bind_some,Atom.bind_apply,
        hin x.ports (hl.ports a x hx) found v hports,Option.bind_some]
      cases found with
      | some q =>
        cases h₂
        rfl
      | none => exact ih r _ h₂
  obtain ⟨r,v,h⟩ := Atom.defined_portGet id s hl
  have h' : Atom.portGet id u=some (r,u) := hfrom s.actors r v h
  change (Atom.portGet id u).any _=(Atom.portGet id s).any _
  rw [h,h']
  rfl

end Peer

section Survive

/-- The node of the peer in the port that comes back: of the peer that was found, unless the
port is enabled and gets connected on this node. -/
def takenPeerId (s : Node) (includeState : Bool) (x y : Port) : Bytes :=
  if includeState=true ∧ PortState.ofUInt32 x.state.toUInt32=.enabled ∧
      strncmpEq y.peerId s.host.id (strnlen y.peerId uuidBufferSize)=true ∧ finds s y=true then
    s.host.id else y.peerId

variable {mp : Msgpuck} (hmp : mp.Lawful) {x y : Port} {f : Fifo Bytes} {a : Ref} {s : Node}

include hmp in
theorem hasKey_state (hx : x.Fits) (hf : f.Settled mp x.direction) (includeState : Bool)
    (r : Bytes) : Coder.hasKey mp (Doc.encode mp (portDoc mp x f includeState)++r)
      (ascii "constrained_state")=some includeState := by
  have hd := valid_port hmp hx hf includeState
  have hentries := ((Doc.valid_map _ _).mp hd).2.2
  rw [portDoc,Coder.hasKey_map hmp hd]
  cases includeState with
  | true => exact Coder.hasKeyLoop_hit hmp (by decide) (by decide)
  | false =>
    have hid := (Doc.entriesValid_cons _ _).mp hentries
    have hname := (Doc.entriesValid_cons _ _).mp hid.2.2
    have hqueue := (Doc.entriesValid_cons _ _).mp hname.2.2
    have hproperties := (Doc.entriesValid_cons _ _).mp hqueue.2.2
    have hmiss : ∀ k ∈ [ascii "id",ascii "name",ascii "queue",ascii "properties"],
        strncmpEq k (ascii "constrained_state") k.length=false := by decide
    refine (Coder.hasKeyLoop_miss hmp hid.1 hid.2.1 (hmiss _ (by simp))).trans ?_
    refine (Coder.hasKeyLoop_miss hmp hname.1 hname.2.1 (hmiss _ (by simp))).trans ?_
    refine (Coder.hasKeyLoop_miss hmp hqueue.1 hqueue.2.1 (hmiss _ (by simp))).trans ?_
    exact Coder.hasKeyLoop_miss hmp hproperties.1 hproperties.2.1 (hmiss _ (by simp))

/-- The new port is stored in the registry. -/
theorem sendSetPort_success (hs : Ready s a) (htransport : s.host.transport.isSome=true)
    {z : Port} (hz : z.actor=a) :
    ∃ h, Atom.sendSetPort s.portMem.next {s with portMem := s.portMem.alloc z}=
      some (.success,{s with portMem := s.portMem.alloc z,host := h}) := by
  obtain ⟨l,t,hl,ht,⟨w,hw⟩,v,hv⟩ := hs.registry htransport
  obtain ⟨y,id,hy,hid⟩ := hs.actor
  obtain ⟨h,hrequest⟩ := @Atom.request_success (.setPort z.id) .portStore none
    {s with portMem := s.portMem.alloc z} hs.allocs hs.sends htransport
  obtain ⟨client,hclient⟩ := Option.isSome_iff_exists.mp htransport
  let u : Node := {s with portMem := s.portMem.alloc z}
  have htransport' : Atom.needTransport u=some ((),u) := by
    change s.host.transport.map _=_
    rw [hclient]
    rfl
  have hstorage : Atom.needStorage u=some ((),u) := by
    simp only [Atom.needStorage,Atom.bind_apply,Atom.get_apply,Option.bind_some,u,hl,ht,Atom.link,
      hw,Option.map_some,Atom.tunnel,hv,Atom.pure_apply]
  have hport : Atom.port s.portMem.next u=some (z,u) := by
    change ((s.portMem.alloc z).get _).map _=_
    rw [Heap.get_alloc,if_pos rfl]
    rfl
  have hid' : Atom.actorId a u=some (id,u) := by
    simp [Atom.actorId,Atom.bind_apply,Atom.actor,u,hy,hid]
  refine ⟨h,?_⟩
  change Atom.sendSetPort s.portMem.next u=_
  rw [Atom.sendSetPort,Atom.bind_apply,htransport',Option.bind_some,Atom.bind_apply,hstorage,
    Option.bind_some,Atom.bind_apply,hport,Option.bind_some,hz,Atom.bind_apply,hid',
    Option.bind_some]
  exact hrequest

include hmp in
/-- `cc_port_create` on what was written of a port, with the peer of the first entry that
starts with its id. -/
theorem portCreate_yields (hs : Ready s a) (hx : x.Fits) (hf : f.Settled mp x.direction)
    {inPorts outPorts : List Port} (hin : ∀ y ∈ inPorts, y.Fits) (hout : ∀ y ∈ outPorts, y.Fits)
    (hlen : inPorts.length<2^32 ∧ outPorts.length<2^32) {r : Bytes}
    (hy : prevEntry mp x.direction inPorts outPorts x.id r=some y) (hfits : y.Fits)
    (includeState : Bool) (r' : Bytes) :
    ∃ t z, (Build.portCreate mp a (Doc.encode mp (portDoc mp x f includeState)++r')
        (Doc.encode mp (prevDoc mp inPorts outPorts)++r) x.direction none).Yields s
          (some s.portMem.next) t ∧
      t.portMem.get s.portMem.next=some z ∧
      keptPart z=(x.id,x.name,x.direction,y.peerPortId,some (restoredFifo mp f)) ∧
      z.peerId=takenPeerId s includeState x y := by
  obtain ⟨d,hd,hdescribes⟩ := portDescription_eq hmp hx hf hin hout hlen hy hfits includeState r'
  have hnew := portNew_eq hmp (a := a) hs.allocs hx hf hdescribes
  let w : Port := newPort mp a x y f
  let u : Node := {s with portMem := s.portMem.alloc w}
  have hw : u.portMem.get s.portMem.next=some w := by
    change (s.portMem.alloc w).get _=_
    rw [Heap.get_alloc,if_pos rfl]
  have hactor : ∃ x, s.actorMem.get a=some x := by
    obtain ⟨y,-,hy,-⟩ := hs.actor
    exact ⟨y,hy⟩
  have hkey := hasKey_state hmp hx hf includeState r'
  suffices hfinish : ∃ t z, (Build.portFinish mp a s.portMem.next
      (Doc.encode mp (portDoc mp x f includeState)++r') (d.peerId.elim 0 Text.len)).Yields u true t ∧
      t.portMem.get s.portMem.next=some z ∧ keptPart z=keptPart w ∧
      z.peerId=takenPeerId s includeState x y by
    obtain ⟨t,z,hyields,hz,hkept,hpeer⟩ := hfinish
    refine ⟨t,z,?_,hz,hkept,hpeer⟩
    unfold Build.portCreate
    rw [hd]
    refine Prog.yields_bind (Prog.yields_ofOption _ s) ?_
    refine Prog.yields_bind (Prog.yields_perform hnew) ?_
    exact Prog.yields_bind hyields (Prog.yields_pure _ t)
  unfold Build.portFinish
  rw [hkey]
  cases includeState with
  | true =>
    have hkeys := @port_keys mp x f true
    have hstate := Coder.decodeUintFromMap_at hmp 0 (valid_port hmp hx hf true) hkeys rfl r' rfl
      (by decide)
    obtain ⟨t,z,ht,hz,hkept,hpeer⟩ := takeState_port (linked_new hs.linked hactor rfl)
      (routed_new hs.routed rfl) hw rfl x.state.toUInt32 (d.peerId.elim 0 Text.len)
    refine ⟨t,z,?_,hz,hkept,?_⟩
    · refine Prog.yields_bind (Prog.yields_ofOption true u) ?_
      rw [if_pos rfl,portDoc,hstate]
      refine Prog.yields_bind (Prog.yields_ofOption _ u) ?_
      refine Prog.yields_bind (Prog.yields_act ?_) (Prog.yields_pure true t)
      change (Atom.portTakeState _ _ _ u).map Prod.snd=some t
      rw [ht]
      rfl
    · rw [hpeer,finds_new hs.linked]
      simp only [takenPeerId,true_and]
      rfl
  | false =>
    have htaken : takenPeerId s false x y=y.peerId := by simp [takenPeerId]
    rw [htaken]
    by_cases htransport : s.host.transport.isSome=true
    · obtain ⟨h,hsend⟩ := sendSetPort_success hs htransport (z := w) rfl
      refine ⟨{u with host := h},w,?_,hw,rfl,rfl⟩
      refine Prog.yields_bind (Prog.yields_ofOption false u) ?_
      rw [if_neg Bool.false_ne_true]
      refine Prog.yields_bind (Prog.yields_read u) ?_
      have hnone : ¬u.host.transport.isNone=true := by
        change ¬s.host.transport.isNone=true
        rw [Option.isNone_iff_eq_none]
        rintro hnone
        rw [hnone] at htransport
        cases htransport
      rw [if_neg hnone]
      refine Prog.yields_bind (Prog.yields_lift (Flow.yields_host hsend)) ?_
      exact Prog.yields_pure true _
    · refine ⟨u,w,?_,hw,rfl,rfl⟩
      refine Prog.yields_bind (Prog.yields_ofOption false u) ?_
      rw [if_neg Bool.false_ne_true]
      refine Prog.yields_bind (Prog.yields_read u) ?_
      have hnone : u.host.transport.isNone=true := by
        change s.host.transport.isNone=true
        simpa using htransport
      rw [if_pos hnone]
      exact Prog.yields_pure true u

/-- The texts of the port, its direction and its queue are those of `x`. -/
structure Same (x : Port) (f : Fifo Bytes) (z : Port) : Prop where
  id : z.id=x.id
  name : z.name=x.name
  direction : z.direction=x.direction
  peerId : z.peerId=x.peerId
  peerPortId : z.peerPortId=x.peerPortId
  fifo : ∃ g, z.fifo=some g ∧ f.Same g

/-- `cc_port_create` makes the port anew from what `cc_port_serialize_port` and
`cc_port_serialize_prev_connections` wrote; `r` and `r'` are what follows in the message. -/
def Survives (mp : Msgpuck) (s : Node) (a : Ref) (x : Port) (f : Fifo Bytes)
    (includeState : Bool) (inPorts outPorts : List Port) (r r' : Bytes) : Prop :=
  ∃ p t z, (Build.portCreate mp a (Doc.encode mp (portDoc mp x f includeState)++r')
      (Doc.encode mp (prevDoc mp inPorts outPorts)++r) x.direction none).Yields s (some p) t ∧
    t.portMem.get p=some z ∧ Same x f z

/-- The ports of an actor on one side. -/
def sideOf (direction : PortDirection) (inPorts outPorts : List Port) : List Port :=
  match direction with
  | .dirIn => inPorts
  | .dirOut => outPorts

include hmp in
theorem survives_iff_peer (hs : Ready s a) (hx : x.Fits) (hf : f.Settled mp x.direction)
    {inPorts outPorts : List Port} (hin : ∀ y ∈ inPorts, y.Fits) (hout : ∀ y ∈ outPorts, y.Fits)
    (hlen : inPorts.length<2^32 ∧ outPorts.length<2^32) {r : Bytes}
    (hy : prevEntry mp x.direction inPorts outPorts x.id r=some y) (hfits : y.Fits)
    (includeState : Bool) (r' : Bytes) :
    Survives mp s a x f includeState inPorts outPorts r r' ↔
      y.peerPortId=x.peerPortId ∧ takenPeerId s includeState x y=x.peerId := by
  obtain ⟨t,z,hyields,hz,hkept,hpeer⟩ :=
    portCreate_yields hmp hs hx hf hin hout hlen hy hfits includeState r'
  injection hkept with hid hkept
  injection hkept with hname hkept
  injection hkept with hdirection hkept
  injection hkept with hport hfifo
  constructor
  · rintro ⟨p,t',z',hyields',hz',hsame⟩
    obtain ⟨hp,rfl⟩ := hyields.unique hyields'
    cases hp
    cases hz.symm.trans hz'
    exact ⟨hport.symm.trans hsame.peerPortId,hpeer.symm.trans hsame.peerId⟩
  · rintro ⟨hport',hpeer'⟩
    exact ⟨_,t,z,hyields,hz,hid,hname,hdirection,hpeer.trans hpeer',hport.trans hport',
      _,hfifo,restoredFifo_same hf⟩

theorem firstEntry_mem {ports : List Port} {id r : Bytes}
    (h : firstEntry mp id r ports=some y) : y ∈ ports := by
  induction ports with
  | nil => cases h
  | cons z zs ih =>
    rw [firstEntry] at h
    split_ifs at h
    · cases h
      exact List.mem_cons_self
    · exact List.mem_cons_of_mem _ (ih h)

/-- A port of an actor survives its serialization exactly when the first entry of its side that
starts with the id of the port names the same peer port, and the peer node that is taken over is
its own. -/
theorem port_survives_iff {mp : Msgpuck} (hmp : mp.Lawful) {s : Node} {a : Ref} (hs : Ready s a)
    {x : Port} {f : Fifo Bytes} (hf : f.Settled mp x.direction) {inPorts outPorts : List Port}
    (hx : x ∈ sideOf x.direction inPorts outPorts) (hin : ∀ y ∈ inPorts, y.Fits)
    (hout : ∀ y ∈ outPorts, y.Fits) (hlen : inPorts.length<2^32 ∧ outPorts.length<2^32)
    (includeState : Bool) (r r' : Bytes) :
    Survives mp s a x f includeState inPorts outPorts r r' ↔
      ∃ y, prevEntry mp x.direction inPorts outPorts x.id r=some y ∧
        y.peerPortId=x.peerPortId ∧ takenPeerId s includeState x y=x.peerId := by
  have hentry : ∃ y, prevEntry mp x.direction inPorts outPorts x.id r=some y ∧ x.Fits ∧ y.Fits := by
    cases hdirection : x.direction with
    | dirIn =>
      rw [hdirection] at hx
      obtain ⟨y,hy⟩ := Option.isSome_iff_exists.mp (firstEntry_isSome mp hx
        (Doc.encodeEntries mp [(ascii "outports",.map outPorts.length
          (outPorts.map (Atom.portSerializePrevConnections mp)))]++r))
      exact ⟨y,hy,hin x hx,hin y (firstEntry_mem hy)⟩
    | dirOut =>
      rw [hdirection] at hx
      obtain ⟨y,hy⟩ := Option.isSome_iff_exists.mp (firstEntry_isSome mp hx r)
      exact ⟨y,hy,hout x hx,hout y (firstEntry_mem hy)⟩
  obtain ⟨y,hy,hx,hfits⟩ := hentry
  rw [survives_iff_peer hmp hs hx hf hin hout hlen hy hfits includeState r']
  constructor
  · exact fun h => ⟨y,hy,h⟩
  · rintro ⟨z,hz,h⟩
    rw [hy,Option.some.injEq] at hz
    rw [hz]
    exact h

end Survive

section Examples

/-- An in-port without tokens, peer of `peerPortId` on the node `n2`. -/
def emptyPort (id peerPortId : Bytes) : Port where
  id := id
  name := id
  peerPortId := peerPortId
  peerId := ascii "n2"
  direction := .dirIn
  peerPort := none
  tunnel := none
  state := .disconnected
  fifo := some (.init 4)
  retries := 0
  actor := 0

/-- A node with one actor and no transport. -/
def singleNode : Node :=
  {Node.init bareHost with actorMem := Heap.empty.alloc {
    type := ascii "t"
    id := some (ascii "a")
    name := some (ascii "a")
    stateWas := .actor
    state := .pending
    loaded := true
    instanceState := none
    inPorts := []
    outPorts := []
    privateAttributes := []
    managedAttributes := []}}

theorem singleNode_ready : Ready singleNode 0 where
  allocs := rfl
  sends := rfl
  linked := by
    refine ⟨fun a ha => absurd ha (by simp [singleNode,Node.init]),fun a x hx p hp => ?_,
      fun p x hx => absurd hx (by simp [singleNode,Node.init])⟩
    change (Heap.empty.alloc _).get a=some x at hx
    rw [Heap.get_alloc] at hx
    split at hx
    · cases hx
      simp [Actor.ports] at hp
    · cases hx
  routed := ⟨fun t ht => absurd ht (by simp [singleNode,Node.init]),
    fun l hl => absurd hl (by simp [singleNode,Node.init]),
    fun t x hx => absurd hx (by simp [singleNode,Node.init]),
    fun p x t hx => absurd hx (by simp [singleNode,Node.init])⟩
  actor := ⟨_,_,rfl,rfl⟩
  registry := fun h => absurd h (by decide)

theorem init_settled (mp : Msgpuck) (direction : PortDirection) :
    (Fifo.init 4 : Fifo Bytes).Settled mp direction where
  size_pos := by decide
  read_le := by decide
  tentative_le := by decide
  room := by decide
  between := fun _ => rfl
  slots := rfl
  allocated := by decide
  values := fun b hb => absurd hb (by simp [Fifo.init])
  held := fun pos _ hpos => absurd hpos (UInt32.not_lt.mpr (UInt32.zero_le))

theorem emptyPort_fits {id peerPortId : Bytes} (hid : CText maxPortNameLength id)
    (hpeer : CText uuidBufferSize peerPortId) : (emptyPort id peerPortId).Fits where
  id := ⟨Nat.lt_of_lt_of_le hid.1 (by decide),hid.2⟩
  name := hid
  peerId := show CText uuidBufferSize (ascii "n2") by decide
  peerPortId := hpeer

/-- A queue of four slots with two tokens, the second one in the first slot. -/
def wrappedFifo : Fifo Bytes where
  size := 4
  writePos := 5
  readPos := 3
  tentativeReadPos := 3
  tokens := [some (msgpack.encodeUint 300),none,none,some (msgpack.encodeBool true)]

theorem wrappedFifo_settled (direction : PortDirection) :
    wrappedFifo.Settled msgpack direction where
  size_pos := by decide
  read_le := by decide
  tentative_le := by decide
  room := by decide
  between := fun _ => rfl
  slots := rfl
  allocated := by decide
  values := by
    intro b hb
    have hcase : b=msgpack.encodeUint 300 ∨ b=msgpack.encodeBool true := by
      simpa [wrappedFifo] using hb
    rcases hcase with rfl | rfl
    · exact msgpack_lawful.isValue_uint 300
    · exact msgpack_lawful.isValue_bool true
  held := by
    intro pos hread hwrite
    have hcase : pos=3 ∨ pos=4 := by
      simp only [wrappedFifo,UInt32.le_iff_toNat_le,UInt32.lt_iff_toNat_lt] at hread hwrite
      have hthree : (3 : UInt32).toNat=3 := rfl
      have hfour : (4 : UInt32).toNat=4 := rfl
      have hfive : (5 : UInt32).toNat=5 := rfl
      simp only [← UInt32.toNat_inj]
      omega
    rcases hcase with rfl | rfl <;> decide

/-- The second of two in-ports comes back with its tokens, beside an out-port with the same name. -/
theorem port_survives_wrapped : Survives msgpack singleNode 0
    (emptyPort (ascii "p2") (ascii "q2")) wrappedFifo true
    [emptyPort (ascii "p1") (ascii "q1"),emptyPort (ascii "p2") (ascii "q2")]
    [emptyPort (ascii "p2") (ascii "q3")] [] [] := by
  have hfits : ∀ y ∈ [emptyPort (ascii "p1") (ascii "q1"),emptyPort (ascii "p2") (ascii "q2"),
      emptyPort (ascii "p2") (ascii "q3")], y.Fits := by
    intro y hy
    simp only [List.mem_cons,List.not_mem_nil,or_false] at hy
    rcases hy with rfl | rfl | rfl <;> exact emptyPort_fits (by decide) (by decide)
  exact (port_survives_iff msgpack_lawful singleNode_ready (wrappedFifo_settled _)
    (by simp [emptyPort,sideOf]) (fun y hy => hfits y (by simp at hy ⊢; tauto))
    (fun y hy => hfits y (by simp at hy ⊢; tauto)) (by decide) true [] []).mpr
      ⟨emptyPort (ascii "p2") (ascii "q2"),by decide +kernel,rfl,by decide⟩

/-- The port `p1` comes back with the peer of `p10`, which was written before it. -/
theorem port_takes_longer_id : ¬Survives msgpack singleNode 0
    (emptyPort (ascii "p1") (ascii "q1")) (.init 4) false
    [emptyPort (ascii "p10") (ascii "q10"),emptyPort (ascii "p1") (ascii "q1")] [] [] [] := by
  have hfits : ∀ y ∈ [emptyPort (ascii "p10") (ascii "q10"),emptyPort (ascii "p1") (ascii "q1")],
      y.Fits := by
    intro y hy
    rcases List.mem_cons.mp hy with rfl | hy
    · exact emptyPort_fits (by decide) (by decide)
    · rw [List.mem_singleton.mp hy]
      exact emptyPort_fits (by decide) (by decide)
  have hentry : prevEntry msgpack .dirIn
      [emptyPort (ascii "p10") (ascii "q10"),emptyPort (ascii "p1") (ascii "q1")] [] (ascii "p1") []=
        some (emptyPort (ascii "p10") (ascii "q10")) := by decide
  rw [survives_iff_peer msgpack_lawful singleNode_ready (hfits _ (by simp)) (init_settled _ _) hfits
    (fun y hy => absurd hy List.not_mem_nil) (by decide) hentry (hfits _ (by simp))]
  exact fun h => absurd h.1 (by decide)

end Examples

end PortDoc

end CalvinConstrained
