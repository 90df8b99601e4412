import CalvinConstrained.Runtime.Walk

namespace CalvinConstrained

namespace Node

def portsOf (s : Node) (a : Ref) : List Ref := (s.actorMem.get a).elim [] Actor.ports

def peerOf (s : Node) (p : Ref) : Option Ref := (s.portMem.get p).bind Port.peerPort

/-- The local peers of ports. -/
def peersOf (s : Node) (ps : List Ref) : List Ref := ps.filterMap s.peerOf

/-- Whether a PORT_CONNECT for the port names a tunnel of the node. The port lets go of
another tunnel before the name is looked up. -/
def findsTunnel (s : Node) (p : Ref) (tunnelId : Text) : Bool :=
  (Atom.portOnTunnel p tunnelId s).any Prod.fst ||
    ((Atom.portDetach p >>= fun _ => Atom.tunnelGetFromId tunnelId) s).any fun r => r.1.isSome

/-- Whether `cc_port_connect` gets a tunnel for the port. -/
def getsTunnel (s : Node) (p : Ref) : Bool :=
  (s.portMem.get p).any fun x => x.tunnel.isNone &&
    (decide (0<strnlen x.peerId uuidBufferSize) &&
      (Atom.tunnelGetOrCreate ⟨x.peerId,strnlen x.peerId uuidBufferSize⟩ s).any fun r => r.1.isSome)

/-- The ports whose state is set when a port takes over a saved state. -/
def restores (s : Node) (p : Ref) (value : UInt32) (peerIdLen : Nat) : List Ref :=
  if PortState.ofUInt32 value=.enabled then
    (s.portMem.get p).elim [] fun x =>
      if strncmpEq x.peerId s.host.id (strnlen x.peerId uuidBufferSize) then
        (s.peerFor p).elim [] fun q => [p,q]
      else if (Atom.tunnelGetFromPeeridAndType ⟨x.peerId,peerIdLen⟩ .token s).any
          fun r => r.1.isSome then []
      else [p]
  else []

/-- The ports of the actors of the node. -/
def listedPorts (s : Node) : List Ref := s.actors.flatMap s.portsOf

theorem peersOf_mem (s : Node) {ps : List Ref} {p q : Ref} {x : Port} (hp : p ∈ ps)
    (hx : s.portMem.get p=some x) (hq : x.peerPort=some q) : q ∈ s.peersOf ps :=
  List.mem_filterMap.mpr ⟨p,hp,by rw [peerOf,hx,Option.bind_some,hq]⟩

end Node

/-- The ports that an operation parts from their peers. -/
def Op.parts : Op → Node → List Ref
  | .disconnect p,_ => [p]
  | .disconnectPorts a,s => s.portsOf a
  | .disconnectActor a,s => s.portsOf a
  | _,_ => []

/-- The ports whose state an operation sets. -/
def Op.sets : Op → Node → List Ref
  | .setState p _,_ => [p]
  | .connectLocal p,s => (s.peerFor p).elim [] fun q => [p,q]
  | .handleConnect p tunnelId,s => if s.findsTunnel p tunnelId then [p] else []
  | .handleDisconnect p,_ => [p]
  | .getTunnel p,s => if s.getsTunnel p then [p] else []
  | .dropTunnel p,_ => [p]
  | op,s => op.parts s++s.peersOf (op.parts s)

/-- The ports whose state a step sets. -/
def TopOp.sets : TopOp → Node → List Ref
  | .base o,s => o.sets s
  | .build _ (.base o),s => o.sets s
  | .build _ (.takeState p value peerIdLen),s => s.restores p value peerIdLen
  | .forgetProxy,s => s.listedPorts++s.peersOf s.listedPorts
  | _,_ => []

/-- The operations on tunnels, links and the host, and those that call an actor. -/
def Op.quiet : Op → Bool
  | .setState _ _ => false
  | .connectLocal _ => false
  | .handleConnect _ _ => false
  | .handleDisconnect _ => false
  | .getTunnel _ => false
  | .dropTunnel _ => false
  | .disconnect _ => false
  | .disconnectPorts _ => false
  | .disconnectActor _ => false
  | .freeActor _ _ => false
  | _ => true

/-- The quiet operations that leave the queues alone. -/
def Op.still : Op → Bool
  | .setFifo _ _ => false
  | .callback _ => false
  | .callbackIfSet _ => false
  | .fire _ => false
  | op => op.quiet

/-- The peers of ports that are parted are set too. -/
theorem Op.sets_of_parts {op : Op} {s : Node} {p q : Ref} {x : Port} (hp : p ∈ op.parts s)
    (hx : s.portMem.get p=some x) (hq : x.peerPort=some q) : q ∈ op.sets s := by
  have hpeer := s.peersOf_mem hp hx hq
  cases op with
  | disconnect | disconnectPorts | disconnectActor => exact List.mem_append.mpr (.inr hpeer)
  | _ => cases hp

section Rules

variable {mp : Msgpuck} {P : Node → Prop} {op : Op} {s t : Node}

open Atom

/-- What depends neither on tunnels nor on what small updates change. Only one operation counts
the attempts of a port. -/
theorem Op.still_keeps {M : Host → Host → Prop} [Host.Admits M] {β γ : Type} {f : Port → β}
    {g : Actor → γ} (hstill : op.still=true) (hP : ∀ s t, SameViewBy M f g s t → P s → P t)
    (hhost : ∀ h, op=.host h → M s.host h)
    (hretry : ∀ p, op=.retry p → ∀ x n, f {x with retries := n}=f x)
    (hf : ∀ x id, f {x with peerId := id}=f x) (hg : ∀ x y : Actor, x.shape=y.shape → g x=g y)
    (hs : op.apply mp s=some t) (hp : P s) : P t := by
  have hgraph : ∀ s t, SameGraph s t → P s → P t := fun s t h => hP s t (h.sameView f g)
  have hview : ∀ s t, SameViewBy M f g s t → SameTunnels s t → P s → P t := fun s t h _ => hP s t h
  have hcore : ∀ x y : Actor, x.core=y.core → g x=g y := fun x y h => hg x y (Actor.shape_of_core h)
  cases op with
  | setState | connectLocal | handleConnect | handleDisconnect | getTunnel | dropTunnel
  | disconnect | disconnectPorts | disconnectActor | freeActor | setFifo | callback | callbackIfSet
  | fire => cases hstill
  | host h =>
    cases hs
    exact view_relate hview s h (hhost h rfl) hp
  | setPeerId p peerId =>
    exact preserves_state hs (preserves_updatePort hview p fun x => hf x _) hp
  | retry p =>
    exact preserves_state hs (preserves_updatePort hview p fun x => hretry p rfl x _) hp
  | tunnelCreate type state peerId tunnelId =>
    exact preserves_state hs (preserves_tunnelCreate hgraph type state peerId tunnelId) hp
  | tunnelUpdate r id state =>
    exact preserves_state hs (preserves_tunnelUpdate hgraph r id state) hp
  | linkCreate peerId isProxy =>
    exact preserves_state hs (preserves_linkCreate hgraph peerId isProxy) hp
  | linkRemoveRef l => exact preserves_state hs (preserves_linkRemoveRef hgraph l) hp
  | setProxyLink l =>
    cases hs
    exact hgraph s _ ⟨rfl,rfl,rfl,.refl⟩ hp
  | storageTunnel peerId => exact preserves_state hs (preserves_nodeStorageTunnel hgraph peerId) hp
  | proxyTunnel peerId => exact preserves_state hs (preserves_nodeProxyTunnel hgraph peerId) hp
  | restoreStorage r =>
    cases hs
    exact hgraph s _ ⟨rfl,rfl,rfl,.refl⟩ hp
  | restoreProxy r =>
    cases hs
    exact hgraph s _ ⟨rfl,rfl,rfl,.refl⟩ hp
  | releaseStorage => exact preserves_state hs (preserves_nodeReleaseStorage hgraph) hp
  | releaseProxy => exact preserves_state hs (preserves_nodeReleaseProxy hgraph) hp
  | describe a id name privateAttributes managedAttributes stateWas =>
    exact preserves_state hs (preserves_actorDescribe hview hg a id name privateAttributes
      managedAttributes stateWas) hp
  | serialize a includeState =>
    exact preserves_state hs (preserves_actorSerialize hview hcore mp a includeState) hp

theorem Op.still_preserves {M : Host → Host → Prop} [Host.Admits M] {β γ : Type} {f : Port → β}
    {g : Actor → γ} (hstill : op.still=true) (hP : ∀ s t, SameViewBy M f g s t → P s → P t)
    (hhost : ∀ h, op=.host h → M s.host h)
    (hf : ∀ x n id, f {x with retries := n,peerId := id}=f x)
    (hg : ∀ x y : Actor, x.shape=y.shape → g x=g y) (hs : op.apply mp s=some t) (hp : P s) : P t :=
  Op.still_keeps hstill hP hhost (fun _ _ x n => hf x n x.peerId) (fun x => hf x x.retries) hg hs hp

/-- What depends neither on tunnels nor on what callbacks and small updates change. -/
theorem Op.quiet_keeps {M : Host → Host → Prop} [Host.AdmitsObjects M] {β γ : Type}
    {f : Port → β} {g : Actor → γ} (hquiet : op.quiet=true)
    (hP : ∀ s t, SameViewBy M f g s t → P s → P t) (hhost : ∀ h, op=.host h → M s.host h)
    (hretry : ∀ p, op=.retry p → ∀ x n, f {x with retries := n}=f x)
    (hf : ∀ x q id, f {x with fifo := q,peerId := id}=f x)
    (hg : ∀ x y : Actor, x.shape=y.shape → g x=g y) (hs : op.apply mp s=some t) (hp : P s) : P t := by
  have hview : ∀ s t, SameViewBy M f g s t → SameTunnels s t → P s → P t := fun s t h _ => hP s t h
  have hcore : ∀ x y : Actor, x.core=y.core → g x=g y := fun x y h => hg x y (Actor.shape_of_core h)
  have hfifo : ∀ x q, f {x with fifo := q}=f x := fun x q => hf x q x.peerId
  cases hstill : op.still with
  | true => exact Op.still_keeps hstill hP hhost hretry (fun x id => hf x x.fifo id) hg hs hp
  | false =>
    cases op with
    | setFifo p q => exact preserves_state hs (preserves_updatePort hview p fun x => hfifo x _) hp
    | callback a => exact preserves_state hs (preserves_callback hview hcore hfifo a) hp
    | callbackIfSet a => exact preserves_state hs (preserves_callbackIfSet hview hcore hfifo a) hp
    | fire a => exact preserves_state hs (preserves_callback hview hcore hfifo a) hp
    | _ => exact absurd (hstill.symm.trans hquiet) (by decide)

theorem Op.quiet_preserves {M : Host → Host → Prop} [Host.AdmitsObjects M] {β γ : Type}
    {f : Port → β} {g : Actor → γ} (hquiet : op.quiet=true)
    (hP : ∀ s t, SameViewBy M f g s t → P s → P t) (hhost : ∀ h, op=.host h → M s.host h)
    (hf : ∀ x q n id, f {x with fifo := q,retries := n,peerId := id}=f x)
    (hg : ∀ x y : Actor, x.shape=y.shape → g x=g y) (hs : op.apply mp s=some t) (hp : P s) : P t :=
  Op.quiet_keeps hquiet hP hhost (fun _ _ x n => hf x x.fifo n x.peerId)
    (fun x q => hf x q x.retries) hg hs hp

/-- A PORT_CONNECT finds its tunnel and enables the port, or the port only lets go of the
tunnel it had. -/
theorem portHandleConnect_cases {p : Ref} {tunnelId : Text} {r : Result}
    (h : portHandleConnect p tunnelId s=some (r,t)) :
    (s.findsTunnel p tunnelId=false ∧ portDetach p s=some ((),t)) ∨
    (s.findsTunnel p tunnelId=true ∧ portSetState p .enabled s=some ((),t)) ∨
    (s.findsTunnel p tunnelId=true ∧ ∃ q, (portDetach p >>= fun _ => portEnableOn p q) s=
      some ((),t)) := by
  obtain ⟨on,u,hon,h₁⟩ := bind_eq_some.mp h
  have hu : u=s := by
    refine preserves_bind (P := fun v => v=s) (preserves_port p) (fun x => ?_) s on u hon rfl
    split
    · exact preserves_pure _
    · exact preserves_bind (preserves_tunnel _) fun _ => preserves_pure _
  subst u
  cases on with
  | true =>
    obtain ⟨⟨⟩,v,hset,h₂⟩ := bind_eq_some.mp h₁
    cases h₂
    exact .inr (.inl ⟨by simp [Node.findsTunnel,hon],hset⟩)
  | false =>
    obtain ⟨⟨⟩,v,hdetach,h₂⟩ := bind_eq_some.mp h₁
    obtain ⟨found,w,hfound,h₃⟩ := bind_eq_some.mp h₂
    obtain ⟨rfl,-⟩ := tunnelGetFromId_found hfound
    have hfinds : s.findsTunnel p tunnelId=found.isSome := by
      rw [Node.findsTunnel,hon,Option.any_some,Bool.false_or,bind_apply,hdetach,Option.bind_some,
        hfound,Option.any_some]
    cases found with
    | none =>
      cases h₃
      exact .inl ⟨hfinds,hdetach⟩
    | some q =>
      obtain ⟨⟨⟩,v,hon,h₄⟩ := bind_eq_some.mp h₃
      cases h₄
      exact .inr (.inr ⟨hfinds,q,bind_eq_some.mpr ⟨(),w,hdetach,hon⟩⟩)

/-- `cc_port_connect` gets a tunnel for the port, or leaves the port as it is. -/
theorem portGetTunnel_cases {p : Ref} (h : portGetTunnel p s=some ((),t)) :
    (s.getsTunnel p=false ∧ SameGraph s t) ∨
    (s.getsTunnel p=true ∧ ∃ u q, SameGraph s u ∧ portAttach p q u=some ((),t)) := by
  obtain ⟨x,u,hread,h₁⟩ := bind_eq_some.mp h
  obtain ⟨hx,rfl⟩ := port_eq_some hread
  rw [Node.getsTunnel,hx,Option.any_some]
  dsimp only at h₁
  split at h₁
  · next hnone =>
    obtain ⟨found,v,hfound,h₂⟩ := bind_eq_some.mp h₁
    have hv : SameGraph u v := preserves_tunnelGetOrCreate (P := SameGraph u)
      (fun a b hab ha => ha.trans hab) _ u found v hfound (.refl u)
    rw [hfound,hnone.1]
    cases found with
    | none =>
      cases h₂
      exact .inl ⟨by simp,hv⟩
    | some q => exact .inr ⟨by simp [hnone.2],v,q,hv,h₂⟩
  · next hnone =>
    cases h₁
    refine .inl ⟨?_,.refl _⟩
    cases htunnel : x.tunnel with
    | some r => simp
    | none =>
      have hzero : ¬0<strnlen x.peerId uuidBufferSize := fun hlt => hnone ⟨htunnel,hlt⟩
      simp [hzero]

/-- What a port does that takes over a saved state: it takes the state alone, with or
without a tunnel to its peer, or connects to a port of the node, or finds no tunnel. -/
theorem portTakeState_cases {p : Ref} {value : UInt32} {n : Nat}
    (h : portTakeState p value n s=some ((),t)) :
    ∃ x u, s.portMem.get p=some x ∧
      u={s with portMem := s.portMem.set p {x with state := .ofUInt32 value}} ∧
      ((s.restores p value n=[] ∧ (t=u ∨ ∃ r, (updatePort p (fun y => {y with tunnel := some r}) >>=
          fun _ => tunnelAddRef r) u=some ((),t))) ∨
        (∃ q, s.restores p value n=[p,q] ∧
          strncmpEq x.peerId s.host.id (strnlen x.peerId uuidBufferSize)=true ∧
          portJoin p q u=some ((),t)) ∨
        (s.restores p value n=[p] ∧
          strncmpEq x.peerId s.host.id (strnlen x.peerId uuidBufferSize)=false ∧
          portSetState p .disconnected u=some ((),t))) := by
  obtain ⟨⟨⟩,u,hset,h₁⟩ := bind_eq_some.mp h
  obtain ⟨x,hx,hu⟩ := updatePort_eq hset
  refine ⟨x,u,hx,hu,?_⟩
  have hget : u.portMem.get p=some {x with state := .ofUInt32 value} := by
    rw [hu]
    exact (Heap.get_set hx _ p).trans (if_pos rfl)
  have hsame : SameTunnels s u := by
    rw [hu]
    exact .refl s
  have hhost : u.host=s.host := by rw [hu]
  obtain ⟨y,v,hread,h₂⟩ := bind_eq_some.mp h₁
  obtain ⟨hy,rfl⟩ := port_eq_some hread
  cases hget.symm.trans hy
  rw [Node.restores]
  split at h₂
  swap
  · next hstate =>
    have hstate : ¬PortState.ofUInt32 value=.enabled := hstate
    cases h₂
    exact .inl ⟨if_neg hstate,.inl rfl⟩
  next hstate =>
  have hstate : PortState.ofUInt32 value=.enabled := hstate
  rw [if_pos hstate,hx,Option.elim_some]
  obtain ⟨z,w,hread,h₃⟩ := bind_eq_some.mp h₂
  obtain ⟨hz,rfl⟩ := port_eq_some hread
  cases hget.symm.trans hz
  obtain ⟨w',w'',hgot,h₄⟩ := bind_eq_some.mp h₃
  cases hgot
  rw [hhost] at h₄
  split at h₄
  · next hlocal =>
    have hlocal : strncmpEq x.peerId s.host.id (strnlen x.peerId uuidBufferSize)=true := hlocal
    have hview : SameView fixedPart Actor.ports s w := by
      refine ⟨by rw [hu],fun r => ?_,fun _ => by rw [hu],by rw [hu]; exact Heap.next_set _ _ _,
        by rw [hu],trivial⟩
      rw [hu]
      change ((s.portMem.set p _).get r).map fixedPart=_
      rw [Heap.get_set hx]
      split
      · next hr =>
        rw [hr,hx]
        rfl
      · rfl
    rw [if_pos hlocal,← peerFor_view (fun _ _ h => h) hview]
    obtain ⟨r,w₁,hconnect,h₅⟩ := bind_eq_some.mp h₄
    cases h₅
    obtain ⟨hnone,-,rfl⟩ | ⟨q,hq,-,hjoin⟩ := portConnectLocal_cases hconnect
    · rw [hnone]
      exact .inl ⟨rfl,.inl rfl⟩
    · rw [hq]
      exact .inr (.inl ⟨q,rfl,hlocal,hjoin⟩)
  · next hlocal =>
    have hlocal : ¬strncmpEq x.peerId s.host.id (strnlen x.peerId uuidBufferSize)=true := hlocal
    rw [if_neg hlocal]
    obtain ⟨found,w₁,hfound,h₅⟩ := bind_eq_some.mp h₄
    obtain ⟨rfl,-⟩ := tunnelGetFromPeeridAndType_found hfound
    have hany : (tunnelGetFromPeeridAndType ⟨x.peerId,n⟩ .token s).any (fun r => r.1.isSome)=
        found.isSome := by
      have hmap := tunnelGetFromPeerid_same hsame ⟨x.peerId,n⟩ .token
      obtain ⟨⟨r,w⟩,hr,he⟩ := Option.map_eq_some_iff.mp (hmap.symm.trans
        (congrArg (Option.map Prod.fst) hfound))
      cases he
      rw [hr,Option.any_some]
    rw [hany]
    cases found with
    | some r => exact .inl ⟨rfl,.inr ⟨r,h₅⟩⟩
    | none => exact .inr (.inr ⟨rfl,Bool.not_eq_true _ ▸ hlocal,h₅⟩)

/-- The operations that set the states of ports keep what the small steps on these ports
keep. -/
theorem Op.sets_preserves {A : Ref → Prop} (h : PeerRules A P)
    (hdetach : ∀ p, Preserves P (portDetach p)) (hgraph : ∀ s t, SameGraph s t → P s → P t)
    (hlocal : ∀ u p q, P u → op=.connectLocal p → u.peerFor p=some q → A p ∧ A q)
    (hpart : ∀ u p x q, P u → p ∈ op.parts s → u.portMem.get p=some x → x.peerPort=some q → A q)
    (hports : ∀ p ∈ op.sets s, A p) (hloud : op.quiet=false)
    (hfree : ∀ a b, op ≠ .freeActor a b) (hactor : ∀ a, op ≠ .disconnectActor a)
    (hs : op.apply mp s=some t) (hp : P s) : P t := by
  cases op with
  | host | setPeerId | retry | setFifo | tunnelCreate | tunnelUpdate | linkCreate | linkRemoveRef
  | setProxyLink | storageTunnel | proxyTunnel | restoreStorage | restoreProxy | releaseStorage
  | releaseProxy | describe | callback | callbackIfSet | fire | serialize => cases hloud
  | freeActor a b => exact absurd rfl (hfree a b)
  | disconnectActor a => exact absurd rfl (hactor a)
  | setState p state =>
    exact preserves_state hs ((h.port p (hports p (by simp [Op.sets]))).setState state) hp
  | connectLocal p =>
    exact preserves_state hs (h.connectLocal fun u q hu hq => hlocal u p q hu rfl hq) hp
  | handleConnect p tunnelId =>
    cases hfound : s.findsTunnel p tunnelId with
    | true =>
      have hA := hports p (by simp [Op.sets,hfound])
      exact preserves_state hs ((h.port p hA).handleConnect tunnelId) hp
    | false =>
      obtain ⟨⟨r,t'⟩,hr,he⟩ := Option.map_eq_some_iff.mp hs
      cases he
      obtain ⟨-,hd⟩ | ⟨hf,-⟩ | ⟨hf,-⟩ := portHandleConnect_cases hr
      · exact hdetach p s () t' hd hp
      · cases hfound.symm.trans hf
      · cases hfound.symm.trans hf
  | handleDisconnect p =>
    exact preserves_state hs (h.port p (hports p (by simp [Op.sets]))).handleDisconnect hp
  | getTunnel p =>
    cases hgets : s.getsTunnel p with
    | true =>
      have hA := hports p (by simp [Op.sets,hgets])
      exact preserves_state hs (h.port p hA).getTunnel hp
    | false =>
      obtain ⟨⟨⟨⟩,t'⟩,hr,he⟩ := Option.map_eq_some_iff.mp hs
      cases he
      obtain ⟨-,hsame⟩ | ⟨hg,-⟩ := portGetTunnel_cases hr
      · exact hgraph s t' hsame hp
      · cases hgets.symm.trans hg
  | dropTunnel p =>
    exact preserves_state hs (h.port p (hports p (by simp [Op.sets]))).dropTunnel hp
  | disconnect p =>
    have hA := hports p (List.mem_append.mpr (.inl (List.mem_singleton_self p)))
    exact preserves_state hs (h.disconnect true hA fun u x q hu =>
      hpart u p x q hu (List.mem_singleton_self p)) hp
  | disconnectPorts a =>
    obtain ⟨⟨⟨⟩,t'⟩,hr,he⟩ := Option.map_eq_some_iff.mp hs
    cases he
    obtain ⟨x,u,hread,h₁⟩ := bind_eq_some.mp hr
    obtain ⟨hx,rfl⟩ := actor_eq_some hread
    have hof : ∀ p ∈ x.ports, p ∈ (Op.disconnectPorts a).parts u := by
      intro p hmem
      rwa [Op.parts,Node.portsOf,hx,Option.elim_some]
    exact h.disconnectEach true (fun p hmem => hports p (List.mem_append.mpr (.inl (hof p hmem))))
      (fun v p y q hmem hv => hpart v p y q hv (hof p hmem)) u () t' h₁ hp

end Rules

end CalvinConstrained
