import CalvinConstrained.Runtime.ActorState
import CalvinConstrained.Runtime.Touch
import CalvinConstrained.Runtime.Traced

namespace CalvinConstrained

open Prog

namespace Port

/-- A port that has a tunnel and waits for it; its PORT_CONNECT is still to come. -/
def awaitsTunnel (x : Port) : Bool := decide (x.state=.pendingTunnel) && x.tunnel.isSome

/-- What decides on the connection attempts of a port. -/
def pace (x : Port) : PortState × Option Ref × UInt8 := (x.state,x.tunnel,x.retries)

/-- The port makes no attempt and is not enabled. -/
structure Eases (x y : Port) : Prop where
  retries : y.retries=x.retries
  awaits : y.awaitsTunnel=true → x.awaitsTunnel=true
  enabled : y.state=.enabled → x.state=.enabled

/-- The port is enabled, or remains so. -/
def Settles (x y : Port) : Prop :=
  y.state=.enabled ∧ (y.retries=0 ∨ x.state=.enabled ∧ y.retries=x.retries)

theorem Eases.refl (x : Port) : x.Eases x := ⟨rfl,fun h => h,fun h => h⟩

theorem Eases.trans {x y z : Port} (h : x.Eases y) (k : y.Eases z) : x.Eases z :=
  ⟨k.retries.trans h.retries,fun hz => h.awaits (k.awaits hz),fun hz => h.enabled (k.enabled hz)⟩

theorem eases_of_pace {x y : Port} (h : y.pace=x.pace) : x.Eases y := by
  obtain ⟨hstate,hrest⟩ := Prod.mk.inj h
  obtain ⟨htunnel,hretries⟩ := Prod.mk.inj hrest
  refine ⟨hretries,fun hy => ?_,fun hy => hstate ▸ hy⟩
  rw [awaitsTunnel,hstate,htunnel] at hy
  exact hy

theorem eases_tunnel_none (x : Port) : x.Eases {x with tunnel := none} :=
  ⟨rfl,fun h => by simp [awaitsTunnel] at h,fun h => h⟩

/-- A state in which the port neither waits for a tunnel nor is enabled. -/
theorem eases_setState {x : Port} {state : PortState} {n : UInt8} (hn : n=x.retries)
    (hwait : state ≠ .pendingTunnel) (henabled : state ≠ .enabled) :
    x.Eases {x with state := state,retries := n} :=
  ⟨hn,fun h => by simp [awaitsTunnel,hwait] at h,fun h => absurd h henabled⟩

end Port

namespace Node

variable {p : Ref} {s t u : Node}

/-- The port is as it was, gone, or has made no attempt. -/
structure Eases (p : Ref) (s t : Node) : Prop where
  next : s.portMem.next ≤ t.portMem.next
  port : ∀ y, t.portMem.get p=some y → ∃ x, s.portMem.get p=some x ∧ x.Eases y

/-- The port may have been enabled besides. -/
structure Advances (p : Ref) (s t : Node) : Prop where
  next : s.portMem.next ≤ t.portMem.next
  port : ∀ y, t.portMem.get p=some y →
    ∃ x, s.portMem.get p=some x ∧ (x.Eases y ∨ x.Settles y)

theorem Eases.refl (p : Ref) (s : Node) : s.Eases p s := ⟨Nat.le_refl _,fun y hy => ⟨y,hy,.refl y⟩⟩

theorem Eases.advances (h : Eases p s t) : Advances p s t where
  next := h.next
  port := by
    intro y hy
    obtain ⟨x,hx,hxy⟩ := h.port y hy
    exact ⟨x,hx,.inl hxy⟩

theorem Eases.trans (h : Eases p s t) (k : Eases p t u) : Eases p s u where
  next := Nat.le_trans h.next k.next
  port := by
    intro z hz
    obtain ⟨y,hy,hyz⟩ := k.port z hz
    obtain ⟨x,hx,hxy⟩ := h.port y hy
    exact ⟨x,hx,hxy.trans hyz⟩

theorem Eases.of_ports (h : t.portMem=s.portMem) : Eases p s t where
  next := by rw [h]
  port := by
    intro y hy
    rw [h] at hy
    exact ⟨y,hy,.refl y⟩

theorem Eases.view {γ : Type} {g : Actor → γ} (h : SameView Port.pace g s t) : Eases p s t where
  next := Nat.le_of_eq h.nextPort.symm
  port := by
    intro y hy
    have hport := h.port p
    rw [hy,Option.map_some] at hport
    obtain ⟨x,hx,hxy⟩ := Option.map_eq_some_iff.mp hport.symm
    exact ⟨x,hx,Port.eases_of_pace hxy.symm⟩

/-- Another port is written. -/
theorem Eases.set {q : Ref} {x y : Port} (hx : s.portMem.get q=some x)
    (ht : t.portMem=s.portMem.set q y) (hxy : q=p → x.Eases y) : Eases p s t where
  next := by rw [ht,Heap.next_set]
  port := by
    intro z hz
    rw [ht,Heap.get_set hx] at hz
    split at hz
    · next hp =>
      cases hz
      subst hp
      exact ⟨x,hx,hxy rfl⟩
    · exact ⟨z,hz,.refl z⟩

end Node

namespace Atom

variable {p : Ref} {s t : Node}

/-- A property that a port keeps when it loses its tunnel or its peer. -/
structure PartRules (P : Node → Prop) : Prop where
  graph : ∀ s t, SameGraph s t → P s → P t
  tunnel : ∀ p, Preserves P (updatePort p fun x => {x with tunnel := none})
  peerId : ∀ p, Preserves P (updatePort p fun x => {x with peerId := []})
  clear : ∀ p, Preserves P (updatePort p fun x => {x with peerPort := none})
  fifo : ∀ p, Preserves P (portFifoCancel p)
  disconnected : ∀ p, Preserves P (portSetState p .disconnected)
  actor : ∀ a state, Preserves P (actorSetState a state)

namespace PartRules

variable {P : Node → Prop} (h : PartRules P)

include h

theorem detach (p : Ref) : Preserves P (portDetach p) := by
  refine preserves_bind (preserves_port p) fun x => ?_
  split
  · exact preserves_pure _
  · exact preserves_bind (preserves_tunnelRemoveRef h.graph _) fun _ => h.tunnel p

theorem handleDisconnect (p : Ref) : Preserves P (portHandleDisconnect p) :=
  preserves_bind (h.fifo p) fun _ => preserves_bind (h.disconnected p) fun _ =>
    preserves_bind (h.peerId p) fun _ => h.detach p

theorem dropTunnel (p : Ref) : Preserves P (portDropTunnel p) :=
  preserves_bind (h.detach p) fun _ => h.disconnected p

theorem leaveTunnel (p : Ref) (unrefTunnel : Bool) :
    Preserves P (portLeaveTunnel p unrefTunnel) := by
  refine preserves_bind (preserves_port p) fun x => ?_
  split
  · exact preserves_bind (preserves_sendPortDisconnect (graph_host h.graph) p) fun _ => h.detach p
  · exact h.tunnel p

theorem leavePeer (p : Ref) : Preserves P (portLeavePeer p) := by
  refine preserves_bind (preserves_port p) fun x => ?_
  split
  · exact preserves_pure _
  · exact preserves_bind (h.disconnected _) fun _ => h.clear p

theorem disconnect (p : Ref) (unrefTunnel : Bool) : Preserves P (portDisconnect p unrefTunnel) :=
  preserves_bind (h.leaveTunnel p _) fun _ => preserves_bind (h.leavePeer p) fun _ =>
    preserves_bind (h.peerId p) fun _ => preserves_bind (h.disconnected p) fun _ => h.fifo p

theorem disconnectPorts (a : Ref) (unrefTunnel : Bool) :
    Preserves P (actorDisconnectPorts a unrefTunnel) := by
  have heach : ∀ ps, Preserves P (disconnectEach unrefTunnel ps) := by
    intro ps
    induction ps with
    | nil => exact preserves_pure _
    | cons p ps ih => exact preserves_bind (h.disconnect p _) fun _ => ih
  exact preserves_bind (preserves_actor a) fun x => heach x.ports

theorem disconnectActor (a : Ref) (unrefTunnel : Bool) :
    Preserves P (actorDisconnect a unrefTunnel) :=
  preserves_bind (h.disconnectPorts a _) fun _ => h.actor a _

theorem forgetProxy : Preserves P nodeForgetProxy := by
  have heach : ∀ as, Preserves P (actorDisconnectEach false as) := by
    intro as
    induction as with
    | nil => exact preserves_pure _
    | cons a as ih => exact preserves_bind (h.disconnectActor a _) fun _ => ih
  have hkeep : ∀ f : Node → Node, (∀ s, SameGraph s (f s)) → Preserves P (modify f) :=
    fun f hf => preserves_modify fun s hp => h.graph s _ (hf s) hp
  refine preserves_bind preserves_get fun s =>
    preserves_bind (preserves_tunnelFreeAll h.graph _) fun _ =>
      preserves_bind (hkeep _ fun _ => ⟨rfl,rfl,rfl,.refl⟩) fun _ => ?_
  refine preserves_bind preserves_get fun s =>
    preserves_bind (preserves_linkFreeAll h.graph _) fun _ =>
      preserves_bind (hkeep _ fun _ => ⟨rfl,rfl,rfl,.refl⟩) fun _ => ?_
  exact preserves_bind preserves_get fun s => heach _

end PartRules

theorem portFifoCancel_eq {q : Ref} (h : portFifoCancel q s=some ((),t)) :
    ∃ x f, s.portMem.get q=some x ∧ t={s with portMem := s.portMem.set q {x with fifo := some f}} := by
  obtain ⟨x,u,hread,h₁⟩ := bind_eq_some.mp h
  obtain ⟨hx,rfl⟩ := port_eq_some hread
  cases hf : x.fifo with
  | none =>
    simp only [hf] at h₁
    cases h₁
  | some f =>
    simp only [hf] at h₁
    cases h₁
    exact ⟨x,f.cancel,hx,rfl⟩

theorem setState_eases {q : Ref} {state : PortState} (hwait : q=p → state ≠ .pendingTunnel)
    (henabled : q=p → state ≠ .enabled) (h : portSetState q state s=some ((),t)) :
    s.Eases p t := by
  obtain ⟨x,y,actorState,hx,-,rfl⟩ := portSetState_eq h
  refine Node.Eases.set hx rfl fun hq => Port.eases_setState ?_ (hwait hq) (henabled hq)
  simp [henabled hq]

/-- Parting from tunnels and peers is no attempt. -/
theorem eases_rules (p : Ref) (s : Node) : PartRules (s.Eases p) where
  graph u v huv hu := hu.trans (.of_ports huv.1)
  tunnel q := by
    intro u _ v hr hu
    obtain ⟨x,hx,rfl⟩ := updatePort_eq hr
    exact hu.trans (.set hx rfl fun _ => x.eases_tunnel_none)
  peerId q := by
    intro u _ v hr hu
    obtain ⟨x,hx,rfl⟩ := updatePort_eq hr
    exact hu.trans (.set hx rfl fun _ => Port.eases_of_pace rfl)
  clear q := by
    intro u _ v hr hu
    obtain ⟨x,hx,rfl⟩ := updatePort_eq hr
    exact hu.trans (.set hx rfl fun _ => Port.eases_of_pace rfl)
  fifo q := by
    intro u _ v hr hu
    obtain ⟨x,f,hx,rfl⟩ := portFifoCancel_eq hr
    exact hu.trans (.set hx rfl fun _ => Port.eases_of_pace rfl)
  disconnected q := by
    intro u _ v hr hu
    exact hu.trans (setState_eases (by simp) (by simp) hr)
  actor a state := by
    intro u _ v hr hu
    obtain ⟨y,w,hread,hset⟩ := bind_eq_some.mp hr
    obtain ⟨-,rfl⟩ := actor_eq_some hread
    cases hset
    exact hu.trans (.of_ports rfl)

/-- The port `p` is as in `s`. -/
def SamePort (p : Ref) (s t : Node) : Prop :=
  t.portMem.get p=s.portMem.get p ∧ t.portMem.next=s.portMem.next

theorem SamePort.eases (h : SamePort p s t) : s.Eases p t where
  next := Nat.le_of_eq h.2.symm
  port y hy := ⟨y,h.1 ▸ hy,.refl y⟩

theorem SamePort.set {q : Ref} {x y : Port} {u : Node} (h : SamePort p s t) (hq : q ≠ p)
    (hx : t.portMem.get q=some x) (hu : u.portMem=t.portMem.set q y) : SamePort p s u := by
  refine ⟨?_,by rw [hu,Heap.next_set]; exact h.2⟩
  rw [hu,Heap.get_set hx,if_neg (Ne.symm hq)]
  exact h.1

/-- The small steps on a port leave the others alone. -/
theorem samePort_rules {q : Ref} (hq : q ≠ p) (s : Node) : PortRules (SamePort p s) q where
  graph u v huv hu := by
    rw [SamePort,huv.1]
    exact hu
  setState state := by
    intro u _ v hr hu
    obtain ⟨x,y,actorState,hx,-,rfl⟩ := portSetState_eq hr
    exact hu.set hq hx rfl
  tunnel r := by
    intro u _ v hr hu
    obtain ⟨x,hx,rfl⟩ := updatePort_eq hr
    exact hu.set hq hx rfl
  peerId id := by
    intro u _ v hr hu
    obtain ⟨x,hx,rfl⟩ := updatePort_eq hr
    exact hu.set hq hx rfl
  fifo := by
    intro u _ v hr hu
    obtain ⟨x,f,hx,rfl⟩ := portFifoCancel_eq hr
    exact hu.set hq hx rfl

theorem SamePort.refl (p : Ref) (s : Node) : SamePort p s s := ⟨rfl,rfl⟩

end Atom

namespace Node.Advances

variable {p q : Ref} {s t u : Node} {x y : Port}

/-- A port is written in a way that does not concern its attempts. -/
theorem set (hu : s.Advances p u) (hx : u.portMem.get q=some x)
    (ht : t.portMem=u.portMem.set q y) (hxy : y.pace=x.pace) : s.Advances p t where
  next := by
    rw [ht,Heap.next_set]
    exact hu.next
  port := by
    intro z hz
    rw [ht,Heap.get_set hx] at hz
    split at hz
    · next hp =>
      cases hz
      subst hp
      obtain ⟨w,hw,hwx⟩ := hu.port x hx
      obtain ⟨hstate,hrest⟩ := Prod.mk.inj hxy
      obtain ⟨htunnel,hretries⟩ := Prod.mk.inj hrest
      refine ⟨w,hw,hwx.imp (fun h => h.trans (Port.eases_of_pace hxy)) fun h => ?_⟩
      rw [Port.Settles,hstate,hretries]
      exact h
    · exact hu.port z hz

/-- A port is enabled. -/
theorem enable (hu : s.Advances p u) (hx : u.portMem.get q=some x)
    (ht : t.portMem=u.portMem.set q y) (hstate : y.state=.enabled)
    (hretries : y.retries=if x.state=.enabled then x.retries else 0) : s.Advances p t where
  next := by
    rw [ht,Heap.next_set]
    exact hu.next
  port := by
    intro z hz
    rw [ht,Heap.get_set hx] at hz
    split at hz
    · next hp =>
      cases hz
      subst hp
      obtain ⟨w,hw,hwx⟩ := hu.port x hx
      refine ⟨w,hw,.inr ⟨hstate,?_⟩⟩
      rw [hretries]
      split
      · next henabled =>
        obtain hwx | hwx := hwx
        · exact .inr ⟨hwx.enabled henabled,hwx.retries⟩
        · exact hwx.2
      · exact .inl rfl
    · exact hu.port z hz

end Node.Advances

namespace Atom

variable {p : Ref} {s t u : Node}

theorem setEnabled_advances {q : Ref} (hu : s.Advances p u)
    (h : portSetState q .enabled u=some ((),t)) : s.Advances p t := by
  obtain ⟨z,y,actorState,hz,-,rfl⟩ := portSetState_eq h
  refine hu.enable hz rfl rfl ?_
  by_cases hstate : z.state=.enabled <;> simp [hstate]

theorem portPeer_advances {q r : Ref} (hu : s.Advances p u)
    (h : portPeer q r u=some ((),t)) : s.Advances p t := by
  obtain ⟨v,w,hget,h₁⟩ := bind_eq_some.mp h
  cases hget
  obtain ⟨⟨⟩,w,hupdate,h₂⟩ := bind_eq_some.mp h₁
  obtain ⟨x,hx,hw⟩ := updatePort_eq hupdate
  have hports : w.portMem=u.portMem.set q {x with peerPort := some r,peerId := u.host.id} := by
    rw [hw]
  exact setEnabled_advances (hu.set hx hports rfl) h₂

theorem portJoin_advances {q r : Ref} (h : portJoin q r s=some ((),t)) : s.Advances p t := by
  have hrules := eases_rules p s
  obtain ⟨⟨⟩,u₁,hd,h₁⟩ := bind_eq_some.mp h
  obtain ⟨⟨⟩,u₂,hd',h₂⟩ := bind_eq_some.mp h₁
  obtain ⟨⟨⟩,u₃,hj,hj'⟩ := bind_eq_some.mp h₂
  have hu₂ := hrules.detach r u₁ () u₂ hd' (hrules.detach q s () u₁ hd (.refl p s))
  exact portPeer_advances (portPeer_advances hu₂.advances hj) hj'

theorem portEnableOn_advances {q r : Ref} (hu : s.Advances p u)
    (h : portEnableOn q r u=some ((),t)) : s.Advances p t := by
  obtain ⟨⟨⟩,v₁,hupdate,h₁⟩ := bind_eq_some.mp h
  obtain ⟨x,hx,rfl⟩ := updatePort_eq hupdate
  obtain ⟨⟨⟩,v₂,hadd,h₂⟩ := bind_eq_some.mp h₁
  have hsame : SameGraph _ v₂ := preserves_tunnelAddRef (P := SameGraph _)
    (fun a b hab ha => ha.trans hab) r _ () v₂ hadd (.refl _)
  obtain ⟨⟨⟩,v₃,hset,h₃⟩ := bind_eq_some.mp h₂
  obtain ⟨z,y,actorState,hz,-,hv₃⟩ := portSetState_eq hset
  obtain ⟨tunnel,v₄,htunnel,h₄⟩ := bind_eq_some.mp h₃
  obtain ⟨-,rfl⟩ := tunnel_eq_some htunnel
  obtain ⟨link,v₅,hlink,h₅⟩ := bind_eq_some.mp h₄
  obtain ⟨-,rfl⟩ := link_eq_some hlink
  obtain ⟨w,hw,rfl⟩ := updatePort_eq h₅
  have hports : v₂.portMem=u.portMem.set q {x with tunnel := some r} := hsame.1
  rw [hports,Heap.get_set_self hx] at hz
  cases hz
  have henabled : v₅.portMem=u.portMem.set q {x with
      tunnel := some r
      state := .enabled
      retries := if x.state=.enabled then x.retries else 0} := by
    rw [hv₃,hports,Heap.set_set]
    by_cases hstate : x.state=.enabled <;> simp [hstate]
  exact Node.Advances.set (hu.enable hx henabled rfl rfl) hw rfl rfl

theorem freePorts_eases {removeFromRegistry : Bool} {ps : List Ref}
    (h : freePorts removeFromRegistry ps s=some ((),t)) : s.Eases p t := by
  obtain ⟨-,-,hnext,hget⟩ := freePorts_ports h
  refine ⟨Nat.le_of_eq hnext.symm,fun y hy => ?_⟩
  rw [hget] at hy
  split at hy
  · cases hy
  · exact ⟨y,hy,.refl y⟩

theorem actorFree_eases (a : Ref) (removeFromRegistry : Bool) :
    Preserves (s.Eases p) (actorFree a removeFromRegistry) := by
  intro u _ t hr hu
  obtain ⟨v,w,x,host,hview,-,-,hfree,rfl⟩ := actorFree_eq hr
  have hapart : ∀ x y, apartFromFifo x=apartFromFifo y → x.pace=y.pace := by
    intro x y h
    have hxy : (apartFromFifo x).pace=(apartFromFifo y).pace := by rw [h]
    exact hxy
  have hpace : SameView Port.pace Actor.core u v := SameView.coarsen hapart (fun _ _ h => h) hview
  have hports : u.Eases p w := (Node.Eases.view hpace).trans (freePorts_eases hfree)
  exact hu.trans (hports.trans (.of_ports rfl))

end Atom

namespace Op

open Atom

variable {mp : Msgpuck} {p : Ref} {s t : Node}

/-- The operation makes no connection attempt for the port `p`. -/
def Spares (p : Ref) : Op → Prop
  | .retry q => q ≠ p
  | .getTunnel q => q ≠ p
  | .setState q state => q=p → state ∉ [PortState.pendingTunnel,.pendingConnect,.pendingLookup]
  | _ => True

theorem spares_of_plain {o : Op} (h : o.plain=true) : o.Spares p := by
  cases o with
  | retry q => cases h
  | getTunnel q => cases h
  | setState q state => exact fun _ => of_decide_eq_true h
  | _ => trivial

/-- An operation that is no attempt of a port leaves its attempts as they are, unless it
enables the port. -/
theorem advances {o : Op} (ho : o.Spares p) (hs : o.apply mp s=some t) : s.Advances p t := by
  have hrules := eases_rules p s
  have hstart := Node.Eases.refl p s
  have hparts : ∀ {α : Type} {x : Atom α}, Preserves (s.Eases p) x →
      (x s).map Prod.snd=some t → s.Advances p t :=
    fun hx hr => (preserves_state hr hx hstart).advances
  have hother : ∀ {q : Ref} {α : Type} {x : Atom α}, Preserves (SamePort p s) x →
      (x s).map Prod.snd=some t → s.Advances p t :=
    fun hx hr => (preserves_state hr hx (SamePort.refl p s)).eases.advances
  cases hquiet : o.quiet with
  | true =>
    by_cases hretry : ∃ q, o=.retry q
    · obtain ⟨q,rfl⟩ := hretry
      exact hother (q := q) (fun u _ v hr hu => by
        obtain ⟨x,hx,rfl⟩ := updatePort_eq hr
        exact hu.set ho hx rfl) hs
    · refine (Op.quiet_keeps (M := fun _ _ => True) (f := Port.pace) (g := fun _ => ())
        (P := s.Eases p) hquiet (fun u v huv hu => hu.trans (.view huv)) (fun _ _ => trivial)
        (fun q hq => absurd ⟨q,hq⟩ hretry) (fun _ _ _ => rfl) (fun _ _ _ => rfl) hs
        hstart).advances
  | false =>
    cases o with
    | host | setPeerId | retry | setFifo | tunnelCreate | tunnelUpdate | linkCreate | linkRemoveRef
    | setProxyLink | storageTunnel | proxyTunnel | restoreStorage | restoreProxy | releaseStorage
    | releaseProxy | describe | callback | callbackIfSet | fire | serialize => cases hquiet
    | setState q state =>
      obtain ⟨⟨⟨⟩,t'⟩,hr,he⟩ := Option.map_eq_some_iff.mp hs
      cases he
      by_cases henabled : state=.enabled
      · subst henabled
        exact setEnabled_advances hstart.advances hr
      · exact (setState_eases (fun hq h => ho hq (by simp [h])) (fun _ => henabled) hr).advances
    | connectLocal q =>
      obtain ⟨⟨r,t'⟩,hr,he⟩ := Option.map_eq_some_iff.mp hs
      cases he
      obtain ⟨-,-,rfl⟩ | ⟨q',-,-,hjoin⟩ := portConnectLocal_cases hr
      · exact hstart.advances
      · exact portJoin_advances hjoin
    | handleConnect q tunnelId =>
      obtain ⟨⟨r,t'⟩,hr,he⟩ := Option.map_eq_some_iff.mp hs
      cases he
      obtain ⟨-,hdetach⟩ | ⟨-,hset⟩ | ⟨-,q',hon⟩ := portHandleConnect_cases hr
      · exact (hrules.detach q s () t' hdetach hstart).advances
      · exact setEnabled_advances hstart.advances hset
      · obtain ⟨⟨⟩,u,hdetach,hon⟩ := bind_eq_some.mp hon
        exact portEnableOn_advances (hrules.detach q s () u hdetach hstart).advances hon
    | handleDisconnect q => exact hparts (hrules.handleDisconnect q) hs
    | getTunnel q => exact hother (q := q) (samePort_rules ho s).getTunnel hs
    | dropTunnel q => exact hparts (hrules.dropTunnel q) hs
    | disconnect q => exact hparts (hrules.disconnect q true) hs
    | disconnectPorts a => exact hparts (hrules.disconnectPorts a true) hs
    | disconnectActor a => exact hparts (hrules.disconnectActor a true) hs
    | freeActor a removeFromRegistry =>
      refine hparts (preserves_bind preserves_get fun v => ?_) hs
      dsimp only
      split
      · exact preserves_bind preserves_undefined fun _ => actorFree_eases a removeFromRegistry
      · exact actorFree_eases a removeFromRegistry

end Op

theorem TopOp.advances {mp : Msgpuck} {p : Ref} {o : TopOp} {s t : Node} (ho : o.plain=true)
    (hs : o.apply mp s=some t) : s.Advances p t := by
  have hrules := Atom.eases_rules p s
  have hstart := Node.Eases.refl p s
  have hh := Atom.graph_host hrules.graph
  have hkeep : ∀ u v : Node, v.portMem=u.portMem → s.Eases p u → s.Eases p v :=
    fun u v huv hu => hu.trans (.of_ports huv)
  cases o with
  | build a o => cases ho
  | base o => exact Op.advances (Op.spares_of_plain ho) hs
  | newActor type =>
    refine (preserves_state hs (Atom.preserves_actorCreateFromType hh ?_ type) hstart).advances
    intro name state loaded i _ u a v h hu
    cases h
    exact hkeep u _ rfl hu
  | addActor a =>
    refine (preserves_state hs (preserves_bind (Atom.preserves_alloc hh) fun b => ?_) hstart).advances
    split
    · exact preserves_pure _
    · exact preserves_bind (preserves_modify fun u hu => hkeep u _ rfl hu) fun _ => preserves_pure _
  | freeNew a => exact (preserves_state hs (Atom.actorFree_eases a false) hstart).advances
  | connectPorts a =>
    cases hs
    exact hstart.advances
  | assign a state => exact (preserves_state hs (hrules.actor a state) hstart).advances
  | load a =>
    refine (preserves_state hs (preserves_bind (Atom.preserves_effect hh) fun e => ?_) hstart).advances
    split
    · refine preserves_bind (Atom.preserves_actor a) fun x => preserves_bind ?_ fun _ => preserves_pure _
      intro u _ v hr hu
      cases hr
      exact hkeep u _ rfl hu
    · exact preserves_pure _
  | loadFailed a =>
    cases hs
    exact hstart.advances
  | forgetProxy => exact (preserves_state hs hrules.forgetProxy hstart).advances
  | popActor =>
    refine (preserves_state hs (preserves_bind preserves_get fun u => ?_) hstart).advances
    split
    · exact preserves_pure _
    · exact preserves_bind (preserves_modify fun v hv => hkeep v _ rfl hv) fun _ =>
        Atom.actorFree_eases _ true

namespace Node

/-- The connection attempts that a port has left; one that is still to be created has them all. -/
def attemptsLeft (s : Node) (p : Ref) : Nat :=
  match s.portMem.get p with
  | some x => 5-x.retries.toNat
  | none => if p<s.portMem.next then 0 else 5

/-- The same for its PORT_CONNECTs: one is outstanding while the port waits for its tunnel. -/
def connectsLeft (s : Node) (p : Ref) : Nat :=
  s.attemptsLeft p+if (s.portMem.get p).any Port.awaitsTunnel then 1 else 0

/-- The attempts of a port are counted, and an enabled port has made none. -/
structure Counts (p : Ref) (s : Node) : Prop where
  le : ∀ x, s.portMem.get p=some x → x.retries.toNat ≤ 5
  awaits : ∀ x, s.portMem.get p=some x → x.awaitsTunnel=true → 0<x.retries.toNat
  enabled : ∀ x, s.portMem.get p=some x → x.state=.enabled → x.retries=0

variable {p : Ref} {s t : Node}

theorem attemptsLeft_some {x : Port} (hx : s.portMem.get p=some x) :
    s.attemptsLeft p=5-x.retries.toNat := by
  rw [attemptsLeft,hx]

theorem connectsLeft_some {x : Port} (hx : s.portMem.get p=some x) :
    s.connectsLeft p=5-x.retries.toNat+if x.awaitsTunnel then 1 else 0 := by
  rw [connectsLeft,attemptsLeft_some hx,hx]
  rfl

theorem Counts.connectsLeft_le (h : s.Counts p) : s.connectsLeft p ≤ 5 := by
  cases hx : s.portMem.get p with
  | none =>
    rw [connectsLeft,attemptsLeft,hx]
    dsimp only
    split <;> simp
  | some x =>
    rw [connectsLeft_some hx]
    split
    · next hwait =>
      have hpos := h.awaits x hx hwait
      omega
    · omega

theorem attemptsLeft_le (s : Node) (p : Ref) : s.attemptsLeft p ≤ s.connectsLeft p :=
  Nat.le_add_right _ _

theorem Counts.settles (hs : s.Counts p) {x y : Port} (hx : s.portMem.get p=some x)
    (hxy : x.Settles y) : y.retries=0 := by
  obtain hzero | ⟨henabled,hsame⟩ := hxy.2
  · exact hzero
  · rw [hsame,hs.enabled x hx henabled]

theorem Advances.counts (h : s.Advances p t) (hs : s.Counts p) : t.Counts p := by
  refine ⟨fun y hy => ?_,fun y hy hwait => ?_,fun y hy henabled => ?_⟩
  · obtain ⟨x,hx,hxy | hxy⟩ := h.port y hy
    · rw [hxy.retries]
      exact hs.le x hx
    · rw [hs.settles hx hxy]
      exact Nat.zero_le 5
  · obtain ⟨x,hx,hxy | hxy⟩ := h.port y hy
    · rw [hxy.retries]
      exact hs.awaits x hx (hxy.awaits hwait)
    · simp [Port.awaitsTunnel,hxy.1] at hwait
  · obtain ⟨x,hx,hxy | hxy⟩ := h.port y hy
    · rw [hxy.retries]
      exact hs.enabled x hx (hxy.enabled henabled)
    · exact hs.settles hx hxy

/-- While a port is not enabled, it gets no attempts back. -/
theorem Advances.left (h : s.Advances p t) (hs : s.Counts p)
    (hcalm : t.portState p=some .enabled → s.portState p=some .enabled) :
    t.attemptsLeft p ≤ s.attemptsLeft p ∧ t.connectsLeft p ≤ s.connectsLeft p := by
  cases hy : t.portMem.get p with
  | none =>
    have hleft : t.attemptsLeft p ≤ s.attemptsLeft p := by
      rw [attemptsLeft,hy]
      dsimp only
      split
      · exact Nat.zero_le _
      · next hnew =>
        have hnone : s.portMem.get p=none := by
          by_contra hsome
          obtain ⟨x,hx⟩ := Option.ne_none_iff_exists'.mp hsome
          exact hnew (Nat.lt_of_lt_of_le (Heap.lt_next hx) h.next)
        have hnew' : ¬p<s.portMem.next := fun hlt => hnew (Nat.lt_of_lt_of_le hlt h.next)
        rw [attemptsLeft,hnone]
        dsimp only
        rw [if_neg hnew']
    refine ⟨hleft,?_⟩
    rw [connectsLeft,hy]
    exact Nat.le_trans hleft (s.attemptsLeft_le p)
  | some y =>
    obtain ⟨x,hx,hxy | hxy⟩ := h.port y hy
    · rw [attemptsLeft_some hy,attemptsLeft_some hx,connectsLeft_some hy,connectsLeft_some hx,
        hxy.retries]
      refine ⟨Nat.le_refl _,Nat.add_le_add_left ?_ _⟩
      split
      · next hwait => rw [if_pos (hxy.awaits hwait)]
      · exact Nat.zero_le _
    · have henabled : x.state=.enabled := by
        have hstate := hcalm (by rw [portState,hy,Option.map_some,hxy.1])
        rw [portState,hx,Option.map_some] at hstate
        exact Option.some.inj hstate
      have hwait : y.awaitsTunnel=false := by simp [Port.awaitsTunnel,hxy.1]
      rw [attemptsLeft_some hy,attemptsLeft_some hx,connectsLeft_some hy,connectsLeft_some hx,hwait,
        hs.enabled x hx henabled,hs.settles hx hxy]
      simp

end Node

end CalvinConstrained
