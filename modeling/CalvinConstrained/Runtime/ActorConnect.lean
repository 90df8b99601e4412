import CalvinConstrained.Runtime.ActorState
import CalvinConstrained.Runtime.Message

namespace CalvinConstrained

open Prog

namespace Node

/-- The port of the node itself that `cc_port_connect` connects `p` to. -/
def localPeer (s : Node) (p : Ref) : Option Ref :=
  (s.portMem.get p).bind fun x =>
    if x.retries=5 then none
    else ((Atom.portGet ⟨x.peerPortId,strnlen x.peerPortId uuidBufferSize⟩ s).map Prod.fst).join

/-- The ports that are enabled once the local connection of `p` is made. -/
def join (s : Node) (p : Ref) (on : Ref → Bool) : Ref → Bool :=
  match s.localPeer p with
  | none => on
  | some q => fun r => decide (r=q) || (decide (r=p) || on r)

/-- The ports that are enabled once the local connections of `ps` are made, in order. -/
def joined (s : Node) : List Ref → (Ref → Bool) → Ref → Bool
  | [],on => on
  | p::ps,on => s.joined ps (if on p then on else s.join p on)

def isEnabled (s : Node) (p : Ref) : Bool := decide (s.portState p=some .enabled)

/-- `cc_actor_connect_ports` has nothing to connect, or a port is still waiting after the
local connections it makes. -/
def LeavesWaiting (s : Node) (a : Ref) : Prop :=
  ∀ x, s.actorMem.get a=some x → x.loaded=true →
    s.AllEnabled x ∨ ∃ p ∈ x.ports, s.joined x.ports s.isEnabled p=false

theorem joined_mono (s : Node) {ps : List Ref} {on : Ref → Bool} {r : Ref} (h : on r=true) :
    s.joined ps on r=true := by
  induction ps generalizing on with
  | nil => exact h
  | cons p ps ih =>
    refine ih ?_
    split
    · exact h
    · rw [join]
      cases s.localPeer p with
      | none => exact h
      | some q => simp [h]

end Node

/-- The loop of `cc_actor_connect_ports` that started in `s₀`, with the ports `ps` to come
and the ports `on` enabled. -/
structure Connecting (s₀ : Node) (ps : List Ref) (on : Ref → Bool) (s : Node) : Prop where
  same : SameView Atom.fixedPart (fun x => (x.loaded,x.ports)) s₀ s
  enabled : ∀ r, s.portState r=some .enabled ↔ on r=true
  retries : ∀ r ∈ ps, on r=true ∨
    (s.portMem.get r).map Port.retries=(s₀.portMem.get r).map Port.retries

namespace Connecting

variable {s₀ s t : Node} {ps : List Ref} {on : Ref → Bool}

/-- The fields of a port that matter in the loop. -/
def ofPort (x : Port) : (Bytes × Bytes × Bytes × PortDirection × Ref) × PortState × UInt8 :=
  (Atom.fixedPart x,x.state,x.retries)

theorem view (h : SameView ofPort (fun x => (x.loaded,x.ports)) s t)
    (hs : Connecting s₀ ps on s) : Connecting s₀ ps on t := by
  have hfield : ∀ {δ : Type} (k : _ → δ) (r : Ref),
      (t.portMem.get r).map (k ∘ ofPort)=(s.portMem.get r).map (k ∘ ofPort) := by
    intro δ k r
    have := congrArg (Option.map k) (h.port r)
    rwa [Option.map_map,Option.map_map] at this
  refine ⟨⟨h.actors.trans hs.same.actors,fun p => (hfield Prod.fst p).trans (hs.same.port p),
    fun a => (h.actor a).trans (hs.same.actor a),h.nextPort.trans hs.same.nextPort,
    h.nextActor.trans hs.same.nextActor,trivial⟩,fun r => ?_,fun r hr => ?_⟩
  · have : t.portState r=s.portState r := hfield (fun z => z.2.1) r
    rw [this]
    exact hs.enabled r
  · exact (hs.retries r hr).imp_right (hfield (fun z => z.2.2) r).trans

theorem quiet (s t : Node) (h : SameView ofPort (fun x => (x.loaded,x.ports)) s t)
    (_ : SameTunnels s t) (hs : Connecting s₀ ps on s) : Connecting s₀ ps on t := hs.view h

theorem graph (s t : Node) (h : SameGraph s t) (hs : Connecting s₀ ps on s) :
    Connecting s₀ ps on t := hs.view (h.sameView _ _)

theorem next {p : Ref} (hs : Connecting s₀ (p::ps) on s) : Connecting s₀ ps on s :=
  {hs with retries := fun r hr => hs.retries r (List.mem_cons_of_mem _ hr)}

/-- Within the loop a port finds the local peer that it had at the start. -/
theorem localPeer_eq {p : Ref} {x : Port} (hs : Connecting s₀ ps on s)
    (hx : s.portMem.get p=some x)
    (hr : (s.portMem.get p).map Port.retries=(s₀.portMem.get p).map Port.retries) :
    s₀.localPeer p=if x.retries=5 then none
      else ((Atom.portGet ⟨x.peerPortId,strnlen x.peerPortId uuidBufferSize⟩ s).map
        Prod.fst).join := by
  obtain ⟨y,hy,hxy⟩ := hs.same.port_before hx
  have hretries : y.retries=x.retries := by
    rw [hx,hy,Option.map_some,Option.map_some,Option.some.injEq] at hr
    exact hr.symm
  have hpeer : y.peerPortId=x.peerPortId := congrArg (fun z => z.2.2.1) hxy
  rw [Node.localPeer,hy,Option.bind_some,hretries,hpeer,
    Atom.portGet_view (fun _ _ h => congrArg Prod.snd h) hs.same]

end Connecting

namespace Atom

variable {s₀ : Node} {ps : List Ref} {on : Ref → Bool}

open Connecting (quiet graph)

/-- Nothing that is fixed changes with the state of a port. -/
theorem setState_same {p : Ref} {state : PortState} :
    Preserves (SameView fixedPart (fun x => (x.loaded,x.ports)) s₀) (portSetState p state) :=
  preserves_portSetState_view (M := fun _ _ => True) (fun _ _ hvw _ hv => SameView.trans hv hvw)
    (fun _ _ _ => rfl) (fun _ _ => rfl) p state

/-- A port of the loop gets a state other than enabled. -/
theorem setState_connecting {p : Ref} {state : PortState} (hstate : state ≠ .enabled)
    (hp : on p=false) : Preserves (Connecting s₀ ps on) (portSetState p state) := by
  intro s u t h hs
  refine ⟨setState_same s u t h hs.same,fun r => ?_,fun r hr => ?_⟩
  · rw [portSetState_portState h]
    split
    · next hrp =>
      subst r
      simp [hp,hstate]
    · exact hs.enabled r
  · refine (hs.retries r hr).imp_right fun hold => ?_
    obtain ⟨x,y,actorState,hx,-,rfl⟩ := portSetState_eq h
    rw [← hold]
    change ((s.portMem.set p _).get r).map Port.retries=_
    rw [Heap.get_set hx]
    split
    · next hrp =>
      subst r
      rw [hx]
      simp [hstate]
    · rfl

/-- A port of the loop, or its local peer, becomes enabled. -/
theorem setEnabled_connecting (p : Ref) :
    Ensures (Connecting s₀ ps on) (portSetState p .enabled) fun _ =>
      Connecting s₀ ps fun r => decide (r=p) || on r := by
  intro s u t h hs
  refine ⟨setState_same s u t h hs.same,fun r => ?_,fun r hr => ?_⟩
  · rw [portSetState_portState h]
    split
    · next hrp => simp [hrp]
    · next hrp =>
      rw [hs.enabled r]
      simp [hrp]
  · by_cases hrp : r=p
    · exact .inl (by simp [hrp])
    · refine (hs.retries r hr).imp (fun hon => by simp [hon]) fun hold => ?_
      obtain ⟨x,y,actorState,hx,-,rfl⟩ := portSetState_eq h
      rw [← hold]
      change ((s.portMem.set p _).get r).map Port.retries=_
      rw [Heap.get_set hx,if_neg hrp]

theorem detach_connecting (p : Ref) : Preserves (Connecting s₀ ps on) (portDetach p) := by
  refine preserves_bind (preserves_port p) fun x => ?_
  split
  · exact preserves_pure _
  · exact preserves_bind (preserves_tunnelRemoveRef graph _) fun _ =>
      preserves_updatePort quiet p fun _ => rfl

theorem getTunnel_connecting {p : Ref} (hp : on p=false) :
    Preserves (Connecting s₀ ps on) (portGetTunnel p) := by
  refine preserves_bind (preserves_port p) fun x => ?_
  dsimp only
  split
  swap
  · exact preserves_pure _
  refine preserves_bind (preserves_tunnelGetOrCreate graph _) fun t => ?_
  split
  · exact preserves_pure _
  · exact preserves_bind (preserves_updatePort quiet p fun _ => rfl) fun _ =>
      preserves_bind (preserves_tunnelAddRef graph _) fun _ => setState_connecting (by decide) hp

theorem dropTunnel_connecting {p : Ref} (hp : on p=false) :
    Preserves (Connecting s₀ ps on) (portDropTunnel p) :=
  preserves_bind (detach_connecting p) fun _ => setState_connecting (by decide) hp

/-- The ports that a local connect enables. -/
theorem peer_connecting (p q : Ref) :
    Ensures (Connecting s₀ ps on) (portPeer p q) fun _ =>
      Connecting s₀ ps fun r => decide (r=p) || on r :=
  ensures_bind preserves_get fun _ =>
    ensures_bind (preserves_updatePort quiet p fun _ => rfl) fun _ => setEnabled_connecting p

/-- A local connect in the loop finds the peer it had at the start of the loop. -/
theorem connectLocal_connecting {p : Ref}
    (hp : ∀ y, s₀.portMem.get p=some y → y.retries ≠ 5) :
    Ensures (Connecting s₀ ps on) (portConnectLocal p) fun r s =>
      (r=.success → Connecting s₀ ps (s₀.join p on) s) ∧
      (r ≠ .success → s₀.localPeer p=none ∧ Connecting s₀ ps on s) := by
  intro s r t h hs
  obtain ⟨x,u,hread,h₁⟩ := bind_eq_some.mp h
  obtain ⟨hx,hu⟩ := port_eq_some hread
  subst u
  obtain ⟨y,hy,hxy⟩ := hs.same.port_before hx
  have hpeer : y.peerPortId=x.peerPortId := congrArg (fun z => z.2.2.1) hxy
  obtain ⟨q,u,hget,h₂⟩ := bind_eq_some.mp h₁
  have hu : s=u := preserves_portGet _ s q u hget rfl
  subst u
  have hlocal : s₀.localPeer p=q := by
    rw [Node.localPeer,hy,Option.bind_some,if_neg (hp y hy),hpeer,
      ← portGet_view (fun _ _ h => congrArg Prod.snd h) hs.same,hget]
    rfl
  cases q with
  | none =>
    cases h₂
    exact ⟨fun h => absurd h (by decide),fun _ => ⟨hlocal,hs⟩⟩
  | some q =>
    have hrest : Ensures (Connecting s₀ ps on) (do
        portDetach p
        portDetach q
        portPeer p q
        portPeer q p
        return Result.success) fun r s => r=.success ∧ Connecting s₀ ps (s₀.join p on) s := by
      rw [Node.join,hlocal]
      exact ensures_bind (detach_connecting p) fun _ => ensures_bind (detach_connecting q) fun _ =>
        ensures_bind (peer_connecting p q) fun _ => ensures_bind (peer_connecting q p) fun _ =>
          ensures_pure fun _ h => ⟨rfl,h⟩
    obtain ⟨rfl,hjoin⟩ := hrest s r t h₂ hs
    exact ⟨fun _ => hjoin,fun h => absurd rfl h⟩

end Atom

section Loop

variable {mp : Msgpuck} {ok : Op → Node → Prop} {s₀ : Node} {ps : List Ref} {on : Ref → Bool}

open Atom

/-- An operation on a node keeps what its computation keeps. -/
theorem Flow.spec_op {o : Op} {α : Type} {x : Atom α} {P Q : Node → Prop}
    (ho : ∀ s, o.apply mp s=(x s).map Prod.snd) (hx : Ensures P x fun _ => Q) :
    Spec ok P (act o : Flow mp Unit) fun _ => Q := by
  refine spec_act fun s t hs _ hp => ?_
  rw [ho s] at hs
  obtain ⟨⟨a,t'⟩,hr,he⟩ := Option.map_eq_some_iff.mp hs
  cases he
  exact hx s a t' hr hp

theorem Flow.spec_host {α : Type} {P : Node → Prop} (hP : ∀ s h, P s → P {s with host := h})
    (x : Atom α) : Spec ok P (Flow.host x : Flow mp α) fun _ => P := by
  refine spec_bind (spec_read (Q := fun _ => P) fun _ hp => hp) fun s => ?_
  split
  · refine spec_bind (Q := fun _ => P) (spec_act fun s t hs _ hp => ?_) fun _ =>
      spec_pure _ fun _ hp => hp
    cases hs
    exact hP s _ hp
  · exact spec_undefined

theorem portConnectWithPendingTunnel_connecting {p : Ref} (hp : on p=false) :
    Spec ok (Connecting s₀ ps on) (Flow.portConnectWithPendingTunnel mp p) fun _ =>
      Connecting s₀ ps on := by
  have hdrop : Spec ok (Connecting s₀ ps on) (do
      act (.dropTunnel p)
      pure Result.fail : Flow mp Result) fun _ => Connecting s₀ ps on :=
    spec_bind (Flow.spec_op (fun _ => rfl) (dropTunnel_connecting hp)) fun _ =>
      spec_pure _ fun _ h => h
  refine spec_bind (spec_mono (spec_look _) (fun _ h => h) fun _ _ h => h.1) fun t => ?_
  split
  · exact spec_pure _ fun _ h => h
  dsimp only
  split
  · refine spec_bind (Flow.spec_host (fun s h => view_relate Connecting.quiet s h trivial) _) fun r => ?_
    split
    · exact spec_bind (Flow.spec_op (fun _ => rfl) (setState_connecting (by decide) hp)) fun _ =>
        spec_pure _ fun _ h => h
    · exact hdrop
  · exact hdrop

theorem portDoPeerLookup_connecting {p : Ref} (hp : on p=false) :
    Spec ok (Connecting s₀ ps on) (Flow.portDoPeerLookup mp p) fun _ => Connecting s₀ ps on := by
  refine spec_bind (Flow.spec_host (fun s h => view_relate Connecting.quiet s h trivial) _) fun r => ?_
  split
  · exact Flow.spec_op (fun _ => rfl) (setState_connecting (by decide) hp)
  · exact Flow.spec_op (fun _ => rfl) (setState_connecting (by decide) hp)

/-- An iteration of the loop. -/
theorem portConnect_connecting {p : Ref} (hp : on p=false) (hps : p ∉ ps) :
    Spec ok (Connecting s₀ (p::ps) on) (Flow.portConnect mp p) fun _ =>
      Connecting s₀ ps (s₀.join p on) := by
  refine spec_bind (spec_look _) fun x => ?_
  have hget : ∀ s, (Connecting s₀ (p::ps) on s ∧ ∃ t, port p s=some (x,t)) →
      s.portMem.get p=some x := by
    rintro s ⟨-,t,ht⟩
    exact (port_eq_some ht).1
  refine spec_have (C := x.state ≠ .enabled ∧ s₀.localPeer p=
    (if x.retries=5 then none else s₀.localPeer p) ∧
    ∀ y, s₀.portMem.get p=some y → y.retries=x.retries) (fun s hs => ?_) ?_
  · have hx := hget s hs
    have hretries := (hs.1.retries p List.mem_cons_self).resolve_left (by simp [hp])
    refine ⟨fun hst => ?_,?_,fun y hy => ?_⟩
    · have := (hs.1.enabled p).mp (by rw [Node.portState,hx,Option.map_some,hst])
      rw [hp] at this
      cases this
    · have hlocal := hs.1.localPeer_eq hx hretries
      split
      · next h5 => rw [hlocal,if_pos h5]
      · rfl
    · rw [hx,hy,Option.map_some,Option.map_some,Option.some.injEq] at hretries
      exact hretries.symm
  rintro ⟨hstate,hlocal,hretries⟩
  split
  · next h => exact absurd h hstate
  split
  · next h5 =>
    rw [if_pos h5] at hlocal
    rw [Node.join,hlocal]
    have hset : Preserves (Connecting s₀ ps on) (portSetState p .doDelete) :=
      setState_connecting (by decide) hp
    exact spec_bind (Flow.spec_op (fun _ => rfl) (ensures_mono hset (fun _ h => h.1.next)
      fun _ _ h => h)) fun _ => spec_pure _ fun _ h => h
  next h5 =>
  have hkeep : Ensures (fun s => Connecting s₀ (p::ps) on s ∧ ∃ t, port p s=some (x,t))
      (updatePort p fun x => {x with retries := x.retries+1}) fun _ => Connecting s₀ ps on := by
    rintro s u t h ⟨hs,-⟩
    obtain ⟨y,v,hread,h₁⟩ := bind_eq_some.mp h
    obtain ⟨hy,hv⟩ := port_eq_some hread
    subst v
    cases h₁
    have hget : ∀ r, (s.portMem.set p {y with retries := y.retries+1}).get r=
        if r=p then some {y with retries := y.retries+1} else s.portMem.get r := Heap.get_set hy _
    refine ⟨⟨hs.same.actors,fun r => ?_,hs.same.actor,?_,hs.same.nextActor,trivial⟩,
      fun r => ?_,fun r hr => ?_⟩
    · rw [← hs.same.port r,hget]
      split
      · next hrp =>
        subst r
        rw [hy]
        rfl
      · rfl
    · exact (Heap.next_set _ _ _).trans hs.same.nextPort
    · rw [← hs.enabled r,Node.portState,Node.portState,hget]
      split
      · next hrp =>
        subst r
        rw [hy]
        rfl
      · rfl
    · rw [hget,if_neg fun hrp : r=p => hps (hrp ▸ hr)]
      exact hs.retries r (List.mem_cons_of_mem _ hr)
  refine spec_bind (Flow.spec_op (fun _ => rfl) hkeep) fun _ => ?_
  refine spec_bind (spec_perform (fun _ => rfl) fun s r t hs _ hp =>
    connectLocal_connecting (fun y hy h => h5 ((hretries y hy).symm.trans h)) s r t hs hp) fun r => ?_
  split
  · next hr => exact spec_pure _ fun _ h => h.1 hr
  · next hr =>
    refine spec_have (C := s₀.localPeer p=none) (fun _ hs => (hs.2 hr).1) fun hnone => ?_
    have hlookup : Spec ok (Connecting s₀ ps on) (do
        act (.setPeerId p [])
        Flow.setState p .disconnected
        Flow.portDoPeerLookup mp p : Flow mp Unit) fun _ => Connecting s₀ ps (s₀.join p on) := by
      rw [Node.join,hnone]
      exact spec_bind (Flow.spec_op (fun _ => rfl)
        (preserves_updatePort Connecting.quiet p fun _ => rfl)) fun _ =>
          spec_bind (Flow.spec_op (fun _ => rfl) (setState_connecting (by decide) hp)) fun _ =>
            portDoPeerLookup_connecting hp
    refine spec_bind (spec_mono (Flow.spec_op (fun _ => rfl) (getTunnel_connecting hp))
      (fun _ h => (h.2 hr).2) fun _ _ h => h) fun _ =>
        spec_bind (spec_mono (spec_look _) (fun _ h => h) fun _ _ h => h.1) fun x => ?_
    dsimp only
    split
    · refine spec_bind (portConnectWithPendingTunnel_connecting hp) fun r => ?_
      split
      · refine spec_pure _ fun _ h => ?_
        rwa [Node.join,hnone]
      · exact hlookup
    · exact hlookup

/-- The whole loop: which ports are enabled after it, and what its result says. -/
theorem connectEach_connecting (hps : ps.Nodup) :
    Spec ok (Connecting s₀ ps on) (Top.connectEach mp ps) fun b s =>
      Connecting s₀ [] (s₀.joined ps on) s ∧ (b=true → ∀ p ∈ ps, s₀.joined ps on p=true) ∧
      ((∀ p ∈ ps, on p=true) → b=true) := by
  induction ps generalizing on with
  | nil => exact spec_pure _ fun s hs => ⟨hs,by simp,fun _ => rfl⟩
  | cons p ps ih =>
    obtain ⟨hp,hps⟩ := List.nodup_cons.mp hps
    refine spec_bind (spec_look _) fun x => ?_
    refine spec_have (C := decide (x.state=.enabled)=on p) (fun s hs => ?_) fun hx => ?_
    · obtain ⟨hs,t,ht⟩ := hs
      have hon := hs.enabled p
      rw [Node.portState,(port_eq_some ht).1,Option.map_some,Option.some.injEq] at hon
      rw [Bool.eq_iff_iff,decide_eq_true_eq]
      exact hon
    dsimp only
    rw [hx]
    cases hon : on p with
    | true =>
      rw [Node.joined,if_pos hon]
      have hrest := @ih on hps
      refine spec_bind (spec_mono hrest (fun _ h => h.1.next) fun _ _ h => h) fun b =>
        spec_pure _ fun s hs => ?_
      rw [Bool.true_and]
      refine ⟨hs.1,fun hb r hr => ?_,fun hall => hs.2.2 fun r hr =>
        hall r (List.mem_cons_of_mem _ hr)⟩
      obtain rfl | hr := List.mem_cons.mp hr
      · exact s₀.joined_mono hon
      · exact hs.2.1 hb r hr
    | false =>
      have hoff : ¬on p=true := by simp [hon]
      rw [Node.joined,if_neg hoff]
      refine spec_bind (spec_mono (portConnect_connecting hon hp) (fun _ h => h.1) fun _ _ h => h)
        fun _ => spec_bind (ih hps) fun b => spec_pure _ fun s hs => ?_
      rw [Bool.false_and]
      refine ⟨hs.1,fun hb => (by cases hb),fun hall => ?_⟩
      rw [hall p List.mem_cons_self] at hon
      cases hon

end Loop

/-- The actors that a step leaves pending whatever their ports are. -/
def TopOp.disconnects : TopOp → Node → List Ref
  | .base (.disconnectActor a),_ => [a]
  | .forgetProxy,s => s.actors
  | .loadFailed a,_ => [a]
  | _,_ => []

/-- The actor whose state `cc_actor_connect_ports` is going to assign. -/
def TopOp.connects : TopOp → List Ref
  | .connectPorts a => [a]
  | _ => []

/-- When the actors of a node follow their ports. -/
def FollowsWhen (o : TopOp) (s : Node) : Prop :=
  (∀ a ∈ o.disconnects s, s.HasPort a) ∧ ∀ a ∈ o.connects, s.LeavesWaiting a

section Run

variable (mp : Msgpuck)

open Atom

theorem base_follows {E : Ref → Prop} {e o : Option Ref} {op : Op} {s t : Node}
    (hok : FollowsWhen (.base op) s) (hs : op.apply mp s=some t) (hp : StateInv E e o s) :
    StateInv E e o t := by
  have hgraph := StateInv.graph (E := E) (e := e) (o := o)
  have hquiet := StateInv.quiet (E := E) (e := e) (o := o)
  have hrules := stateInv_rules (E := E) (e := e) (o := o)
  cases op with
  | host h =>
    cases hs
    exact view_relate hquiet s h trivial hp
  | setState p state => exact preserves_state hs ((hrules.port p trivial).setState state) hp
  | setPeerId p peerId => exact preserves_state hs ((hrules.port p trivial).peerId peerId) hp
  | retry p => exact preserves_state hs (preserves_updatePort hquiet p fun _ => rfl) hp
  | setFifo p f => exact preserves_state hs (preserves_updatePort hquiet p fun _ => rfl) hp
  | connectLocal p => exact preserves_state hs (hrules.connectLocal fun _ _ _ _ => ⟨trivial,trivial⟩) hp
  | handleConnect p tunnelId => exact preserves_state hs ((hrules.port p trivial).handleConnect tunnelId) hp
  | handleDisconnect p => exact preserves_state hs ((hrules.port p trivial).handleDisconnect) hp
  | getTunnel p => exact preserves_state hs ((hrules.port p trivial).getTunnel) hp
  | dropTunnel p => exact preserves_state hs ((hrules.port p trivial).dropTunnel) hp
  | disconnect p => exact preserves_state hs (hrules.disconnect true trivial fun _ _ _ _ _ _ => trivial) hp
  | disconnectPorts a =>
    exact preserves_state hs (preserves_bind (preserves_actor a) fun x =>
      stateInv_disconnectEach true x.ports) hp
  | disconnectActor a =>
    obtain ⟨⟨⟨⟩,t'⟩,hr,he⟩ := Option.map_eq_some_iff.mp hs
    cases he
    exact actorDisconnect_follows a true s () t' hr ⟨hp,hok.1 a (List.mem_singleton_self a)⟩
  | tunnelCreate type state peerId tunnelId =>
    exact preserves_state hs (preserves_tunnelCreate hgraph type state peerId tunnelId) hp
  | tunnelUpdate t id state => exact preserves_state hs (preserves_tunnelUpdate hgraph t id state) hp
  | linkCreate peerId isProxy => exact preserves_state hs (preserves_linkCreate hgraph peerId isProxy) hp
  | linkRemoveRef l => exact preserves_state hs (preserves_linkRemoveRef hgraph l) hp
  | setProxyLink l =>
    cases hs
    exact hgraph s _ ⟨rfl,rfl,rfl,.refl⟩ hp
  | storageTunnel peerId => exact preserves_state hs (preserves_nodeStorageTunnel hgraph peerId) hp
  | proxyTunnel peerId => exact preserves_state hs (preserves_nodeProxyTunnel hgraph peerId) hp
  | restoreStorage t =>
    cases hs
    exact hgraph s _ ⟨rfl,rfl,rfl,.refl⟩ hp
  | restoreProxy t =>
    cases hs
    exact hgraph s _ ⟨rfl,rfl,rfl,.refl⟩ hp
  | releaseStorage => exact preserves_state hs (preserves_nodeReleaseStorage hgraph) hp
  | releaseProxy => exact preserves_state hs (preserves_nodeReleaseProxy hgraph) hp
  | describe a id name privateAttributes managedAttributes stateWas =>
    exact preserves_state hs (preserves_actorDescribe hquiet (fun _ _ h => h) a id name privateAttributes
      managedAttributes stateWas) hp
  | callback a =>
    exact preserves_state hs (preserves_callback hquiet (fun _ _ => Actor.shape_of_core) (fun _ _ => rfl) a) hp
  | callbackIfSet a =>
    exact preserves_state hs (preserves_callbackIfSet hquiet (fun _ _ => Actor.shape_of_core)
      (fun _ _ => rfl) a) hp
  | fire a =>
    exact preserves_state hs (preserves_callback hquiet (fun _ _ => Actor.shape_of_core) (fun _ _ => rfl) a) hp
  | serialize a includeState =>
    exact preserves_state hs (preserves_actorSerialize hquiet (fun _ _ => Actor.shape_of_core) mp a
      includeState) hp
  | freeActor a removeFromRegistry =>
    refine preserves_state hs (preserves_bind preserves_get fun v => ?_) hp
    dsimp only
    split
    · exact preserves_bind preserves_undefined fun _ => actorFree_follows a removeFromRegistry
    · exact actorFree_follows a removeFromRegistry

/-- Every actor follows its ports. -/
def Following (e o : Option Ref) (s : Node) : Prop := StateInv (fun _ => False) e o s

/-- Every actor but `a` follows its ports. -/
def FollowingBut (a : Ref) (s : Node) : Prop := StateInv (fun b => False ∨ b=a) none none s

theorem connect_follows (a : Ref) :
    Spec FollowsWhen (FollowingBut a) (Top.actorConnectPorts mp a) fun _ => Following none none := by
  refine spec_bind (Q := fun _ s => FollowingBut a s ∧ s.LeavesWaiting a)
    (spec_act fun s t hs hok hp => ?_) fun _ => spec_bind (spec_look _) fun x => ?_
  · cases hs
    exact ⟨hp,hok.2 a (List.mem_singleton_self a)⟩
  refine spec_of_forall fun s₀ hs₀ => ?_
  obtain ⟨⟨hbut,hwait⟩,u,hu⟩ := hs₀
  obtain ⟨hx,-⟩ := actor_eq_some hu
  have hstart : Connecting s₀ x.ports s₀.isEnabled s₀ :=
    ⟨.refl _ _ s₀,fun r => by simp [Node.isEnabled],fun _ _ => .inr rfl⟩
  have hflow : Spec (fun o s => FollowsWhen (.base o) s) (FollowingBut a)
      (Top.connectEach mp x.ports) fun _ => FollowingBut a :=
    spec_of_invariant (fun _ _ _ hok hs hp => base_follows mp hok hs hp) _
  have hloop : Spec (fun o s => FollowsWhen (.base o) s)
      (Connecting s₀ x.ports s₀.isEnabled) (Top.connectEach mp x.ports) _ :=
    connectEach_connecting (hbut.nodup a x hx)
  refine spec_bind (spec_mono (spec_lift _ (spec_and hflow hloop)) (fun s hs => ?_)
    fun _ _ h => h) fun b => ?_
  · rw [hs]
    exact ⟨hbut,hstart⟩
  refine spec_act fun s t hs _ hp => ?_
  obtain ⟨hs',hconn,hyes,hno⟩ := hp
  obtain ⟨⟨⟨⟩,t'⟩,hset,he⟩ := Option.map_eq_some_iff.mp hs
  cases he
  obtain ⟨y,v,hread,hset⟩ := bind_eq_some.mp hset
  obtain ⟨hy,hv⟩ := actor_eq_some hread
  subst v
  cases hset
  obtain ⟨z,hz,hyz⟩ := hconn.same.actor_before hy
  cases hx.symm.trans hz
  rw [Prod.mk.injEq] at hyz
  have hall : s.AllEnabled y ↔ ∀ p ∈ x.ports, s₀.joined x.ports s₀.isEnabled p=true := by
    rw [Node.AllEnabled,← hyz.2]
    exact forall₂_congr fun p _ => hconn.enabled p
  have hend := StateInv.setState (if b then .enabled else .pending) hy (fun h => by cases h) hs'
    fun hE => absurd (.inr rfl) hE
  refine {hend with follows := fun c hc hE => ?_}
  by_cases hca : c=a
  · subst c
    intro w hw hloaded _
    change (s.actorMem.set a _).get a=some w at hw
    rw [Heap.get_set hy,if_pos rfl] at hw
    cases hw
    change (_ ↔ s.AllEnabled y) ∧ (¬s.AllEnabled y → _)
    rw [hall]
    cases b with
    | true => exact ⟨⟨fun _ => hyes rfl,fun _ => rfl⟩,fun h => absurd (hyes rfl) h⟩
    | false =>
      have hnot : ¬∀ p ∈ x.ports, s₀.joined x.ports s₀.isEnabled p=true := by
        intro h
        obtain hon | ⟨p,hp,hoff⟩ := hwait x hx (hyz.1.trans hloaded)
        · have := hno fun p hp => by simpa [Node.isEnabled] using hon p hp
          cases this
        · rw [h p hp] at hoff
          cases hoff
      exact ⟨⟨fun h => (by cases h),fun h => absurd h hnot⟩,fun _ => rfl⟩
  · exact hend.follows c hc fun h => hca (h.resolve_left id)

theorem sendBack_follows (a : Ref) :
    Spec FollowsWhen (FollowingBut a) (Top.actorSendBack mp a) fun _ => Following none none := by
  have hflow : ∀ {α : Type} (m : Flow mp α), Spec (fun o s => FollowsWhen (.base o) s)
      (Following none none) m fun _ => Following none none :=
    fun m => spec_of_invariant (fun _ _ _ hok hs hp => base_follows mp hok hs hp) m
  have hquiet : ∀ v w : Node, SameView StateInv.ofPort Actor.shape v w → SameTunnels v w →
      FollowingBut a v ∧ v.HasPort a → FollowingBut a w ∧ w.HasPort a := by
    rintro v w hvw htun ⟨hv,hport⟩
    refine ⟨StateInv.quiet v w hvw htun hv,fun y hy hloaded => ?_⟩
    obtain ⟨x,hx,hxy⟩ := hvw.actor_before hy
    simp only [Actor.shape,Prod.mk.injEq] at hxy
    rw [Actor.ports,← hxy.2.2.1,← hxy.2.2.2]
    exact hport x hx (hxy.1.trans hloaded)
  refine spec_bind (Q := fun _ s => FollowingBut a s ∧ s.HasPort a)
    (spec_act fun s t hs hok hp => ?_) fun _ => spec_lift _ ?_
  · cases hs
    exact ⟨hp,hok.1 a (List.mem_singleton_self a)⟩
  refine spec_bind (spec_bind (spec_mono (spec_look _) (fun _ h => h) fun _ _ h => h.1) fun x =>
    Flow.spec_op (fun _ => rfl) (preserves_actorDescribe hquiet (fun _ _ h => h) a _ _ _ _ _))
    fun _ => ?_
  refine spec_bind (spec_mono (spec_look _) (fun _ h => h) fun _ _ h => h.1) fun l => ?_
  refine spec_bind (Q := fun _ => Following none none) ?_ fun r => hflow _
  refine spec_bind (Flow.spec_op (fun _ => rfl) (preserves_callbackIfSet hquiet
    (fun _ _ => Actor.shape_of_core) (fun _ _ => rfl) a)) fun _ => ?_
  exact spec_bind (Flow.spec_op (fun _ => rfl) (disconnectPorts_tells a true)) fun _ => hflow _

theorem follows_guarded :
    Guarded mp FollowsWhen Following FollowingBut fun s => Following none none s where
  init := fun h =>
    ⟨fun b x hb => absurd hb (by simp [Node.init]),fun b x hb => absurd hb (by simp [Node.init]),
      fun _ ha => (by cases ha),fun _ ha => (by cases ha),fun _ ha => (by cases ha),
      fun _ hp => (by cases hp)⟩
  base := fun hok hs hp => base_follows mp hok hs hp
  baseExempt := fun hok hs hp => base_follows mp hok hs hp
  newActor := fun _ hs hp => newActor_follows _ _ _ _ hs hp
  createPort := fun _ hs hp => createPort_follows mp _ _ _ _ _ _ hs hp
  takeState := fun _ hs hp => takeState_follows _ _ _ _ _ _ _ hs hp
  freePort := fun _ hs hp => freePort_follows _ _ _ _ _ hs hp
  linkPort := fun _ hs hp => linkPort_follows _ _ _ _ _ _ hs hp
  addActor := by
    intro a s b t _ hs hp
    obtain ⟨c,u,hc,hs⟩ := bind_eq_some.mp hs
    have hu : Following (some a) none u := preserves_alloc (view_host StateInv.quiet) s c u hc hp
    cases c with
    | false =>
      cases hs
      exact hu
    | true =>
      cases hs
      have hjoined := hu.addActor
      refine ⟨hjoined,fun x hx hst => hjoined.of_not_loaded fun y hy => ?_⟩
      cases hx.symm.trans hy
      exact (hu.building a rfl).2.2 x hx hst
  freeNew := fun _ hs hp => (actorFree_follows _ false _ _ _ hs hp).forget
  exempt := fun hp => hp.mono fun _ => .inl
  connect := connect_follows mp
  load := fun _ hs hp => load_follows _ _ _ _ hs hp
  sendBack := sendBack_follows mp
  forgetProxy := fun hok hs hp => forgetProxy_follows _ _ _ hs ⟨hp,hok.1⟩
  reset := id
  pop := fun _ hs hp => actorPop_follows _ _ _ hs hp
  emptied := fun hp _ => hp

/-- In every state that a node reaches by steps that meet the condition, every actor
follows its ports. -/
theorem actors_follow_ports {h : Host} {es : List (Event × Fate)} {t : Node}
    (hr : Runs (Event.step mp) (Event.Admissible mp FollowsWhen) (.init h) es t) :
    ∀ a ∈ t.actors, t.FollowsPorts a :=
  fun a ha => ((follows_guarded mp).reachable hr).follows a ha id

end Run

section Examples

instance (s : Node) (x : Actor) : Decidable (s.AllEnabled x) :=
  inferInstanceAs (Decidable (∀ p ∈ x.ports, s.portState p=some .enabled))

instance (s : Node) (a : Ref) : Decidable (s.HasPort a) :=
  inferInstanceAs (Decidable (∀ x, s.actorMem.get a=some x → x.loaded=true → x.ports ≠ []))

instance (s : Node) (a : Ref) : Decidable (s.LeavesWaiting a) :=
  inferInstanceAs (Decidable (∀ x, s.actorMem.get a=some x → x.loaded=true →
    s.AllEnabled x ∨ ∃ p ∈ x.ports, s.joined x.ports s.isEnabled p=false))

instance (s : Node) (a : Ref) : Decidable (s.FollowsPorts a) :=
  inferInstanceAs (Decidable (∀ x, s.actorMem.get a=some x → x.loaded=true →
    (∀ p ∈ x.ports, s.portState p ≠ some .doDelete) →
    (x.state=.enabled ↔ s.AllEnabled x) ∧ (¬s.AllEnabled x → x.state=.pending)))

instance (o : TopOp) (s : Node) : Decidable (FollowsWhen o s) :=
  inferInstanceAs (Decidable ((∀ a ∈ o.disconnects s, s.HasPort a) ∧
    ∀ a ∈ o.connects, s.LeavesWaiting a))

/-- Two actors that are each other's local peers, created one after the other. -/
def pairOfActors : List (Event × Fate) :=
  joining++[
    (.actorCreate (Message.actor "t" "a" [] [⟨"p",none,"q",none⟩]),.fine),
    (.actorCreate (Message.actor "t" "b" [⟨"q",none,"p",none⟩] []),.fine)]

/-- The second actor of a local pair is left pending although its only port is enabled. -/
theorem second_actor_stays_pending :
    ∃ t, Runs (Event.step msgpack) (fun _ _ => True) (.init bareHost) pairOfActors t ∧
      ¬∀ a ∈ t.actors, t.FollowsPorts a := by
  have hrun : (Event.runAll (Event.step msgpack) pairOfActors (.init bareHost)).any
      (fun t => decide (¬∀ a ∈ t.actors, t.FollowsPorts a))=true := by decide +kernel
  obtain ⟨t,ht,hnot⟩ := exists_of_any hrun
  exact ⟨t,Event.runs_of_step msgpack ht,of_decide_eq_true hnot⟩

/-- An actor whose port waits for a peer on another node, and the scheduler. -/
def waitingActor : List (Event × Fate) :=
  joining++[
    (.actorCreate (Message.actor "t" "a" [] [⟨"p",none,"q",none⟩]),.fine),
    (.schedule,.fine)]

/-- A port that finds no local peer keeps its actor pending, as it should be. -/
theorem actors_follow_ports_waiting :
    ∃ t, Runs (Event.step msgpack) (Event.Admissible msgpack FollowsWhen) (.init bareHost)
      waitingActor t ∧ t.actors=[0] ∧ ∀ a ∈ t.actors, t.FollowsPorts a := by
  have hrun : (Event.runAll (Event.stepChecked msgpack FollowsWhen) waitingActor
      (.init bareHost)).any (fun t => decide (t.actors=[0]))=true := by decide +kernel
  obtain ⟨t,ht,hactors⟩ := exists_of_any hrun
  have hruns := Event.runs_of_stepChecked msgpack ht
  exact ⟨t,hruns,of_decide_eq_true hactors,actors_follow_ports msgpack hruns⟩

end Examples

end CalvinConstrained
