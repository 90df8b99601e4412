import CalvinConstrained.Runtime.Ownership
import CalvinConstrained.Runtime.Message

namespace CalvinConstrained

/-- The state that the loops of `cc_actor_port_state_changed` find for given port states. -/
def scan (st : Ref → Option PortState) : List Ref → ActorState
  | [] => .enabled
  | p::ps =>
    if st p=some .doDelete then .doDelete
    else if st p ≠ some .enabled then .pending
    else scan st ps

/-- If a port is to be deleted, the first port that is not enabled is. -/
def FindsDelete (st : Ref → Option PortState) (ps : List Ref) : Prop :=
  (∃ p ∈ ps, st p=some .doDelete) →
    (ps.find? fun p => decide (st p ≠ some .enabled)).bind st=some .doDelete

theorem scan_eq_doDelete (st : Ref → Option PortState) (ps : List Ref) :
    scan st ps=.doDelete ↔
      (ps.find? fun p => decide (st p ≠ some .enabled)).bind st=some .doDelete := by
  induction ps with
  | nil => simp [scan]
  | cons p ps ih =>
    by_cases hdel : st p=some .doDelete
    · simp [scan,hdel]
    · by_cases hen : st p=some .enabled
      · simp [scan,hen,ih]
      · simp [scan,hdel,hen]

theorem scan_congr {st st' : Ref → Option PortState} {ps : List Ref}
    (h : ∀ p ∈ ps, st p=st' p) : scan st ps=scan st' ps := by
  induction ps with
  | nil => rfl
  | cons p ps ih =>
    rw [scan,scan,h p List.mem_cons_self,ih fun q hq => h q (List.mem_cons_of_mem _ hq)]

/-- The loops find the decision exactly when it is not hidden behind a waiting port. -/
theorem scan_iff {st : Ref → Option PortState} {ps : List Ref} :
    (scan st ps=.doDelete ↔ ∃ p ∈ ps, st p=some .doDelete) ↔ FindsDelete st ps := by
  rw [scan_eq_doDelete]
  refine ⟨fun h => h.mpr,fun h => ⟨fun hfind => ?_,h⟩⟩
  obtain ⟨p,hp,hst⟩ := Option.bind_eq_some_iff.mp hfind
  exact ⟨p,List.mem_of_find?_eq_some hp,hst⟩

namespace Node

/-- An actor is to be deleted when one of its ports is. -/
def DeleteDecided (s : Node) : Prop :=
  ∀ a x, s.actorMem.get a=some x →
    (x.state=.doDelete ↔ ∃ p ∈ x.ports, s.portState p=some .doDelete)

end Node

/-- The state that an operation gives to the ports it sets. -/
def Op.newState : Op → PortState
  | .setState _ state => state
  | .connectLocal _ => .enabled
  | .handleConnect _ _ => .enabled
  | .getTunnel _ => .pendingTunnel
  | _ => .disconnected

def TopOp.newState : TopOp → Node → PortState
  | .base o,_ => o.newState
  | .build _ (.base o),_ => o.newState
  | .build _ (.takeState p _ _),s =>
    if (s.portMem.get p).any fun x =>
      strncmpEq x.peerId s.host.id (strnlen x.peerId uuidBufferSize) then .enabled
    else .disconnected
  | _,_ => .disconnected

/-- The port states after an operation. -/
def TopOp.portStates (o : TopOp) (s : Node) (r : Ref) : Option PortState :=
  if r ∈ o.sets s then some (o.newState s) else s.portState r

/-- The actors whose state is assigned by `cc_actor_connect_ports`. -/
def TopOp.overrides : TopOp → List Ref
  | .assign a _ => [a]
  | _ => []

/-- The port that enters the list of its actor. -/
def TopOp.links : TopOp → List Ref
  | .build _ (.linkPort _ p) => [p]
  | _ => []

/-- No step hides a port to be deleted from its actor: not behind a port that waits, not by
an assignment to the actor and not by adding it to the actor. -/
def KeepsDecision (o : TopOp) (s : Node) : Prop :=
  (o.sets s ≠ [] → ∀ a x, s.actorMem.get a=some x → FindsDelete (o.portStates s) x.ports) ∧
  (∀ a ∈ o.overrides, ∀ x, s.actorMem.get a=some x →
    ∀ p ∈ x.ports, s.portState p ≠ some .doDelete) ∧
  ∀ p ∈ o.links, s.portState p ≠ some .doDelete

/-- The port states are `g`. -/
def States (g : Ref → Option PortState) (s : Node) : Prop := ∀ r, s.portState r=g r

def setTo (g : Ref → Option PortState) (p : Ref) (state : PortState) : Ref → Option PortState :=
  fun r => if r=p then some state else g r

namespace Atom

section States

variable {g : Ref → Option PortState}

theorem states_view (s t : Node) (h : SameView Port.state (fun _ => ()) s t) (hs : States g s) :
    States g t :=
  fun r => (h.port r).trans (hs r)

theorem states_quiet (s t : Node) (h : SameView Port.state (fun _ => ()) s t)
    (_ : SameTunnels s t) (hs : States g s) : States g t := states_view s t h hs

theorem states_graph (s t : Node) (h : SameGraph s t) (hs : States g s) : States g t :=
  states_view s t (h.sameView _ _) hs

theorem setState_states (p : Ref) (state : PortState) :
    Ensures (States g) (portSetState p state) fun _ => States (setTo g p state) := by
  intro s u t h hs r
  rw [portSetState_portState h,setTo]
  split
  · rfl
  · exact hs r

theorem detach_states (p : Ref) : Preserves (States g) (portDetach p) := by
  refine preserves_bind (preserves_port p) fun x => ?_
  split
  · exact preserves_pure _
  · exact preserves_bind (preserves_tunnelRemoveRef states_graph _) fun _ =>
      preserves_updatePort states_quiet p fun _ => rfl

theorem portPeer_states (p q : Ref) :
    Ensures (States g) (portPeer p q) fun _ => States (setTo g p .enabled) :=
  ensures_bind preserves_get fun _ =>
    ensures_bind (preserves_updatePort states_quiet p fun _ => rfl) fun _ => setState_states p _

theorem portJoin_states (p q : Ref) :
    Ensures (States g) (portJoin p q) fun _ => States (setTo (setTo g p .enabled) q .enabled) :=
  ensures_bind (detach_states p) fun _ => ensures_bind (detach_states q) fun _ =>
    ensures_bind (portPeer_states p q) fun _ => portPeer_states q p

theorem portEnableOn_states (p t : Ref) :
    Ensures (States g) (portEnableOn p t) fun _ => States (setTo g p .enabled) :=
  ensures_bind (preserves_updatePort states_quiet p fun _ => rfl) fun _ =>
    ensures_bind (preserves_tunnelAddRef states_graph t) fun _ =>
      ensures_bind (setState_states p _) fun _ => ensures_bind (preserves_tunnel t) fun _ =>
        ensures_bind (preserves_link _) fun _ => preserves_updatePort states_quiet p fun _ => rfl

theorem portAttach_states (p t : Ref) :
    Ensures (States g) (portAttach p t) fun _ => States (setTo g p .pendingTunnel) :=
  ensures_bind (preserves_updatePort states_quiet p fun _ => rfl) fun _ =>
    ensures_bind (preserves_tunnelAddRef states_graph t) fun _ => setState_states p _

theorem handleDisconnect_states (p : Ref) :
    Ensures (States g) (portHandleDisconnect p) fun _ => States (setTo g p .disconnected) :=
  ensures_bind (preserves_portFifoCancel states_quiet (fun _ _ => rfl) p) fun _ =>
    ensures_bind (setState_states p _) fun _ =>
      ensures_bind (preserves_updatePort states_quiet p fun _ => rfl) fun _ => detach_states p

theorem dropTunnel_states (p : Ref) :
    Ensures (States g) (portDropTunnel p) fun _ => States (setTo g p .disconnected) :=
  ensures_bind (detach_states p) fun _ => setState_states p _

end States

/-- The port states are `g` and the local peers are `h`. -/
def Tracks (g : Ref → Option PortState) (h : Ref → Option Ref) (s : Node) : Prop :=
  (∀ r, s.portState r=g r) ∧ ∀ r, s.peerOf r=h r

def without (h : Ref → Option Ref) (p : Ref) : Ref → Option Ref :=
  fun r => if r=p then none else h r

/-- The port states after ports were parted from their peers, one after the other. -/
def partAll (g : Ref → Option PortState) (h : Ref → Option Ref) : List Ref → Ref → Option PortState
  | [] => g
  | p::ps => partAll (setTo ((h p).elim g fun q => setTo g q .disconnected) p .disconnected)
      (without h p) ps

theorem partAll_eq (g : Ref → Option PortState) (h : Ref → Option Ref) (ps : List Ref) (r : Ref) :
    partAll g h ps r=if r ∈ ps++ps.filterMap h then some .disconnected else g r := by
  induction ps generalizing g h with
  | nil => simp [partAll]
  | cons p ps ih =>
    rw [partAll,ih]
    unfold without
    have hmem : (∃ q ∈ ps, h q=some r) ↔
        (∃ q ∈ ps, (if q=p then none else h q)=some r) ∨ (p ∈ ps ∧ h p=some r) := by
      constructor
      · rintro ⟨q,hq,hr⟩
        by_cases hqp : q=p
        · subst q
          exact .inr ⟨hq,hr⟩
        · exact .inl ⟨q,hq,by rwa [if_neg hqp]⟩
      · rintro (⟨q,hq,hr⟩ | ⟨hp,hr⟩)
        · split at hr
          · cases hr
          · exact ⟨q,hq,hr⟩
        · exact ⟨p,hp,hr⟩
    by_cases hrp : r=p
    · subst r
      simp [setTo]
    · cases hpeer : h p with
      | none =>
        simp only [List.mem_append,List.mem_filterMap,List.mem_cons,List.filterMap_cons,hpeer,hmem,
          setTo,Option.elim_none,hrp]
        simp
      | some q =>
        simp only [List.mem_append,List.mem_filterMap,List.mem_cons,List.filterMap_cons,hpeer,hmem,
          setTo,Option.elim_some,hrp]
        by_cases hrq : r=q
        · simp [hrq]
        · have hqr : q ≠ r := fun h => hrq h.symm
          simp [hrq,hqr]

section Tracks

variable {g : Ref → Option PortState} {h : Ref → Option Ref}

def stateAndPeer (x : Port) : PortState × Option Ref := (x.state,x.peerPort)

theorem tracks_view (s t : Node) (hv : SameView stateAndPeer (fun _ => ()) s t)
    (hs : Tracks g h s) : Tracks g h t := by
  refine ⟨fun r => ?_,fun r => ?_⟩
  · have := congrArg (Option.map Prod.fst) (hv.port r)
    rw [Option.map_map,Option.map_map] at this
    exact Eq.trans this (hs.1 r)
  · have := congrArg (fun o => o.bind Prod.snd) (hv.port r)
    rw [Option.bind_map,Option.bind_map] at this
    exact Eq.trans this (hs.2 r)

theorem tracks_quiet (s t : Node) (hv : SameView stateAndPeer (fun _ => ()) s t)
    (_ : SameTunnels s t) (hs : Tracks g h s) : Tracks g h t := tracks_view s t hv hs

theorem tracks_graph (s t : Node) (hv : SameGraph s t) (hs : Tracks g h s) : Tracks g h t :=
  tracks_view s t (hv.sameView _ _) hs

theorem setState_tracks (p : Ref) (state : PortState) :
    Ensures (Tracks g h) (portSetState p state) fun _ => Tracks (setTo g p state) h := by
  intro s u t hrun hs
  refine ⟨setState_states p state s u t hrun hs.1,fun r => ?_⟩
  obtain ⟨x,y,actorState,hx,-,rfl⟩ := portSetState_eq hrun
  rw [← hs.2 r]
  change ((s.portMem.set p _).get r).bind Port.peerPort=_
  rw [Heap.get_set hx]
  split
  · next hr =>
    subst r
    rw [Node.peerOf,hx]
    rfl
  · rfl

theorem clear_tracks (p : Ref) :
    Ensures (Tracks g h) (updatePort p fun x => {x with peerPort := none}) fun _ =>
      Tracks g (without h p) := by
  intro s u t hrun hs
  obtain ⟨x,hx,rfl⟩ := updatePort_eq hrun
  refine ⟨fun r => ?_,fun r => ?_⟩
  · rw [← hs.1 r]
    change ((s.portMem.set p _).get r).map Port.state=_
    rw [Heap.get_set hx]
    split
    · next hr =>
      subst r
      rw [Node.portState,hx]
      rfl
    · rfl
  · change ((s.portMem.set p _).get r).bind Port.peerPort=_
    rw [Heap.get_set hx,without]
    split
    · rfl
    · exact hs.2 r

theorem leaveTunnel_tracks (p : Ref) (unrefTunnel : Bool) :
    Preserves (Tracks g h) (portLeaveTunnel p unrefTunnel) := by
  have hnone : Preserves (Tracks g h) (updatePort p fun x => {x with tunnel := none}) :=
    preserves_updatePort tracks_quiet p fun _ => rfl
  refine preserves_bind (preserves_port p) fun x => ?_
  split
  · refine preserves_bind (preserves_sendPortDisconnect (view_host tracks_quiet) p) fun _ =>
      preserves_bind (preserves_port p) fun x => ?_
    split
    · exact preserves_pure _
    · exact preserves_bind (preserves_tunnelRemoveRef tracks_graph _) fun _ => hnone
  · exact hnone

theorem leavePeer_tracks (p : Ref) :
    Ensures (Tracks g h) (portLeavePeer p) fun _ =>
      Tracks ((h p).elim g fun q => setTo g q .disconnected) (without h p) := by
  intro s u t hrun hs
  obtain ⟨x,v,hread,h₁⟩ := bind_eq_some.mp hrun
  obtain ⟨hx,rfl⟩ := port_eq_some hread
  have hpeer : h p=x.peerPort := by rw [← hs.2 p,Node.peerOf,hx,Option.bind_some]
  rw [hpeer]
  cases hq : x.peerPort with
  | none =>
    simp only [hq] at h₁
    cases h₁
    refine ⟨hs.1,fun r => ?_⟩
    rw [without]
    split
    · next hr => rw [hr,hs.2 p,hpeer,hq]
    · exact hs.2 r
  | some q =>
    simp only [hq] at h₁
    exact ensures_bind (setState_tracks q _) (fun _ => clear_tracks p) v u t h₁ hs

theorem disconnect_tracks (p : Ref) (unrefTunnel : Bool) :
    Ensures (Tracks g h) (portDisconnect p unrefTunnel) fun _ =>
      Tracks (setTo ((h p).elim g fun q => setTo g q .disconnected) p .disconnected) (without h p) :=
  ensures_bind (leaveTunnel_tracks p unrefTunnel) fun _ => ensures_bind (leavePeer_tracks p) fun _ =>
    ensures_bind (preserves_updatePort tracks_quiet p fun _ => rfl) fun _ =>
      ensures_bind (setState_tracks p _) fun _ =>
        preserves_portFifoCancel tracks_quiet (fun _ _ => rfl) p

theorem disconnectEach_states (unrefTunnel : Bool) (ps : List Ref) :
    Ensures (Tracks g h) (disconnectEach unrefTunnel ps) fun _ => States (partAll g h ps) := by
  induction ps generalizing g h with
  | nil => exact ensures_pure fun _ hs => hs.1
  | cons p ps ih => exact ensures_bind (disconnect_tracks p unrefTunnel) fun _ => ih

end Tracks

theorem portsState_scan {ps : List Ref} {s t : Node} {state : ActorState}
    (h : portsState ps s=some (state,t)) : state=scan s.portState ps := by
  induction ps with
  | nil =>
    cases h
    rfl
  | cons p ps ih =>
    obtain ⟨x,u,hread,h₁⟩ := bind_eq_some.mp h
    obtain ⟨hx,rfl⟩ := port_eq_some hread
    have hst : u.portState p=some x.state := by rw [Node.portState,hx,Option.map_some]
    rw [scan,hst]
    split at h₁
    · next hdel =>
      cases h₁
      rw [hdel,if_pos rfl]
    · next hdel =>
      rw [if_neg fun he => hdel (Option.some.inj he)]
      split at h₁
      · next hen =>
        cases h₁
        rw [if_pos fun he => hen (Option.some.inj he)]
      · next hen =>
        rw [if_neg (by simpa using hen)]
        exact ih h₁

/-- After its port told it, an actor is in the state that the loops find. -/
theorem portSetState_scan {p : Ref} {state : PortState} {s t : Node}
    (h : portSetState p state s=some ((),t)) {x : Port} {y : Actor}
    (hx : s.portMem.get p=some x) (hy : t.actorMem.get x.actor=some y) :
    y.state=scan t.portState y.ports := by
  obtain ⟨z,u,hread,h₁⟩ := bind_eq_some.mp h
  obtain ⟨hz,rfl⟩ := port_eq_some hread
  cases hx.symm.trans hz
  obtain ⟨⟨⟩,v,hset,h₂⟩ := bind_eq_some.mp h₁
  cases hset
  obtain ⟨a,w,hread,h₃⟩ := bind_eq_some.mp h₂
  obtain ⟨ha,rfl⟩ := actor_eq_some hread
  obtain ⟨actorState,w,hscan,h₄⟩ := bind_eq_some.mp h₃
  have hw := preserves_portsState (P := fun v => v=_) a.ports _ _ w hscan rfl
  dsimp only at hw
  subst w
  obtain ⟨b,w,hread,h₅⟩ := bind_eq_some.mp h₄
  obtain ⟨hb,rfl⟩ := actor_eq_some hread
  cases ha.symm.trans hb
  cases h₅
  change (u.actorMem.set x.actor {a with state := actorState}).get x.actor=some y at hy
  rw [Heap.get_set ha,if_pos rfl] at hy
  cases hy
  have hfound := portsState_scan hscan
  exact hfound

end Atom

namespace Node.DeleteDecided

variable {s t : Node}

/-- What the decision depends on. -/
def ofActor (x : Actor) : ActorState × List Ref := (x.state,x.ports)

theorem ofActor_of_shape {x y : Actor} (h : x.shape=y.shape) : ofActor x=ofActor y := by
  simp only [Actor.shape,Prod.mk.injEq] at h
  rw [ofActor,ofActor,Actor.ports,Actor.ports,h.2.1,h.2.2.1,h.2.2.2]

theorem view (h : SameView Port.state ofActor s t) (hs : s.DeleteDecided) : t.DeleteDecided := by
  intro a y hy
  obtain ⟨x,hx,hxy⟩ := h.actor_before hy
  obtain ⟨hstate,hports⟩ := Prod.mk.inj hxy
  have hstates : ∀ r, t.portState r=s.portState r := h.port
  rw [← hstate,← hports,hs a x hx]
  simp only [hstates]

theorem quiet (s t : Node) (h : SameView Port.state ofActor s t) (_ : SameTunnels s t)
    (hs : s.DeleteDecided) : t.DeleteDecided := hs.view h

theorem graph (s t : Node) (h : SameGraph s t) (hs : s.DeleteDecided) : t.DeleteDecided :=
  hs.view (h.sameView _ _)

/-- Nothing changes for an actor whose ports keep their states. -/
theorem of_ports (hactors : ∀ a y, t.actorMem.get a=some y → s.actorMem.get a=some y)
    (hports : ∀ a y, t.actorMem.get a=some y → ∀ p ∈ y.ports, t.portState p=s.portState p)
    (hs : s.DeleteDecided) : t.DeleteDecided := by
  intro a y hy
  rw [hs a y (hactors a y hy)]
  refine exists_congr fun p => and_congr_right fun hp => ?_
  rw [hports a y hy p hp]

end Node.DeleteDecided

/-- What holds while an operation that started in `s₀` sets the states of ports: every actor
is in the state that the loops find for it, or nothing of it has changed, or neither it nor
a port of it is to be deleted. -/
structure Told (e o : Option Ref) (s₀ s : Node) : Prop where
  owned : Owned e o s
  told : ∀ b y, s.actorMem.get b=some y → ∃ x, s₀.actorMem.get b=some x ∧ x.ports=y.ports ∧
    (y.state=scan s.portState y.ports ∨
      (x.state=y.state ∧ ∀ p ∈ y.ports, s.portState p=s₀.portState p) ∨
      (y.state ≠ .doDelete ∧ ∀ p ∈ y.ports, s.portState p ≠ some .doDelete))

namespace Told

variable {e o : Option Ref} {s₀ s t : Node}

open Atom

theorem start (hs : Owned e o s) : Told e o s s :=
  ⟨hs,fun _ y hy => ⟨y,hy,rfl,.inr (.inl ⟨rfl,fun _ _ => rfl⟩)⟩⟩

theorem view (h : SameView StateInv.ofPort Actor.shape s t) (hs : Told e o s₀ s) :
    Told e o s₀ t := by
  refine ⟨hs.owned.view h,fun b y hy => ?_⟩
  obtain ⟨x,hx,hxy⟩ := h.actor_before hy
  simp only [Actor.shape,Prod.mk.injEq] at hxy
  have hports : x.ports=y.ports := by rw [Actor.ports,Actor.ports,hxy.2.2.1,hxy.2.2.2]
  have hstates : t.portState=s.portState := by
    funext r
    have := congrArg (Option.map Prod.fst) (h.port r)
    rw [Option.map_map,Option.map_map] at this
    exact this
  rw [← hports,← hxy.2.1,hstates]
  exact hs.told b x hx

theorem quiet (s t : Node) (h : SameView StateInv.ofPort Actor.shape s t) (_ : SameTunnels s t)
    (hs : Told e o s₀ s) : Told e o s₀ t := hs.view h

theorem graph (s t : Node) (h : SameGraph s t) (hs : Told e o s₀ s) : Told e o s₀ t :=
  hs.view (h.sameView _ _)

theorem setState (p : Ref) (state : PortState) :
    Preserves (Told e o s₀) (portSetState p state) := by
  intro s u t h hs
  refine ⟨(stateInv_port p).setState state s u t h hs.owned,fun b y hy => ?_⟩
  have hstates := portSetState_portState h
  obtain ⟨x,z,actorState,hx,hz,ht⟩ := portSetState_eq h
  by_cases hb : b=x.actor
  · subst b
    obtain ⟨w,hw,hports,-⟩ := hs.told x.actor z hz
    refine ⟨w,hw,?_,.inl (portSetState_scan h hx hy)⟩
    rw [ht] at hy
    change (s.actorMem.set x.actor _).get x.actor=some y at hy
    rw [Heap.get_set hz,if_pos rfl] at hy
    cases hy
    exact hports
  · have hy' : s.actorMem.get b=some y := by
      rw [ht] at hy
      change (s.actorMem.set x.actor _).get b=some y at hy
      rwa [Heap.get_set hz,if_neg hb] at hy
    have hother : ∀ q ∈ y.ports, t.portState q=s.portState q := by
      intro q hq
      rw [hstates,if_neg]
      rintro rfl
      exact hb ((hs.owned.owner b y hy' q hq).2 x hx).symm
    obtain ⟨w,hw,hports,hcase⟩ := hs.told b y hy'
    refine ⟨w,hw,hports,?_⟩
    obtain hscan | ⟨hstate,hsame⟩ | ⟨hstate,hnone⟩ := hcase
    · exact .inl (hscan.trans (scan_congr fun q hq => (hother q hq).symm))
    · exact .inr (.inl ⟨hstate,fun q hq => (hother q hq).trans (hsame q hq)⟩)
    · exact .inr (.inr ⟨hstate,fun q hq => hother q hq ▸ hnone q hq⟩)

theorem rules : PeerRules (fun _ => True) (Told e o s₀) := by
  constructor
  · intro p _
    constructor
    · exact graph
    · exact setState p
    · exact fun _ => preserves_updatePort quiet p fun _ => rfl
    · exact fun _ => preserves_updatePort quiet p fun _ => rfl
    · exact preserves_portFifoCancel quiet (fun _ _ => rfl) p
  · exact fun p _ _ _ _ => preserves_updatePort quiet p fun _ => rfl
  · exact fun p _ => preserves_updatePort quiet p fun _ => rfl

theorem disconnectEach (unrefTunnel : Bool) (ps : List Ref) :
    Preserves (Told e o s₀) (disconnectEach unrefTunnel ps) :=
  rules.disconnectEach unrefTunnel (fun _ _ => trivial) fun _ _ _ _ _ _ _ _ => trivial

/-- An actor whose ports are all disconnected is set to pending. -/
theorem disconnectActor (a : Ref) (unrefTunnel : Bool) :
    Preserves (Told e o s₀) (actorDisconnect a unrefTunnel) := by
  intro s u t h hs
  obtain ⟨⟨⟩,v,h₁,h₂⟩ := bind_eq_some.mp h
  obtain ⟨x,w,hread,h₃⟩ := bind_eq_some.mp h₁
  obtain ⟨hx,rfl⟩ := actor_eq_some hread
  have hv : Told e o s₀ v := disconnectEach unrefTunnel x.ports w () v h₃ hs
  have hloop : Told e o w v := disconnectEach unrefTunnel x.ports w () v h₃ (start hs.owned)
  have hstates := disconnectEach_states unrefTunnel x.ports w () v h₃ ⟨fun _ => rfl,fun _ => rfl⟩
  obtain ⟨y,v',hread,h₄⟩ := bind_eq_some.mp h₂
  obtain ⟨hy,rfl⟩ := actor_eq_some hread
  cases h₄
  obtain ⟨x',hx',hports,-⟩ := hloop.told a y hy
  cases hx.symm.trans hx'
  refine ⟨StateInv.setState .pending hy (fun _ => by decide) hv.owned fun h => absurd trivial h,
    fun b z hz => ?_⟩
  change (v'.actorMem.set a {y with state := .pending}).get b=some z at hz
  rw [Heap.get_set hy] at hz
  split at hz
  · next hb =>
    subst b
    cases hz
    obtain ⟨x₀,hx₀,hports₀,-⟩ := hv.told a y hy
    refine ⟨x₀,hx₀,hports₀,.inr (.inr ⟨by simp,fun p hp => ?_⟩)⟩
    have hp : p ∈ x.ports := hports ▸ hp
    change v'.portState p ≠ _
    rw [hstates p,partAll_eq,if_pos (List.mem_append.mpr (.inl hp))]
    simp
  · exact hv.told b z hz

/-- At the end of the operation the decision has been found where it is to be found. -/
theorem decided (hs : s.DeleteDecided) (ht : Told e o s t)
    (hfinds : ∀ b x, s.actorMem.get b=some x → FindsDelete t.portState x.ports) :
    t.DeleteDecided := by
  intro b y hy
  obtain ⟨x,hx,hports,hscan | ⟨hstate,hsame⟩ | ⟨hstate,hnone⟩⟩ := ht.told b y hy
  · rw [hscan,← hports]
    exact scan_iff.mpr (hfinds b x hx)
  · rw [← hstate,hs b x hx,hports]
    refine exists_congr fun p => and_congr_right fun hp => ?_
    rw [hsame p hp]
  · refine ⟨fun h => absurd h hstate,?_⟩
    rintro ⟨p,hp,hdel⟩
    exact absurd hdel (hnone p hp)

end Told

section Run

variable {mp : Msgpuck} {e o : Option Ref} {s t : Node}

open Atom

/-- The port states after an operation of a node. -/
theorem portState_after {op : Op} (hs : op.apply mp s=some t) (hloud : op.quiet=false)
    (hfree : ∀ a b, op ≠ .freeActor a b) : States ((TopOp.base op).portStates s) t := by
  have hone : ∀ {p : Ref} {state : PortState}, States (setTo s.portState p state) t →
      op.newState=state → op.sets s=[p] → States ((TopOp.base op).portStates s) t := by
    intro p state ht hnew hsets r
    rw [ht r,setTo,TopOp.portStates,TopOp.sets,TopOp.newState,hsets,hnew]
    simp
  have hnone : States s.portState t → op.sets s=[] → States ((TopOp.base op).portStates s) t := by
    intro ht hsets r
    rw [ht r,TopOp.portStates,TopOp.sets,hsets]
    simp
  cases op with
  | host | setPeerId | retry | setFifo | tunnelCreate | tunnelUpdate | linkCreate | linkRemoveRef
  | setProxyLink | storageTunnel | proxyTunnel | restoreStorage | restoreProxy | releaseStorage
  | releaseProxy | describe | callback | callbackIfSet | fire | serialize => cases hloud
  | freeActor a b => exact absurd rfl (hfree a b)
  | setState p state =>
    obtain ⟨⟨⟨⟩,t'⟩,hr,he⟩ := Option.map_eq_some_iff.mp hs
    cases he
    exact hone (setState_states p state s () t' hr fun _ => rfl) rfl rfl
  | connectLocal p =>
    obtain ⟨⟨r,t'⟩,hr,he⟩ := Option.map_eq_some_iff.mp hs
    cases he
    obtain ⟨hn,-,rfl⟩ | ⟨q,hq,-,hjoin⟩ := portConnectLocal_cases hr
    · exact hnone (fun _ => rfl) (by simp [Op.sets,hn])
    · intro i
      rw [portJoin_states p q s () t' hjoin (fun _ => rfl) i,TopOp.portStates,TopOp.sets,Op.sets,hq]
      simp only [setTo,Option.elim_some,List.mem_cons,List.not_mem_nil,or_false]
      by_cases hiq : i=q
      · simp [hiq,TopOp.newState,Op.newState]
      · simp [hiq,TopOp.newState,Op.newState]
  | handleConnect p tunnelId =>
    obtain ⟨⟨r,t'⟩,hr,he⟩ := Option.map_eq_some_iff.mp hs
    cases he
    obtain ⟨hf,hd⟩ | ⟨hf,hset⟩ | ⟨hf,q,hon⟩ := portHandleConnect_cases hr
    · exact hnone (detach_states p s () t' hd fun _ => rfl) (by simp [Op.sets,hf])
    · exact hone (setState_states p _ s () t' hset fun _ => rfl) rfl (by simp [Op.sets,hf])
    · exact hone (ensures_bind (detach_states p) (fun _ => portEnableOn_states p q) s () t' hon
        fun _ => rfl) rfl (by simp [Op.sets,hf])
  | handleDisconnect p =>
    obtain ⟨⟨⟨⟩,t'⟩,hr,he⟩ := Option.map_eq_some_iff.mp hs
    cases he
    exact hone (handleDisconnect_states p s () t' hr fun _ => rfl) rfl rfl
  | getTunnel p =>
    obtain ⟨⟨⟨⟩,t'⟩,hr,he⟩ := Option.map_eq_some_iff.mp hs
    cases he
    obtain ⟨hg,hsame⟩ | ⟨hg,u,q,hsame,hattach⟩ := portGetTunnel_cases hr
    · exact hnone (states_graph s t' hsame fun _ => rfl) (by simp [Op.sets,hg])
    · exact hone (portAttach_states p q u () t' hattach (states_graph s u hsame fun _ => rfl)) rfl
        (by simp [Op.sets,hg])
  | dropTunnel p =>
    obtain ⟨⟨⟨⟩,t'⟩,hr,he⟩ := Option.map_eq_some_iff.mp hs
    cases he
    exact hone (dropTunnel_states p s () t' hr fun _ => rfl) rfl rfl
  | disconnect p =>
    obtain ⟨⟨⟨⟩,t'⟩,hr,he⟩ := Option.map_eq_some_iff.mp hs
    cases he
    intro r
    rw [(disconnect_tracks p true s () t' hr ⟨fun _ => rfl,fun _ => rfl⟩).1 r]
    exact partAll_eq s.portState s.peerOf [p] r
  | disconnectPorts a =>
    obtain ⟨⟨⟨⟩,t'⟩,hr,he⟩ := Option.map_eq_some_iff.mp hs
    cases he
    obtain ⟨x,u,hread,h₁⟩ := bind_eq_some.mp hr
    obtain ⟨hx,rfl⟩ := actor_eq_some hread
    intro r
    rw [disconnectEach_states true x.ports u () t' h₁ ⟨fun _ => rfl,fun _ => rfl⟩ r,partAll_eq,
      TopOp.portStates]
    simp [TopOp.sets,Op.sets,Op.parts,Node.portsOf,Node.peersOf,hx,TopOp.newState,Op.newState]
  | disconnectActor a =>
    obtain ⟨⟨⟨⟩,t'⟩,hr,he⟩ := Option.map_eq_some_iff.mp hs
    cases he
    obtain ⟨⟨⟩,v,hr,hset⟩ := bind_eq_some.mp hr
    obtain ⟨x,u,hread,h₁⟩ := bind_eq_some.mp hr
    obtain ⟨hx,rfl⟩ := actor_eq_some hread
    obtain ⟨y,w,hread,h₂⟩ := bind_eq_some.mp hset
    obtain ⟨-,rfl⟩ := actor_eq_some hread
    cases h₂
    intro r
    have hstates := disconnectEach_states true x.ports u () w h₁ ⟨fun _ => rfl,fun _ => rfl⟩ r
    refine Eq.trans hstates ?_
    rw [partAll_eq,TopOp.portStates]
    simp [TopOp.sets,Op.sets,Op.parts,Node.portsOf,Node.peersOf,hx,TopOp.newState,Op.newState]

theorem detach_decided (p : Ref) : Preserves Node.DeleteDecided (portDetach p) := by
  refine preserves_bind (preserves_port p) fun x => ?_
  split
  · exact preserves_pure _
  · exact preserves_bind (preserves_tunnelRemoveRef Node.DeleteDecided.graph _) fun _ =>
      preserves_updatePort Node.DeleteDecided.quiet p fun _ => rfl

theorem setActorState_decided {a : Ref} {state : ActorState} {x : Actor}
    (hx : s.actorMem.get a=some x) (hstate : state ≠ .doDelete)
    (hports : ∀ p ∈ x.ports, s.portState p ≠ some .doDelete) (hs : s.DeleteDecided) :
    Node.DeleteDecided {s with actorMem := s.actorMem.set a {x with state := state}} := by
  intro b y hy
  change (s.actorMem.set a {x with state := state}).get b=some y at hy
  rw [Heap.get_set hx] at hy
  split at hy
  · cases hy
    refine ⟨fun h => absurd h hstate,?_⟩
    rintro ⟨p,hp,hdel⟩
    exact absurd hdel (hports p hp)
  · exact hs b y hy

/-- An operation that sets no port leaves the decision as it is. -/
theorem unset_decided {op : Op} (hs : op.apply mp s=some t) (hloud : op.quiet=false)
    (hfree : ∀ a b, op ≠ .freeActor a b) (hsets : op.sets s=[]) (hp : s.DeleteDecided) :
    t.DeleteDecided := by
  have hnoports : ∀ {a : Ref} {x : Actor}, s.actorMem.get a=some x →
      s.portsOf a++s.peersOf (s.portsOf a)=[] → x.ports=[] := by
    intro a x hx hsets
    have hnil := (List.append_eq_nil_iff.mp hsets).1
    rwa [Node.portsOf,hx] at hnil
  cases op with
  | host | setPeerId | retry | setFifo | tunnelCreate | tunnelUpdate | linkCreate | linkRemoveRef
  | setProxyLink | storageTunnel | proxyTunnel | restoreStorage | restoreProxy | releaseStorage
  | releaseProxy | describe | callback | callbackIfSet | fire | serialize => cases hloud
  | freeActor a b => exact absurd rfl (hfree a b)
  | setState | handleDisconnect | dropTunnel | disconnect => cases hsets
  | connectLocal p =>
    obtain ⟨⟨r,t'⟩,hr,he⟩ := Option.map_eq_some_iff.mp hs
    cases he
    obtain ⟨-,-,rfl⟩ | ⟨q,hq,-,-⟩ := portConnectLocal_cases hr
    · exact hp
    · simp [Op.sets,hq] at hsets
  | handleConnect p tunnelId =>
    obtain ⟨⟨r,t'⟩,hr,he⟩ := Option.map_eq_some_iff.mp hs
    cases he
    obtain ⟨-,hd⟩ | ⟨hf,-⟩ | ⟨hf,-⟩ := portHandleConnect_cases hr
    · exact detach_decided p s () t' hd hp
    · simp [Op.sets,hf] at hsets
    · simp [Op.sets,hf] at hsets
  | getTunnel p =>
    obtain ⟨⟨⟨⟩,t'⟩,hr,he⟩ := Option.map_eq_some_iff.mp hs
    cases he
    obtain ⟨-,hsame⟩ | ⟨hg,-⟩ := portGetTunnel_cases hr
    · exact Node.DeleteDecided.graph s t' hsame hp
    · simp [Op.sets,hg] at hsets
  | disconnectPorts a =>
    obtain ⟨⟨⟨⟩,t'⟩,hr,he⟩ := Option.map_eq_some_iff.mp hs
    cases he
    obtain ⟨x,u,hread,h₁⟩ := bind_eq_some.mp hr
    obtain ⟨hx,rfl⟩ := actor_eq_some hread
    rw [hnoports hx hsets] at h₁
    cases h₁
    exact hp
  | disconnectActor a =>
    obtain ⟨⟨⟨⟩,t'⟩,hr,he⟩ := Option.map_eq_some_iff.mp hs
    cases he
    obtain ⟨⟨⟩,v,hr,hset⟩ := bind_eq_some.mp hr
    obtain ⟨x,u,hread,h₁⟩ := bind_eq_some.mp hr
    obtain ⟨hx,rfl⟩ := actor_eq_some hread
    rw [hnoports hx hsets] at h₁
    cases h₁
    obtain ⟨y,w,hread,h₂⟩ := bind_eq_some.mp hset
    obtain ⟨hy,rfl⟩ := actor_eq_some hread
    cases h₂
    cases hx.symm.trans hy
    exact setActorState_decided hx (by decide) (by simp [hnoports hx hsets]) hp

/-- The decision and the ports to decide on. -/
def Decided (e o : Option Ref) (s : Node) : Prop := Owned e o s ∧ s.DeleteDecided

theorem actorFree_decided (a : Ref) (removeFromRegistry : Bool) :
    Preserves (Decided e o) (actorFree a removeFromRegistry) := by
  intro s u t h hs
  refine ⟨actorFree_follows a removeFromRegistry s u t h hs.1,?_⟩
  obtain ⟨v,w,x,host,hview,-,hx,hfree,rfl⟩ := actorFree_eq h
  have hsame : SameView StateInv.ofPort Actor.shape s v := by
    refine hview.coarsen (fun y z hyz => ?_) fun _ _ => Actor.shape_of_core
    have hstate := congrArg Port.state hyz
    have hactor := congrArg Port.actor hyz
    exact Prod.ext hstate hactor
  have hv : Decided e o v :=
    ⟨hs.1.view hsame,hs.2.view (hsame.coarsen (fun _ _ h => congrArg Prod.fst h)
      fun _ _ => Node.DeleteDecided.ofActor_of_shape)⟩
  obtain ⟨hactors,-,-,hget⟩ := freePorts_ports hfree
  have hlive : ∀ b y, (w.actorMem.free a).get b=some y → b ≠ a ∧ v.actorMem.get b=some y := by
    intro b y hy
    rw [Heap.get_free] at hy
    split at hy
    · cases hy
    · next hb => exact ⟨hb,hactors ▸ hy⟩
  refine hv.2.of_ports (fun b y hy => (hlive b y hy).2) fun b y hy p hp => ?_
  obtain ⟨hb,hy⟩ := hlive b y hy
  change (w.portMem.get p).map Port.state=_
  rw [hget]
  split
  · next hmem =>
    rw [Node.portState]
    cases hz : v.portMem.get p with
    | none => rfl
    | some z => exact absurd (hv.1.disjoint hy hx hp hmem hz) hb
  · rfl

theorem base_decided {op : Op} (hok : KeepsDecision (.base op) s) (hs : op.apply mp s=some t)
    (hp : Decided e o s) : Decided e o t := by
  refine ⟨hp.1.base hs,?_⟩
  cases hquiet : op.quiet with
  | true =>
    exact Op.quiet_preserves hquiet (fun _ _ h => Node.DeleteDecided.view h) (fun _ _ => trivial)
      (fun _ _ _ _ => rfl) (fun _ _ => Node.DeleteDecided.ofActor_of_shape) hs hp.2
  | false =>
    by_cases hfree : ∃ a b, op=.freeActor a b
    · obtain ⟨a,b,rfl⟩ := hfree
      refine (preserves_state hs (preserves_bind preserves_get fun v => ?_) hp).2
      dsimp only
      split
      · exact preserves_bind preserves_undefined fun _ => actorFree_decided a b
      · exact actorFree_decided a b
    have hnofree : ∀ a b, op ≠ .freeActor a b := fun a b he => hfree ⟨a,b,he⟩
    by_cases hsets : op.sets s=[]
    · exact unset_decided hs hquiet hnofree hsets hp.2
    have htold : Told e o s t := by
      by_cases hactor : ∃ a, op=.disconnectActor a
      · obtain ⟨a,rfl⟩ := hactor
        exact preserves_state hs (Told.disconnectActor a true) (.start hp.1)
      · exact Op.sets_preserves Told.rules (fun p => (Told.rules.port p trivial).detach) Told.graph
          (fun _ _ _ _ _ _ => ⟨trivial,trivial⟩) (fun _ _ _ _ _ _ _ _ => trivial)
          (fun _ _ => trivial) hquiet hnofree (fun a he => hactor ⟨a,he⟩) hs (.start hp.1)
    have hstates : t.portState=(TopOp.base op).portStates s :=
      funext (portState_after hs hquiet hnofree)
    refine htold.decided hp.2 fun b x hx => ?_
    rw [hstates]
    exact hok.1 hsets b x hx

theorem findsDelete_congr {st st' : Ref → Option PortState} {ps : List Ref}
    (h : ∀ p ∈ ps, st p=st' p) (hs : FindsDelete st ps) : FindsDelete st' ps := by
  rw [← scan_iff,← scan_congr h]
  refine Iff.trans (scan_iff.mpr hs) (exists_congr fun p => and_congr_right fun hp => ?_)
  rw [h p hp]

/-- A port that is in no list changes nothing for the actors. -/
theorem unlinked_told {a p : Ref} {x : Port} {state : PortState} (hx : s.portMem.get p=some x)
    (hs : Owned (some a) (some p) s) :
    Told (some a) (some p) s {s with portMem := s.portMem.set p {x with state := state}} := by
  refine ⟨Owned.of_stateInv (hs.setPort hx rfl),fun b y hy => ⟨y,hy,rfl,.inr (.inl ⟨rfl,?_⟩)⟩⟩
  intro q hq
  change ((s.portMem.set p _).get q).map Port.state=_
  rw [Heap.get_set hx,if_neg]
  · rfl
  · rintro rfl
    exact (hs.unlinked q rfl).2.1 b y hy hq

theorem takeState_decided {a p : Ref} {value : UInt32} {n : Nat}
    (hok : KeepsDecision (.build a (.takeState p value n)) s)
    (h : portTakeState p value n s=some ((),t)) (hs : Decided (some a) (some p) s) :
    Decided (some a) (some p) t := by
  refine ⟨takeState_follows a p value n s () t h hs.1,?_⟩
  obtain ⟨x,u,hx,hu,hcase⟩ := portTakeState_cases h
  have htold : Told (some a) (some p) s u := hu ▸ unlinked_told hx hs.1
  have hnot : ∀ b y, s.actorMem.get b=some y → ∀ q ∈ y.ports, q ≠ p := by
    rintro b y hy q hq rfl
    exact (hs.1.unlinked q rfl).2.1 b y hy hq
  have hother : ∀ r, r ≠ p → u.portState r=s.portState r := by
    intro r hr
    rw [hu]
    change ((s.portMem.set p _).get r).map Port.state=_
    rw [Heap.get_set hx,if_neg hr]
    rfl
  have hdecided : u.DeleteDecided := by
    have hmem : u.actorMem=s.actorMem := by rw [hu]
    refine hs.2.of_ports (fun b y hy => hmem ▸ hy) fun b y hy q hq => ?_
    exact hother q (hnot b y (hmem ▸ hy) q hq)
  have hnew : (TopOp.build a (.takeState p value n)).newState s=
      if strncmpEq x.peerId s.host.id (strnlen x.peerId uuidBufferSize) then .enabled
      else .disconnected := by
    simp [TopOp.newState,hx]
  obtain ⟨-,rfl | ⟨r,hattach⟩⟩ | ⟨q,hsets,hlocal,hjoin⟩ | ⟨hsets,hlocal,hset⟩ := hcase
  · exact hdecided
  · have hattached : Preserves Node.DeleteDecided
        (updatePort p (fun y => {y with tunnel := some r}) >>= fun _ => tunnelAddRef r) :=
      preserves_bind (preserves_updatePort Node.DeleteDecided.quiet p fun _ => rfl) fun _ =>
        preserves_tunnelAddRef Node.DeleteDecided.graph r
    exact hattached u () t hattach hdecided
  · refine (Told.rules.portJoin trivial trivial u () t hjoin htold).decided hs.2 fun b y hy => ?_
    refine findsDelete_congr (fun r hr => ?_) (hok.1 (by simp [TopOp.sets,hsets]) b y hy)
    have hrp := hnot b y hy r hr
    rw [TopOp.portStates,TopOp.sets,hsets,hnew,if_pos hlocal,
      portJoin_states p q u () t hjoin (fun _ => rfl) r]
    simp [setTo,hother r hrp,hrp]
  · refine (Told.setState p _ u () t hset htold).decided hs.2 fun b y hy => ?_
    refine findsDelete_congr (fun r hr => ?_) (hok.1 (by simp [TopOp.sets,hsets]) b y hy)
    have hrp := hnot b y hy r hr
    rw [TopOp.portStates,TopOp.sets,hsets,hnew,
      setState_states p _ u () t hset (fun _ => rfl) r]
    simp [setTo,hother r hrp,hrp]

theorem freePort_decided {a p : Ref} (h : portFree p false s=some ((),t))
    (hs : Decided (some a) (some p) s) : Decided (some a) none t := by
  refine ⟨freePort_follows a p s () t h hs.1,?_⟩
  obtain ⟨hactors,-,-,-,hget⟩ := portFree_ports h
  refine hs.2.of_ports (fun b y hy => hactors ▸ hy) fun b y hy q hq => ?_
  rw [Node.portState,hget,if_neg]
  · rfl
  · rintro rfl
    exact (hs.1.unlinked q rfl).2.1 b y (hactors ▸ hy) hq

theorem createPort_decided {a : Ref} {direction : PortDirection} {d : PortDescription}
    {r : Option Ref} (h : portNew mp a direction d s=some (r,t)) (hs : Decided (some a) none s) :
    Decided (some a) r t := by
  have hh : ∀ (v : Node) (h : Host) (o : Option Ref), v.host.Moves h → Decided (some a) o v →
      Decided (some a) o {v with host := h} := by
    intro v h o hm hv
    exact ⟨StateInv.graph v _ ⟨rfl,rfl,rfl,hm⟩ hv.1,
      Node.DeleteDecided.graph v _ ⟨rfl,rfl,rfl,hm⟩ hv.2⟩
  have hquiet : ∀ (p : Ref) (v w : Node), SameView StateInv.ofPort Actor.shape v w →
      SameTunnels v w → Decided (some a) (some p) v → Decided (some a) (some p) w := by
    intro p v w hvw _ hv
    exact ⟨hv.1.view hvw,hv.2.view (hvw.coarsen (fun _ _ h => congrArg Prod.fst h)
      fun _ _ => Node.DeleteDecided.ofActor_of_shape)⟩
  have hnew : Ensures (Decided (some a) none) (portNew mp a direction d) fun r =>
      Decided (some a) r := by
    refine ensures_bind (preserves_alloc fun v h => hh v h none) fun b => ?_
    split
    · exact ensures_pure fun _ h => h
    refine ensures_bind (Q := fun p => Decided (some a) (some p)) ?_ fun p => ?_
    · refine ensures_bind (preserves_ofOption _) fun id => ensures_bind (preserves_ofOption _)
        fun name => ensures_bind (preserves_ofOption _) fun peerPortId =>
          ensures_bind (preserves_textCopy _) fun peerId => ?_
      intro v p w h hv
      cases h
      refine ⟨hv.1.allocPort rfl,Node.DeleteDecided.of_ports (s := v) (fun _ _ h => h)
        (fun b y hy q hq => ?_) hv.2⟩
      change ((v.portMem.alloc _).get q).map Port.state=_
      rw [Heap.get_alloc,if_neg (Nat.ne_of_lt (hv.1.owner b y hy q hq).1)]
      rfl
    · refine ensures_bind (preserves_fifoInit (fun v h => hh v h (some p)) mp _ _ _) fun f => ?_
      split
      · exact ensures_bind (Q := fun _ => Decided (some a) none)
          (fun _ _ _ h hv => freePort_decided h hv) fun _ => ensures_pure fun _ h => h
      · exact ensures_bind (preserves_updatePort (hquiet p) p fun _ => rfl) fun _ =>
          ensures_pure fun _ h => h
  exact hnew s r t h hs

theorem linkPort_decided {a p : Ref} {direction : PortDirection} {b : Bool}
    (hok : KeepsDecision (.build a (.linkPort direction p)) s)
    (h : portLink a direction p s=some (b,t)) (hs : Decided (some a) (some p) s) :
    Decided (some a) none t := by
  refine ⟨linkPort_follows a p direction s b t h hs.1,?_⟩
  obtain ⟨c,u,hc,h₁⟩ := bind_eq_some.mp h
  have hu := preserves_alloc (P := fun v => SameObjects s v) (sameObjects_host s) s c u hc (.refl s)
  unfold SameObjects at hu
  cases c with
  | false =>
    cases h₁
    rw [hu]
    exact hs.2
  | true =>
    obtain ⟨x,v,hread,h₂⟩ := bind_eq_some.mp h₁
    obtain ⟨hx,rfl⟩ := actor_eq_some hread
    cases h₂
    have hx : s.actorMem.get a=some x := by
      rw [hu] at hx
      exact hx
    have hstates : ∀ r, v.portState r=s.portState r := by
      intro r
      rw [hu]
      rfl
    have hp : s.portState p ≠ some .doDelete := hok.2.2 p (List.mem_singleton_self p)
    intro c y hy
    change (v.actorMem.set a (x.withPort direction p)).get c=some y at hy
    change _ ↔ ∃ q ∈ y.ports, v.portState q=some .doDelete
    simp only [hstates]
    rw [hu] at hy
    change (s.actorMem.set a (x.withPort direction p)).get c=some y at hy
    rw [Heap.get_set hx] at hy
    split at hy
    · cases hy
      have hmem : ∀ q, q ∈ (x.withPort direction p).ports ↔ q ∈ p::x.ports :=
        fun q => (x.ports_withPort direction p).mem_iff
      have hstate : (x.withPort direction p).state=x.state := by cases direction <;> rfl
      rw [hstate,hs.2 a x hx]
      constructor
      · rintro ⟨q,hq,hdel⟩
        exact ⟨q,(hmem q).mpr (List.mem_cons_of_mem _ hq),hdel⟩
      · rintro ⟨q,hq,hdel⟩
        obtain rfl | hq := List.mem_cons.mp ((hmem q).mp hq)
        · exact absurd hdel hp
        · exact ⟨q,hq,hdel⟩
    · exact hs.2 c y hy

theorem newActor_decided (type : Text) :
    Preserves Node.DeleteDecided (actorCreateFromType type) := by
  refine preserves_actorCreateFromType
    (fun v h hm hv => Node.DeleteDecided.graph v _ ⟨rfl,rfl,rfl,hm⟩ hv)
    (fun name state loaded i himpl s a t h hs => ?_) type
  have hstate : state ≠ .doDelete := by
    rcases himpl with ⟨-,rfl⟩ | ⟨-,rfl⟩ <;> decide
  cases h
  intro b y hy
  change (s.actorMem.alloc _).get b=some y at hy
  rw [Heap.get_alloc] at hy
  split at hy
  · cases hy
    simp [hstate,Actor.ports]
  · exact hs b y hy

theorem load_decided (a : Ref) : Preserves Node.DeleteDecided (actorLoad a) := by
  refine preserves_bind (preserves_effect fun v h hm hv =>
    Node.DeleteDecided.graph v _ ⟨rfl,rfl,rfl,hm⟩ hv) fun e => ?_
  split
  · exact ensures_bind (ensures_actor a) fun x =>
      ensures_bind (ensures_setActor Node.DeleteDecided.quiet rfl) fun _ => preserves_pure _
  · exact preserves_pure _

theorem partAll_append (g : Ref → Option PortState) (h : Ref → Option Ref) (ps qs : List Ref) :
    partAll g h (ps++qs)=partAll (partAll g h ps) (ps.foldl without h) qs := by
  induction ps generalizing g h with
  | nil => rfl
  | cons p ps ih => rw [List.cons_append,partAll,partAll,ih,List.foldl_cons]

theorem disconnectEach_tracks {g : Ref → Option PortState} {h : Ref → Option Ref}
    (unrefTunnel : Bool) (ps : List Ref) :
    Ensures (Tracks g h) (disconnectEach unrefTunnel ps) fun _ =>
      Tracks (partAll g h ps) (ps.foldl without h) := by
  induction ps generalizing g h with
  | nil => exact preserves_pure _
  | cons p ps ih => exact ensures_bind (disconnect_tracks p unrefTunnel) fun _ => ih

/-- The port states after the actors of a list were disconnected. -/
theorem actorDisconnectEach_states {g : Ref → Option PortState} {h : Ref → Option Ref}
    (unrefTunnel : Bool) (as : List Ref) :
    Ensures (fun u => Tracks g h u ∧ Told e o s u) (actorDisconnectEach unrefTunnel as) fun _ =>
      States (partAll g h (as.flatMap s.portsOf)) := by
  induction as generalizing g h with
  | nil => exact ensures_pure fun _ hs => hs.1.1
  | cons a as ih =>
    rw [List.flatMap_cons,partAll_append]
    refine ensures_bind (Q := fun _ u => Tracks (partAll g h (s.portsOf a))
      ((s.portsOf a).foldl without h) u ∧ Told e o s u) ?_ fun _ => ih
    rintro u ⟨⟩ v hv ⟨htracks,htold⟩
    refine ⟨?_,Told.disconnectActor a unrefTunnel u () v hv htold⟩
    obtain ⟨⟨⟩,w,h₁,h₂⟩ := bind_eq_some.mp hv
    obtain ⟨x,u',hread,h₃⟩ := bind_eq_some.mp h₁
    obtain ⟨hx,rfl⟩ := actor_eq_some hread
    obtain ⟨x₀,hx₀,hports,-⟩ := htold.told a x hx
    have hof : s.portsOf a=x.ports := by rw [Node.portsOf,hx₀,Option.elim_some,hports]
    rw [hof]
    have hw := disconnectEach_tracks unrefTunnel x.ports u' () w h₃ htracks
    obtain ⟨y,w',hread,h₄⟩ := bind_eq_some.mp h₂
    obtain ⟨hy,rfl⟩ := actor_eq_some hread
    cases h₄
    exact hw

/-- Actors without ports are only set to pending. -/
theorem actorDisconnectEach_unset {as : List Ref} (hnone : ∀ a ∈ as, s.portsOf a=[]) :
    Preserves (fun u => u.DeleteDecided ∧ ∀ a, u.portsOf a=s.portsOf a)
      (actorDisconnectEach false as) := by
  induction as with
  | nil => exact preserves_pure _
  | cons a as ih =>
    refine preserves_bind ?_ fun _ => ih fun b hb => hnone b (List.mem_cons_of_mem _ hb)
    rintro u ⟨⟩ v hv ⟨hdecided,hports⟩
    obtain ⟨⟨⟩,w,h₁,h₂⟩ := bind_eq_some.mp hv
    obtain ⟨x,u',hread,h₃⟩ := bind_eq_some.mp h₁
    obtain ⟨hx,rfl⟩ := actor_eq_some hread
    have hnil : x.ports=[] := by
      have hof := (hports a).trans (hnone a List.mem_cons_self)
      rwa [Node.portsOf,hx,Option.elim_some] at hof
    rw [hnil] at h₃
    cases h₃
    obtain ⟨y,w,hread,h₄⟩ := bind_eq_some.mp h₂
    obtain ⟨hy,rfl⟩ := actor_eq_some hread
    cases h₄
    cases hx.symm.trans hy
    refine ⟨setActorState_decided hx (by decide) (by simp [hnil]) hdecided,fun b => ?_⟩
    rw [← hports b]
    change ((w.actorMem.set a _).get b).elim [] Actor.ports=_
    rw [Heap.get_set hx]
    split
    · next hb =>
      rw [hb,Node.portsOf,hx]
      rfl
    · rfl

theorem forgetProxy_decided (hok : KeepsDecision .forgetProxy s)
    (h : nodeForgetProxy s=some ((),t)) (hs : Decided e o s) : Decided e o t := by
  refine ⟨Owned.forgetProxy s () t h hs.1,?_⟩
  have hboth : ∀ v w : Node, SameGraph v w →
      (Tracks s.portState s.peerOf v ∧ Told e o s v) ∧ v.actors=s.actors ∧
        v.DeleteDecided ∧ (∀ a, v.portsOf a=s.portsOf a) →
      (Tracks s.portState s.peerOf w ∧ Told e o s w) ∧ w.actors=s.actors ∧
        w.DeleteDecided ∧ ∀ a, w.portsOf a=s.portsOf a := by
    intro v w hvw hv
    refine ⟨⟨tracks_graph v w hvw hv.1.1,Told.graph v w hvw hv.1.2⟩,hvw.2.2.1.trans hv.2.1,
      Node.DeleteDecided.graph v w hvw hv.2.2.1,fun a => ?_⟩
    rw [Node.portsOf,hvw.2.1]
    exact hv.2.2.2 a
  have hall : Ensures (fun v => (Tracks s.portState s.peerOf v ∧ Told e o s v) ∧
      v.actors=s.actors ∧ v.DeleteDecided ∧ ∀ a, v.portsOf a=s.portsOf a) nodeForgetProxy
      fun _ => Node.DeleteDecided := by
    refine ensures_bind preserves_get fun _ => ensures_bind (preserves_tunnelFreeAll hboth _)
      fun _ => ensures_bind (preserves_modify fun v hv => hboth v _ ⟨rfl,rfl,rfl,.refl⟩ hv) fun _ =>
        ensures_bind preserves_get fun _ => ensures_bind (preserves_linkFreeAll hboth _)
          fun _ => ensures_bind (preserves_modify fun v hv => hboth v _ ⟨rfl,rfl,rfl,.refl⟩ hv) fun _ => ?_
    rintro u ⟨⟩ v h ⟨⟨htracks,htold⟩,hactors,hdecided,hof⟩
    obtain ⟨w,w',hget,h₁⟩ := bind_eq_some.mp h
    cases hget
    rw [hactors] at h₁
    have hstates := actorDisconnectEach_states false s.actors u () v h₁ ⟨htracks,htold⟩
    have hend : Told e o s v := by
      have heach : ∀ as, Preserves (Told e o s) (actorDisconnectEach false as) := by
        intro as
        induction as with
        | nil => exact preserves_pure _
        | cons a as ih => exact preserves_bind (Told.disconnectActor a false) fun _ => ih
      exact heach s.actors u () v h₁ htold
    by_cases hsets : TopOp.forgetProxy.sets s=[]
    · have hnone : ∀ a ∈ s.actors, s.portsOf a=[] :=
        List.flatMap_eq_nil_iff.mp (List.append_eq_nil_iff.mp hsets).1
      exact (actorDisconnectEach_unset hnone u () v h₁ ⟨hdecided,hof⟩).1
    · refine hend.decided hs.2 fun b x hx => ?_
      have hst : v.portState=TopOp.forgetProxy.portStates s := by
        funext r
        rw [hstates r,partAll_eq]
        rfl
      rw [hst]
      exact hok.1 hsets b x hx
  exact hall s () t h ⟨⟨⟨fun _ => rfl,fun _ => rfl⟩,.start hs.1⟩,rfl,hs.2,fun _ => rfl⟩

theorem pop_decided (h : actorPop s=some ((),t)) (hs : Decided none none s) :
    Decided none none t := by
  refine ⟨actorPop_follows s () t h hs.1,?_⟩
  obtain ⟨u,v,hget,h₁⟩ := bind_eq_some.mp h
  cases hget
  cases hactors : s.actors with
  | nil =>
    simp only [hactors] at h₁
    cases h₁
    exact hs.2
  | cons a rest =>
    simp only [hactors] at h₁
    obtain ⟨⟨⟩,v,hmod,h₂⟩ := bind_eq_some.mp h₁
    cases hmod
    have howned : Owned none none {s with actors := rest} :=
      hs.1.drop (by rw [hactors]; exact List.sublist_cons_self a rest)
    exact (actorFree_decided a true _ () t h₂ ⟨howned,hs.2⟩).2

theorem decided_steady : Steady mp KeepsDecision Decided (Decided none none) where
  init := fun h => ⟨(@Owned.steady mp).init h,fun a x hx => absurd hx (by simp [Node.init])⟩
  base := base_decided
  newActor := fun _ hs hp =>
    ⟨newActor_follows _ _ _ _ hs hp.1,newActor_decided _ _ _ _ hs hp.2⟩
  createPort := fun _ hs hp => createPort_decided hs hp
  takeState := takeState_decided
  freePort := fun _ hs hp => freePort_decided hs hp
  linkPort := linkPort_decided
  addActor := by
    intro a s b t _ hs hp
    refine ⟨(@Owned.steady mp).addActor trivial hs hp.1,?_⟩
    refine preserves_bind (preserves_alloc fun v h hm hv =>
      Node.DeleteDecided.graph v _ ⟨rfl,rfl,rfl,hm⟩ hv) (fun c => ?_) s b t hs hp.2
    split
    · exact preserves_pure _
    · exact preserves_bind (preserves_modify fun v hv => hv) fun _ => preserves_pure _
  freeNew := fun _ hs hp =>
    ⟨(@Owned.steady mp).freeNew trivial hs hp.1,(actorFree_decided _ false _ _ _ hs hp).2⟩
  assign := by
    intro a state s t hstate hok hs hp
    refine ⟨(@Owned.steady mp).assign hstate trivial hs hp.1,?_⟩
    obtain ⟨x,u,hread,h₁⟩ := bind_eq_some.mp hs
    obtain ⟨hx,rfl⟩ := actor_eq_some hread
    cases h₁
    exact setActorState_decided hx hstate (hok.2.1 a (List.mem_singleton_self a) x hx) hp.2
  load := fun _ hs hp =>
    ⟨(@Owned.steady mp).load trivial hs hp.1,load_decided _ _ _ _ hs hp.2⟩
  forgetProxy := forgetProxy_decided
  reset := id
  pop := fun _ hs hp => pop_decided hs hp
  emptied := fun hp _ => hp

variable (mp)

/-- While no step hides a port to be deleted, an actor is to be deleted exactly when one of
its ports is. -/
theorem delete_decision_follows_ports {h : Host} {es : List (Event × Fate)}
    (hr : Runs (Event.step mp) (Event.Admissible mp KeepsDecision) (.init h) es t) {a : Ref}
    {x : Actor} (_ : a ∈ t.actors) (hx : t.actorMem.get a=some x) :
    x.state=.doDelete ↔ ∃ p ∈ x.ports, t.portState p=some .doDelete :=
  (decided_steady.guarded.reachable hr).2 a x hx

end Run

section Examples

instance (st : Ref → Option PortState) (ps : List Ref) : Decidable (FindsDelete st ps) :=
  inferInstanceAs (Decidable ((∃ p ∈ ps, st p=some .doDelete) →
    (ps.find? fun p => decide (st p ≠ some .enabled)).bind st=some .doDelete))

instance (o : TopOp) (s : Node) : Decidable (KeepsDecision o s) :=
  inferInstanceAs (Decidable ((o.sets s ≠ [] → ∀ a x, s.actorMem.get a=some x →
      FindsDelete (o.portStates s) x.ports) ∧
    (∀ a ∈ o.overrides, ∀ x, s.actorMem.get a=some x →
      ∀ p ∈ x.ports, s.portState p ≠ some .doDelete) ∧
    ∀ p ∈ o.links, s.portState p ≠ some .doDelete))

/-- An actor whose only port has a peer that the registry does not know. -/
def lostPeer : List (Event × Fate) :=
  joining++[
    (.actorCreate (Message.actor "t" "b" [] [⟨"q",none,"y",none⟩]),.fresh 10),
    (.message (Message.portValue (Message.msgId 10 2) "port-y" (Message.obj [])),.fresh 11)]

theorem delete_decision_follows_lost_peer :
    ∃ t x, Runs (Event.step msgpack) (Event.Admissible msgpack KeepsDecision) (.init bareHost)
      lostPeer t ∧ t.actorMem.get 0=some x ∧ x.state=.doDelete ∧
      ∃ p ∈ x.ports, t.portState p=some .doDelete := by
  have hrun : (Event.runAll (Event.stepChecked msgpack KeepsDecision) lostPeer
      (.init bareHost)).any (fun t => decide (0 ∈ t.actors) &&
        (t.actorMem.get 0).any fun x => decide (x.state=.doDelete))=true := by decide +kernel
  obtain ⟨t,ht,hend⟩ := exists_of_any hrun
  rw [Bool.and_eq_true] at hend
  have hr := Event.runs_of_stepChecked msgpack ht
  obtain ⟨x,hx,hstate⟩ := exists_of_any hend.2
  have hstate : x.state=.doDelete := of_decide_eq_true hstate
  exact ⟨t,x,hr,hx,hstate,
    (delete_decision_follows_ports msgpack hr (of_decide_eq_true hend.1) hx).mp hstate⟩

/-- The same for the second port of an actor whose first port still waits. -/
def hiddenLoss : List (Event × Fate) :=
  joining++[
    (.actorCreate (Message.actor "t" "b" [⟨"r",none,"z",none⟩] [⟨"q",none,"y",none⟩]),.fresh 10),
    (.message (Message.portValue (Message.msgId 10 4) "port-y" (Message.obj [])),.fresh 11)]

/-- The port that waits hides the one that is to be deleted. -/
theorem delete_decision_lost :
    ∃ t x, Runs (Event.step msgpack) (fun _ _ => True) (.init bareHost) hiddenLoss t ∧
      0 ∈ t.actors ∧ t.actorMem.get 0=some x ∧ x.state=.pending ∧
      ∃ p ∈ x.ports, t.portState p=some .doDelete := by
  have hrun : (Event.runAll (Event.step msgpack) hiddenLoss (.init bareHost)).any (fun t =>
      decide (0 ∈ t.actors) && (t.actorMem.get 0).any fun x => decide (x.state=.pending ∧
        ∃ p ∈ x.ports, t.portState p=some .doDelete))=true := by decide +kernel
  obtain ⟨t,ht,hend⟩ := exists_of_any hrun
  rw [Bool.and_eq_true] at hend
  obtain ⟨x,hx,hlost⟩ := exists_of_any hend.2
  obtain ⟨hstate,hport⟩ := of_decide_eq_true hlost
  exact ⟨t,x,Event.runs_of_step msgpack ht,of_decide_eq_true hend.1,hx,hstate,hport⟩

end Examples

end CalvinConstrained
