import CalvinConstrained.Runtime.Touch
import CalvinConstrained.Runtime.Message

namespace CalvinConstrained

namespace Node

/-- An actor whose implementation is not loaded is marked as such. -/
def AwaitsImpl (s : Node) : Prop :=
  ∀ a x, s.actorMem.get a=some x → x.loaded=false → x.state=.pendingImpl

def ActorLoaded (s : Node) (a : Ref) : Prop := ∀ x, s.actorMem.get a=some x → x.loaded=true

/-- The implementation of the actor of a port is loaded. -/
def PortLoaded (s : Node) (p : Ref) : Prop :=
  ∀ x, s.portMem.get p=some x → s.ActorLoaded x.actor

end Node

def Op.assigns : Op → List Ref
  | .disconnectActor a => [a]
  | _ => []

/-- The actors whose state a step assigns without a look at their ports. -/
def TopOp.assigns : TopOp → Node → List Ref
  | .base o,_ => o.assigns
  | .build _ (.base o),_ => o.assigns
  | .assign a _,_ => [a]
  | .forgetProxy,s => s.actors
  | _,_ => []

/-- The ports whose state the step sets are ports of loaded actors, and the actors whose state it
assigns are loaded. -/
def SparesUnloaded (o : TopOp) (s : Node) : Prop :=
  (∀ p ∈ o.sets s, s.PortLoaded p) ∧ ∀ a ∈ o.assigns s, s.ActorLoaded a

/-- What holds while a step runs that started in `s₀`; the ports of `B` have only peers
whose actors are loaded. -/
structure Sparing (s₀ : Node) (B : Ref → Prop) (s : Node) : Prop where
  awaits : s.AwaitsImpl
  same : SameView Atom.fixedPart (fun x => (x.loaded,x.ports)) s₀ s
  peers : ∀ p x q, B p → s.portMem.get p=some x → x.peerPort=some q → s₀.PortLoaded q

namespace Node.AwaitsImpl

variable {s t : Node}

theorem of_actorMem (h : t.actorMem=s.actorMem) (hs : s.AwaitsImpl) : t.AwaitsImpl := by
  intro a x hx
  rw [h] at hx
  exact hs a x hx

theorem view {β γ : Type} {f : Port → β} {g : Actor → γ}
    (hg : ∀ x y : Actor, g x=g y → x.loaded=y.loaded ∧ x.state=y.state) (h : SameView f g s t)
    (hs : s.AwaitsImpl) : t.AwaitsImpl := by
  intro a y hy hloaded
  obtain ⟨x,hx,hxy⟩ := h.actor_before hy
  obtain ⟨hl,hst⟩ := hg x y hxy
  rw [← hst]
  exact hs a x hx (hl.trans hloaded)

/-- A new actor, or one that changes, has to be loaded or marked. -/
theorem setActor {a : Ref} {x y : Actor} (hx : s.actorMem.get a=some x)
    (hy : y.loaded=false → y.state=.pendingImpl) (hs : s.AwaitsImpl) :
    Node.AwaitsImpl {s with actorMem := s.actorMem.set a y} := by
  intro b z hz
  change (s.actorMem.set a y).get b=some z at hz
  rw [Heap.get_set hx] at hz
  split at hz
  · cases hz
    exact hy
  · exact hs b z hz

theorem free {a : Ref} (hs : s.AwaitsImpl) :
    Node.AwaitsImpl {s with actorMem := s.actorMem.free a} := by
  intro b z hz
  change (s.actorMem.free a).get b=some z at hz
  rw [Heap.get_free] at hz
  split at hz
  · cases hz
  · exact hs b z hz

theorem alloc {y : Actor} (hy : y.loaded=false → y.state=.pendingImpl) (hs : s.AwaitsImpl) :
    Node.AwaitsImpl {s with actorMem := s.actorMem.alloc y} := by
  intro b z hz
  change (s.actorMem.alloc y).get b=some z at hz
  rw [Heap.get_alloc] at hz
  split at hz
  · cases hz
    exact hy
  · exact hs b z hz

end Node.AwaitsImpl

namespace Sparing

variable {s₀ s t : Node} {B : Ref → Prop}

/-- The fields of ports and actors that matter within a step. -/
def ofPort (x : Port) : (Bytes × Bytes × Bytes × PortDirection × Ref) × Option Ref :=
  (Atom.fixedPart x,x.peerPort)

def ofActor (x : Actor) : Bool × ActorState × List Ref := (x.loaded,x.state,x.ports)

theorem start (hs : s.AwaitsImpl)
    (hB : ∀ p x q, B p → s.portMem.get p=some x → x.peerPort=some q → s.PortLoaded q) :
    Sparing s B s :=
  ⟨hs,.refl _ _ s,hB⟩

theorem view (h : SameView ofPort ofActor s t) (hs : Sparing s₀ B s) : Sparing s₀ B t := by
  have hports : SameView Atom.fixedPart (fun x => (x.loaded,x.ports)) s t := by
    refine ⟨h.actors,fun p => ?_,fun a => ?_,h.nextPort,h.nextActor,trivial⟩
    · have := congrArg (Option.map Prod.fst) (h.port p)
      rwa [Option.map_map,Option.map_map] at this
    · have := congrArg (Option.map fun z => (z.1,z.2.2)) (h.actor a)
      rwa [Option.map_map,Option.map_map] at this
  refine ⟨hs.awaits.view (fun x y hxy => ?_) h,hs.same.trans hports,fun p y q hB hy hq => ?_⟩
  · simp only [ofActor,Prod.mk.injEq] at hxy
    exact ⟨hxy.1,hxy.2.1⟩
  · obtain ⟨x,hx,hxy⟩ := h.port_before hy
    simp only [ofPort,Prod.mk.injEq] at hxy
    exact hs.peers p x q hB hx (hxy.2.trans hq)

theorem quiet (s t : Node) (h : SameView ofPort ofActor s t) (_ : SameTunnels s t)
    (hs : Sparing s₀ B s) : Sparing s₀ B t := hs.view h

theorem graph (s t : Node) (h : SameGraph s t) (hs : Sparing s₀ B s) : Sparing s₀ B t :=
  hs.view (h.sameView _ _)

theorem peerFor_eq (hs : Sparing s₀ B s) (p : Ref) : s.peerFor p=s₀.peerFor p :=
  Atom.peerFor_view (fun _ _ h => (Prod.mk.injEq .. ▸ h).2) hs.same p

/-- The actor of a port that was loaded is loaded. -/
theorem loaded {p : Ref} {x : Port} {y : Actor} (hs : Sparing s₀ B s) (hp : s₀.PortLoaded p)
    (hx : s.portMem.get p=some x) (hy : s.actorMem.get x.actor=some y) : y.loaded=true := by
  obtain ⟨x₀,hx₀,hfixed⟩ := hs.same.port_before hx
  obtain ⟨y₀,hy₀,hshape⟩ := hs.same.actor_before hy
  have hactor : x₀.actor=x.actor := congrArg (fun z => z.2.2.2.2) hfixed
  simp only [Prod.mk.injEq] at hshape
  rw [← hshape.1]
  exact hp x₀ hx₀ y₀ (hactor ▸ hy₀)

end Sparing

namespace Atom

variable {s₀ : Node} {B : Ref → Prop}

open Sparing (quiet graph)

theorem setState_sparing {p : Ref} (hp : s₀.PortLoaded p) (state : PortState) :
    Preserves (Sparing s₀ B) (portSetState p state) := by
  intro s u t h hs
  obtain ⟨x,y,actorState,hx,hy,rfl⟩ := portSetState_eq h
  have hloaded := hs.loaded hp hx hy
  have hport := ensures_setPort (@quiet s₀ B) (p := p) (x := x) (y := {x with
    state := state
    retries := if state=.enabled && x.state ≠ .enabled then 0 else x.retries}) rfl s () _ rfl
    ⟨hs,hx⟩
  refine ⟨hport.awaits.setActor hy fun hl => ?_,hport.same.trans ?_,hport.peers⟩
  · rw [hloaded] at hl
    cases hl
  · refine ⟨rfl,fun _ => rfl,fun a => ?_,rfl,Heap.next_set _ _ _,trivial⟩
    change ((s.actorMem.set x.actor {y with state := actorState}).get a).map _=_
    rw [Heap.get_set hy]
    split
    · next ha =>
      subst a
      rw [hy]
      rfl
    · rfl

/-- A port that changes keeps what is fixed and gets no peer but a loaded one. -/
theorem updatePort_sparing {p : Ref} {k : Port → Port} (hfixed : ∀ x, fixedPart (k x)=fixedPart x)
    (hpeer : ∀ x q, (k x).peerPort=some q → s₀.PortLoaded q) :
    Preserves (Sparing s₀ B) (updatePort p k) := by
  intro s u t h hs
  obtain ⟨x,hx,rfl⟩ := updatePort_eq h
  refine ⟨hs.awaits,hs.same.trans ⟨rfl,fun r => ?_,fun _ => rfl,Heap.next_set _ _ _,rfl,
    trivial⟩,fun r y q hB hy hq => ?_⟩
  · change ((s.portMem.set p (k x)).get r).map fixedPart=_
    rw [Heap.get_set hx]
    split
    · next hr =>
      subst r
      rw [hx,Option.map_some,Option.map_some,hfixed]
    · rfl
  · change (s.portMem.set p (k x)).get r=some y at hy
    rw [Heap.get_set hx] at hy
    split at hy
    · cases hy
      exact hpeer x q hq
    · exact hs.peers r y q hB hy hq

theorem sparing_rules : PeerRules s₀.PortLoaded (Sparing s₀ B) := by
  constructor
  · intro p hp
    constructor
    · exact graph
    · exact setState_sparing hp
    · exact fun _ => preserves_updatePort quiet p fun _ => rfl
    · exact fun _ => preserves_updatePort quiet p fun _ => rfl
    · exact preserves_portFifoCancel quiet (fun _ _ => rfl) p
  · intro p q id _ hq
    refine updatePort_sparing (fun _ => rfl) fun x r hr => ?_
    cases hr
    exact hq
  · exact fun p _ => updatePort_sparing (fun _ => rfl) fun x r hr => (by cases hr)

theorem detach_sparing (p : Ref) : Preserves (Sparing s₀ B) (portDetach p) := by
  refine preserves_bind (preserves_port p) fun x => ?_
  split
  · exact preserves_pure _
  · exact preserves_bind (preserves_tunnelRemoveRef graph _) fun _ =>
      preserves_updatePort quiet p fun _ => rfl

theorem actorSetState_sparing {a : Ref} (ha : s₀.ActorLoaded a) (state : ActorState) :
    Preserves (Sparing s₀ B) (actorSetState a state) := by
  intro s u t h hs
  obtain ⟨y,v,hread,h₁⟩ := bind_eq_some.mp h
  obtain ⟨hy,rfl⟩ := actor_eq_some hread
  cases h₁
  obtain ⟨y₀,hy₀,hshape⟩ := hs.same.actor_before hy
  simp only [Prod.mk.injEq] at hshape
  refine ⟨hs.awaits.setActor hy fun hl => ?_,hs.same.trans ?_,hs.peers⟩
  · have hl : y.loaded=false := hl
    rw [← hshape.1,ha y₀ hy₀] at hl
    cases hl
  · refine ⟨rfl,fun _ => rfl,fun b => ?_,rfl,Heap.next_set _ _ _,trivial⟩
    change ((v.actorMem.set a {y with state := state}).get b).map _=_
    rw [Heap.get_set hy]
    split
    · next hb =>
      subst b
      rw [hy]
      rfl
    · rfl

theorem actorDisconnect_sparing {a : Ref} (unrefTunnel : Bool) (ha : s₀.ActorLoaded a)
    (hports : ∀ p ∈ s₀.portsOf a, s₀.PortLoaded p ∧ B p) :
    Preserves (Sparing s₀ B) (actorDisconnect a unrefTunnel) := by
  refine preserves_bind ?_ fun _ => actorSetState_sparing ha _
  intro s u t h hs
  obtain ⟨y,v,hread,h₁⟩ := bind_eq_some.mp h
  obtain ⟨hy,rfl⟩ := actor_eq_some hread
  obtain ⟨y₀,hy₀,hshape⟩ := hs.same.actor_before hy
  simp only [Prod.mk.injEq] at hshape
  have hof : ∀ p ∈ y.ports, s₀.PortLoaded p ∧ B p := by
    intro p hp
    refine hports p ?_
    rwa [Node.portsOf,hy₀,Option.elim_some,hshape.2]
  exact sparing_rules.disconnectEach unrefTunnel (fun p hp => (hof p hp).1)
    (fun w p x q hp hw => hw.peers p x q (hof p hp).2) v u t h₁ hs

theorem forgetProxy_awaits {s t : Node} (hok : SparesUnloaded .forgetProxy s)
    (h : nodeForgetProxy s=some ((),t)) (hs : s.AwaitsImpl) : t.AwaitsImpl := by
  have hports : ∀ p ∈ s.listedPorts, s.PortLoaded p :=
    fun p hp => hok.1 p (List.mem_append.mpr (.inl hp))
  have hstart : Sparing s (· ∈ s.listedPorts) s := .start hs fun p x q hp hx hq =>
    hok.1 q (List.mem_append.mpr (.inr (s.peersOf_mem hp hx hq)))
  have hactor : ∀ a ∈ s.actors, Preserves (Sparing s (· ∈ s.listedPorts)) (actorDisconnect a false) := by
    intro a ha
    refine actorDisconnect_sparing false (hok.2 a ha) fun p hp => ?_
    have hp : p ∈ s.listedPorts := List.mem_flatMap.mpr ⟨a,ha,hp⟩
    exact ⟨hports p hp,hp⟩
  have heach : ∀ as : List Ref, (∀ a ∈ as, a ∈ s.actors) →
      Preserves (Sparing s (· ∈ s.listedPorts)) (actorDisconnectEach false as) := by
    intro as has
    induction as with
    | nil => exact preserves_pure _
    | cons a as ih =>
      exact preserves_bind (hactor a (has a (by simp))) fun _ => ih fun b hb => has b (by simp [hb])
  have hall : Preserves (Sparing s (· ∈ s.listedPorts)) nodeForgetProxy := by
    refine preserves_bind preserves_get fun _ => preserves_bind (preserves_tunnelFreeAll graph _)
      fun _ => preserves_bind (preserves_modify fun v hv => graph v _ ⟨rfl,rfl,rfl,.refl⟩ hv) fun _ =>
        preserves_bind preserves_get fun _ => preserves_bind (preserves_linkFreeAll graph _)
          fun _ => preserves_bind (preserves_modify fun v hv => graph v _ ⟨rfl,rfl,rfl,.refl⟩ hv) fun _ =>
            ensures_bind (ensures_get (Q := fun v w => Sparing s (· ∈ s.listedPorts) w ∧
              v.actors=s.actors) fun v hv => ⟨hv,hv.same.actors⟩) fun v => ?_
    refine ensures_given fun hv => ?_
    rw [hv]
    exact heach s.actors fun _ h => h
  exact (hall s () t h hstart).awaits

theorem actorFree_awaits (a : Ref) (removeFromRegistry : Bool) :
    Preserves Node.AwaitsImpl (actorFree a removeFromRegistry) := by
  intro s u t h hs
  obtain ⟨v,w,x,host,hview,-,-,hfree,rfl⟩ := actorFree_eq h
  have hcore : ∀ y z : Actor, y.core=z.core → y.loaded=z.loaded ∧ y.state=z.state := by
    intro y z hyz
    have := Actor.shape_of_core hyz
    simp only [Actor.shape,Prod.mk.injEq] at this
    exact ⟨this.1,this.2.1⟩
  have hw : w.AwaitsImpl := (hs.view hcore hview).of_actorMem (freePorts_ports hfree).1
  exact hw.free

theorem setActor_awaits {a : Ref} {x y : Actor}
    (h : (x.loaded=false → x.state=.pendingImpl) → y.loaded=false → y.state=.pendingImpl) :
    Ensures (fun s => s.AwaitsImpl ∧ s.actorMem.get a=some x) (setActor a y) fun _ =>
      Node.AwaitsImpl := by
  rintro s u t hr ⟨hs,hx⟩
  cases hr
  exact hs.setActor hx (h (hs a x hx))

theorem newActor_awaits (type : Text) : Preserves Node.AwaitsImpl (actorCreateFromType type) := by
  refine preserves_actorCreateFromType (fun v h _ hv => hv.of_actorMem rfl)
    (fun name state loaded i himpl s a t h hs => ?_) type
  cases h
  refine hs.alloc fun hl => ?_
  rcases himpl with ⟨htrue,-⟩ | ⟨-,hstate⟩
  · cases htrue.symm.trans hl
  · exact hstate

/-- A saved state that a port takes over. -/
theorem takeState_awaits {p : Ref} {value : UInt32} {n : Nat} {s t : Node}
    (hok : ∀ q ∈ s.restores p value n, s.PortLoaded q) (h : portTakeState p value n s=some ((),t))
    (hs : s.AwaitsImpl) : t.AwaitsImpl := by
  obtain ⟨x,u,hx,rfl,hcase⟩ := portTakeState_cases h
  have hu := ensures_setPort (@quiet s fun _ => False) (p := p) (x := x)
    (y := {x with state := .ofUInt32 value}) rfl s () _ rfl ⟨.start hs fun _ _ _ h => h.elim,hx⟩
  obtain ⟨-,rfl | ⟨r,hattach⟩⟩ | ⟨q,hsets,-,hjoin⟩ | ⟨hsets,-,hset⟩ := hcase
  · exact hu.awaits
  · have hattached : Preserves (Sparing s fun _ => False)
        (updatePort p (fun y => {y with tunnel := some r}) >>= fun _ => tunnelAddRef r) :=
      preserves_bind (preserves_updatePort quiet p fun _ => rfl) fun _ =>
        preserves_tunnelAddRef graph r
    exact (hattached _ () t hattach hu).awaits
  · rw [hsets] at hok
    exact (sparing_rules.portJoin (hok p (by simp)) (hok q (by simp)) _ () t hjoin hu).awaits
  · rw [hsets] at hok
    exact (setState_sparing (hok p (by simp)) _ _ () t hset hu).awaits

end Atom

section Run

variable (mp : Msgpuck)

open Atom

theorem base_awaits {op : Op} {s t : Node} (hok : SparesUnloaded (.base op) s)
    (hs : op.apply mp s=some t) (hp : s.AwaitsImpl) : t.AwaitsImpl := by
  have hstart : Sparing s (· ∈ op.parts s) s :=
    .start hp fun p x q hpart hx hq => hok.1 q (Op.sets_of_parts hpart hx hq)
  cases hquiet : op.quiet with
  | true =>
    refine (Op.quiet_preserves (f := Sparing.ofPort) (g := Sparing.ofActor) hquiet
      (fun _ _ h => Sparing.view h) (fun _ _ => trivial) ?_ ?_ hs hstart).awaits
    · exact fun _ _ _ _ => rfl
    · intro x y hxy
      simp only [Actor.shape,Prod.mk.injEq] at hxy
      rw [Sparing.ofActor,Sparing.ofActor,Actor.ports,Actor.ports,hxy.1,hxy.2.1,hxy.2.2.1,hxy.2.2.2]
  | false =>
    by_cases hfree : ∃ a b, op=.freeActor a b
    · obtain ⟨a,b,rfl⟩ := hfree
      refine preserves_state hs (preserves_bind preserves_get fun v => ?_) hp
      dsimp only
      split
      · exact preserves_bind preserves_undefined fun _ => actorFree_awaits a b
      · exact actorFree_awaits a b
    by_cases hactor : ∃ a, op=.disconnectActor a
    · obtain ⟨a,rfl⟩ := hactor
      have hports : ∀ p ∈ s.portsOf a, s.PortLoaded p ∧ p ∈ (Op.disconnectActor a).parts s :=
        fun p hmem => ⟨hok.1 p (List.mem_append.mpr (.inl hmem)),hmem⟩
      exact (preserves_state hs (actorDisconnect_sparing true (hok.2 a (List.mem_singleton_self a))
        hports) hstart).awaits
    · have hlocal : ∀ u p q, Sparing s (· ∈ op.parts s) u → op=.connectLocal p →
          u.peerFor p=some q → s.PortLoaded p ∧ s.PortLoaded q := by
        rintro u p q hu rfl hq
        rw [hu.peerFor_eq] at hq
        exact ⟨hok.1 p (by simp [TopOp.sets,Op.sets,hq]),hok.1 q (by simp [TopOp.sets,Op.sets,hq])⟩
      have hkeep := Op.sets_preserves sparing_rules detach_sparing Sparing.graph hlocal
        (fun u p x q hu hpart hx hq => hu.peers p x q hpart hx hq) hok.1 hquiet
        (fun a b he => hfree ⟨a,b,he⟩) (fun a he => hactor ⟨a,he⟩) hs hstart
      exact hkeep.awaits

/-- An admissible step leaves an actor without implementation as it is. -/
theorem step_awaits {o : TopOp} {s t : Node} (hok : SparesUnloaded o s)
    (hs : o.apply mp s=some t) (hp : s.AwaitsImpl) : t.AwaitsImpl := by
  have hmem : ∀ v w : Node, w.actors=v.actors → w.actorMem=v.actorMem → True → v.AwaitsImpl →
      w.AwaitsImpl := fun _ _ _ h _ hv => hv.of_actorMem h
  have hh : ∀ (v : Node) (h : Host), v.host.Moves h → v.AwaitsImpl →
      Node.AwaitsImpl {v with host := h} := fun v h _ hv => hv.of_actorMem rfl
  cases o with
  | base op => exact base_awaits mp hok hs hp
  | build a o =>
    cases o with
    | base op => exact @base_awaits mp op s t hok hs hp
    | createPort direction d =>
      exact preserves_state hs (preserves_portNew (M := fun _ _ => True) hmem mp a direction d) hp
    | takeState p value n =>
      obtain ⟨⟨⟨⟩,t'⟩,hr,he⟩ := Option.map_eq_some_iff.mp hs
      cases he
      exact takeState_awaits hok.1 hr hp
    | freePort p => exact preserves_state hs (preserves_portFree (M := fun _ _ => True) hmem false p) hp
    | linkPort direction p =>
      refine preserves_state hs (preserves_bind (preserves_alloc hh) fun b => ?_) hp
      split
      · exact preserves_pure _
      exact ensures_bind (ensures_actor a) fun x =>
        ensures_bind (setActor_awaits fun hx => by cases direction <;> exact hx) fun _ => preserves_pure _
  | newActor type => exact preserves_state hs (newActor_awaits type) hp
  | addActor a =>
    refine preserves_state hs (preserves_bind (preserves_alloc hh) fun b => ?_) hp
    split
    · exact preserves_pure _
    · exact preserves_bind (preserves_modify fun v hv => hv.of_actorMem rfl) fun _ => preserves_pure _
  | freeNew a => exact preserves_state hs (actorFree_awaits a false) hp
  | connectPorts a =>
    cases hs
    exact hp
  | assign a state =>
    have hstart : Sparing s (fun _ => False) s := .start hp fun _ _ _ h => h.elim
    have ha : s.ActorLoaded a := hok.2 a (List.mem_singleton_self a)
    exact (preserves_state hs (actorSetState_sparing ha state) hstart).awaits
  | load a =>
    refine preserves_state hs (preserves_bind (preserves_effect hh) fun e => ?_) hp
    split
    · exact ensures_bind (ensures_actor a) fun x =>
        ensures_bind (setActor_awaits fun _ h => by cases h) fun _ => preserves_pure _
    · exact preserves_pure _
  | loadFailed a =>
    cases hs
    exact hp
  | forgetProxy =>
    obtain ⟨⟨⟨⟩,t'⟩,hr,he⟩ := Option.map_eq_some_iff.mp hs
    cases he
    exact forgetProxy_awaits hok hr hp
  | popActor =>
    refine preserves_state hs (preserves_bind preserves_get fun v => ?_) hp
    split
    · exact preserves_pure _
    · exact preserves_bind (preserves_modify fun v hv => hv.of_actorMem rfl) fun _ =>
        actorFree_awaits _ true

/-- The scheduler does not fire an actor that is not enabled. -/
theorem fireActor_skips {s : Node} {a : Ref} {x : Actor} (hx : s.actorMem.get a=some x)
    (hstate : x.state ≠ .enabled) :
    (Flow.fireActor mp a).run s=(Prog.each (Flow.portTransmit mp) x.ports).run s := by
  have hread : Atom.actor a s=some (x,s) := by rw [Atom.actor,hx,Option.map_some]
  refine (Prog.run_bind_of_quiet (Prog.run_look hread)).trans ?_
  dsimp only
  rw [if_neg hstate]

/-- While its implementation is missing an actor stays marked, the scheduler does not fire
it, and `cc_actor_create` calls neither `init` nor `set_state`. The state `u` is reached by
events and by any number of operations of a further one. -/
theorem unloaded_actor_never_runs {h : Host} {es : List (Event × Fate)} {ops : List TopOp}
    {s u : Node}
    (hr : Runs (Event.step mp) (Event.Admissible mp SparesUnloaded) (.init h) es s)
    (hops : Runs (TopOp.apply mp) SparesUnloaded s ops u) {a : Ref} {x : Actor}
    (hx : u.actorMem.get a=some x) (hloaded : x.loaded=false) :
    x.state=.pendingImpl ∧
    (Flow.fireActor mp a).run u=(Prog.each (Flow.portTransmit mp) x.ports).run u ∧
    (Build.actorBegin mp a x).run u=some (true,u,[]) := by
  have hinit : (Node.init h).AwaitsImpl := fun b y hy => absurd hy (by simp [Node.init])
  have hs := Event.runs_invariant mp (fun _ _ _ => step_awaits mp) hr hinit
  have hu := hops.invariant Node.AwaitsImpl (fun _ _ _ => step_awaits mp) hs
  have hstate := hu a x hx hloaded
  refine ⟨hstate,fireActor_skips mp hx (by simp [hstate]),?_⟩
  rw [Build.actorBegin,if_pos hstate]
  rfl

end Run

section Examples

instance (s : Node) (a : Ref) : Decidable (s.ActorLoaded a) :=
  inferInstanceAs (Decidable (∀ x, s.actorMem.get a=some x → x.loaded=true))

instance (s : Node) (p : Ref) : Decidable (s.PortLoaded p) :=
  inferInstanceAs (Decidable (∀ x, s.portMem.get p=some x → s.ActorLoaded x.actor))

instance (o : TopOp) (s : Node) : Decidable (SparesUnloaded o s) :=
  inferInstanceAs (Decidable ((∀ p ∈ o.sets s, s.PortLoaded p) ∧ ∀ a ∈ o.assigns s, s.ActorLoaded a))

def pythonHost : Host := {bareHost with usePython := true}

/-- An actor whose module is requested, and an actor that waits for another node. -/
def strangers : List (Event × Fate) :=
  joining++[
    (.actorCreate (Message.actor "u" "a" [] [⟨"p",none,"q",none⟩]),.fine),
    (.actorCreate (Message.actor "t" "b" [⟨"r",none,"z",none⟩] []),.fine),
    (.schedule,.fine)]

theorem unloaded_actor_never_runs_stranger :
    ∃ s x, Runs (Event.step msgpack) (Event.Admissible msgpack SparesUnloaded) (.init pythonHost)
      strangers s ∧ s.actorMem.get 0=some x ∧ x.loaded=false ∧ x.state=.pendingImpl := by
  have hrun : (Event.runAll (Event.stepChecked msgpack SparesUnloaded) strangers
      (.init pythonHost)).any (fun t => (t.actorMem.get 0).any fun x => !x.loaded)=true := by
    decide +kernel
  obtain ⟨s,hs,hany⟩ := exists_of_any hrun
  have hr := Event.runs_of_stepChecked msgpack hs
  obtain ⟨x,hx,hloaded⟩ := exists_of_any hany
  have hloaded : x.loaded=false := by simpa using hloaded
  exact ⟨s,x,hr,hx,hloaded,(unloaded_actor_never_runs msgpack hr (.nil s) hx hloaded).1⟩

/-- An actor whose module is requested, and its local peer. -/
def localPeers : List (Event × Fate) :=
  joining++[
    (.actorCreate (Message.actor "u" "a" [] [⟨"p",none,"q",none⟩]),.fine),
    (.actorCreate (Message.actor "t" "b" [⟨"q",none,"p",none⟩] []),.fine)]

/-- The local peer enables an actor whose callbacks are missing, and the next scheduler pass
calls one of them. -/
theorem unloaded_actor_fired :
    ∃ t x, Runs (Event.step msgpack) (fun _ _ => True) (.init pythonHost) localPeers t ∧
      t.actorMem.get 0=some x ∧ x.loaded=false ∧ x.state=.enabled ∧
      Event.step msgpack (.schedule,.fine) t=none := by
  have hrun : (Event.runAll (Event.step msgpack) localPeers (.init pythonHost)).any (fun t =>
      ((t.actorMem.get 0).any fun x => !x.loaded && decide (x.state=.enabled)) &&
        (Event.step msgpack (.schedule,.fine) t).isNone)=true := by decide +kernel
  obtain ⟨t,ht,hend⟩ := exists_of_any hrun
  rw [Bool.and_eq_true] at hend
  obtain ⟨x,hx,hstate⟩ := exists_of_any hend.1
  simp only [Bool.and_eq_true,Bool.not_eq_true',decide_eq_true_eq] at hstate
  exact ⟨t,x,Event.runs_of_step msgpack ht,hx,hstate.1,hstate.2,Option.isNone_iff_eq_none.mp hend.2⟩

end Examples

end CalvinConstrained
