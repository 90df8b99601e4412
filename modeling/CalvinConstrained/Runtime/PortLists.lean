import CalvinConstrained.Runtime.Message
import CalvinConstrained.Runtime.Ownership

namespace CalvinConstrained

/-- The ports in the lists of the actors are there, and so is the port `o` that is in no list. -/
structure PortsThere (o : Option Ref) (s : Node) : Prop where
  listed : ∀ a x, s.actorMem.get a=some x → ∀ p ∈ x.ports, ∃ y, s.portMem.get p=some y
  fresh : ∀ p, o=some p → ∃ y, s.portMem.get p=some y

namespace PortsThere

variable {mp : Msgpuck} {e o : Option Ref} {s t : Node}

open Atom

theorem view {β : Type} {f : Port → β} (h : SameView f Actor.ports s t) (hs : PortsThere o s) :
    PortsThere o t := by
  have hport : ∀ p, (∃ y, s.portMem.get p=some y) → ∃ y, t.portMem.get p=some y := by
    rintro p ⟨y,hy⟩
    have hp := h.port p
    rw [hy,Option.map_some] at hp
    obtain ⟨z,hz,-⟩ := Option.map_eq_some_iff.mp hp
    exact ⟨z,hz⟩
  refine ⟨fun a x hx p hp => ?_,fun p hp => hport p (hs.fresh p hp)⟩
  obtain ⟨x',hx',hports⟩ := h.actor_before hx
  rw [← hports] at hp
  exact hport p (hs.listed a x' hx' p hp)

theorem quiet (s t : Node) (h : SameView (fun _ : Port => ()) Actor.ports s t)
    (_ : SameTunnels s t) (hs : PortsThere o s) : PortsThere o t := view h hs

theorem rules : PeerRules (fun _ => True) (PortsThere o) :=
  fixed_rules (g := Actor.ports) (fun _ _ h => view h) fun _ _ => rfl

theorem ports_of_core (x y : Actor) (h : x.core=y.core) : x.ports=y.ports := by
  have hshape := Actor.shape_of_core h
  simp only [Actor.shape,Prod.mk.injEq] at hshape
  rw [Actor.ports,Actor.ports,hshape.2.2.1,hshape.2.2.2]

theorem ports_of_shape (x y : Actor) (h : x.shape=y.shape) : x.ports=y.ports := by
  simp only [Actor.shape,Prod.mk.injEq] at h
  rw [Actor.ports,Actor.ports,h.2.2.1,h.2.2.2]

theorem coarse {s t : Node} (h : SameView apartFromFifo Actor.core s t) :
    SameView (fun _ : Port => ()) Actor.ports s t :=
  h.coarsen (fun _ _ _ => rfl) ports_of_core

/-- Freeing an actor frees its own ports and no other. -/
theorem actorFree {a : Ref} {removeFromRegistry : Bool} (howned : Owned e o s)
    (hs : PortsThere o s) (h : actorFree a removeFromRegistry s=some ((),t)) : PortsThere o t := by
  obtain ⟨u,v,x,host,hview,-,hx,hfree,rfl⟩ := actorFree_eq h
  obtain ⟨hactors,-,-,hget⟩ := freePorts_ports hfree
  obtain ⟨x₀,hx₀,hports⟩ := (coarse hview).actor_before hx
  have hu := view (coarse hview) hs
  refine ⟨fun b y hy p hp => ?_,fun p hp => ?_⟩
  · change (v.actorMem.free a).get b=some y at hy
    rw [Heap.get_free] at hy
    split at hy
    · cases hy
    next hba =>
    rw [hactors] at hy
    obtain ⟨y₀,hy₀,hsame⟩ := (coarse hview).actor_before hy
    have hout : p ∉ x.ports := by
      intro hpx
      rw [← hsame] at hp
      rw [← hports] at hpx
      obtain ⟨z,hz⟩ := hs.listed b y₀ hy₀ p hp
      exact hba (howned.disjoint hy₀ hx₀ hp hpx hz)
    obtain ⟨z,hz⟩ := hu.listed b y hy p hp
    exact ⟨z,by rw [hget,if_neg hout,hz]⟩
  · obtain ⟨z,hz⟩ := hu.fresh p hp
    have hout : p ∉ x.ports := hports ▸ (howned.unlinked p hp).2.1 a x₀ hx₀
    exact ⟨z,by rw [hget,if_neg hout,hz]⟩

theorem setActorState (a : Ref) (state : ActorState) :
    Preserves (PortsThere o) (actorSetState a state) :=
  ensures_bind (ensures_actor a) fun _ => ensures_setActor quiet rfl

theorem actorDisconnect (a : Ref) (unrefTunnel : Bool) :
    Preserves (PortsThere o) (actorDisconnect a unrefTunnel) := by
  exact preserves_bind (preserves_bind (preserves_actor a) fun x =>
    rules.disconnectEach unrefTunnel (fun _ _ => trivial) fun _ _ _ _ _ _ _ _ => trivial)
      fun _ => setActorState a _

theorem forgetProxy : Preserves (PortsThere o) nodeForgetProxy := by
  have hgraph : ∀ s t, SameGraph s t → PortsThere o s → PortsThere o t := fun s t h =>
    view (h.sameView (fun x : Port => x) Actor.ports)
  have hmodify : ∀ f : Node → Node, (∀ v, SameGraph v (f v)) → Preserves (PortsThere o) (modify f) :=
    fun f hf => preserves_modify fun v hv => hgraph v _ (hf v) hv
  have hall : ∀ as, Preserves (PortsThere o) (actorDisconnectEach false as) := by
    intro as
    induction as with
    | nil => exact preserves_pure _
    | cons a as ih => exact preserves_bind (actorDisconnect a false) fun _ => ih
  exact preserves_bind preserves_get fun _ =>
    preserves_bind (preserves_tunnelFreeAll hgraph _) fun _ =>
      preserves_bind (hmodify _ fun _ => ⟨rfl,rfl,rfl,.refl⟩) fun _ => preserves_bind preserves_get fun _ =>
        preserves_bind (preserves_linkFreeAll hgraph _) fun _ =>
          preserves_bind (hmodify _ fun _ => ⟨rfl,rfl,rfl,.refl⟩) fun _ => preserves_bind preserves_get fun _ =>
            hall _

theorem base {op : Op} (howned : Owned e o s) (hs : op.apply mp s=some t) (hp : PortsThere o s) :
    PortsThere o t := by
  cases hquiet : op.quiet with
  | true =>
    exact Op.quiet_preserves (f := fun _ : Port => ()) (g := Actor.ports) hquiet
      (fun _ _ h => view h) (fun _ _ => trivial) (fun _ _ _ _ => rfl) ports_of_shape hs hp
  | false =>
    by_cases hfree : ∃ a b, op=.freeActor a b
    · obtain ⟨a,b,rfl⟩ := hfree
      obtain ⟨⟨_,u⟩,hr,he⟩ := Option.map_eq_some_iff.mp hs
      cases he
      obtain ⟨v,w,hv,hr⟩ := bind_eq_some.mp hr
      cases hv
      dsimp only at hr
      split at hr
      · obtain ⟨_,_,hu,-⟩ := bind_eq_some.mp hr
        cases hu
      · exact actorFree howned hp hr
    by_cases hactor : ∃ a, op=.disconnectActor a
    · obtain ⟨a,rfl⟩ := hactor
      exact preserves_state hs (actorDisconnect a true) hp
    · exact Op.sets_preserves (s := s) rules (fun p => (rules.port p trivial).detach)
        (P := PortsThere o) (fun s t h => view (h.sameView (fun x : Port => x) Actor.ports))
        (fun _ _ _ _ _ _ => ⟨trivial,trivial⟩) (fun _ _ _ _ _ _ _ _ => trivial) (fun _ _ => trivial) hquiet
        (fun a b he => hfree ⟨a,b,he⟩) (fun a he => hactor ⟨a,he⟩) hs hp

theorem actorAlloc {type : Bytes} {state : ActorState} {loaded : Bool}
    {instanceState : Option InstanceState} {s : Node} {a : Ref} {t : Node} (hs : PortsThere none s)
    (h : actorAlloc type state loaded instanceState s=some (a,t)) : PortsThere none t := by
  cases h
  refine ⟨fun b x hb p hp => ?_,fun p hp => by cases hp⟩
  change (s.actorMem.alloc _).get b=some x at hb
  rw [Heap.get_alloc] at hb
  split at hb
  · cases hb
    cases hp
  · exact hs.listed b x hb p hp

theorem newActor (type : Text) :
    Preserves (PortsThere none) (actorCreateFromType type) := by
  refine preserves_actorCreateFromType (view_host quiet) ?_ type
  intro name state loaded instanceState himpl s a t h hs
  exact actorAlloc hs h

theorem portFree {p : Ref} (hs : PortsThere o s)
    (hout : ∀ a x, s.actorMem.get a=some x → p ∉ x.ports)
    (h : portFree p false s=some ((),t)) : PortsThere none t := by
  obtain ⟨hactors,-,-,-,hget⟩ := portFree_ports h
  refine ⟨fun a x hx q hq => ?_,fun q hq => by cases hq⟩
  rw [hactors] at hx
  obtain ⟨y,hy⟩ := hs.listed a x hx q hq
  have hqp : q ≠ p := fun he => hout a x hx (he ▸ hq)
  exact ⟨y,by rw [hget,if_neg hqp,hy]⟩

end PortsThere

/-- Ports are in the list of their own actor alone, once, and what a list names is there. -/
def Listed (e o : Option Ref) (s : Node) : Prop := Owned e o s ∧ PortsThere o s

namespace Listed

variable {mp : Msgpuck} {e o : Option Ref} {s t : Node}

open Atom

theorem quiet (s t : Node) (h : SameView StateInv.ofPort Actor.shape s t) (_ : SameTunnels s t)
    (hs : Listed e o s) : Listed e o t :=
  ⟨StateInv.view h hs.1,PortsThere.view (f := fun _ : Port => ())
    (h.coarsen (fun _ _ _ => rfl) PortsThere.ports_of_shape) hs.2⟩

theorem freePort (a p : Ref) : Ensures (Listed (some a) (some p)) (portFree p false) fun _ =>
    Listed (some a) none :=
  fun s u t h hs => ⟨freePort_follows a p s u t h hs.1,hs.2.portFree (hs.1.unlinked p rfl).2.1 h⟩

theorem createPort (a : Ref) (direction : PortDirection) (d : PortDescription) :
    Ensures (Listed (some a) none) (portNew mp a direction d) fun r => Listed (some a) r := by
  refine ensures_bind (preserves_alloc (view_host quiet)) fun b => ?_
  split
  · exact ensures_pure fun _ h => h
  refine ensures_bind (Q := fun p => Listed (some a) (some p)) ?_ fun p => ?_
  · refine ensures_bind (preserves_ofOption _) fun id => ensures_bind (preserves_ofOption _)
      fun name => ensures_bind (preserves_ofOption _) fun peerPortId =>
        ensures_bind (preserves_textCopy _) fun peerId => ?_
    intro s p t h hs
    cases h
    refine ⟨hs.1.allocPort rfl,fun b x hx q hq => ?_,fun q hq => ?_⟩
    · obtain ⟨y,hy⟩ := hs.2.listed b x hx q hq
      exact ⟨y,by rwa [Heap.get_alloc,if_neg (Nat.ne_of_lt (Heap.lt_next hy))]⟩
    · cases hq
      exact ⟨_,by rw [Heap.get_alloc,if_pos rfl]⟩
  · refine ensures_bind (preserves_fifoInit (view_host quiet) mp _ _ _) fun f => ?_
    split
    · exact ensures_bind (freePort a p) fun _ => ensures_pure fun _ h => h
    · exact ensures_bind (preserves_updatePort quiet p fun _ => rfl) fun _ => ensures_pure fun _ h => h

theorem takeState (a p : Ref) (value : UInt32) (n : Nat) :
    Preserves (Listed (some a) (some p)) (portTakeState p value n) := by
  intro s u t h hs
  refine ⟨takeState_follows a p value n s u t h hs.1,?_⟩
  refine preserves_bind (P := PortsThere (some p)) ?_ (fun _ => preserves_bind (preserves_port p)
    fun x => ?_) s u t h hs.2
  · exact preserves_updatePort PortsThere.quiet p fun _ => rfl
  · split
    · exact PortsThere.rules.restore n trivial fun _ _ _ _ => trivial
    · exact preserves_pure _

theorem linkPort (a p : Ref) (direction : PortDirection) :
    Ensures (Listed (some a) (some p)) (portLink a direction p) fun _ => Listed (some a) none := by
  intro s b t h hs
  refine ⟨linkPort_follows a p direction s b t h hs.1,?_⟩
  obtain ⟨c,u,hc,h₁⟩ := bind_eq_some.mp h
  have hu : PortsThere (some p) u := preserves_alloc (view_host PortsThere.quiet) s c u hc hs.2
  cases c with
  | false =>
    cases h₁
    exact ⟨hu.listed,fun _ hq => by cases hq⟩
  | true =>
    obtain ⟨x,v,hread,h₂⟩ := bind_eq_some.mp h₁
    obtain ⟨hx,rfl⟩ := actor_eq_some hread
    cases h₂
    refine ⟨fun b y hy q hq => ?_,fun _ hq => by cases hq⟩
    change (v.actorMem.set a _).get b=some y at hy
    rw [Heap.get_set hx] at hy
    split at hy
    · cases hy
      have hmem : q ∈ x.ports ∨ q=p := by
        cases direction <;> simp [Actor.ports,Actor.withPort] at hq ⊢ <;> tauto
      rcases hmem with hmem | rfl
      · exact hu.listed a x hx q hmem
      · exact hu.fresh q rfl
    · exact hu.listed b y hy q hq

/-- Whatever a node does, what the lists of its actors name is there. -/
theorem steady : Steady mp (fun _ _ => True) Listed (Listed none none) where
  init := fun h => ⟨(@Owned.steady mp).init h,fun a x hx => absurd hx (by simp [Node.init]),
    fun _ hp => (by cases hp)⟩
  base := fun _ hs hp => ⟨Owned.base hs hp.1,hp.2.base hp.1 hs⟩
  newActor := fun _ hs hp =>
    ⟨(@Owned.steady mp).newActor trivial hs hp.1,PortsThere.newActor _ _ _ _ hs hp.2⟩
  createPort := fun _ hs hp => createPort _ _ _ _ _ _ hs hp
  takeState := fun _ hs hp => takeState _ _ _ _ _ _ _ hs hp
  freePort := fun _ hs hp => freePort _ _ _ _ _ hs hp
  linkPort := fun _ hs hp => linkPort _ _ _ _ _ _ hs hp
  addActor := by
    intro a s b t _ hs hp
    have howned := (@Owned.steady mp).addActor trivial hs hp.1
    obtain ⟨c,u,hc,hs⟩ := bind_eq_some.mp hs
    have hu : PortsThere none u := preserves_alloc (view_host PortsThere.quiet) s c u hc hp.2
    cases c with
    | false =>
      cases hs
      exact ⟨howned,hu⟩
    | true =>
      cases hs
      exact ⟨howned,hu.listed,hu.fresh⟩
  freeNew := fun _ hs hp =>
    ⟨(@Owned.steady mp).freeNew trivial hs hp.1,hp.2.actorFree hp.1 hs⟩
  assign := by
    intro a state s t hstate _ hs hp
    refine ⟨(@Owned.steady mp).assign hstate trivial hs hp.1,?_⟩
    exact PortsThere.setActorState a state s () t hs hp.2
  load := by
    intro a s b t _ hs hp
    refine ⟨(@Owned.steady mp).load trivial hs hp.1,?_⟩
    refine preserves_bind (P := PortsThere none) (preserves_effect (view_host PortsThere.quiet))
      (fun e => ?_) s b t hs hp.2
    split
    · exact ensures_bind (ensures_actor a) fun x =>
        ensures_bind (ensures_setActor PortsThere.quiet rfl) fun _ => preserves_pure _
    · exact preserves_pure _
  forgetProxy := fun _ hs hp =>
    ⟨(@Owned.steady mp).forgetProxy trivial hs hp.1,PortsThere.forgetProxy _ _ _ hs hp.2⟩
  reset := id
  pop := by
    intro s t _ hs hp
    refine ⟨(@Owned.steady mp).pop trivial hs hp.1,?_⟩
    obtain ⟨v,w,hv,hs⟩ := bind_eq_some.mp hs
    cases hv
    cases hl : s.actors with
    | nil =>
      simp only [hl] at hs
      cases hs
      exact hp.2
    | cons a rest =>
      simp only [hl] at hs
      obtain ⟨⟨⟩,w,hw,hs⟩ := bind_eq_some.mp hs
      cases hw
      have howned : Owned none none {s with actors := rest} :=
        StateInv.drop (by rw [hl]; exact List.sublist_cons_self a rest) hp.1
      exact PortsThere.actorFree howned ⟨hp.2.listed,hp.2.fresh⟩ hs
  emptied := fun hp _ => hp

/-- In every run, whatever fails in it, each port that an actor lists is allocated, belongs to that
actor, is listed once and by no other actor. -/
theorem port_lists_sound {h : Host} {es : List (Event × Fate)}
    (hr : Runs (Event.step mp) (fun _ _ => True) (.init h) es t) {a : Ref} {x : Actor}
    (hx : t.actorMem.get a=some x) :
    x.ports.Nodup ∧ ∀ p ∈ x.ports, (∃ y, t.portMem.get p=some y ∧ y.actor=a) ∧
      ∀ b z, t.actorMem.get b=some z → p ∈ z.ports → b=a := by
  have hall : ∀ e s, True → Event.Admissible mp (fun _ _ => True) e s :=
    fun e s _ u v ops hrun => (Event.run mp e).runs hrun
  obtain ⟨howned,hthere⟩ := (@steady mp).guarded.reachable (hr.mono hall)
  refine ⟨howned.nodup a x hx,fun p hp => ?_⟩
  obtain ⟨y,hy⟩ := hthere.listed a x hx p hp
  exact ⟨⟨y,hy,(howned.owner a x hx p hp).2 y hy⟩,
    fun b z hz hq => howned.disjoint hz hx hq hp hy⟩

/-- Two local peers, of which the first is freed. -/
def peerFreed : List (Event × Fate) :=
  joining++[
    (.actorCreate (Message.actor "t" "a" [] [⟨"p",none,"q",none⟩]),.fresh 10),
    (.actorCreate (Message.actor "t" "b" [⟨"q",none,"p",none⟩] []),.fresh 11),
    (.actorFree 0 true,.fresh 12)]

theorem port_lists_sound_freed :
    ∃ t x, Runs (Event.step msgpack) (fun _ _ => True) (.init bareHost) peerFreed t ∧
      t.actorMem.get 0=none ∧ t.portMem.get 0=none ∧ t.actorMem.get 1=some x ∧ x.ports=[1] ∧
      ∃ y, t.portMem.get 1=some y ∧ y.actor=1 := by
  have hrun : (Event.runAll (Event.step msgpack) peerFreed (.init bareHost)).any (fun t =>
      decide (t.actorMem.get 0=none ∧ t.portMem.get 0=none) &&
        (t.actorMem.get 1).any fun x => decide (x.ports=[1]))=true := by decide +kernel
  obtain ⟨t,ht,hend⟩ := exists_of_any hrun
  rw [Bool.and_eq_true] at hend
  obtain ⟨x,hx,hports⟩ := exists_of_any hend.2
  obtain ⟨hactor,hport⟩ := of_decide_eq_true hend.1
  have hports : x.ports=[1] := of_decide_eq_true hports
  have hr := Event.runs_of_step msgpack ht
  exact ⟨t,x,hr,hactor,hport,hx,hports,
    ((port_lists_sound hr hx).2 1 (by rw [hports]; exact List.mem_singleton_self 1)).1⟩

end Listed

end CalvinConstrained
