import CalvinConstrained.Runtime.ActorState
import CalvinConstrained.Runtime.Touch

namespace CalvinConstrained

/-- Ports are in the list of their own actor alone, and no list names what is not allocated.
The actor `e` is under construction, and its port `o` is in no list yet. -/
def Owned (e o : Option Ref) (s : Node) : Prop := StateInv (fun _ => True) e o s

namespace Owned

variable {mp : Msgpuck} {e o : Option Ref} {s t : Node}

open Atom

theorem of_stateInv {E : Ref → Prop} (h : StateInv E e o s) : Owned e o s :=
  h.mono fun _ _ => trivial

/-- A port is in one list at most. -/
theorem disjoint (h : Owned e o s) {a b p : Ref} {x y : Actor} {z : Port}
    (hx : s.actorMem.get a=some x) (hy : s.actorMem.get b=some y) (hp : p ∈ x.ports)
    (hq : p ∈ y.ports) (hz : s.portMem.get p=some z) : a=b := by
  rw [← (h.owner a x hx p hp).2 z hz,(h.owner b y hy p hq).2 z hz]

theorem setActorState {a : Ref} {state : ActorState} (hstate : e=some a → state ≠ .pendingImpl) :
    Preserves (Owned e o) (actorSetState a state) := by
  intro s u t h hs
  obtain ⟨x,v,hread,h₁⟩ := bind_eq_some.mp h
  obtain ⟨hx,rfl⟩ := actor_eq_some hread
  cases h₁
  exact StateInv.setState state hx hstate hs fun h => absurd trivial h

theorem disconnectActor (a : Ref) (unrefTunnel : Bool) :
    Preserves (Owned e o) (actorDisconnect a unrefTunnel) :=
  preserves_bind (preserves_bind (preserves_actor a) fun x =>
    stateInv_disconnectEach unrefTunnel x.ports) fun _ => setActorState fun _ => by decide

theorem disconnectActors (unrefTunnel : Bool) (as : List Ref) :
    Preserves (Owned e o) (actorDisconnectEach unrefTunnel as) := by
  induction as with
  | nil => exact preserves_pure _
  | cons a as ih => exact preserves_bind (disconnectActor a unrefTunnel) fun _ => ih

theorem forgetProxy : Preserves (Owned e o) nodeForgetProxy := by
  have hgraph := StateInv.graph (E := fun _ => True) (e := e) (o := o)
  have hmodify : ∀ f : Node → Node, (∀ v, SameGraph v (f v)) →
      Preserves (Owned e o) (modify f) :=
    fun f hf => preserves_modify fun v hv => hgraph v _ (hf v) hv
  exact preserves_bind preserves_get fun _ =>
    preserves_bind (preserves_tunnelFreeAll hgraph _) fun _ =>
      preserves_bind (hmodify _ fun _ => ⟨rfl,rfl,rfl,.refl⟩) fun _ => preserves_bind preserves_get fun _ =>
        preserves_bind (preserves_linkFreeAll hgraph _) fun _ =>
          preserves_bind (hmodify _ fun _ => ⟨rfl,rfl,rfl,.refl⟩) fun _ =>
            preserves_bind preserves_get fun _ => disconnectActors false _

theorem base {op : Op} (hs : op.apply mp s=some t) (hp : Owned e o s) : Owned e o t := by
  cases hquiet : op.quiet with
  | true =>
    exact Op.quiet_preserves (f := StateInv.ofPort) (g := Actor.shape) hquiet
      (fun _ _ h => StateInv.view h) (fun _ _ => trivial) (fun _ _ _ _ => rfl) (fun _ _ h => h) hs hp
  | false =>
    by_cases hfree : ∃ a b, op=.freeActor a b
    · obtain ⟨a,b,rfl⟩ := hfree
      refine preserves_state hs (preserves_bind preserves_get fun v => ?_) hp
      dsimp only
      split
      · exact preserves_bind preserves_undefined fun _ => actorFree_follows a b
      · exact actorFree_follows a b
    by_cases hactor : ∃ a, op=.disconnectActor a
    · obtain ⟨a,rfl⟩ := hactor
      exact preserves_state hs (disconnectActor a true) hp
    · exact Op.sets_preserves (s := s) stateInv_rules (fun p => (stateInv_port p).detach)
        StateInv.graph (P := fun u => Owned e o u)
        (fun _ _ _ _ _ _ => ⟨trivial,trivial⟩) (fun _ _ _ _ _ _ _ _ => trivial) (fun _ _ => trivial) hquiet
        (fun a b he => hfree ⟨a,b,he⟩) (fun a he => hactor ⟨a,he⟩) hs hp

/-- Whatever a node does, its ports stay with their actors. -/
theorem steady : Steady mp (fun _ _ => True) Owned (Owned none none) where
  init := fun h =>
    ⟨fun b x hb => absurd hb (by simp [Node.init]),fun b x hb => absurd hb (by simp [Node.init]),
      fun _ ha => (by cases ha),fun _ ha => (by cases ha),fun _ ha => (by cases ha),
      fun _ hp => (by cases hp)⟩
  base := fun _ hs hp => base hs hp
  newActor := fun _ hs hp => newActor_follows _ _ _ _ hs hp
  createPort := fun _ hs hp => createPort_follows mp _ _ _ _ _ _ hs hp
  takeState := fun _ hs hp => takeState_follows _ _ _ _ _ _ _ hs hp
  freePort := fun _ hs hp => freePort_follows _ _ _ _ _ hs hp
  linkPort := fun _ hs hp => linkPort_follows _ _ _ _ _ _ hs hp
  addActor := by
    intro a s b t _ hs hp
    obtain ⟨c,u,hc,hs⟩ := bind_eq_some.mp hs
    have hu : Owned (some a) none u := preserves_alloc (view_host StateInv.quiet) s c u hc hp
    cases c with
    | false =>
      cases hs
      exact hu
    | true =>
      cases hs
      exact of_stateInv hu.addActor
  freeNew := fun _ hs hp => (actorFree_follows _ false _ _ _ hs hp).forget
  assign := fun _ _ hs hp => setActorState (fun h => by cases h) _ _ _ hs hp
  load := fun _ hs hp => of_stateInv (load_follows _ _ _ _ hs hp)
  forgetProxy := fun _ hs hp => forgetProxy _ _ _ hs hp
  reset := id
  pop := fun _ hs hp => actorPop_follows _ _ _ hs hp
  emptied := fun hp _ => hp

end Owned

end CalvinConstrained
