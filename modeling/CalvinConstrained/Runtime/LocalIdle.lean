import CalvinConstrained.Runtime.Touch
import CalvinConstrained.Runtime.Message

namespace CalvinConstrained

/-- No token is handed out that is not released yet. -/
def Fifo.Idle {α : Type} (f : Fifo α) : Prop := f.tentativeReadPos=f.readPos

def Port.Idle (x : Port) : Prop := ∀ f, x.fifo=some f → f.Idle

/-- An out-port whose peer is on the same node. -/
def Port.localOut (x : Port) : Bool :=
  decide (x.direction=.dirOut) && x.peerPort.isSome && x.tunnel.isNone

namespace Node

def LocalOut (s : Node) (p : Ref) : Prop := (s.portMem.get p).any Port.localOut=true

/-- The port has nothing in flight, if it is an out-port. -/
def OutIdle (s : Node) (p : Ref) : Prop :=
  ∀ x, s.portMem.get p=some x → x.direction=.dirOut → x.Idle

/-- Local out-ports have nothing in flight, apart from those of `E`; the out-ports of `A`
have nothing in flight wherever their peer is. -/
def IdleApart (E A : Ref → Prop) (s : Node) : Prop :=
  ∀ p x, s.portMem.get p=some x → x.direction=.dirOut →
    (A p ∨ ¬E p ∧ x.localOut=true) → x.Idle

/-- The queues that a callback of the actor leaves behind. -/
def effectFifos (s : Node) (a : Ref) : List (Ref × Fifo Bytes) :=
  s.host.fate.effects.head?.elim [] fun e => (s.portsOf a).zip e.fifos

end Node

/-- The ports that an operation may leave with a local peer and without a tunnel. -/
def Op.localizes : Op → Node → List Ref
  | .connectLocal p,s => (s.peerFor p).elim [] fun q => [p,q]
  | .handleConnect p tunnelId,s =>
    if s.findsTunnel p tunnelId then [] else (s.peerOf p).elim [] fun _ => [p]
  | .dropTunnel p,s => (s.peerOf p).elim [] fun _ => [p]
  | _,_ => []

def TopOp.localizes : TopOp → Node → List Ref
  | .base o,s => o.localizes s
  | .build _ (.base o),s => o.localizes s
  | .build _ (.takeState p value peerIdLen),s =>
    match s.restores p value peerIdLen with
    | [p,q] => [p,q]
    | _ => []
  | _,_ => []

/-- The queues that a callback leaves behind. -/
def Op.written : Op → Node → List (Ref × Fifo Bytes)
  | .callback a,s => s.effectFifos a
  | .callbackIfSet a,s => if (s.actorMem.get a).any Actor.loaded then s.effectFifos a else []
  | .fire a,s => s.effectFifos a
  | _,_ => []

def TopOp.written : TopOp → Node → List (Ref × Fifo Bytes)
  | .base o,s => o.written s
  | .build _ (.base o),s => o.written s
  | _,_ => []

/-- The queue that the node itself changes. -/
def TopOp.moved : TopOp → List (Ref × Fifo Bytes)
  | .base (.setFifo p f) => [(p,f)]
  | .build _ (.base (.setFifo p f)) => [(p,f)]
  | _ => []

/-- A port becomes local with nothing in flight, and a callback does not read the queue of
a local out-port. -/
def SwitchesIdle (o : TopOp) (s : Node) : Prop :=
  (∀ p ∈ o.localizes s, s.OutIdle p) ∧ ∀ r ∈ o.written s, s.LocalOut r.1 → r.2.Idle

/-- A queue as a TOKEN or an ACK leaves it, or a NACK for the token at its read position. -/
def Fifo.Prompt (f g : Fifo Bytes) : Prop :=
  (∃ data sequencenbr, g=(f.comWrite data sequencenbr).2) ∨
  (∃ sequencenbr, g=f.comCommitRead sequencenbr) ∨ g=f.comCancelRead f.readPos

/-- What a step of an event may do. A message changes the queue of a local out-port by no NACK but
one for the read position, and a scheduler pass finds no read position at the end of its range. -/
def Event.KeepsIdle (e : Event) (o : TopOp) (s : Node) : Prop :=
  SwitchesIdle o s ∧ ∀ r ∈ o.moved, s.LocalOut r.1 →
    if e=.schedule then ∀ x, s.portMem.get r.1=some x → ∀ f, x.fifo=some f → f.readPos+1 ≠ 0
    else ∃ x f, s.portMem.get r.1=some x ∧ x.fifo=some f ∧ f.Prompt r.2

namespace Node.IdleApart

variable {E A : Ref → Prop} {s t : Node}

/-- The fields of a port that matter here. -/
def ofPort (x : Port) : PortDirection × Option Ref × Option Ref × Option (Fifo Bytes) :=
  (x.direction,x.peerPort,x.tunnel,x.fifo)

theorem localOut_of_ofPort {x y : Port} (h : ofPort x=ofPort y) : x.localOut=y.localOut := by
  simp only [ofPort,Prod.mk.injEq] at h
  rw [Port.localOut,Port.localOut,h.1,h.2.1,h.2.2.1]

theorem view {γ : Type} {g : Actor → γ} (h : SameView ofPort g s t) (hs : s.IdleApart E A) :
    t.IdleApart E A := by
  intro p y hy hout hcase f hf
  obtain ⟨x,hx,hxy⟩ := h.port_before hy
  rw [← localOut_of_ofPort hxy] at hcase
  simp only [ofPort,Prod.mk.injEq] at hxy
  exact hs p x hx (hxy.1.trans hout) hcase f (hxy.2.2.2.trans hf)

theorem quiet (s t : Node) (h : SameView ofPort (fun _ => ()) s t) (_ : SameTunnels s t)
    (hs : s.IdleApart E A) : t.IdleApart E A := hs.view h

theorem graph (s t : Node) (h : SameGraph s t) (hs : s.IdleApart E A) : t.IdleApart E A :=
  hs.view (h.sameView _ fun _ => ())

theorem mono {E' A' : Ref → Prop} (hE : ∀ p, E p → E' p) (hA : ∀ p, A' p → A p)
    (hs : s.IdleApart E A) : s.IdleApart E' A' := by
  intro p x hx hout hcase
  refine hs p x hx hout ?_
  rcases hcase with h | ⟨h,hlocal⟩
  · exact .inl (hA p h)
  · exact .inr ⟨fun he => h (hE p he),hlocal⟩

/-- What a port needs after a change of its own. -/
theorem setPort {p : Ref} {x y : Port} (hx : s.portMem.get p=some x)
    (hy : y.direction=.dirOut → (A p ∨ ¬E p ∧ y.localOut=true) → y.Idle)
    (hs : s.IdleApart E A) : Node.IdleApart E A {s with portMem := s.portMem.set p y} := by
  intro q z hz
  change (s.portMem.set p y).get q=some z at hz
  rw [Heap.get_set hx] at hz
  split at hz
  · next hq =>
    cases hz
    rw [hq]
    exact hy
  · exact hs q z hz

end Node.IdleApart

namespace Atom

variable {E A : Ref → Prop}

open Node.IdleApart (quiet graph)

theorem setState_idle (p : Ref) (state : PortState) :
    Preserves (Node.IdleApart E A) (portSetState p state) :=
  preserves_portSetState_view quiet (fun _ _ _ => rfl) (fun _ _ => rfl) p state

/-- A port that keeps its direction and its queue may change if it is exempt or idle
anyway. -/
theorem updatePort_idle {p : Ref} {k : Port → Port} (hp : E p ∨ A p)
    (hdir : ∀ x, (k x).direction=x.direction) (hfifo : ∀ x, (k x).fifo=x.fifo) :
    Preserves (Node.IdleApart E A) (updatePort p k) := by
  intro s u t h hs
  obtain ⟨x,hx,rfl⟩ := updatePort_eq h
  refine hs.setPort hx fun hout hcase f hf => ?_
  have hA : A p := by
    rcases hcase with hA | ⟨hE,-⟩
    · exact hA
    · exact hp.resolve_left hE
  exact hs p x hx ((hdir x).symm.trans hout) (.inl hA) f ((hfifo x).symm.trans hf)

/-- A port that gets a tunnel needs no exemption any longer. -/
theorem attach_idle (p r : Ref) :
    Ensures (Node.IdleApart (fun q => E q ∨ q=p) A)
      (updatePort p fun x => {x with tunnel := some r}) fun _ => Node.IdleApart E A := by
  intro s u t h hs q z hz hout hcase
  obtain ⟨x,hx,rfl⟩ := updatePort_eq h
  change (s.portMem.set p _).get q=some z at hz
  rw [Heap.get_set hx] at hz
  split at hz
  · next hq =>
    cases hz
    rcases hcase with hA | ⟨-,hlocal⟩
    · exact hs p x hx hout (.inl (hq ▸ hA))
    · simp [Port.localOut] at hlocal
  · next hq =>
    refine hs q z hz hout ?_
    rcases hcase with hA | ⟨hE,hlocal⟩
    · exact .inl hA
    · exact .inr ⟨fun he => he.elim hE hq,hlocal⟩

/-- A port whose reads are cancelled is idle from then on. -/
theorem fifoCancel_idle (p : Ref) :
    Ensures (Node.IdleApart E A) (portFifoCancel p) fun _ =>
      Node.IdleApart E fun q => A q ∨ q=p := by
  refine ensures_bind (ensures_port p) fun x => ?_
  split
  · exact fun s u t h => by cases h
  · next f hf =>
    rintro s u t h ⟨hs,hx⟩
    cases h
    intro q z hz hout hcase g hg
    change (s.portMem.set p _).get q=some z at hz
    rw [Heap.get_set hx] at hz
    split at hz
    · cases hz
      cases hg
      rfl
    · next hq =>
      refine hs q z hz hout ?_ g hg
      rcases hcase with (hA | rfl) | hlocal
      · exact .inl hA
      · exact absurd rfl hq
      · exact .inr hlocal

theorem idle_rules : PeerRules (fun p => E p ∨ A p) (Node.IdleApart E A) := by
  constructor
  · intro p hp
    constructor
    · exact graph
    · exact setState_idle p
    · exact fun _ => updatePort_idle hp (fun _ => rfl) fun _ => rfl
    · exact fun _ => preserves_updatePort quiet p fun _ => rfl
    · exact ensures_mono (fifoCancel_idle p) (fun _ h => h) fun _ _ h => h.mono (fun _ h => h) fun _ => .inl
  · exact fun p _ _ hp _ => updatePort_idle hp (fun _ => rfl) fun _ => rfl
  · exact fun p hp => updatePort_idle hp (fun _ => rfl) fun _ => rfl

theorem leavePeer_idle {p : Ref} (hp : E p ∨ A p) :
    Preserves (Node.IdleApart E A) (portLeavePeer p) := by
  refine preserves_bind (preserves_port p) fun x => ?_
  split
  · exact preserves_pure _
  · exact preserves_bind (setState_idle _ _) fun _ => idle_rules.clear p hp

theorem disconnect_idle (p : Ref) (unrefTunnel : Bool) :
    Preserves (Node.IdleApart E A) (portDisconnect p unrefTunnel) := by
  have hp : (E p ∨ p=p) ∨ A p := .inl (.inr rfl)
  have hcancel : Ensures (Node.IdleApart (fun q => E q ∨ q=p) A) (portFifoCancel p) fun _ =>
      Node.IdleApart E A := by
    refine ensures_mono (fifoCancel_idle p) (fun _ h => h) fun _ s hs q x hx hout hcase => ?_
    refine hs q x hx hout ?_
    rcases hcase with hA | ⟨hE,hlocal⟩
    · exact .inl (.inl hA)
    · by_cases hq : q=p
      · exact .inl (.inr hq)
      · exact .inr ⟨fun he => he.elim hE hq,hlocal⟩
  have hall : Ensures (Node.IdleApart (fun q => E q ∨ q=p) A) (portDisconnect p unrefTunnel)
      fun _ => Node.IdleApart E A :=
    ensures_bind ((idle_rules.port p hp).leaveTunnel unrefTunnel) fun _ =>
      ensures_bind (leavePeer_idle hp) fun _ =>
        ensures_bind (preserves_updatePort quiet p fun _ => rfl) fun _ =>
          ensures_bind (setState_idle p _) fun _ => hcancel
  exact ensures_mono hall (fun _ h => h.mono (fun _ => .inl) fun _ h => h) fun _ _ h => h

theorem disconnectEach_idle (unrefTunnel : Bool) (ps : List Ref) :
    Preserves (Node.IdleApart E A) (disconnectEach unrefTunnel ps) := by
  induction ps with
  | nil => exact preserves_pure _
  | cons p ps ih => exact preserves_bind (disconnect_idle p unrefTunnel) fun _ => ih

theorem actorSetState_idle (a : Ref) (state : ActorState) :
    Preserves (Node.IdleApart E A) (actorSetState a state) :=
  ensures_bind (ensures_actor a) fun _ => ensures_setActor quiet rfl

theorem actorDisconnect_idle (a : Ref) (unrefTunnel : Bool) :
    Preserves (Node.IdleApart E A) (actorDisconnect a unrefTunnel) :=
  preserves_bind (preserves_bind (preserves_actor a) fun x => disconnectEach_idle unrefTunnel x.ports)
    fun _ => actorSetState_idle a _

theorem actorDisconnectEach_idle (unrefTunnel : Bool) (as : List Ref) :
    Preserves (Node.IdleApart E A) (actorDisconnectEach unrefTunnel as) := by
  induction as with
  | nil => exact preserves_pure _
  | cons a as ih => exact preserves_bind (actorDisconnect_idle a unrefTunnel) fun _ => ih

theorem forgetProxy_idle : Preserves (Node.IdleApart E A) nodeForgetProxy := by
  have hmodify : ∀ f : Node → Node, (∀ v, SameGraph v (f v)) →
      Preserves (Node.IdleApart E A) (modify f) :=
    fun f hf => preserves_modify fun v hv => graph v _ (hf v) hv
  exact preserves_bind preserves_get fun _ =>
    preserves_bind (preserves_tunnelFreeAll graph _) fun _ =>
      preserves_bind (hmodify _ fun _ => ⟨rfl,rfl,rfl,.refl⟩) fun _ => preserves_bind preserves_get fun _ =>
        preserves_bind (preserves_linkFreeAll graph _) fun _ =>
          preserves_bind (hmodify _ fun _ => ⟨rfl,rfl,rfl,.refl⟩) fun _ =>
            preserves_bind preserves_get fun _ => actorDisconnectEach_idle false _

/-- New queues for the ports `ps`, none of them read where the peer is local. -/
theorem setFifos_idle (ps : List Ref) (fs : List (Fifo Bytes)) :
    Preserves (fun s => s.IdleApart E (fun _ => False) ∧
      ∀ r ∈ ps.zip fs, ¬E r.1 → s.LocalOut r.1 → r.2.Idle) (setFifos ps fs) := by
  suffices h : ∀ R : List (Ref × Fifo Bytes), (∀ r ∈ ps.zip fs, r ∈ R) →
      Preserves (fun s => s.IdleApart E (fun _ => False) ∧
        ∀ r ∈ R, ¬E r.1 → s.LocalOut r.1 → r.2.Idle) (setFifos ps fs) from h _ fun _ hr => hr
  intro R hR
  induction ps generalizing fs with
  | nil => exact preserves_pure _
  | cons p ps ih =>
    cases fs with
    | nil => exact preserves_pure _
    | cons f fs =>
      rw [List.zip_cons_cons] at hR
      refine preserves_bind ?_ fun _ => ih fs fun r hr => hR r (List.mem_cons_of_mem _ hr)
      rintro s u t h ⟨hs,hkeep⟩
      obtain ⟨x,hx,rfl⟩ := updatePort_eq h
      have hlocal : ∀ q, Node.LocalOut {s with portMem := s.portMem.set p {x with fifo := some f}} q →
          s.LocalOut q := by
        intro q hq
        change ((s.portMem.set p _).get q).any Port.localOut=true at hq
        rw [Heap.get_set hx] at hq
        split at hq
        · next hqp =>
          rw [Node.LocalOut,hqp,hx]
          exact hq
        · exact hq
      refine ⟨hs.setPort hx fun hout hcase g hg => ?_,fun r hr hE hq => hkeep r hr hE (hlocal _ hq)⟩
      cases hg
      rcases hcase with h | ⟨hE,hloc⟩
      · exact h.elim
      · refine hkeep (p,f) (hR _ List.mem_cons_self) hE ?_
        rw [Node.LocalOut,hx]
        exact hloc

theorem applyEffect_idle {a : Ref} {x : Actor} (e : Effect) {s t : Node} {u : Unit}
    (h : applyEffect a e s=some (u,t)) (hx : s.actorMem.get a=some x)
    (hkeep : ∀ r ∈ x.ports.zip e.fifos, ¬E r.1 → s.LocalOut r.1 → r.2.Idle)
    (hs : s.IdleApart E fun _ => False) : t.IdleApart E fun _ => False := by
  obtain ⟨y,v,hread,h₁⟩ := bind_eq_some.mp h
  obtain ⟨hy,rfl⟩ := actor_eq_some hread
  cases hx.symm.trans hy
  obtain ⟨⟨⟩,w,hset,h₂⟩ := bind_eq_some.mp h₁
  cases hset
  obtain ⟨⟨⟩,w,hfifos,h₃⟩ := bind_eq_some.mp h₂
  have hw := (setFifos_idle x.ports e.fifos _ () w hfifos ⟨hs,hkeep⟩).1
  have ho := view_objects (quiet (E := E) (A := fun _ => False))
  exact preserves_bind (preserves_closeEach ho _) (fun _ => preserves_setObjects ho _) w u t h₃ hw

/-- A callback that does not read the queues of the local out-ports of its actor. -/
theorem callback_idle {a : Ref} {r : Bool} {s t : Node} (h : callback a s=some (r,t))
    (hkeep : ∀ r ∈ s.effectFifos a, ¬E r.1 → s.LocalOut r.1 → r.2.Idle)
    (hs : s.IdleApart E fun _ => False) : t.IdleApart E fun _ => False := by
  obtain ⟨x,v,hread,h₁⟩ := bind_eq_some.mp h
  obtain ⟨hx,rfl⟩ := actor_eq_some hread
  dsimp only at h₁
  split at h₁
  · cases h₁
  obtain ⟨e,w,heffect,h₂⟩ := bind_eq_some.mp h₁
  rw [effect] at heffect
  split at heffect
  · cases heffect
    cases h₂
    exact hs
  · next e rest heffects =>
    cases heffect
    obtain ⟨⟨⟩,w,happly,h₃⟩ := bind_eq_some.mp h₂
    cases h₃
    refine applyEffect_idle e happly hx (fun r hr => hkeep r ?_) hs
    rwa [Node.effectFifos,heffects,List.head?_cons,Option.elim_some,Node.portsOf,hx]

theorem callbackIfSet_idle {a : Ref} {u : Unit} {s t : Node} (h : callbackIfSet a s=some (u,t))
    (hkeep : (s.actorMem.get a).any Actor.loaded=true →
      ∀ r ∈ s.effectFifos a, ¬E r.1 → s.LocalOut r.1 → r.2.Idle)
    (hs : s.IdleApart E fun _ => False) : t.IdleApart E fun _ => False := by
  obtain ⟨x,v,hread,h₁⟩ := bind_eq_some.mp h
  obtain ⟨hx,rfl⟩ := actor_eq_some hread
  split at h₁
  · next hloaded =>
    obtain ⟨r,w,hcall,h₂⟩ := bind_eq_some.mp h₁
    cases h₂
    exact callback_idle hcall (hkeep (by rw [hx]; exact hloaded)) hs
  · cases h₁
    exact hs

/-- The ports of an actor that is freed go with it. -/
theorem actorFree_idle (a : Ref) (removeFromRegistry : Bool) :
    Preserves (Node.IdleApart (fun _ => False) fun _ => False) (actorFree a removeFromRegistry) := by
  intro s u t h hs
  let E : Ref → Prop := fun p => p ∈ s.portsOf a
  let P : Node → Prop := fun v => v.IdleApart E (fun _ => False) ∧ v.portsOf a=s.portsOf a
  have hsame : ∀ v w : Node, SameView (fun _ => ()) Actor.core v w → w.portsOf a=v.portsOf a := by
    intro v w hvw
    have := congrArg (Option.map fun y : Actor => y.ports) (hvw.actor a)
    rw [Option.map_map,Option.map_map] at this
    rw [Node.portsOf,Node.portsOf]
    cases hv : v.actorMem.get a <;> cases hw : w.actorMem.get a <;>
      simp_all [Actor.core,Actor.ports]
  have hcall : Preserves P (callbackIfSet a) := by
    rintro v b w hw ⟨hv,hports⟩
    refine ⟨callbackIfSet_idle hw (fun _ r hr hE => absurd ?_ hE) hv,?_⟩
    · rw [Node.effectFifos] at hr
      cases heffects : v.host.fate.effects with
      | nil =>
        rw [heffects] at hr
        cases hr
      | cons e rest =>
        rw [heffects,List.head?_cons,Option.elim_some,hports] at hr
        exact (List.of_mem_zip hr).1
    · have hview := preserves_callbackIfSet (P := fun w => SameView (fun _ => ()) Actor.core v w)
        (fun _ _ h₁ _ h₂ => h₂.trans h₁) (fun _ _ h => h) (fun _ _ => rfl) a v b w hw (.refl _ _ v)
      exact (hsame v w hview).trans hports
  have hclose : Preserves P (closeOwn a) := by
    refine preserves_closeOwn (fun v os hv => ⟨?_,hv.2⟩) a
    exact view_objects quiet v os hv.1
  refine ensures_actorFree (Q := Node.IdleApart (fun _ => False) fun _ => False) hcall hclose
    (fun x => ?_) ?_ s u t h ⟨hs.mono (fun _ h => h.elim) fun _ h => h,rfl⟩
  · rintro v ⟨⟩ w hw ⟨⟨hv,hports⟩,hx⟩ p y hy hout hcase
    obtain ⟨-,-,-,hget⟩ := freePorts_ports hw
    rw [hget] at hy
    split at hy
    · cases hy
    · next hp =>
      refine hv p y hy hout ?_
      rcases hcase with h | ⟨-,hlocal⟩
      · exact h.elim
      · refine .inr ⟨fun hE => hp ?_,hlocal⟩
        have hE : p ∈ s.portsOf a := hE
        rwa [← hports,Node.portsOf,hx] at hE
  · intro v b w hw hv
    obtain ⟨host,rfl⟩ := actorUnlink_eq hw
    exact hv

/-- A port that lets go of its tunnel is idle, or has no peer on the node. -/
theorem detach_idle {p : Ref} {s t : Node} (h : portDetach p s=some ((),t))
    (hp : s.peerOf p=none ∨ s.OutIdle p)
    (hs : s.IdleApart (fun _ => False) fun _ => False) :
    t.IdleApart (fun _ => False) fun _ => False := by
  intro q z hz hout hcase f hf
  obtain ⟨-,-,-,hget⟩ := portDetach_ports h
  rw [hget] at hz
  obtain ⟨x,hx,rfl⟩ := Option.map_eq_some_iff.mp hz
  split at hout
  · next hq =>
    subst q
    simp only [if_true] at hcase hf
    rcases hp with hnone | hidle
    · rw [Node.peerOf,hx,Option.bind_some] at hnone
      simp [Port.localOut,hnone] at hcase
    · exact hidle x hx hout f hf
  · next hq =>
    simp only [hq,if_false] at hcase hf
    exact hs q x hx hout hcase f hf

theorem handleConnect_idle {p : Ref} {tunnelId : Text} {r : Result} {s t : Node}
    (h : portHandleConnect p tunnelId s=some (r,t))
    (hp : s.findsTunnel p tunnelId=false → s.peerOf p=none ∨ s.OutIdle p)
    (hs : s.IdleApart (fun _ => False) fun _ => False) :
    t.IdleApart (fun _ => False) fun _ => False := by
  obtain ⟨hf,hd⟩ | ⟨-,hset⟩ | ⟨-,q,hon⟩ := portHandleConnect_cases h
  · exact detach_idle hd (hp hf) hs
  · exact setState_idle p _ s () t hset hs
  · have henable : Ensures (Node.IdleApart (fun r => False ∨ r=p) fun _ => False)
        (portEnableOn p q) fun _ => Node.IdleApart (fun _ => False) fun _ => False :=
      ensures_bind (attach_idle p q) fun _ => ensures_bind (preserves_tunnelAddRef graph q) fun _ =>
        ensures_bind (setState_idle p _) fun _ => ensures_bind (preserves_tunnel q) fun _ =>
          ensures_bind (preserves_link _) fun _ => preserves_updatePort quiet p fun _ => rfl
    have hdetach := (idle_rules (E := fun r => False ∨ r=p) (A := fun _ => False)).port p
      (.inl (.inr rfl)) |>.detach
    exact ensures_bind hdetach (fun _ => henable) s () t hon (hs.mono (fun _ => .inl) fun _ h => h)

theorem handleDisconnect_idle (p : Ref) :
    Preserves (Node.IdleApart (fun _ => False) fun _ => False) (portHandleDisconnect p) := by
  have hrules := (idle_rules (E := fun _ => False) (A := fun q => False ∨ q=p)).port p
    (.inr (.inr rfl))
  have hall : Ensures (Node.IdleApart (fun _ => False) fun _ => False) (portHandleDisconnect p)
      fun _ => Node.IdleApart (fun _ => False) fun q => False ∨ q=p :=
    ensures_bind (fifoCancel_idle p) fun _ => ensures_bind (hrules.setState _) fun _ =>
      ensures_bind (hrules.peerId _) fun _ => hrules.detach
  exact ensures_mono hall (fun _ h => h) fun _ _ h => h.mono (fun _ h => h) fun _ => False.elim

theorem getTunnel_idle {p : Ref} {s t : Node} (h : portGetTunnel p s=some ((),t))
    (hs : s.IdleApart (fun _ => False) fun _ => False) :
    t.IdleApart (fun _ => False) fun _ => False := by
  obtain ⟨-,hsame⟩ | ⟨-,u,q,hsame,hattach⟩ := portGetTunnel_cases h
  · exact graph s t hsame hs
  · have hu := graph s u hsame hs
    have hall : Ensures (Node.IdleApart (fun r => False ∨ r=p) fun _ => False) (portAttach p q)
        fun _ => Node.IdleApart (fun _ => False) fun _ => False :=
      ensures_bind (attach_idle p q) fun _ =>
        ensures_bind (preserves_tunnelAddRef graph q) fun _ => setState_idle p _
    exact hall u () t hattach (hu.mono (fun _ => .inl) fun _ h => h)

theorem portJoin_idle {p q : Ref} {s t : Node} (h : portJoin p q s=some ((),t))
    (hp : s.OutIdle p) (hq : s.OutIdle q) (hs : s.IdleApart (fun _ => False) fun _ => False) :
    t.IdleApart (fun _ => False) fun _ => False := by
  have hstart : s.IdleApart (fun _ => False) fun r => r=p ∨ r=q := by
    intro r x hx hout hcase
    rcases hcase with (rfl | rfl) | hlocal
    · exact hp x hx hout
    · exact hq x hx hout
    · exact hs r x hx hout (.inr hlocal)
  have hjoin := idle_rules.portJoin (.inr (.inl rfl)) (.inr (.inr rfl)) s () t h hstart
  exact hjoin.mono (fun _ h => h) fun _ => False.elim

theorem setFifo_idle {p : Ref} {f : Fifo Bytes} {s t : Node}
    (h : updatePort p (fun x => {x with fifo := some f}) s=some ((),t))
    (hf : s.LocalOut p → f.Idle) (hs : s.IdleApart (fun _ => False) fun _ => False) :
    t.IdleApart (fun _ => False) fun _ => False := by
  obtain ⟨x,hx,rfl⟩ := updatePort_eq h
  refine hs.setPort hx fun hout hcase g hg => ?_
  cases hg
  rcases hcase with h | ⟨-,hlocal⟩
  · exact h.elim
  · refine hf ?_
    rw [Node.LocalOut,hx]
    exact hlocal

theorem portFree_idle {p : Ref} {removeFromRegistry : Bool} {s t : Node}
    (h : portFree p removeFromRegistry s=some ((),t))
    (hs : s.IdleApart (fun q => False ∨ q=p) fun _ => False) :
    t.IdleApart (fun _ => False) fun _ => False := by
  intro q z hz hout hcase
  obtain ⟨-,-,-,-,hget⟩ := portFree_ports h
  rw [hget] at hz
  split at hz
  · cases hz
  · next hq =>
    refine hs q z hz hout ?_
    rcases hcase with h | ⟨-,hlocal⟩
    · exact h.elim
    · exact .inr ⟨fun h => h.elim id hq,hlocal⟩

/-- A new port has no peer yet. -/
theorem portNew_idle (mp : Msgpuck) (a : Ref) (direction : PortDirection) (d : PortDescription) :
    Preserves (Node.IdleApart (fun _ => False) fun _ => False) (portNew mp a direction d) := by
  have hh := view_host (quiet (E := fun _ => False) (A := fun _ => False))
  refine preserves_bind (preserves_alloc hh) fun b => ?_
  split
  · exact preserves_pure _
  refine ensures_bind (Q := fun p s => s.IdleApart (fun _ => False) (fun _ => False) ∧
    s.peerOf p=none) ?_ fun p => ?_
  · refine ensures_bind (preserves_ofOption _) fun id => ensures_bind (preserves_ofOption _)
      fun name => ensures_bind (preserves_ofOption _) fun peerPortId =>
        ensures_bind (preserves_textCopy _) fun peerId => ?_
    intro v p w h hv
    cases h
    constructor
    · intro q z hz hout hcase
      change (v.portMem.alloc _).get q=some z at hz
      rw [Heap.get_alloc] at hz
      split at hz
      · cases hz
        simp [Port.localOut] at hcase
      · exact hv q z hz hout hcase
    · change ((v.portMem.alloc _).get v.portMem.next).bind Port.peerPort=none
      rw [Heap.get_alloc,if_pos rfl]
      rfl
  · refine ensures_bind (preserves_fifoInit (fun v h hm hv => ⟨hh v h hm hv.1,hv.2⟩) mp _ _ _) fun f => ?_
    split
    · refine ensures_bind (Q := fun _ => Node.IdleApart (fun _ => False) fun _ => False) ?_
        fun _ => preserves_pure _
      exact fun s u t h hs => portFree_idle h (hs.1.mono (fun _ => .inl) fun _ h => h)
    · refine ensures_bind (Q := fun _ => Node.IdleApart (fun _ => False) fun _ => False) ?_
        fun _ => preserves_pure _
      rintro s u t h ⟨hs,hpeer⟩
      refine setFifo_idle h (fun hlocal => ?_) hs
      rw [Node.LocalOut] at hlocal
      cases hx : s.portMem.get p with
      | none => simp [hx] at hlocal
      | some x =>
        rw [Node.peerOf,hx,Option.bind_some] at hpeer
        simp [hx,Port.localOut,hpeer] at hlocal

theorem takeState_idle {p : Ref} {value : UInt32} {n : Nat} {s t : Node} {a : Ref}
    (hok : SwitchesIdle (.build a (.takeState p value n)) s)
    (h : portTakeState p value n s=some ((),t))
    (hs : s.IdleApart (fun _ => False) fun _ => False) :
    t.IdleApart (fun _ => False) fun _ => False := by
  obtain ⟨x,u,hx,hu,hcase⟩ := portTakeState_cases h
  have hview : SameView Node.IdleApart.ofPort (fun _ => ()) s u := by
    refine ⟨by rw [hu],fun r => ?_,fun _ => by rw [hu],by rw [hu]; exact Heap.next_set _ _ _,
      by rw [hu],trivial⟩
    rw [hu]
    change ((s.portMem.set p _).get r).map _=_
    rw [Heap.get_set hx]
    split
    · next hr =>
      rw [hr,hx]
      rfl
    · rfl
  have hidle := hs.view hview
  obtain ⟨-,rfl | ⟨r,hattach⟩⟩ | ⟨q,hsets,-,hjoin⟩ | ⟨-,-,hset⟩ := hcase
  · exact hidle
  · have hall : Ensures (Node.IdleApart (fun r => False ∨ r=p) fun _ => False)
        (updatePort p (fun y => {y with tunnel := some r}) >>= fun _ => tunnelAddRef r)
        fun _ => Node.IdleApart (fun _ => False) fun _ => False :=
      ensures_bind (attach_idle p r) fun _ => preserves_tunnelAddRef graph r
    exact hall u () t hattach (hidle.mono (fun _ => .inl) fun _ h => h)
  · have hout : ∀ r ∈ [p,q], u.OutIdle r := by
      intro r hr y hy hdir f hf
      obtain ⟨z,hz,hzy⟩ := hview.port_before hy
      have hkeep := hok.1 r (by simpa [TopOp.localizes,hsets] using hr)
      simp only [Node.IdleApart.ofPort,Prod.mk.injEq] at hzy
      exact hkeep z hz (hzy.1.trans hdir) f (hzy.2.2.2.trans hf)
    exact portJoin_idle hjoin (hout p (by simp)) (hout q (by simp)) hidle
  · exact setState_idle p _ u () t hset hidle

end Atom

section Run

variable (mp : Msgpuck) {s t : Node}

open Atom

/-- Where the peers of local out-ports find nothing in flight. -/
def Node.LocalIdle (s : Node) : Prop := s.IdleApart (fun _ => False) fun _ => False

theorem base_idle {op : Op} (hok : SwitchesIdle (.base op) s)
    (hmove : ∀ p f, op=.setFifo p f → s.LocalOut p → f.Idle) (hs : op.apply mp s=some t)
    (hp : s.LocalIdle) : t.LocalIdle := by
  have hpeer : ∀ {p : Ref}, ((s.peerOf p).elim [] fun _ => [p])=op.localizes s →
      s.peerOf p=none ∨ s.OutIdle p := by
    intro p hlist
    cases hq : s.peerOf p with
    | none => exact .inl rfl
    | some q =>
      rw [hq,Option.elim_some] at hlist
      exact .inr (hok.1 p (by rw [TopOp.localizes,← hlist]; exact List.mem_singleton_self p))
  cases hstill : op.still with
  | true =>
    exact Op.still_preserves hstill (fun _ _ h => Node.IdleApart.view h) (fun _ _ => trivial)
      (fun _ _ _ => rfl) (fun _ _ h => h) hs hp
  | false =>
    cases op with
    | host | setPeerId | retry | tunnelCreate | tunnelUpdate | linkCreate | linkRemoveRef
    | setProxyLink | storageTunnel | proxyTunnel | restoreStorage | restoreProxy | releaseStorage
    | releaseProxy | describe | serialize => cases hstill
    | setState p state => exact preserves_state hs (setState_idle p state) hp
    | setFifo p f =>
      obtain ⟨⟨⟨⟩,t'⟩,hr,he⟩ := Option.map_eq_some_iff.mp hs
      cases he
      exact setFifo_idle hr (hmove p f rfl) hp
    | connectLocal p =>
      obtain ⟨⟨r,t'⟩,hr,he⟩ := Option.map_eq_some_iff.mp hs
      cases he
      obtain ⟨-,-,rfl⟩ | ⟨q,hq,-,hjoin⟩ := portConnectLocal_cases hr
      · exact hp
      · have hkeep : ∀ r ∈ [p,q], s.OutIdle r := by
          intro r hr
          exact hok.1 r (by rwa [TopOp.localizes,Op.localizes,hq,Option.elim_some])
        exact portJoin_idle hjoin (hkeep p (by simp)) (hkeep q (by simp)) hp
    | handleConnect p tunnelId =>
      obtain ⟨⟨r,t'⟩,hr,he⟩ := Option.map_eq_some_iff.mp hs
      cases he
      exact handleConnect_idle hr (fun hf => hpeer (by simp [Op.localizes,hf])) hp
    | handleDisconnect p => exact preserves_state hs (handleDisconnect_idle p) hp
    | getTunnel p =>
      obtain ⟨⟨⟨⟩,t'⟩,hr,he⟩ := Option.map_eq_some_iff.mp hs
      cases he
      exact getTunnel_idle hr hp
    | dropTunnel p =>
      obtain ⟨⟨⟨⟩,t'⟩,hr,he⟩ := Option.map_eq_some_iff.mp hs
      cases he
      obtain ⟨⟨⟩,u,hdetach,hset⟩ := bind_eq_some.mp hr
      exact setState_idle p _ u () t' hset (detach_idle hdetach (hpeer rfl) hp)
    | disconnect p => exact preserves_state hs (disconnect_idle p true) hp
    | disconnectPorts a =>
      exact preserves_state hs (preserves_bind (preserves_actor a) fun x =>
        disconnectEach_idle true x.ports) hp
    | disconnectActor a => exact preserves_state hs (actorDisconnect_idle a true) hp
    | callback a =>
      obtain ⟨⟨r,t'⟩,hr,he⟩ := Option.map_eq_some_iff.mp hs
      cases he
      exact callback_idle hr (fun r hr _ => hok.2 r hr) hp
    | callbackIfSet a =>
      obtain ⟨⟨⟨⟩,t'⟩,hr,he⟩ := Option.map_eq_some_iff.mp hs
      cases he
      refine callbackIfSet_idle hr (fun hloaded r hr _ => hok.2 r ?_) hp
      rwa [TopOp.written,Op.written,if_pos hloaded]
    | fire a =>
      obtain ⟨⟨r,t'⟩,hr,he⟩ := Option.map_eq_some_iff.mp hs
      cases he
      exact callback_idle hr (fun r hr _ => hok.2 r hr) hp
    | freeActor a b =>
      refine preserves_state hs (preserves_bind preserves_get fun v => ?_) hp
      dsimp only
      split
      · exact preserves_bind preserves_undefined fun _ => actorFree_idle a b
      · exact actorFree_idle a b

/-- No operation leaves a local out-port with something in flight. -/
theorem step_idle {o : TopOp} (hok : SwitchesIdle o s)
    (hmove : ∀ r ∈ o.moved, s.LocalOut r.1 → r.2.Idle) (hs : o.apply mp s=some t)
    (hp : s.LocalIdle) : t.LocalIdle := by
  have hquiet := Node.IdleApart.quiet (E := fun _ => False) (A := fun _ => False)
  have hh := view_host hquiet
  have hmoved : ∀ {op : Op}, o=.base op ∨ (∃ a, o=.build a (.base op)) →
      ∀ p f, op=.setFifo p f → s.LocalOut p → f.Idle := by
    rintro op (rfl | ⟨a,rfl⟩) p f rfl
    · exact hmove (p,f) (List.mem_singleton_self _)
    · exact hmove (p,f) (List.mem_singleton_self _)
  cases o with
  | base op => exact base_idle mp hok (hmoved (.inl rfl)) hs hp
  | build a o =>
    cases o with
    | base op => exact @base_idle mp s t op hok (hmoved (.inr ⟨a,rfl⟩)) hs hp
    | createPort direction d => exact preserves_state hs (portNew_idle mp a direction d) hp
    | takeState p value n =>
      obtain ⟨⟨⟨⟩,t'⟩,hr,he⟩ := Option.map_eq_some_iff.mp hs
      cases he
      exact takeState_idle hok hr hp
    | freePort p =>
      obtain ⟨⟨⟨⟩,t'⟩,hr,he⟩ := Option.map_eq_some_iff.mp hs
      cases he
      exact portFree_idle hr (hp.mono (fun _ => .inl) fun _ h => h)
    | linkPort direction p =>
      refine preserves_state hs (preserves_bind (preserves_alloc hh) fun b => ?_) hp
      split
      · exact preserves_pure _
      · exact ensures_bind (ensures_actor a) fun x =>
          ensures_bind (ensures_setActor hquiet rfl) fun _ => preserves_pure _
  | newActor type =>
    refine preserves_state hs (preserves_actorCreateFromType hh ?_ type) hp
    intro name state loaded i _ v a w h hv
    cases h
    exact hv
  | addActor a =>
    refine preserves_state hs (preserves_bind (preserves_alloc hh) fun b => ?_) hp
    split
    · exact preserves_pure _
    · exact preserves_bind (preserves_modify fun v hv => hv) fun _ => preserves_pure _
  | freeNew a => exact preserves_state hs (actorFree_idle a false) hp
  | connectPorts a =>
    cases hs
    exact hp
  | assign a state => exact preserves_state hs (actorSetState_idle a state) hp
  | load a =>
    refine preserves_state hs (preserves_bind (preserves_effect hh) fun e => ?_) hp
    split
    · exact ensures_bind (ensures_actor a) fun x =>
        ensures_bind (ensures_setActor hquiet rfl) fun _ => preserves_pure _
    · exact preserves_pure _
  | loadFailed a =>
    cases hs
    exact hp
  | forgetProxy => exact preserves_state hs forgetProxy_idle hp
  | popActor =>
    refine preserves_state hs (preserves_bind preserves_get fun v => ?_) hp
    split
    · exact preserves_pure _
    · exact preserves_bind (preserves_modify fun v hv => hv) fun _ => actorFree_idle _ true

end Run

namespace Fifo

variable {α : Type} {f : Fifo α}

theorem commitRead_idle {free : Bool} (hread : f.tentativeReadPos=f.readPos+1)
    (hrange : f.readPos+1 ≠ 0) : (f.commitRead free).Idle := by
  have hlt : f.readPos<f.tentativeReadPos := by
    rw [hread,UInt32.lt_iff_toNat_lt,UInt32.toNat_add]
    have hne : (f.readPos+1).toNat ≠ 0 := fun h => hrange (UInt32.toNat_inj.mp h)
    rw [UInt32.toNat_add] at hne
    simp only [UInt32.reduceToNat] at hne ⊢
    have hmax := f.readPos.toNat_lt
    omega
  rw [commitRead,if_pos hlt,Idle]
  exact hread

theorem cancelCommit_idle : f.cancelCommit.Idle := rfl

/-- A write moves neither read position. -/
theorem writeToken_reads (f : Fifo Bytes) (token : Option Bytes) :
    (f.writeToken token).2.readPos=f.readPos ∧
    (f.writeToken token).2.tentativeReadPos=f.tentativeReadPos := by
  unfold writeToken
  split
  · exact ⟨rfl,rfl⟩
  · exact ⟨rfl,rfl⟩

end Fifo

section Schedule

variable (mp : Msgpuck)

open Prog

/-- What an operation of a scheduler pass may do. -/
def PassKeepsIdle (o : Op) (s : Node) : Prop := Event.schedule.KeepsIdle (.base o) s

theorem portFifo_port {p : Ref} {f : Fifo Bytes} {s t : Node} (h : Atom.portFifo p s=some (f,t)) :
    ∃ x, s.portMem.get p=some x ∧ x.fifo=some f := by
  obtain ⟨x,u,hread,h₁⟩ := Atom.bind_eq_some.mp h
  obtain ⟨hx,rfl⟩ := Atom.port_eq_some hread
  refine ⟨x,hx,?_⟩
  cases hf : x.fifo with
  | none =>
    simp only [hf] at h₁
    cases h₁
  | some g =>
    simp only [hf] at h₁
    split at h₁
    · cases h₁
    · cases h₁
      rfl

theorem pass_idle {op : Op} {s t : Node} (hok : PassKeepsIdle op s)
    (hop : ∀ p f, op ≠ .setFifo p f) (hs : op.apply mp s=some t) (hp : s.LocalIdle) :
    t.LocalIdle :=
  base_idle mp hok.1 (fun p f h => absurd h (hop p f)) hs hp

theorem host_idle {α : Type} (x : Atom α) :
    Spec PassKeepsIdle Node.LocalIdle (Flow.host x : Flow mp α) fun _ => Node.LocalIdle := by
  refine spec_bind (spec_read (Q := fun _ => Node.LocalIdle) fun _ hp => hp) fun s => ?_
  split
  · exact spec_bind (Q := fun _ => Node.LocalIdle)
      (spec_act fun _ _ hs hok hp => pass_idle mp hok (by simp) hs hp) fun _ => spec_pure _ fun _ hp => hp
  · exact spec_undefined

theorem look_idle {α : Type} (x : Atom α) :
    Spec PassKeepsIdle Node.LocalIdle (look x : Flow mp α) fun _ => Node.LocalIdle :=
  spec_mono (spec_look x) (fun _ h => h) fun _ _ h => h.1

theorem pendingTunnel_idle (p : Ref) :
    Spec PassKeepsIdle Node.LocalIdle (Flow.portConnectWithPendingTunnel mp p) fun _ =>
      Node.LocalIdle := by
  have hdrop : Spec PassKeepsIdle Node.LocalIdle (do
      Prog.act (.dropTunnel p)
      return .fail : Flow mp Result) fun _ => Node.LocalIdle :=
    spec_bind (Q := fun _ => Node.LocalIdle)
      (spec_act fun _ _ hs hok hp => pass_idle mp hok (by simp) hs hp) fun _ =>
        spec_pure _ fun _ hp => hp
  refine spec_bind (look_idle mp _) fun r => ?_
  split
  · exact spec_pure _ fun _ hp => hp
  split
  · refine spec_bind (host_idle mp _) fun r => ?_
    split
    · exact spec_bind (Q := fun _ => Node.LocalIdle)
        (spec_act fun _ _ hs hok hp => pass_idle mp hok (by simp) hs hp) fun _ =>
          spec_pure _ fun _ hp => hp
    · exact hdrop
  · exact hdrop

/-- The queue of a port that is not a local out-port may change in any way. -/
theorem setFifo_elsewhere {p : Ref} {f : Fifo Bytes} :
    Spec PassKeepsIdle (fun s => s.LocalIdle ∧ ¬s.LocalOut p)
      (act (.setFifo p f) : Flow mp Unit) fun _ s => s.LocalIdle ∧ ¬s.LocalOut p := by
  refine spec_act fun s t hs _ hp => ?_
  obtain ⟨⟨⟨⟩,t'⟩,hr,he⟩ := Option.map_eq_some_iff.mp hs
  cases he
  refine ⟨Atom.setFifo_idle hr (fun h => absurd h hp.2) hp.1,fun hlocal => hp.2 ?_⟩
  obtain ⟨x,hx,rfl⟩ := Atom.updatePort_eq hr
  change ((s.portMem.set p _).get p).any Port.localOut=true at hlocal
  rw [Heap.get_set hx,if_pos rfl] at hlocal
  rw [Node.LocalOut,hx]
  exact hlocal

/-- The port `p` has handed out one token. -/
def HandedOut (p : Ref) (s : Node) : Prop :=
  s.IdleApart (fun q => q=p) (fun _ => False) ∧
  ∀ x f, s.portMem.get p=some x → x.fifo=some f →
    f.tentativeReadPos=f.readPos+1 ∧ f.readPos+1 ≠ 0

theorem HandedOut.close {p : Ref} {f : Fifo Bytes} {s t : Node} (hs : HandedOut p s)
    (hr : Atom.updatePort p (fun x => {x with fifo := some f}) s=some ((),t)) (hf : f.Idle) :
    t.LocalIdle := by
  obtain ⟨x,hx,rfl⟩ := Atom.updatePort_eq hr
  intro q z hz hout hcase g hg
  change (s.portMem.set p _).get q=some z at hz
  rw [Heap.get_set hx] at hz
  split at hz
  · cases hz
    cases hg
    exact hf
  · next hq =>
    refine hs.1 q z hz hout (.inr ⟨hq,?_⟩) g hg
    rcases hcase with h | ⟨-,hlocal⟩
    · exact h.elim
    · exact hlocal

theorem HandedOut.write {p q : Ref} {token : Option Bytes} {g : Fifo Bytes} {y : Port}
    {s t : Node} (hs : HandedOut p s) (hy : s.portMem.get q=some y) (hg : y.fifo=some g)
    (hr : Atom.updatePort q (fun x => {x with fifo := some (g.writeToken token).2}) s=
      some ((),t)) : HandedOut p t := by
  obtain ⟨x,hx,rfl⟩ := Atom.updatePort_eq hr
  obtain rfl : y=x := Option.some.inj (hy.symm.trans hx)
  obtain ⟨hread,htentative⟩ := g.writeToken_reads token
  refine ⟨hs.1.setPort hx fun hout hcase f hf => ?_,fun z f hz hf => ?_⟩
  · cases hf
    rw [Fifo.Idle,hread,htentative]
    exact hs.1 q y hy hout hcase g hg
  · change (s.portMem.set q _).get p=some z at hz
    rw [Heap.get_set hx] at hz
    split at hz
    · next hqp =>
      cases hz
      cases hf
      rw [hread,htentative]
      exact hs.2 y g (hqp ▸ hy) hg
    · exact hs.2 z f hz hf

/-- A token that goes to a local peer is released, or the read is taken back. -/
theorem portTransmitToken_idle {p : Ref} {x : Port} (hout : x.direction=.dirOut) :
    Spec PassKeepsIdle (fun s => s.LocalIdle ∧ s.portMem.get p=some x)
      (Flow.portTransmitToken mp p x) fun _ => Node.LocalIdle := by
  refine spec_bind (spec_look _) fun f => ?_
  split
  swap
  · exact spec_pure _ fun s hp => hp.1.1
  cases hlocal : x.localOut with
  | false =>
    refine spec_bind (Q := fun _ s => s.LocalIdle ∧ ¬s.LocalOut p)
      (spec_mono (setFifo_elsewhere mp) (fun s hp => ⟨hp.1.1,?_⟩) fun _ _ h => h) fun _ => ?_
    · rw [Node.LocalOut,hp.1.2,Option.any_some,hlocal]
      decide
    · have hsend : ∀ {α : Type} (m : Atom α), Spec PassKeepsIdle
          (fun s => s.LocalIdle ∧ ¬s.LocalOut p) (Flow.host m : Flow mp α)
          fun _ s => s.LocalIdle ∧ ¬s.LocalOut p := by
        intro α m
        refine spec_bind (spec_read (Q := fun _ s => s.LocalIdle ∧ ¬s.LocalOut p) fun _ hp => hp)
          fun s => ?_
        split
        · refine spec_bind (Q := fun _ s => s.LocalIdle ∧ ¬s.LocalOut p)
            (spec_act fun v w hs hok hp => ⟨pass_idle mp hok (by simp) hs hp.1,?_⟩) fun _ =>
              spec_pure _ fun _ hp => hp
          cases hs
          exact hp.2
        · exact spec_undefined
      have hdone : ∀ {m : Flow mp Unit}, Spec PassKeepsIdle (fun s => s.LocalIdle ∧ ¬s.LocalOut p) m
          (fun _ s => s.LocalIdle ∧ ¬s.LocalOut p) →
          Spec PassKeepsIdle (fun s => s.LocalIdle ∧ ¬s.LocalOut p) m fun _ => Node.LocalIdle :=
        fun hm => spec_mono hm (fun _ h => h) fun _ _ h => h.1
      split
      · refine spec_bind (hsend _) fun r => ?_
        split
        · exact hdone (setFifo_elsewhere mp)
        · exact spec_pure _ fun _ hp => hp.1
      · next q htunnel hpeer => simp [Port.localOut,hout,htunnel,hpeer] at hlocal
      · exact hdone (setFifo_elsewhere mp)
  | true =>
    refine spec_bind (Q := fun _ => HandedOut p) (spec_act fun s t hs hok hp => ?_) fun _ => ?_
    · obtain ⟨⟨hidle,hx⟩,u,hread⟩ := hp
      obtain ⟨x',hx',hf⟩ := portFifo_port hread
      cases hx.symm.trans hx'
      obtain ⟨⟨⟨⟩,t'⟩,hr,he⟩ := Option.map_eq_some_iff.mp hs
      cases he
      have hloc : s.LocalOut p := by rw [Node.LocalOut,hx,Option.any_some,hlocal]
      have hrange := hok.2 _ (List.mem_singleton_self _) hloc
      rw [if_pos rfl] at hrange
      have hread : f.tentativeReadPos=f.readPos := hidle p x hx hout (.inr ⟨id,hlocal⟩) f hf
      obtain ⟨y,hy,rfl⟩ := Atom.updatePort_eq hr
      cases hx.symm.trans hy
      refine ⟨Node.IdleApart.setPort hx (fun _ hcase => ?_) (hidle.mono (fun _ => False.elim) fun _ h => h),
        fun z g hz hg => ?_⟩
      · rcases hcase with h | ⟨h,-⟩
        · exact h.elim
        · exact absurd rfl h
      · change (s.portMem.set p _).get p=some z at hz
        rw [Heap.get_set hx,if_pos rfl] at hz
        cases hz
        cases hg
        exact ⟨congrArg (·+1) hread,hrange x hx f hf⟩
    · split
      · next r htunnel => simp [Port.localOut,htunnel] at hlocal
      · next q htunnel hpeer =>
        refine spec_bind (spec_look _) fun g => ?_
        refine spec_bind (Q := fun _ => HandedOut p) (spec_act fun s t hs hok hp => ?_) fun _ => ?_
        · obtain ⟨hhanded,u,hread⟩ := hp
          obtain ⟨y,hy,hg⟩ := portFifo_port hread
          obtain ⟨⟨⟨⟩,t'⟩,hr,he⟩ := Option.map_eq_some_iff.mp hs
          cases he
          exact hhanded.write hy hg hr
        refine spec_bind (spec_look _) fun f' => ?_
        have hclose : ∀ g' : Fifo Bytes, (f'.tentativeReadPos=f'.readPos+1 → f'.readPos+1 ≠ 0 →
            g'.Idle) → Spec PassKeepsIdle (fun s => HandedOut p s ∧ ∃ t, Atom.portFifo p s=some (f',t))
              (act (.setFifo p g') : Flow mp Unit) fun _ => Node.LocalIdle := by
          intro g' hg'
          refine spec_act fun s t hs _ hp => ?_
          obtain ⟨hhanded,u,hread⟩ := hp
          obtain ⟨y,hy,hf⟩ := portFifo_port hread
          obtain ⟨htentative,hrange⟩ := hhanded.2 y f' hy hf
          obtain ⟨⟨⟨⟩,t'⟩,hr,he⟩ := Option.map_eq_some_iff.mp hs
          cases he
          exact hhanded.close hr (hg' htentative hrange)
        split
        · exact hclose _ fun htentative hrange => Fifo.commitRead_idle htentative hrange
        · exact hclose _ fun _ _ => Fifo.cancelCommit_idle
      · next htunnel hpeer => simp [Port.localOut,hpeer] at hlocal

theorem portTransmit_idle (p : Ref) :
    Spec PassKeepsIdle Node.LocalIdle (Flow.portTransmit mp p) fun _ => Node.LocalIdle := by
  refine spec_bind (spec_look _) fun x => ?_
  have hport : ∀ s, (s.LocalIdle ∧ ∃ t, Atom.port p s=some (x,t)) →
      s.LocalIdle ∧ s.portMem.get p=some x := by
    rintro s ⟨hp,t,hx⟩
    exact ⟨hp,(Atom.port_eq_some hx).1⟩
  split
  · refine spec_bind (spec_mono (spec_look _) hport fun _ _ h => h.1) fun y => ?_
    split
    · split
      · next hout => exact portTransmitToken_idle mp hout
      · exact spec_pure _ fun _ hp => hp.1
    · exact spec_pure _ fun _ hp => hp.1
  · refine spec_mono ?_ (fun s hp => hp.1) fun _ _ h => h
    split
    · split
      · exact spec_pure _ fun _ hp => hp
      · refine spec_bind (look_idle mp _) fun r => ?_
        split
        · exact spec_bind (pendingTunnel_idle mp p) fun _ => spec_pure _ fun _ hp => hp
        · exact spec_pure _ fun _ hp => hp
    · exact spec_pure _ fun _ hp => hp

theorem fireActor_idle (a : Ref) :
    Spec PassKeepsIdle Node.LocalIdle (Flow.fireActor mp a) fun _ => Node.LocalIdle := by
  refine spec_bind (look_idle mp _) fun x => ?_
  have heach : Spec PassKeepsIdle Node.LocalIdle (Prog.each (Flow.portTransmit mp) x.ports)
      fun _ => Node.LocalIdle := spec_each fun p _ => portTransmit_idle mp p
  dsimp only
  split
  · exact spec_bind (Q := fun _ => Node.LocalIdle)
      (spec_act fun _ _ hs hok hp => pass_idle mp hok (by simp) hs hp) fun _ => heach
  · exact heach

theorem fireLoop_idle (n : Nat) (next : Option Ref) :
    Spec PassKeepsIdle Node.LocalIdle (Flow.fireLoop mp n next) fun _ => Node.LocalIdle := by
  induction n generalizing next with
  | zero =>
    cases next with
    | none => exact spec_pure _ fun _ hp => hp
    | some a => exact spec_pure _ fun _ hp => hp
  | succ n ih =>
    cases next with
    | none => exact spec_pure _ fun _ hp => hp
    | some a =>
      refine spec_bind (spec_read (Q := fun _ => Node.LocalIdle) fun _ hp => hp) fun s => ?_
      have hrest : Spec PassKeepsIdle Node.LocalIdle (do
          if (← look (Atom.actor a)).state=.doDelete then
            Prog.act (.freeActor a true)
            Flow.fireLoop mp n (nextAfter a s.actors)
          else
            Flow.fireActor mp a
            Flow.fireLoop mp n (nextAfter a s.actors) : Flow mp Unit) fun _ => Node.LocalIdle := by
        refine spec_bind (look_idle mp _) fun x => ?_
        split
        · exact spec_bind (Q := fun _ => Node.LocalIdle)
            (spec_act fun _ _ hs hok hp => pass_idle mp hok (by simp) hs hp) fun _ => ih _
        · exact spec_bind (fireActor_idle mp a) fun _ => ih _
      dsimp only
      split
      · exact spec_bind (Q := fun _ => Node.LocalIdle) spec_undefined fun _ => hrest
      · exact hrest

theorem fireActors_idle :
    Spec PassKeepsIdle Node.LocalIdle (Flow.fireActors mp) fun _ => Node.LocalIdle :=
  spec_bind (spec_read (Q := fun _ => Node.LocalIdle) fun _ hp => hp) fun s =>
    fireLoop_idle mp s.actors.length s.actors.head?

/-- With nothing in flight such a message puts nothing in flight. -/
theorem Fifo.Prompt.idle {f g : Fifo Bytes} (h : f.Prompt g) (hf : f.Idle) : g.Idle := by
  have hpos : f.tentativeReadPos=f.readPos := hf
  rcases h with ⟨data,n,rfl⟩ | ⟨n,rfl⟩ | rfl
  · unfold Fifo.comWrite Fifo.write
    dsimp only
    split
    · split <;> exact hpos
    · exact hpos
  · rw [Fifo.comCommitRead,hpos,if_neg (UInt32.lt_irrefl f.readPos),ite_self]
    exact hpos
  · unfold Fifo.comCancelRead
    split
    · exact hpos
    · rfl


/-- An event whose operations may be made ends with nothing in flight. -/
theorem event_idle {e : Event × Fate} {s t : Node} (hok : Event.Admissible mp e.1.KeepsIdle e s)
    (hs : Event.step mp e s=some t) (hp : s.LocalIdle) : t.LocalIdle := by
  obtain ⟨⟨⟨⟩,t',ops⟩,hrun,he⟩ := Option.map_eq_some_iff.mp hs
  cases he
  have hruns := hok () t' ops hrun
  by_cases hsched : e.1=.schedule
  · obtain ⟨e,fate⟩ := e
    cases hsched
    have hpass : Spec (Event.schedule.KeepsIdle) Node.LocalIdle (Event.run mp (.schedule,fate))
        fun _ => Node.LocalIdle :=
      spec_bind (spec_lift (fun _ _ => rfl) (host_idle mp _)) fun _ =>
        spec_lift (fun _ _ => rfl) (fireActors_idle mp)
    exact hpass s () t' ops hrun hruns hp
  · refine hruns.invariant Node.LocalIdle (fun o u v hok hv hu => ?_) hp
    refine step_idle mp hok.1 (fun r hr hlocal => ?_) hv hu
    have hprompt := hok.2 r hr hlocal
    rw [if_neg hsched] at hprompt
    obtain ⟨x,f,hx,hf,hprompt⟩ := hprompt
    rw [Node.LocalOut,hx,Option.any_some] at hlocal
    have hout : x.direction=.dirOut := by
      rw [Port.localOut,Bool.and_eq_true,Bool.and_eq_true,decide_eq_true_eq] at hlocal
      exact hlocal.1.1
    exact hprompt.idle (hu r.1 x hx hout (.inr ⟨id,hlocal⟩) f hf)

/-- At a step boundary an out-port whose peer is on the node has nothing in flight, so the
token that a transmission reads is the one that it releases. -/
theorem local_port_has_nothing_in_flight {h : Host} {es : List (Event × Fate)} {t : Node}
    (hr : Runs (Event.step mp) (fun e s => Event.Admissible mp e.1.KeepsIdle e s) (.init h) es t)
    {p : Ref} {x : Port} {f : Fifo Bytes} (hx : t.portMem.get p=some x)
    (hout : x.direction=.dirOut) (hpeer : x.peerPort.isSome=true) (htunnel : x.tunnel=none)
    (hf : x.fifo=some f) :
    f.tentativeReadPos=f.readPos ∧ f.comPeek.1=(f.slot f.readPos,f.readPos) ∧
    (f.readPos<f.readPos+1 → f.comPeek.2.commitRead false={f.setSlot f.readPos none with
      readPos := f.readPos+1
      tentativeReadPos := f.readPos+1}) := by
  have hinit : (Node.init h).LocalIdle := fun q y hy => absurd hy (by simp [Node.init])
  have ht := hr.invariant Node.LocalIdle (fun _ _ _ hok hs hp => event_idle mp hok hs hp) hinit
  have hlocal : x.localOut=true := by simp [Port.localOut,hout,hpeer,htunnel]
  have hidle : f.tentativeReadPos=f.readPos := ht p x hx hout (.inr ⟨id,hlocal⟩) f hf
  refine ⟨hidle,?_,fun hlt => ?_⟩
  · rw [Fifo.comPeek,Fifo.peek,hidle]
  · have hpeek : f.comPeek.2={f with tentativeReadPos := f.readPos+1} := by
      rw [Fifo.comPeek,Fifo.peek,hidle]
    rw [hpeek,Fifo.commitRead,if_pos hlt]
    rfl

end Schedule

section Examples

instance {α : Type} (f : Fifo α) : Decidable f.Idle :=
  inferInstanceAs (Decidable (f.tentativeReadPos=f.readPos))

instance (x : Port) : Decidable x.Idle :=
  inferInstanceAs (Decidable (∀ f, x.fifo=some f → f.Idle))

instance (s : Node) (p : Ref) : Decidable (s.OutIdle p) :=
  inferInstanceAs (Decidable (∀ x, s.portMem.get p=some x → x.direction=.dirOut → x.Idle))

instance (s : Node) (p : Ref) : Decidable (s.LocalOut p) :=
  inferInstanceAs (Decidable ((s.portMem.get p).any Port.localOut=true))

instance (o : TopOp) (s : Node) : Decidable (SwitchesIdle o s) :=
  inferInstanceAs (Decidable ((∀ p ∈ o.localizes s, s.OutIdle p) ∧
    ∀ r ∈ o.written s, s.LocalOut r.1 → r.2.Idle))

/-- A run in which no message changes the queue of a local out-port. -/
def Event.LeavesIdle (e : Event) (o : TopOp) (s : Node) : Prop :=
  SwitchesIdle o s ∧ ∀ r ∈ o.moved, s.LocalOut r.1 →
    e=.schedule ∧ ∀ x, s.portMem.get r.1=some x → ∀ f, x.fifo=some f → f.readPos+1 ≠ 0

instance (e : Event) (o : TopOp) (s : Node) : Decidable (e.LeavesIdle o s) :=
  inferInstanceAs (Decidable (SwitchesIdle o s ∧ ∀ r ∈ o.moved, s.LocalOut r.1 →
    e=.schedule ∧ ∀ x, s.portMem.get r.1=some x → ∀ f, x.fifo=some f → f.readPos+1 ≠ 0))

theorem Event.LeavesIdle.keeps {e : Event} {o : TopOp} {s : Node} (h : e.LeavesIdle o s) :
    e.KeepsIdle o s :=
  ⟨h.1,fun r hr hlocal => by rw [if_pos (h.2 r hr hlocal).1]; exact (h.2 r hr hlocal).2⟩

/-- A callback that writes one token to the only port of its actor. -/
def writesToken : Effect := ⟨true,none,[⟨4,1,0,0,[some [7],none,none,none]⟩],[],[]⟩

/-- An actor that sends a token to an actor of the same node. -/
def localTokens : List (Event × Fate) :=
  joining++[
    (.actorCreate (Message.actor "t" "a" [] [⟨"p",none,"q",none⟩]),.fresh 10),
    (.actorCreate (Message.actor "t" "b" [⟨"q",none,"p",none⟩] []),.fresh 11),
    (.schedule,{Fate.fresh 12 with effects := [writesToken]})]

theorem local_port_has_nothing_in_flight_after_pass :
    ∃ t x f, Runs (Event.step msgpack) (fun e s => Event.Admissible msgpack e.1.KeepsIdle e s)
      (.init bareHost) localTokens t ∧ t.portMem.get 0=some x ∧ x.fifo=some f ∧ f.readPos=1 ∧
      f.tentativeReadPos=f.readPos := by
  have hrun : (Event.runAll (fun e => Event.stepChecked msgpack e.1.LeavesIdle e) localTokens
      (.init bareHost)).any (fun t => (t.portMem.get 0).any fun x => x.localOut &&
        x.fifo.any fun f => decide (f.readPos=1))=true := by decide +kernel
  obtain ⟨t,ht,hend⟩ := exists_of_any hrun
  have hr := (Event.runs_of_stepCheckedBy msgpack ht).mono
    fun _ _ hok a u ops hrun => (hok a u ops hrun).mono fun _ _ h => h.keeps
  obtain ⟨x,hx,hport⟩ := exists_of_any hend
  rw [Bool.and_eq_true] at hport
  obtain ⟨f,hf,hread⟩ := exists_of_any hport.2
  have hlocal := hport.1
  simp only [Port.localOut,Bool.and_eq_true,decide_eq_true_eq,Option.isNone_iff_eq_none] at hlocal
  exact ⟨t,x,f,hr,hx,hf,of_decide_eq_true hread,
    (local_port_has_nothing_in_flight msgpack hr hx hlocal.1.1 hlocal.1.2 hlocal.2 hf).1⟩

/-- An actor whose token is on its way to another node when its peer arrives here. -/
def peerArrives : List (Event × Fate) :=
  joining++[
    (.actorCreate (Message.actor "t" "a" [] [⟨"p",none,"q",none⟩]),.fresh 10),
    (.message (Message.tunnelNew "rt" "tn"),.fresh 11),
    (.message (Message.portConnect "p" "tn"),.fresh 12),
    (.schedule,{Fate.fresh 13 with effects := [writesToken]}),
    (.actorCreate (Message.actor "t" "b" [⟨"q",none,"p",none⟩] []),.fresh 14)]

/-- The port is connected to its local peer with the token still in flight. -/
theorem local_port_with_token_in_flight :
    ∃ t x f, Runs (Event.step msgpack) (fun _ _ => True) (.init bareHost) peerArrives t ∧
      t.portMem.get 0=some x ∧ x.direction=.dirOut ∧ x.peerPort=some 1 ∧ x.tunnel=none ∧
      x.fifo=some f ∧ f.readPos=0 ∧ f.tentativeReadPos=1 := by
  have hrun : (Event.runAll (Event.step msgpack) peerArrives (.init bareHost)).any (fun t =>
      (t.portMem.get 0).any fun x => decide (x.direction=.dirOut ∧ x.peerPort=some 1 ∧
        x.tunnel=none) && x.fifo.any fun f => decide (f.readPos=0 ∧ f.tentativeReadPos=1))=true := by
    decide +kernel
  obtain ⟨t,ht,hend⟩ := exists_of_any hrun
  obtain ⟨x,hx,hport⟩ := exists_of_any hend
  rw [Bool.and_eq_true] at hport
  obtain ⟨hout,hpeer,htunnel⟩ := of_decide_eq_true hport.1
  obtain ⟨f,hf,hread⟩ := exists_of_any hport.2
  obtain ⟨hread,htentative⟩ := of_decide_eq_true hread
  exact ⟨t,x,f,Event.runs_of_step msgpack ht,hx,hout,hpeer,htunnel,hf,hread,htentative⟩

end Examples

end CalvinConstrained
