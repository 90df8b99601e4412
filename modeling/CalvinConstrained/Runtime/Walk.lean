import CalvinConstrained.Runtime.Event
import CalvinConstrained.Runtime.Frame

namespace CalvinConstrained

open Prog

theorem Prog.spec_look {ω α : Type} {apply : ω → Node → Option Node} {ok : ω → Node → Prop}
    {P : Node → Prop} (x : Atom α) :
    Spec ok P (look x : Prog apply α) fun a s => P s ∧ ∃ t, x s=some (a,t) := by
  refine spec_bind (spec_read (Q := fun a s => P s ∧ s=a) fun s hp => ⟨hp,rfl⟩) fun s => ?_
  split
  · next a t hx =>
    refine spec_pure a fun u hu => ⟨hu.1,t,?_⟩
    rw [hu.2,hx]
  · exact spec_undefined

namespace Atom

/-- An iteration of the loop that empties the list of actors makes it shorter. -/
theorem actorPop_length {s t : Node} (h : actorPop s=some ((),t)) :
    t.actors.length ≤ s.actors.length-1 := by
  obtain ⟨s',u,hs,h⟩ := bind_eq_some.mp h
  cases hs
  cases hl : s.actors with
  | nil =>
    simp only [hl] at h
    cases h
    simp [hl]
  | cons a rest =>
    simp only [hl] at h
    obtain ⟨⟨⟩,u,hu,h⟩ := bind_eq_some.mp h
    cases hu
    have hP : ∀ v w : Node, w.actors=v.actors → w.actorMem=v.actorMem → True → v.actors=rest →
        w.actors=rest := fun _ _ hw _ _ hv => hw.trans hv
    have hview : ∀ v w : Node, SameView (fun _ => ()) (fun _ => ()) v w → SameTunnels v w →
        v.actors=rest → w.actors=rest := fun v w hw _ hv => hw.actors.trans hv
    have hfree : Ensures (fun v => v.actors=rest) (actorFree a true) fun _ v =>
        v.actors.Sublist rest := by
      refine ensures_actorFree (preserves_callbackIfSet hview (fun _ _ _ => rfl)
        (fun _ _ => rfl) a) (preserves_closeOwn (view_objects hview) a) (fun x => ensures_mono
          (preserves_freePorts (M := fun _ _ => True) hP true x.ports) (fun _ h => h.1) fun _ _ h => h) ?_
      intro v b w hw hv
      obtain ⟨host,rfl⟩ := actorUnlink_eq hw
      exact hv ▸ List.eraseP_sublist
    have := (hfree _ _ _ h rfl).length_le
    simpa using this

end Atom

/-- What has to be shown of a property of a node so that it holds in every run. `J e p` is
the property while the actor `e` is under construction and its port `p` is in no list yet,
`K a` the property while the actor `a` may be out of step, and `R` what is left of it while
the node is reset. -/
structure Guarded (mp : Msgpuck) (ok : TopOp → Node → Prop)
    (J : Option Ref → Option Ref → Node → Prop) (K : Ref → Node → Prop) (R : Node → Prop) :
    Prop where
  init : ∀ h, J none none (.init h)
  base : ∀ {o s t e p}, ok (.base o) s → o.apply mp s=some t → J e p s → J e p t
  baseExempt : ∀ {o s t a}, ok (.base o) s → o.apply mp s=some t → K a s → K a t
  newActor : ∀ {type s r t}, ok (.newActor type) s →
    Atom.actorCreateFromType type s=some (r,t) → J none none s → J r none t
  createPort : ∀ {a direction d s r t}, ok (.build a (.createPort direction d)) s →
    Atom.portNew mp a direction d s=some (r,t) → J (some a) none s → J (some a) r t
  takeState : ∀ {a p value n s t}, ok (.build a (.takeState p value n)) s →
    Atom.portTakeState p value n s=some ((),t) → J (some a) (some p) s → J (some a) (some p) t
  freePort : ∀ {a p s t}, ok (.build a (.freePort p)) s →
    Atom.portFree p false s=some ((),t) → J (some a) (some p) s → J (some a) none t
  linkPort : ∀ {a direction p s b t}, ok (.build a (.linkPort direction p)) s →
    Atom.portLink a direction p s=some (b,t) → J (some a) (some p) s → J (some a) none t
  addActor : ∀ {a s b t}, ok (.addActor a) s → Atom.nodeAddActor a s=some (b,t) →
    J (some a) none s → if b then K a t ∧
      ∀ x, t.actorMem.get a=some x → x.state=.pendingImpl → J none none t
    else J (some a) none t
  freeNew : ∀ {a s t}, ok (.freeNew a) s → Atom.actorFree a false s=some ((),t) →
    J (some a) none s → J none none t
  exempt : ∀ {a s}, J none none s → K a s
  connect : ∀ a, Spec ok (K a) (Top.actorConnectPorts mp a) fun _ => J none none
  load : ∀ {a s b t}, ok (.load a) s → Atom.actorLoad a s=some (b,t) → J none none s → K a t
  sendBack : ∀ a, Spec ok (K a) (Top.actorSendBack mp a) fun _ => J none none
  forgetProxy : ∀ {s t}, ok .forgetProxy s → Atom.nodeForgetProxy s=some ((),t) →
    J none none s → J none none t
  reset : ∀ {s}, J none none s → R s
  pop : ∀ {s t}, ok .popActor s → Atom.actorPop s=some ((),t) → R s → R t
  emptied : ∀ {s}, R s → s.actors=[] → J none none s

namespace Guarded

variable {mp : Msgpuck} {ok : TopOp → Node → Prop} {J : Option Ref → Option Ref → Node → Prop}
  {K : Ref → Node → Prop} {R : Node → Prop} (g : Guarded mp ok J K R)

include g

theorem flow {α : Type} (m : Flow mp α) : Spec ok (J none none) m.toTop fun _ => J none none :=
  spec_lift _ (spec_of_invariant (fun _ _ _ hok hs hp => g.base hok hs hp) m)

theorem flowExempt {α : Type} (m : Flow mp α) (a : Ref) : Spec ok (K a) m.toTop fun _ => K a :=
  spec_lift _ (spec_of_invariant (fun _ _ _ hok hs hp => g.baseExempt hok hs hp) m)

/-- A flow inside the construction of an actor. -/
theorem flowBuild {α : Type} {a : Ref} (p : Option Ref) (m : Flow mp α) :
    Spec (fun o s => ok (o.toTop a) s) (J (some a) p) (m.toBuild (a := a)) fun _ =>
      J (some a) p :=
  spec_lift _ (spec_of_invariant (fun _ _ _ hok hs hp => g.base hok hs hp) m)

theorem describe (a : Ref) (id name : Option Bytes)
    (privateAttributes managedAttributes : List Attribute) (stateWas : StateWas) :
    Spec (fun o s => ok (o.toTop a) s) (J (some a) none)
      (Build.describe mp a id name privateAttributes managedAttributes stateWas) fun _ =>
        J (some a) none :=
  spec_act fun _ _ hs hok hp => g.base hok hs hp

theorem portReject (a p : Ref) :
    Spec (fun o s => ok (o.toTop a) s) (J (some a) (some p)) (Build.portReject mp a p)
      fun b => J (some a) (if b then some p else none) := by
  refine spec_bind (Q := fun _ => J (some a) none) (spec_act fun s t hs hok hp => ?_) fun _ =>
    spec_pure _ fun _ hp => hp
  obtain ⟨⟨⟨⟩,t'⟩,hf,he⟩ := Option.map_eq_some_iff.mp hs
  cases he
  exact g.freePort hok hf hp

theorem portFinish (a p : Ref) (objPort : Bytes) (n : Nat) :
    Spec (fun o s => ok (o.toTop a) s) (J (some a) (some p)) (Build.portFinish mp a p objPort n)
      fun b => J (some a) (if b then some p else none) := by
  refine spec_bind (spec_ofOption _) fun restored => ?_
  split
  · refine spec_bind (spec_ofOption _) fun value => ?_
    split
    · exact g.portReject a p
    · refine spec_bind (Q := fun _ => J (some a) (some p)) (spec_act fun s t hs hok hp => ?_)
        fun _ => spec_pure _ fun _ hp => hp
      obtain ⟨⟨⟨⟩,t'⟩,hf,he⟩ := Option.map_eq_some_iff.mp hs
      cases he
      exact g.takeState hok hf hp
  · refine spec_bind (spec_read (Q := fun _ => J (some a) (some p)) fun _ hp => hp) fun s => ?_
    split
    · exact spec_pure _ fun _ hp => hp
    · refine spec_bind (g.flowBuild (some p) _) fun r => ?_
      split
      · exact spec_pure _ fun _ hp => hp
      · exact g.portReject a p

theorem addPort (a : Ref) (objPort objPrevConnections : Bytes) (direction : PortDirection)
    (objConnectionList : Option Bytes) :
    Spec (fun o s => ok (o.toTop a) s) (J (some a) none)
      (Build.addPort mp a objPort objPrevConnections direction objConnectionList) fun _ =>
        J (some a) none := by
  refine spec_bind (spec_ofOption _) fun d => ?_
  split
  swap
  · exact spec_pure _ fun _ hp => hp
  refine spec_bind (Q := fun r => J (some a) r)
    (spec_perform _ fun s r t hs hok hp => g.createPort hok hs hp) fun r => ?_
  cases r with
  | none => exact spec_pure _ fun _ hp => hp
  | some p =>
    refine spec_bind (g.portFinish a p objPort _) fun b => ?_
    cases b with
    | true => exact spec_perform (fun _ => rfl) fun s b t hs hok hp => g.linkPort hok hs hp
    | false => exact spec_pure _ fun _ hp => hp

theorem actorCreatePorts (a : Ref) (objPorts objPrevConnections : Bytes)
    (direction : PortDirection) (objConnectionList : Option Bytes) :
    Spec (fun o s => ok (o.toTop a) s) (J (some a) none)
      (Build.actorCreatePorts mp a objPorts objPrevConnections direction objConnectionList)
      fun _ => J (some a) none := by
  refine spec_bind (spec_ofOption _) fun r => ?_
  obtain ⟨n,ports⟩ := r
  dsimp only
  induction n generalizing ports with
  | zero => exact spec_pure _ fun _ hp => hp
  | succ n ih =>
    refine spec_bind (spec_ofOption _) fun ports => ?_
    refine spec_bind (g.addPort a _ _ _ _) fun b => ?_
    split
    · exact spec_pure _ fun _ hp => hp
    · exact spec_bind (spec_ofOption _) fun r => spec_bind (spec_ofOption _) fun ports => ih ports

theorem actorBegin (a : Ref) (x : Actor) :
    Spec (fun o s => ok (o.toTop a) s) (J (some a) none) (Build.actorBegin mp a x) fun _ =>
      J (some a) none := by
  unfold Build.actorBegin
  split
  · exact spec_pure _ fun _ hp => hp
  · exact g.flowBuild none _

theorem actorShadow (a : Ref) (x : Actor) (objActorState objManaged : Bytes) :
    Spec (fun o s => ok (o.toTop a) s) (J (some a) none)
      (Build.actorShadow mp a x objActorState objManaged) fun _ => J (some a) none := by
  refine spec_bind (spec_ofOption _) fun replica => spec_bind (g.describe a _ _ _ _ _) fun _ =>
    spec_bind (spec_ofOption _) fun args => ?_
  split
  · exact spec_bind (g.flowBuild none _) fun r => spec_bind (g.describe a _ _ _ _ _) fun _ =>
      spec_pure _ fun _ hp => hp
  · exact spec_pure _ fun _ hp => hp

theorem actorStateFrom (a : Ref) (objActorState objManaged : Bytes) :
    Spec (fun o s => ok (o.toTop a) s) (J (some a) none)
      (Build.actorStateFrom mp a objActorState objManaged) fun _ => J (some a) none := by
  refine spec_bind (spec_mono (spec_look _) (fun _ h => h) fun _ _ h => h.1) fun x =>
    spec_bind (spec_ofOption _) fun shadow => ?_
  split
  · refine spec_bind (g.actorShadow a x _ _) fun b => ?_
    split
    · exact g.actorBegin a x
    · exact spec_pure _ fun _ hp => hp
  · exact spec_bind (g.describe a _ _ _ _ _) fun _ => g.actorBegin a x

theorem actorCalvinsys (a : Ref) (objPrivate : Bytes) :
    Spec (fun o s => ok (o.toTop a) s) (J (some a) none) (Build.actorCalvinsys mp a objPrivate)
      fun _ => J (some a) none := by
  refine spec_bind (spec_ofOption _) fun b => ?_
  split
  · refine spec_bind (spec_ofOption _) fun r => ?_
    split
    · exact g.flowBuild none _
    · exact spec_pure _ fun _ hp => hp
  · exact spec_pure _ fun _ hp => hp

theorem actorPorts (a : Ref) (objState objPrivate : Bytes) :
    Spec (fun o s => ok (o.toTop a) s) (J (some a) none)
      (Build.actorPorts mp a objState objPrivate) fun _ => J (some a) none := by
  have hgive : Spec (fun o s => ok (o.toTop a) s) (J (some a) none)
      (pure false : Build mp a Bool) fun _ => J (some a) none := spec_pure _ fun _ hp => hp
  refine spec_bind (spec_ofOption _) fun prev => ?_
  split
  swap
  · exact hgive
  refine spec_bind (spec_ofOption _) fun list => spec_bind (spec_ofOption _) fun type => ?_
  split
  · exact hgive
  refine spec_bind (spec_ofOption _) fun id => ?_
  split
  swap
  · exact hgive
  refine spec_bind (spec_ofOption _) fun master => ?_
  split
  · exact hgive
  refine spec_bind (spec_ofOption _) fun ports => ?_
  split
  swap
  · exact hgive
  refine spec_bind (g.actorCreatePorts a _ _ _ _) fun b => ?_
  split
  · exact hgive
  refine spec_bind (spec_ofOption _) fun ports => ?_
  split
  · exact g.actorCreatePorts a _ _ _ _
  · exact hgive

theorem actorStore (a : Ref) :
    Spec (fun o s => ok (o.toTop a) s) (J (some a) none) (Build.actorStore mp a) fun _ =>
      J (some a) none := by
  refine spec_bind (spec_read (Q := fun _ => J (some a) none) fun _ hp => hp) fun s => ?_
  split
  · exact spec_pure _ fun _ hp => hp
  · exact spec_bind (g.flowBuild none _) fun _ => spec_pure _ fun _ hp => hp

theorem actorFill (a : Ref) (objState : Bytes) :
    Spec (fun o s => ok (o.toTop a) s) (J (some a) none) (Build.actorFill mp a objState) fun _ =>
      J (some a) none := by
  have hgive : Spec (fun o s => ok (o.toTop a) s) (J (some a) none)
      (pure false : Build mp a Bool) fun _ => J (some a) none := spec_pure _ fun _ hp => hp
  refine spec_bind (spec_ofOption _) fun objActorState => ?_
  split
  swap
  · exact hgive
  refine spec_bind (spec_ofOption _) fun objPrivate => ?_
  split
  swap
  · exact hgive
  refine spec_bind (g.actorCalvinsys a _) fun b => ?_
  split
  · exact hgive
  refine spec_bind (spec_ofOption _) fun id => ?_
  split
  swap
  · exact hgive
  refine spec_bind (g.flowBuild none _) fun r => spec_bind (g.describe a _ _ _ _ _) fun _ => ?_
  split
  · exact hgive
  refine spec_bind (g.actorPorts a _ _) fun b => ?_
  split
  · exact hgive
  refine spec_bind (spec_ofOption _) fun objManaged => ?_
  split
  swap
  · exact hgive
  refine spec_bind (g.flowBuild none _) fun m => spec_bind (g.describe a _ _ _ _ _) fun _ => ?_
  split
  · exact hgive
  refine spec_bind (g.actorStateFrom a _ _) fun b => ?_
  split
  · exact hgive
  · exact g.actorStore a

theorem actorTidy (a : Ref) (b : Bool) :
    Spec (fun o s => ok (o.toTop a) s) (J (some a) none) (Build.actorTidy mp a b) fun _ =>
      J (some a) none := by
  have hlook : ∀ {α : Type} (x : Atom α), Spec (fun o s => ok (o.toTop a) s) (J (some a) none)
      (look x : Build mp a α) fun _ => J (some a) none :=
    fun x => spec_mono (spec_look x) (fun _ h => h) fun _ _ h => h.1
  exact spec_bind (hlook _) fun x => spec_bind (hlook _) fun _ => spec_bind (hlook _) fun _ =>
    spec_bind (hlook _) fun _ => g.describe a _ _ _ _ _

theorem actorReject (a : Ref) :
    Spec ok (J (some a) none) (Top.actorReject mp a) fun _ => J none none := by
  refine spec_bind (Q := fun _ => J none none) (spec_act fun s t hs hok hp => ?_) fun _ =>
    spec_pure _ fun _ hp => hp
  obtain ⟨⟨⟨⟩,t'⟩,hf,he⟩ := Option.map_eq_some_iff.mp hs
  cases he
  exact g.freeNew hok hf hp

/-- An actor that has entered the list of its node connects its ports. -/
theorem actorJoin (a : Ref) :
    Spec ok (fun s => K a s ∧ ∀ x, s.actorMem.get a=some x → x.state=.pendingImpl → J none none s)
      (Top.actorJoin mp a) fun _ => J none none := by
  refine spec_bind (spec_look _) fun x => ?_
  split
  · exact spec_mono (g.connect a) (fun s hp => hp.1.1) fun _ _ h => h
  · next hstate =>
    refine spec_pure _ fun s hp => ?_
    obtain ⟨⟨-,hjoin⟩,t,hx⟩ := hp
    obtain ⟨y,hy,he⟩ := Option.map_eq_some_iff.mp hx
    cases he
    exact hjoin x hy (not_not.mp hstate)

theorem actorFinish (a : Ref) (b : Bool) :
    Spec ok (J (some a) none) (Top.actorFinish mp a b) fun _ => J none none := by
  unfold Top.actorFinish
  split
  · exact g.actorReject a
  refine spec_bind (Q := fun b s => if b then K a s ∧
      ∀ x, s.actorMem.get a=some x → x.state=.pendingImpl → J none none s
    else J (some a) none s)
    (spec_perform _ fun s b t hs hok hp => g.addActor hok hs hp) fun b => ?_
  cases b with
  | true => exact spec_bind (g.actorJoin a) fun _ => spec_pure _ fun _ hp => hp
  | false => exact g.actorReject a

theorem actorCreate (root : Bytes) :
    Spec ok (J none none) (Top.actorCreate mp root) fun _ => J none none := by
  refine spec_bind (spec_ofOption _) fun objState => ?_
  split
  swap
  · exact spec_undefined
  refine spec_bind (spec_ofOption _) fun type => ?_
  split
  swap
  · exact spec_undefined
  refine spec_bind (Q := fun r => J r none)
    (spec_perform _ fun s r t hs hok hp => g.newActor hok hs hp) fun r => ?_
  cases r with
  | none => exact spec_pure _ fun _ hp => hp
  | some a =>
    refine spec_bind (Q := fun _ => J (some a) none) (spec_lift _ ?_) fun b => g.actorFinish a b
    exact spec_bind (g.actorFill a _) fun b => spec_bind (g.actorTidy a b) fun _ =>
      spec_pure _ fun _ hp => hp

theorem actorStartLoaded (a : Ref) :
    Spec ok (K a) (Top.actorStartLoaded mp a) fun _ => J none none := by
  refine spec_bind (g.flowExempt _ a) fun b => ?_
  split
  · exact spec_bind (g.flowExempt _ a) fun _ => g.connect a
  · exact g.sendBack a

theorem actorUpdatePending (a : Ref) (type : Text) (status : UInt32) :
    Spec ok (J none none) (Top.actorUpdatePending mp a type status) fun _ => J none none := by
  have hback := spec_mono (g.sendBack a) (fun _ => g.exempt) fun _ _ h => h
  refine spec_bind (spec_mono (spec_look _) (fun _ h => h) fun _ _ h => h.1) fun x => ?_
  split
  swap
  · exact spec_pure _ fun _ hp => hp
  split
  · exact hback
  refine spec_bind (Q := fun _ => K a)
    (spec_perform (fun _ => rfl) fun s b t hs hok hp => g.load hok hs hp) fun b => ?_
  split
  · exact g.actorStartLoaded a
  · exact g.sendBack a

theorem updatePendingLoop (type : Text) (status : UInt32) (n : Nat) (a : Option Ref) :
    Spec ok (J none none) (Top.updatePendingLoop mp type status n a) fun _ => J none none := by
  induction n generalizing a with
  | zero => cases a <;> exact spec_pure _ fun _ hp => hp
  | succ n ih =>
    cases a with
    | none => exact spec_pure _ fun _ hp => hp
    | some a =>
      refine spec_bind (g.actorUpdatePending a type status) fun _ =>
        spec_bind (spec_read (Q := fun _ => J none none) fun _ hp => hp) fun s => ?_
      dsimp only
      split
      · exact spec_bind (Q := fun _ => J none none) spec_undefined fun _ => ih _
      · exact ih _

theorem getCompiledActorReplyHandler (data : Bytes) :
    Spec ok (J none none) (Top.getCompiledActorReplyHandler mp data) fun _ => J none none := by
  have hgive : Spec ok (J none none) (pure .fail : Top mp Result) fun _ => J none none :=
    spec_pure _ fun _ hp => hp
  refine spec_bind (g.flow _) fun v => ?_
  split
  swap
  · exact hgive
  refine spec_bind (g.flow _) fun v => ?_
  split
  swap
  · exact hgive
  refine spec_bind (g.flow _) fun status => ?_
  split
  swap
  · exact hgive
  refine spec_bind (g.flow _) fun objData => ?_
  split
  swap
  · exact hgive
  refine spec_bind (g.flow _) fun type => ?_
  split
  swap
  · exact hgive
  exact spec_bind (spec_read (Q := fun _ => J none none) fun _ hp => hp) fun s =>
    spec_bind (g.updatePendingLoop _ _ _ _) fun _ => spec_pure _ fun _ hp => hp

theorem replyHandler (m : PendingMsg) (data : Bytes) :
    Spec ok (J none none) (Top.replyHandler mp m data) fun _ => J none none := by
  unfold Top.replyHandler
  split
  case h_10 => exact g.getCompiledActorReplyHandler data
  all_goals first
    | exact g.flow _
    | exact spec_pure _ fun _ hp => hp

theorem handleReply (msgUuid data : Bytes) (unknown : Result) :
    Spec ok (J none none) (Top.handleReply mp msgUuid data unknown) fun _ => J none none := by
  refine spec_bind (spec_mono (spec_look _) (fun _ h => h) fun _ _ h => h.1) fun m => ?_
  split
  · exact spec_pure _ fun _ hp => hp
  · exact spec_bind (g.replyHandler _ data) fun r => spec_bind (g.flow _) fun _ =>
      spec_pure _ fun _ hp => hp

theorem parseReply (data : Bytes) :
    Spec ok (J none none) (Top.parseReply mp data) fun _ => J none none := by
  refine spec_bind (g.flow _) fun tmp => ?_
  split
  · exact spec_bind (spec_ofOption _) fun msgUuid => g.handleReply _ _ _
  · exact spec_pure _ fun _ hp => hp

theorem parseTunnelData (root : Bytes) :
    Spec ok (J none none) (Top.parseTunnelData mp root) fun _ => J none none := by
  have hgive : Spec ok (J none none) (pure .fail : Top mp Result) fun _ => J none none :=
    spec_pure _ fun _ hp => hp
  refine spec_bind (g.flow _) fun v => ?_
  split
  swap
  · exact hgive
  refine spec_bind (spec_ofOption _) fun isReply => ?_
  split
  · refine spec_bind (g.flow _) fun tmp => ?_
    split
    · exact spec_bind (spec_ofOption _) fun msgUuid => g.handleReply _ _ _
    · exact hgive
  refine spec_bind (spec_ofOption _) fun isCmd => ?_
  split
  swap
  · exact hgive
  refine spec_bind (g.flow _) fun cmd => ?_
  split
  swap
  · exact hgive
  split
  · exact g.flow _
  split
  · exact g.flow _
  split
  · exact g.flow _
  · exact hgive

theorem parseActorNew (root : Bytes) :
    Spec ok (J none none) (Top.parseActorNew mp root) fun _ => J none none := by
  have hgive : Spec ok (J none none) (pure .fail : Top mp Result) fun _ => J none none :=
    spec_pure _ fun _ hp => hp
  refine spec_bind (g.flow _) fun fromRtUuid => ?_
  split
  swap
  · exact hgive
  refine spec_bind (g.flow _) fun tmp => ?_
  split
  swap
  · exact hgive
  exact spec_bind (spec_ofOption _) fun msgUuid => spec_bind (g.actorCreate root) fun a => g.flow _

theorem commandHandlers (c : Bytes × (Bytes → Top mp Result))
    (hc : c ∈ Top.commandHandlers mp) (data : Bytes) :
    Spec ok (J none none) (c.2 data) fun _ => J none none := by
  simp only [Top.commandHandlers,List.mem_cons,List.not_mem_nil,or_false] at hc
  obtain rfl | rfl | rfl | hc := hc
  · exact g.parseReply data
  · exact g.parseTunnelData data
  · exact g.parseActorNew data
  · obtain rfl | rfl | rfl | rfl | rfl | rfl := hc
    on_goal 6 => exact spec_undefined
    all_goals exact g.flow _

theorem parseMessage (data : Bytes) :
    Spec ok (J none none) (Top.parseMessage mp data) fun _ => J none none := by
  have hgive : Spec ok (J none none) (pure .fail : Top mp Result) fun _ => J none none :=
    spec_pure _ fun _ hp => hp
  refine spec_bind (spec_read (Q := fun _ => J none none) fun _ hp => hp) fun s => ?_
  split
  · exact spec_undefined
  split
  · exact hgive
  refine spec_bind (g.flow _) fun cmd => ?_
  split
  swap
  · exact hgive
  split
  · next hfind => exact g.commandHandlers _ (List.mem_of_find?_eq_some hfind) data
  refine spec_bind (g.flow _) fun tmp => ?_
  split
  swap
  · exact hgive
  refine spec_bind (spec_ofOption _) fun msgUuid => spec_bind (g.flow _) fun fromRtUuid => ?_
  split
  · exact g.flow _
  · exact hgive

theorem handleMessage (data : Bytes) :
    Spec ok (J none none) (Top.handleMessage mp data) fun _ => J none none := by
  refine spec_bind (g.parseMessage data) fun r => ?_
  split
  · refine spec_bind (spec_read (Q := fun _ => J none none) fun _ hp => hp) fun s => ?_
    dsimp only
    split
    · exact g.flow _
    · exact spec_pure _ fun _ hp => hp
  · exact spec_pure _ fun _ hp => hp

theorem actForgetProxy :
    Spec ok (J none none) (act .forgetProxy : Top mp Unit) fun _ => J none none := by
  refine spec_act fun s t hs hok hp => ?_
  obtain ⟨⟨⟨⟩,t'⟩,hf,he⟩ := Option.map_eq_some_iff.mp hs
  cases he
  exact g.forgetProxy hok hf hp

theorem nodeConnectStart : Spec ok (J none none) (Top.nodeConnectStart mp) fun _ => J none none := by
  refine spec_bind (spec_read (Q := fun _ => J none none) fun _ hp => hp) fun s => ?_
  split
  · exact spec_undefined
  split
  swap
  · exact spec_pure _ fun _ hp => hp
  refine spec_bind (spec_mono (spec_look _) (fun _ h => h) fun _ _ h => h.1) fun b => ?_
  split
  · exact spec_bind g.actForgetProxy fun _ => g.flow _
  · exact g.flow _

theorem actorConnectPorts (a : Ref) :
    Spec ok (J none none) (Top.actorConnectPorts mp a) fun _ => J none none :=
  spec_mono (g.connect a) (fun _ => g.exempt) fun _ _ h => h

theorem nodeConnectDone : Spec ok (J none none) (Top.nodeConnectDone mp) fun _ => J none none := by
  refine spec_bind (spec_read (Q := fun _ => J none none) fun _ hp => hp) fun s => ?_
  split
  · exact spec_each fun a _ => g.actorConnectPorts a
  · exact spec_pure _ fun _ hp => hp

theorem restoreAll {restore : Bytes → Top mp Bool}
    (h : ∀ b, Spec ok (J none none) (restore b) fun _ => J none none) (buffer : Bytes)
    (key : String) :
    Spec ok (J none none) (Top.restoreAll mp restore buffer key) fun _ => J none none := by
  have heach : ∀ array n i,
      Spec ok (J none none) (Top.restoreEach mp restore array n i) fun _ => J none none := by
    intro array n
    induction n with
    | zero => exact fun i => spec_pure _ fun _ hp => hp
    | succ n ih =>
      intro i
      refine spec_bind (spec_ofOption _) fun v => ?_
      split
      · exact ih _
      · refine spec_bind (h _) fun b => ?_
        split
        · exact spec_pure _ fun _ hp => hp
        · exact ih _
  refine spec_bind (spec_ofOption _) fun b => ?_
  split
  · exact spec_pure _ fun _ hp => hp
  refine spec_bind (g.flow _) fun array => ?_
  split
  · exact spec_bind (spec_ofOption _) fun n => heach _ _ _
  · exact spec_pure _ fun _ hp => hp

theorem nodeGetState (buffer : Bytes) :
    Spec ok (J none none) (Top.nodeGetState mp buffer) fun _ => J none none := by
  refine spec_bind (g.flow _) fun id => ?_
  split
  swap
  · exact spec_pure _ fun _ hp => hp
  refine spec_bind (spec_ofOption _) fun id => spec_bind (g.flow _) fun _ =>
    spec_bind (g.flow _) fun _ => spec_bind (g.restoreAll (fun b => g.flow _) _ _) fun b => ?_
  split
  · exact spec_pure _ fun _ hp => hp
  refine spec_bind (g.restoreAll (fun b => g.flow _) _ _) fun b => ?_
  split
  · exact spec_pure _ fun _ hp => hp
  · exact g.restoreAll (fun b => spec_bind (g.actorCreate b) fun _ => spec_pure _ fun _ hp => hp)
      _ _

theorem popActors (n : Nat) :
    Spec ok (fun s => R s ∧ s.actors.length ≤ n) (Top.popActors mp n) fun _ => J none none := by
  induction n with
  | zero =>
    refine spec_pure _ fun s hp => g.emptied hp.1 ?_
    exact List.length_eq_zero_iff.mp (Nat.le_zero.mp hp.2)
  | succ n ih =>
    refine spec_bind (spec_act fun s t hs hok hp => ?_) fun _ => ih
    obtain ⟨⟨⟨⟩,t'⟩,hf,he⟩ := Option.map_eq_some_iff.mp hs
    cases he
    exact ⟨g.pop hok hf hp.1,Nat.le_trans (Atom.actorPop_length hf) (Nat.sub_le_of_le_add hp.2)⟩

theorem nodeReset : Spec ok (J none none) (Top.nodeReset mp) fun _ => J none none := by
  refine spec_bind (spec_read (Q := fun a s => J none none s ∧ s=a) fun s hp => ⟨hp,rfl⟩)
    fun s => spec_bind (Q := fun _ => J none none) ?_ fun _ =>
      spec_bind g.actForgetProxy fun _ => g.flow _
  refine spec_mono (g.popActors s.actors.length) (fun t hp => ⟨g.reset hp.1,?_⟩) fun _ _ h => h
  exact Nat.le_of_eq (congrArg (fun u : Node => u.actors.length) hp.2)

theorem nodeSetup (file : Option Bytes) :
    Spec ok (J none none) (Top.nodeSetup mp file) fun _ => J none none := by
  cases file with
  | none => exact g.flow _
  | some buffer =>
    refine spec_bind (g.nodeGetState buffer) fun b => ?_
    split
    · exact spec_bind g.nodeReset fun _ => g.flow _
    · exact spec_pure _ fun _ hp => hp

omit g in
theorem needActor (a : Ref) : Spec ok (J none none) (Event.needActor mp a) fun _ => J none none := by
  refine spec_bind (spec_read (Q := fun _ => J none none) fun _ hp => hp) fun s => ?_
  split
  · exact spec_undefined
  · exact spec_pure _ fun _ hp => hp

omit g in
theorem needPort (p : Ref) : Spec ok (J none none) (Event.needPort mp p) fun _ => J none none := by
  refine spec_bind (spec_mono (spec_look _) (fun _ h => h) fun _ _ h => h.1) fun x =>
    spec_bind (needActor _) fun _ =>
      spec_bind (spec_mono (spec_look _) (fun _ h => h) fun _ _ h => h.1) fun y => ?_
  split
  · exact spec_undefined
  · exact spec_pure _ fun _ hp => hp

theorem actBase (o : Op) : Spec ok (J none none) (act (.base o) : Top mp Unit) fun _ => J none none :=
  spec_act fun _ _ hs hok hp => g.base hok hs hp

theorem program (e : Event) : Spec ok (J none none) (e.program mp) fun _ => J none none := by
  cases e with
  | start file =>
    refine spec_bind (spec_read (Q := fun _ => J none none) fun _ hp => hp) fun s => ?_
    dsimp only
    split
    · exact spec_bind (Q := fun _ => J none none) spec_undefined fun _ => g.nodeSetup file
    · exact g.nodeSetup file
  | message data => exact g.handleMessage data
  | transport client => exact g.flow _
  | connectStart => exact g.nodeConnectStart
  | connectSetup newProxy => exact g.flow _
  | connectDone => exact g.nodeConnectDone
  | schedule => exact g.flow _
  | stop => exact g.flow _
  | enterSleep => exact g.flow _
  | actorCreate root => exact spec_bind (g.actorCreate root) fun _ => spec_pure _ fun _ hp => hp
  | actorConnectPorts a => exact spec_bind (needActor a) fun _ => g.actorConnectPorts a
  | actorFree a removeFromRegistry => exact g.actBase _
  | portConnect p => exact spec_bind (needPort p) fun _ => g.flow _
  | portConnectLocal p =>
    exact spec_bind (needPort p) fun _ => spec_bind (g.flow _) fun _ => spec_pure _ fun _ hp => hp
  | portDisconnect p => exact spec_bind (needPort p) fun _ => g.actBase _

theorem step {e : Event × Fate} {s t : Node} (hok : Event.Admissible mp ok e s)
    (hs : Event.step mp e s=some t) (hp : J none none s) : J none none t := by
  obtain ⟨⟨⟨⟩,t',ops⟩,hrun,he⟩ := Option.map_eq_some_iff.mp hs
  cases he
  have hspec := spec_bind (g.flow (Flow.host (Atom.modifyHost fun h => {h with fate := e.2})))
    fun _ => g.program e.1
  exact hspec s () t' ops hrun (hok () t' ops hrun) hp

/-- The property holds in every state that the node reaches by admissible events. -/
theorem reachable {h : Host} {es : List (Event × Fate)} {t : Node}
    (hr : Runs (Event.step mp) (Event.Admissible mp ok) (.init h) es t) : J none none t :=
  hr.invariant (J none none) (fun _ _ _ hok hs hp => g.step hok hs hp) (g.init h)

end Guarded

/-- A property that no step puts out of step needs no exemption. -/
structure Steady (mp : Msgpuck) (ok : TopOp → Node → Prop)
    (J : Option Ref → Option Ref → Node → Prop) (R : Node → Prop) : Prop where
  init : ∀ h, J none none (.init h)
  base : ∀ {o s t e p}, ok (.base o) s → o.apply mp s=some t → J e p s → J e p t
  newActor : ∀ {type s r t}, ok (.newActor type) s →
    Atom.actorCreateFromType type s=some (r,t) → J none none s → J r none t
  createPort : ∀ {a direction d s r t}, ok (.build a (.createPort direction d)) s →
    Atom.portNew mp a direction d s=some (r,t) → J (some a) none s → J (some a) r t
  takeState : ∀ {a p value n s t}, ok (.build a (.takeState p value n)) s →
    Atom.portTakeState p value n s=some ((),t) → J (some a) (some p) s → J (some a) (some p) t
  freePort : ∀ {a p s t}, ok (.build a (.freePort p)) s →
    Atom.portFree p false s=some ((),t) → J (some a) (some p) s → J (some a) none t
  linkPort : ∀ {a direction p s b t}, ok (.build a (.linkPort direction p)) s →
    Atom.portLink a direction p s=some (b,t) → J (some a) (some p) s → J (some a) none t
  addActor : ∀ {a s b t}, ok (.addActor a) s → Atom.nodeAddActor a s=some (b,t) →
    J (some a) none s → J (if b then none else some a) none t
  freeNew : ∀ {a s t}, ok (.freeNew a) s → Atom.actorFree a false s=some ((),t) →
    J (some a) none s → J none none t
  assign : ∀ {a state s t}, state ≠ .doDelete → ok (.assign a state) s →
    Atom.actorSetState a state s=some ((),t) → J none none s → J none none t
  load : ∀ {a s b t}, ok (.load a) s → Atom.actorLoad a s=some (b,t) → J none none s →
    J none none t
  forgetProxy : ∀ {s t}, ok .forgetProxy s → Atom.nodeForgetProxy s=some ((),t) →
    J none none s → J none none t
  reset : ∀ {s}, J none none s → R s
  pop : ∀ {s t}, ok .popActor s → Atom.actorPop s=some ((),t) → R s → R t
  emptied : ∀ {s}, R s → s.actors=[] → J none none s

namespace Steady

variable {mp : Msgpuck} {ok : TopOp → Node → Prop} {J : Option Ref → Option Ref → Node → Prop}
  {R : Node → Prop}

theorem guarded (k : Steady mp ok J R) : Guarded mp ok J (fun _ => J none none) R where
  init := k.init
  base := k.base
  baseExempt := k.base
  newActor := k.newActor
  createPort := k.createPort
  takeState := k.takeState
  freePort := k.freePort
  linkPort := k.linkPort
  addActor := by
    intro a s b t hok hs hp
    have ht := k.addActor hok hs hp
    cases b with
    | true => exact ⟨ht,fun _ _ _ => ht⟩
    | false => exact ht
  freeNew := k.freeNew
  exempt := id
  connect := by
    intro a
    refine spec_bind (Q := fun _ => J none none) (spec_act fun s t hs _ hp => ?_) fun _ =>
      spec_bind (spec_mono (spec_look _) (fun _ h => h) fun _ _ h => h.1) fun x =>
        spec_bind (spec_lift _ (spec_of_invariant (fun _ _ _ hok hs hp => k.base hok hs hp) _))
          fun b => spec_act fun s t hs hok hp => ?_
    · cases hs
      exact hp
    · obtain ⟨⟨⟨⟩,t'⟩,hf,he⟩ := Option.map_eq_some_iff.mp hs
      cases he
      exact k.assign (by split <;> decide) hok hf hp
  load := k.load
  sendBack := by
    intro a
    refine spec_bind (Q := fun _ => J none none) (spec_act fun s t hs _ hp => ?_) fun _ =>
      spec_lift _ (spec_of_invariant (fun _ _ _ hok hs hp => k.base hok hs hp) _)
    cases hs
    exact hp
  forgetProxy := k.forgetProxy
  reset := k.reset
  pop := k.pop
  emptied := k.emptied

end Steady

end CalvinConstrained
