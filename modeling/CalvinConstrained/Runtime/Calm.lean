import CalvinConstrained.Runtime.Touch
import CalvinConstrained.Runtime.Walk

namespace CalvinConstrained

open Prog

/-- A relation between hosts that sending messages and changing calvinsys objects stays
within, step after step. -/
class Host.Follows (M : Host → Host → Prop) : Prop extends Host.AdmitsObjects M where
  trans : ∀ {h k l : Host}, M h k → M k l → M h l

/-- The operation moves the host within `M` and frees no actor of the node. -/
def Op.Calm (M : Host → Host → Prop) : Op → Node → Prop
  | .host h,s => M s.host h
  | .freeActor _ _,_ => False
  | _,_ => True

def BuildOp.Calm (M : Host → Host → Prop) : BuildOp → Node → Prop
  | .base o,s => o.Calm M s
  | _,_ => True

theorem Op.Calm.moves {M : Host → Host → Prop} {op : Op} {s : Node} (hok : op.Calm M s) {h : Host}
    (ho : op=.host h) : M s.host h := by
  subst ho
  exact hok

section Atoms

variable {M : Host → Host → Prop} [Host.AdmitsObjects M] {P : Node → Prop}
  (hP : ∀ s t, t.actors=s.actors → M s.host t.host → P s → P t)

include hP

omit [Host.AdmitsObjects M] in
theorem calm_view (s t : Node) (h : SameViewBy M (fun _ : Port => ()) (fun _ : Actor => ()) s t)
    (_ : SameTunnels s t) (hp : P s) : P t := hP s t h.actors h.host hp

theorem calm_graph (s t : Node) (h : SameGraph s t) (hp : P s) : P t :=
  hP s t h.2.2.1 (Host.Admits.moves h.2.2.2) hp

theorem calm_rules : Atom.PeerRules (fun _ => True) P where
  port p _ := {
    graph := calm_graph hP
    setState := Atom.preserves_portSetState_view (calm_view hP) (fun _ _ _ => rfl) (fun _ _ => rfl) p
    tunnel := fun _ => Atom.preserves_updatePort (calm_view hP) p fun _ => rfl
    peerId := fun _ => Atom.preserves_updatePort (calm_view hP) p fun _ => rfl
    fifo := Atom.preserves_portFifoCancel (calm_view hP) (fun _ _ => rfl) p}
  peer p _ _ _ _ := Atom.preserves_updatePort (calm_view hP) p fun _ => rfl
  clear p _ := Atom.preserves_updatePort (calm_view hP) p fun _ => rfl

theorem calm_setActorState (a : Ref) (state : ActorState) :
    Preserves P (Atom.actorSetState a state) :=
  ensures_bind (Atom.ensures_actor a) fun _ => Atom.ensures_setActor (calm_view hP) rfl

/-- A calm operation keeps what depends on the list of actors and, up to `M`, on the host. -/
theorem Op.calm_preserves {mp : Msgpuck} {op : Op} {s t : Node} (hok : op.Calm M s)
    (hs : op.apply mp s=some t) (hp : P s) : P t := by
  have hrules := calm_rules hP
  cases hquiet : op.quiet with
  | true =>
    exact Op.quiet_preserves (f := fun _ => ()) (g := fun _ => ()) hquiet
      (fun s t h => hP s t h.actors h.host) (fun _ => hok.moves) (fun _ _ _ _ => rfl)
      (fun _ _ _ => rfl) hs hp
  | false =>
    by_cases hactor : ∃ a, op=.disconnectActor a
    · obtain ⟨a,rfl⟩ := hactor
      refine preserves_state hs (preserves_bind (preserves_bind (Atom.preserves_actor a) fun x => ?_)
        fun _ => calm_setActorState hP a _) hp
      exact hrules.disconnectEach true (fun _ _ => trivial) fun _ _ _ _ _ _ _ _ => trivial
    · have hfree : ∀ a b, op ≠ .freeActor a b := by
        rintro a b rfl
        exact hok
      exact Op.sets_preserves hrules (fun p => (hrules.port p trivial).detach) (calm_graph hP)
        (fun _ _ _ _ _ _ => ⟨trivial,trivial⟩) (fun _ _ _ _ _ _ _ _ => trivial)
        (fun _ _ => trivial) hquiet hfree (fun a ha => hactor ⟨a,ha⟩) hs hp

theorem calm_portTakeState (p : Ref) (value : UInt32) (n : Nat) :
    Preserves P (Atom.portTakeState p value n) := by
  refine preserves_bind (Atom.preserves_updatePort (calm_view hP) p fun _ => rfl) fun _ =>
    preserves_bind (Atom.preserves_port p) fun x => ?_
  split
  · exact (calm_rules hP).restore n trivial fun _ _ _ _ => trivial
  · exact preserves_pure _

theorem calm_portLink (a : Ref) (direction : PortDirection) (p : Ref) :
    Preserves P (Atom.portLink a direction p) := by
  refine preserves_bind (Atom.preserves_alloc (Atom.view_host (calm_view hP))) fun b => ?_
  split
  · exact preserves_pure _
  · exact ensures_bind (Atom.ensures_actor a) fun x =>
      ensures_bind (Atom.ensures_setActor (calm_view hP) rfl) fun _ => preserves_pure _

theorem BuildOp.calm_preserves {mp : Msgpuck} {a : Ref} {op : BuildOp} {s t : Node}
    (hok : op.Calm M s) (hs : op.apply mp a s=some t) (hp : P s) : P t := by
  cases op with
  | base o => exact Op.calm_preserves hP hok hs hp
  | createPort direction d =>
    exact preserves_state hs (Atom.preserves_portNew (fun s t h _ => hP s t h) mp a direction d) hp
  | takeState p value n => exact preserves_state hs (calm_portTakeState hP p value n) hp
  | freePort p =>
    exact preserves_state hs (Atom.preserves_portFree (fun s t h _ => hP s t h) false p) hp
  | linkPort direction p => exact preserves_state hs (calm_portLink hP a direction p) hp

theorem calm_actorCreateFromType (type : Text) : Preserves P (Atom.actorCreateFromType type) := by
  refine Atom.preserves_actorCreateFromType (Atom.view_host (calm_view hP)) ?_ type
  intro name state loaded instanceState _ s a t hr hp
  cases hr
  exact hP s _ rfl (Host.Admits.moves .refl) hp

end Atoms

section Freeing

variable {M : Host → Host → Prop} [Host.AdmitsObjects M] {P : Node → Prop}
  (hP : ∀ s t, M s.host t.host → P s → P t)

include hP

/-- Freeing an actor keeps what depends on the host alone. -/
theorem actorFree_calm (a : Ref) (removeFromRegistry : Bool) :
    Preserves P (Atom.actorFree a removeFromRegistry) := by
  have hview := calm_view (M := M) (P := P) fun s t _ => hP s t
  have hh := Atom.view_host hview
  refine Atom.ensures_actorFree (Q := P)
    (Atom.preserves_callbackIfSet hview (fun _ _ _ => rfl) (fun _ _ => rfl) a)
    (Atom.preserves_closeOwn (Atom.view_objects hview) a) (fun x => ?_) ?_
  · exact ensures_mono (Atom.preserves_freePorts (fun s t _ _ => hP s t) _ _) (fun _ h => h.1)
      fun _ _ h => h
  · have hdone : Preserves P (modify fun s => {s with actorMem := s.actorMem.free a}) :=
      preserves_modify fun s hp => hP s _ (Host.Admits.moves .refl) hp
    have hremove : ∀ id, Preserves P (do
        let actors ← Atom.listRemove Atom.actorId id (← get).actors
        modify fun s => {s with actors := actors}
        modify fun s => {s with actorMem := s.actorMem.free a} : Atom Unit) := by
      intro id
      refine preserves_bind preserves_get fun s => preserves_bind (Atom.preserves_listRemove ?_ _ _)
        fun actors => preserves_bind (preserves_modify fun s hp => hP s _ (Host.Admits.moves .refl) hp)
          fun _ => hdone
      intro r
      refine preserves_bind (Atom.preserves_actor r) fun x => ?_
      split
      · exact Atom.preserves_undefined
      · exact preserves_pure _
    refine preserves_bind (Atom.preserves_actor a) fun x => ?_
    split
    · exact hdone
    · split
      · exact preserves_bind (Atom.preserves_sendRemoveActor hh _) fun _ => hremove _
      · exact hremove _

end Freeing

section Hosts

variable {P : Node → Prop} (hh : ∀ s h, s.host.Moves h → P s → P {s with host := h})

include hh

theorem preserves_sendSetPort (p : Ref) : Preserves P (Atom.sendSetPort p) := by
  refine preserves_bind Atom.preserves_needTransport fun _ => preserves_bind
    Atom.preserves_needStorage fun _ => preserves_bind (Atom.preserves_port p) fun x =>
      preserves_bind (preserves_bind (Atom.preserves_actor _) fun y => ?_) fun _ =>
        Atom.preserves_request hh rfl (by decide)
  split
  · exact Atom.preserves_undefined
  · exact preserves_pure _

theorem preserves_sendSetActor (a : Ref) : Preserves P (Atom.sendSetActor a) := by
  refine preserves_bind Atom.preserves_needTransport fun _ => preserves_bind
    Atom.preserves_needStorage fun _ => preserves_bind (Atom.preserves_actor a) fun x => ?_
  split
  · exact Atom.preserves_undefined
  · exact Atom.preserves_request hh rfl (by decide)

theorem preserves_sendPortConnect (p : Ref) : Preserves P (Atom.sendPortConnect p) := by
  refine preserves_bind Atom.preserves_needTransport fun _ =>
    preserves_bind (Atom.preserves_port p) fun x => ?_
  split
  · exact Atom.preserves_undefined
  · exact preserves_bind (Atom.preserves_tunnel _) fun _ => Atom.preserves_request hh rfl (by decide)

theorem preserves_sendGetPort (p : Ref) : Preserves P (Atom.sendGetPort p) :=
  preserves_bind Atom.preserves_needTransport fun _ => preserves_bind Atom.preserves_needStorage
    fun _ => preserves_bind (Atom.preserves_port p) fun _ =>
      Atom.preserves_request hh rfl (by decide)

theorem preserves_attributeField (mp : Msgpuck) (attr : Text) (data : Bytes) (key : String)
    (old : Option Bytes) : Preserves P (Atom.attributeField mp attr data key old) := by
  unfold Atom.attributeField
  split
  · refine preserves_bind (Atom.preserves_ofOption _) fun tmp => ?_
    split
    · refine preserves_bind (Atom.preserves_alloc hh) fun b => ?_
      split <;> exact preserves_pure _
    · exact preserves_pure _
  · exact preserves_pure _

theorem preserves_attributesLoop (mp : Msgpuck) (privateOnly : Bool) (n : Nat) (managed : Bytes)
    (acc : Attributes) : Preserves P (Atom.attributesLoop mp privateOnly n managed acc) := by
  induction n generalizing managed acc with
  | zero => exact preserves_pure _
  | succ n ih =>
    refine preserves_bind (Atom.preserves_ofOption _) fun key => ?_
    split
    swap
    · exact preserves_pure _
    refine preserves_bind (Atom.preserves_ofOption _) fun data => ?_
    split
    · exact preserves_bind (Atom.preserves_ofOption _) fun _ => ih _ _
    refine preserves_bind (Atom.preserves_ofOption _) fun size =>
      preserves_bind (Atom.preserves_alloc hh) fun b => ?_
    split
    · exact preserves_pure _
    refine preserves_bind (Atom.preserves_ofOption _) fun rest =>
      preserves_bind (preserves_attributeField hh mp _ _ _ _) fun id => ?_
    split
    split
    · exact preserves_pure _
    refine preserves_bind (preserves_attributeField hh mp _ _ _ _) fun name => ?_
    split
    split
    · exact preserves_pure _
    refine preserves_bind (Atom.preserves_allocN hh 2) fun b => ?_
    split
    · exact preserves_pure _
    · exact ih _ _

theorem preserves_actorGetAttributes (mp : Msgpuck) (objManaged : Bytes) (items : List Attribute)
    (id name : Option Bytes) (privateOnly : Bool) :
    Preserves P (Atom.actorGetAttributes mp objManaged items id name privateOnly) :=
  preserves_bind (Atom.preserves_ofOption _) fun _ => preserves_attributesLoop hh mp _ _ _ _

theorem preserves_calvinsysArgs (mp : Msgpuck) (n : Nat) (args : Bytes) :
    Preserves P (Atom.calvinsysArgs mp n args) := by
  induction n generalizing args with
  | zero => exact preserves_pure _
  | succ n ih =>
    refine preserves_bind (Atom.preserves_ofOption _) fun key => ?_
    split
    swap
    · exact preserves_pure _
    refine preserves_bind (Atom.preserves_ofOption _) fun args =>
      preserves_bind (Atom.preserves_ofOption _) fun args =>
        preserves_bind (Atom.preserves_allocN hh 2) fun b => ?_
    split
    · exact preserves_pure _
    · exact ih _

variable (ho : ∀ s os, P s → P {s with host := {s.host with objects := os}})

include ho

theorem preserves_calvinsysDeserializeObject (mp : Msgpuck) (a : Ref) (key : Text)
    (buffer : Bytes) : Preserves P (Atom.calvinsysDeserializeObject mp a key buffer) := by
  refine preserves_bind (Atom.preserves_ofOption _) fun name => ?_
  split
  swap
  · exact preserves_pure _
  refine preserves_bind preserves_get fun s => ?_
  split
  swap
  · exact preserves_pure _
  split
  · exact preserves_pure _
  refine preserves_bind (Atom.preserves_allocN hh 3) fun b => ?_
  split
  · exact preserves_pure _
  refine preserves_bind (Atom.preserves_effect hh) fun e =>
    preserves_bind (Atom.preserves_setObjects ho _) fun _ =>
      preserves_bind (Atom.preserves_ofOption _) fun args => ?_
  split
  swap
  · exact preserves_pure _
  refine preserves_bind (Atom.preserves_ofOption _) fun type => ?_
  split
  · refine preserves_bind (Atom.preserves_ofOption _) fun r =>
      preserves_bind (preserves_calvinsysArgs hh mp _ _) fun b => ?_
    split <;> exact preserves_pure _
  · exact preserves_pure _

theorem preserves_calvinsysDeserialize (mp : Msgpuck) (a : Ref) (buffer : Bytes) :
    Preserves P (Atom.calvinsysDeserialize mp a buffer) := by
  refine preserves_bind (Atom.preserves_ofOption _) fun r => ?_
  obtain ⟨n,buffer⟩ := r
  dsimp only
  induction n generalizing buffer with
  | zero => exact preserves_pure _
  | succ n ih =>
    refine preserves_bind (Atom.preserves_ofOption _) fun key => ?_
    split
    swap
    · exact preserves_pure _
    refine preserves_bind (Atom.preserves_ofOption _) fun buffer =>
      preserves_bind (preserves_calvinsysDeserializeObject hh ho mp a _ _) fun b => ?_
    split
    · exact preserves_pure _
    · exact preserves_bind (Atom.preserves_ofOption _) fun buffer => ih buffer

end Hosts

section Programs

variable {M : Host → Host → Prop} [Host.Follows M] {mp : Msgpuck}

theorem meets_look {ω α : Type} {apply : ω → Node → Option Node} {ok : ω → Node → Prop}
    (x : Atom α) : Meets ok (look x : Prog apply α) := by
  refine meets_bind meets_read fun s => ?_
  split
  · exact meets_pure _
  · exact meets_undefined

/-- Messages move a host within `M`. -/
theorem follows_moves (w s : Node) (h : Host) (hm : s.host.Moves h) (hs : M w.host s.host) :
    M w.host h := Host.Follows.trans hs (Host.Admits.moves hm)

theorem follows_objects (w s : Node) (os : List CalvinsysObject) (hs : M w.host s.host) :
    M w.host {s.host with objects := os} :=
  Host.Follows.trans hs (Host.AdmitsObjects.objects _ os)

theorem calm_host {α : Type} {x : Atom α}
    (hx : ∀ w : Node, Preserves (fun z => M w.host z.host) x) :
    Meets (Op.Calm M) (Flow.host x : Flow mp α) := by
  intro s b u ops hr
  rw [Flow.host,run_bind_of_quiet (a := s) rfl] at hr
  cases hxs : x s with
  | none =>
    rw [hxs] at hr
    cases hr
  | some r =>
    obtain ⟨a,t⟩ := r
    rw [hxs] at hr
    cases hr
    exact .cons (hx s s _ t hxs (Host.Admits.moves .refl)) rfl (.nil _)

theorem portConnectWithPendingTunnel_calm (p : Ref) :
    Meets (Op.Calm M) (Flow.portConnectWithPendingTunnel mp p) := by
  have hdrop : Meets (Op.Calm M) (do
      act (.dropTunnel p)
      pure Result.fail : Flow mp Result) :=
    meets_bind (meets_act fun _ => trivial) fun _ => meets_pure _
  refine meets_bind (meets_look _) fun t => ?_
  split
  · exact meets_pure _
  dsimp only
  split
  · refine meets_bind (calm_host fun w => preserves_sendPortConnect (follows_moves w) p) fun r => ?_
    split
    · exact meets_bind (meets_act fun _ => trivial) fun _ => meets_pure _
    · exact hdrop
  · exact hdrop

theorem portConnect_calm (p : Ref) : Meets (Op.Calm M) (Flow.portConnect mp p) := by
  have hlast : Meets (Op.Calm M) (do
      act (.setPeerId p [])
      Flow.setState p .disconnected
      Flow.portDoPeerLookup mp p : Flow mp Unit) := by
    refine meets_bind (meets_act fun _ => trivial) fun _ =>
      meets_bind (meets_act fun _ => trivial) fun _ =>
        meets_bind (calm_host fun w => preserves_sendGetPort (follows_moves w) p) fun r => ?_
    split <;> exact meets_act fun _ => trivial
  refine meets_bind (meets_look _) fun x => ?_
  split
  · exact meets_pure _
  dsimp only
  split
  · exact meets_bind (meets_act fun _ => trivial) fun _ => meets_pure _
  refine meets_bind (meets_act fun _ => trivial) fun _ =>
    meets_bind (meets_perform _ fun _ => trivial) fun r => ?_
  split
  · exact meets_pure _
  refine meets_bind (meets_act fun _ => trivial) fun _ => meets_bind (meets_look _) fun x => ?_
  split
  · refine meets_bind (portConnectWithPendingTunnel_calm p) fun r => ?_
    split
    · exact meets_pure _
    · exact hlast
  · exact hlast

theorem connectEach_calm (ps : List Ref) : Meets (Op.Calm M) (Top.connectEach mp ps) := by
  induction ps with
  | nil => exact meets_pure _
  | cons p ps ih =>
    refine meets_bind (meets_look _) fun x => ?_
    dsimp only
    split
    · exact meets_bind (portConnect_calm p) fun _ => meets_bind ih fun _ => meets_pure _
    · exact meets_bind ih fun _ => meets_pure _

omit [Host.Follows M] in
theorem handleTunnelNewRequest_calm (peerId tunnelId : Text) :
    Meets (Op.Calm M) (Flow.handleTunnelNewRequest mp peerId tunnelId) := by
  refine meets_bind (meets_look _) fun t => ?_
  split
  · refine meets_bind (meets_look _) fun x => ?_
    split
    · exact meets_pure _
    refine meets_bind meets_read fun s => ?_
    dsimp only
    split
    · exact meets_bind (meets_ofOption _) fun id => meets_bind (meets_act fun _ => trivial) fun _ =>
        meets_pure _
    · exact meets_bind (meets_act fun _ => trivial) fun _ => meets_pure _
  · refine meets_bind (meets_perform _ fun _ => trivial) fun t => ?_
    split <;> exact meets_pure _

variable {a : Ref}

omit [Host.Follows M] in
/-- A flow inside the construction of an actor. -/
theorem calm_toBuild {α : Type} {m : Flow mp α} (hm : Meets (Op.Calm M) m) :
    Meets (BuildOp.Calm M) (m.toBuild (a := a)) := meets_lift _ hm

omit [Host.Follows M] in
theorem describe_calm (id name : Option Bytes) (privateAttributes managedAttributes : List Attribute)
    (stateWas : StateWas) : Meets (BuildOp.Calm M)
      (Build.describe mp a id name privateAttributes managedAttributes stateWas) :=
  meets_act fun _ => trivial

omit [Host.Follows M] in
theorem portReject_calm (p : Ref) : Meets (BuildOp.Calm M) (Build.portReject mp a p) :=
  meets_bind (meets_act fun _ => trivial) fun _ => meets_pure _

theorem portFinish_calm (p : Ref) (objPort : Bytes) (n : Nat) :
    Meets (BuildOp.Calm M) (Build.portFinish mp a p objPort n) := by
  refine meets_bind (meets_ofOption _) fun restored => ?_
  split
  · refine meets_bind (meets_ofOption _) fun value => ?_
    split
    · exact portReject_calm p
    · exact meets_bind (meets_act fun _ => trivial) fun _ => meets_pure _
  · refine meets_bind meets_read fun s => ?_
    split
    · exact meets_pure _
    refine meets_bind (calm_toBuild
      (calm_host fun w => preserves_sendSetPort (follows_moves w) p)) fun r => ?_
    split
    · exact meets_pure _
    · exact portReject_calm p

theorem addPort_calm (objPort objPrevConnections : Bytes) (direction : PortDirection)
    (objConnectionList : Option Bytes) : Meets (BuildOp.Calm M)
      (Build.addPort mp a objPort objPrevConnections direction objConnectionList) := by
  refine meets_bind (meets_ofOption _) fun d => ?_
  split
  swap
  · exact meets_pure _
  refine meets_bind (meets_perform _ fun _ => trivial) fun r => ?_
  split
  swap
  · exact meets_pure _
  refine meets_bind (portFinish_calm _ objPort _) fun b => ?_
  split
  · exact meets_perform _ fun _ => trivial
  · exact meets_pure _

theorem actorCreatePorts_calm (objPorts objPrevConnections : Bytes) (direction : PortDirection)
    (objConnectionList : Option Bytes) : Meets (BuildOp.Calm M)
      (Build.actorCreatePorts mp a objPorts objPrevConnections direction objConnectionList) := by
  refine meets_bind (meets_ofOption _) fun r => ?_
  obtain ⟨n,ports⟩ := r
  dsimp only
  induction n generalizing ports with
  | zero => exact meets_pure _
  | succ n ih =>
    refine meets_bind (meets_ofOption _) fun ports =>
      meets_bind (addPort_calm _ _ _ _) fun b => ?_
    split
    · exact meets_pure _
    · exact meets_bind (meets_ofOption _) fun r => meets_bind (meets_ofOption _) fun ports => ih ports

omit [Host.Follows M] in
theorem actorStart_calm : Meets (Op.Calm M) (Build.actorStart mp a) := by
  refine meets_bind (meets_look _) fun x =>
    meets_bind (meets_perform _ fun _ => trivial) fun result => ?_
  split
  · split
    · exact meets_bind (meets_act fun _ => trivial) fun _ => meets_pure _
    · exact meets_pure _
  · split
    · exact meets_bind (meets_ofOption _) fun _ => meets_bind (meets_act fun _ => trivial) fun _ =>
        meets_pure _
    · exact meets_pure _

omit [Host.Follows M] in
theorem actorBegin_calm (x : Actor) : Meets (BuildOp.Calm M) (Build.actorBegin mp a x) := by
  unfold Build.actorBegin
  split
  · exact meets_pure _
  · exact calm_toBuild actorStart_calm

theorem attributes_calm (objManaged : Bytes) (items : List Attribute) (id name : Option Bytes)
    (privateOnly : Bool) : Meets (BuildOp.Calm M) (Flow.toBuild (a := a) (Flow.host
      (Atom.actorGetAttributes mp objManaged items id name privateOnly) : Flow mp Attributes)) :=
  calm_toBuild (calm_host fun w => preserves_actorGetAttributes (follows_moves w) mp _ _ _ _ _)

theorem actorShadow_calm (x : Actor) (objActorState objManaged : Bytes) :
    Meets (BuildOp.Calm M) (Build.actorShadow mp a x objActorState objManaged) := by
  refine meets_bind (meets_ofOption _) fun replica => meets_bind (describe_calm _ _ _ _ _) fun _ =>
    meets_bind (meets_ofOption _) fun args => ?_
  split
  · exact meets_bind (attributes_calm _ _ _ _ _) fun r =>
      meets_bind (describe_calm _ _ _ _ _) fun _ => meets_pure _
  · exact meets_pure _

theorem actorStateFrom_calm (objActorState objManaged : Bytes) :
    Meets (BuildOp.Calm M) (Build.actorStateFrom mp a objActorState objManaged) := by
  refine meets_bind (meets_look _) fun x => meets_bind (meets_ofOption _) fun shadow => ?_
  split
  · refine meets_bind (actorShadow_calm x _ _) fun b => ?_
    split
    · exact actorBegin_calm x
    · exact meets_pure _
  · exact meets_bind (describe_calm _ _ _ _ _) fun _ => actorBegin_calm x

theorem actorCalvinsys_calm (objPrivate : Bytes) :
    Meets (BuildOp.Calm M) (Build.actorCalvinsys mp a objPrivate) := by
  refine meets_bind (meets_ofOption _) fun b => ?_
  split
  · refine meets_bind (meets_ofOption _) fun r => ?_
    split
    · exact calm_toBuild (calm_host fun w => preserves_calvinsysDeserialize (follows_moves w)
        (follows_objects w) mp a _)
    · exact meets_pure _
  · exact meets_pure _

theorem actorPorts_calm (objState objPrivate : Bytes) :
    Meets (BuildOp.Calm M) (Build.actorPorts mp a objState objPrivate) := by
  refine meets_bind (meets_ofOption _) fun prev => ?_
  split
  swap
  · exact meets_pure _
  refine meets_bind (meets_ofOption _) fun list => meets_bind (meets_ofOption _) fun type => ?_
  split
  · exact meets_pure _
  refine meets_bind (meets_ofOption _) fun id => ?_
  split
  swap
  · exact meets_pure _
  refine meets_bind (meets_ofOption _) fun master => ?_
  split
  · exact meets_pure _
  refine meets_bind (meets_ofOption _) fun ports => ?_
  split
  swap
  · exact meets_pure _
  refine meets_bind (actorCreatePorts_calm _ _ _ _) fun b => ?_
  split
  · exact meets_pure _
  refine meets_bind (meets_ofOption _) fun ports => ?_
  split
  · exact actorCreatePorts_calm _ _ _ _
  · exact meets_pure _

theorem actorStore_calm : Meets (BuildOp.Calm M) (Build.actorStore mp a) := by
  refine meets_bind meets_read fun s => ?_
  split
  · exact meets_pure _
  · exact meets_bind (calm_toBuild (calm_host fun w => preserves_sendSetActor (follows_moves w) a))
      fun _ => meets_pure _

/-- The steps of `cc_actor_create` on the new actor are calm. -/
theorem actorFill_calm (objState : Bytes) : Meets (BuildOp.Calm M) (Build.actorFill mp a objState) := by
  refine meets_bind (meets_ofOption _) fun objActorState => ?_
  split
  swap
  · exact meets_pure _
  refine meets_bind (meets_ofOption _) fun objPrivate => ?_
  split
  swap
  · exact meets_pure _
  refine meets_bind (actorCalvinsys_calm _) fun b => ?_
  split
  · exact meets_pure _
  refine meets_bind (meets_ofOption _) fun id => ?_
  split
  swap
  · exact meets_pure _
  refine meets_bind (attributes_calm _ _ _ _ _) fun r => meets_bind (describe_calm _ _ _ _ _) fun _ => ?_
  split
  · exact meets_pure _
  refine meets_bind (actorPorts_calm _ _) fun b => ?_
  split
  · exact meets_pure _
  refine meets_bind (meets_ofOption _) fun objManaged => ?_
  split
  swap
  · exact meets_pure _
  refine meets_bind (attributes_calm _ _ _ _ _) fun m => meets_bind (describe_calm _ _ _ _ _) fun _ => ?_
  split
  · exact meets_pure _
  refine meets_bind (actorStateFrom_calm _ _) fun b => ?_
  split
  · exact meets_pure _
  · exact actorStore_calm

omit [Host.Follows M] in
theorem actorTidy_calm (b : Bool) : Meets (BuildOp.Calm M) (Build.actorTidy mp a b) :=
  meets_bind (meets_look _) fun _ => meets_bind (meets_look _) fun _ => meets_bind (meets_look _)
    fun _ => meets_bind (meets_look _) fun _ => describe_calm _ _ _ _ _

end Programs

end CalvinConstrained
