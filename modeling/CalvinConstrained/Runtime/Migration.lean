import CalvinConstrained.Runtime.DeleteDecision

namespace CalvinConstrained

/-- What a queue holds, wherever it was read ahead to. -/
def Fifo.content {α : Type} (f : Fifo α) : Fifo α := {f with tentativeReadPos := f.readPos}

theorem Fifo.content_cancel {α : Type} (f : Fifo α) : f.cancel.content=f.content := rfl

/-- The port is connected or an attempt to connect it is under way. -/
def PortState.connecting : PortState → Bool
  | .enabled => true
  | .pendingLookup => true
  | .pendingTunnel => true
  | .pendingConnect => true
  | _ => false

namespace Node

def contentOf (s : Node) (p : Ref) : Option (Option (Fifo Bytes)) :=
  (s.portMem.get p).map fun x => x.fifo.map Fifo.content

def objectsOf (s : Node) (a : Ref) : List CalvinsysObject :=
  s.host.objects.filter fun o => o.actor=a

/-- The ports of an actor and the ports of the node they are connected to. -/
def ends (s : Node) (a : Ref) : List Ref := s.portsOf a++s.peersOf (s.portsOf a)

/-- Every end of a connection of `a` that was enabled in `s` is on its way back in `t`. -/
def Reconnects (s : Node) (a : Ref) (t : Node) : Prop :=
  ∀ p ∈ s.ends a, s.portState p=some .enabled → (t.portState p).any PortState.connecting=true

/-- The queues of the ports of `a` hold what they held in `s`, and its objects are there. -/
def Keeps (s : Node) (a : Ref) (t : Node) : Prop :=
  (∀ p ∈ s.portsOf a, t.contentOf p=s.contentOf p) ∧ t.objectsOf a=s.objectsOf a

/-- Nothing happened to the ports and the objects of `a` between `t` and `u`. -/
def Rests (s : Node) (a : Ref) (t u : Node) : Prop :=
  (∀ p ∈ s.ends a, u.portState p=t.portState p ∧ u.contentOf p=t.contentOf p) ∧
  u.objectsOf a=t.objectsOf a

end Node

/-- The relation between hosts with the same calvinsys objects. -/
def Host.SameDevices (h k : Host) : Prop := k.objects=h.objects

theorem Host.Moves.sameDevices {h k : Host} (hm : h.Moves k) : h.SameDevices k := by
  induction hm with
  | refl => rfl
  | fate f _ _ ih => exact ih
  | sent m _ _ ih => exact ih
  | register id hne _ ih => exact ih
  | withdraw id _ ih => exact ih

instance : Host.Admits Host.SameDevices where
  moves := Host.Moves.sameDevices

/-- All queues and all objects are as in `s`. -/
def SameContents (s t : Node) : Prop :=
  (∀ p, t.contentOf p=s.contentOf p) ∧ s.host.SameDevices t.host

namespace SameContents

variable {s t u : Node}

theorem refl (s : Node) : SameContents s s := ⟨fun _ => rfl,rfl⟩

theorem objectsOf (h : SameContents s t) (a : Ref) : t.objectsOf a=s.objectsOf a := by
  rw [Node.objectsOf,Node.objectsOf,h.2]

theorem quiet {γ : Type} {g : Actor → γ} (s t u : Node)
    (h : SameViewBy Host.SameDevices (fun x : Port => x.fifo.map Fifo.content) g t u)
    (_ : SameTunnels t u) (hs : SameContents s t) : SameContents s u :=
  ⟨fun p => (h.port p).trans (hs.1 p),Eq.trans h.host hs.2⟩

theorem rules (s : Node) : Atom.PeerRules (fun _ => True) (SameContents s) := by
  have hquiet := quiet (g := fun _ : Actor => ()) s
  constructor
  · intro p _
    constructor
    · exact fun t u h hs => ⟨fun q => (congrArg _ (congrArg (fun m => Heap.get m q) h.1)).trans (hs.1 q),
        h.2.2.2.sameDevices.trans hs.2⟩
    · exact Atom.preserves_portSetState_view hquiet (fun _ _ _ => rfl) (fun _ _ => rfl) p
    · exact fun _ => Atom.preserves_updatePort hquiet p fun _ => rfl
    · exact fun _ => Atom.preserves_updatePort hquiet p fun _ => rfl
    · refine ensures_bind (Atom.ensures_port p) fun x => ?_
      split
      · exact ensures_mono Atom.preserves_undefined (fun _ h => h.1) fun _ _ h => h
      · next f hf => exact Atom.ensures_setPort hquiet (by simp [hf,Fifo.content_cancel])
  · exact fun p _ _ _ _ => Atom.preserves_updatePort hquiet p fun _ => rfl
  · exact fun p _ => Atom.preserves_updatePort hquiet p fun _ => rfl

end SameContents

section Migrate

variable {mp : Msgpuck} {a : Ref} {s t u v : Node}

open Prog Atom

theorem callbackIfSet_ends (h : callbackIfSet a s=some ((),t)) : t.ends a=s.ends a := by
  have hview : SameView apartFromFifo Actor.core s t := preserves_callbackIfSet
    (P := SameView apartFromFifo Actor.core s) (fun _ _ hvw _ hv => SameView.trans hv hvw)
    (fun _ _ h => h) (fun _ _ => rfl) a s () t h (.refl _ _ s)
  have hports : t.portsOf a=s.portsOf a := by
    have hcore := congrArg (fun o : Option Actor => o.elim [] Actor.ports) (hview.actor a)
    rwa [Option.elim_map,Option.elim_map] at hcore
  have hpeer : t.peerOf=s.peerOf := by
    funext p
    have hpart := congrArg (fun o : Option Port => o.bind Port.peerPort) (hview.port p)
    rwa [Option.bind_map,Option.bind_map] at hpart
  rw [Node.ends,Node.ends,Node.peersOf,Node.peersOf,hports,hpeer]

/-- After the loops of `cc_actor_migrate` both ends of every connection are down and the
queues hold what they held. -/
theorem disconnectPorts_strands (h : actorDisconnectPorts a true s=some ((),t)) :
    (∀ p ∈ s.ends a, t.portState p=some .disconnected) ∧ SameContents s t := by
  obtain ⟨x,u,hread,h₁⟩ := bind_eq_some.mp h
  obtain ⟨hx,rfl⟩ := actor_eq_some hread
  refine ⟨fun p hp => ?_,?_⟩
  · have hof : u.portsOf a=x.ports := by rw [Node.portsOf,hx,Option.elim_some]
    rw [disconnectEach_states true x.ports u () t h₁ ⟨fun _ => rfl,fun _ => rfl⟩ p,partAll_eq,
      if_pos]
    rwa [Node.ends,Node.peersOf,hof] at hp
  · exact (SameContents.rules u).disconnectEach true (fun _ _ => trivial)
      (fun _ _ _ _ _ _ _ _ => trivial) u () t h₁ (.refl u)

/-- Ports and objects are not touched by the message that carries the actor away. -/
def SamePorts (s t : Node) : Prop :=
  (∀ p, t.portState p=s.portState p) ∧ SameContents s t

theorem samePorts_quiet (s t u : Node) (h : SameViewBy Host.SameDevices id Actor.core t u)
    (_ : SameTunnels t u) (hs : SamePorts s t) : SamePorts s u := by
  have hport : ∀ p, u.portMem.get p=t.portMem.get p := by
    intro p
    have hp := h.port p
    rwa [Option.map_id,id_eq,id_eq] at hp
  refine ⟨fun p => ?_,fun p => ?_,Eq.trans h.host hs.2.2⟩
  · rw [← hs.1 p,Node.portState,Node.portState,hport p]
  · rw [← hs.2.1 p,Node.contentOf,Node.contentOf,hport p]

theorem samePorts_host (s t : Node) (h : Host) (hd : t.host.SameDevices h) (hs : SamePorts s t) :
    SamePorts s {t with host := h} := ⟨hs.1,hs.2.1,Eq.trans hd hs.2.2⟩

/-- A computation on the host that leaves the objects alone. -/
theorem spec_host_samePorts {ok : Op → Node → Prop} {α : Type} {x : Atom α}
    (hx : ∀ w : Node, Preserves (fun z => w.host.SameDevices z.host) x) :
    Spec ok (SamePorts s) (Flow.host x : Flow mp α) fun _ => SamePorts s := by
  refine spec_bind (spec_read (Q := fun w z => SamePorts s z ∧ z=w) fun _ h => ⟨h,rfl⟩) fun w => ?_
  split
  · next b z hz =>
    refine spec_bind (Q := fun _ => SamePorts s) (spec_act fun y y' hy _ hp => ?_) fun _ =>
      spec_pure _ fun _ h => h
    cases hy
    exact samePorts_host s y _ (hp.2 ▸ hx w w b z hz rfl) hp.1
  · exact spec_undefined

theorem send_sameDevices (w : Node) (m : Outgoing) :
    Preserves (fun z : Node => w.host.SameDevices z.host) (send m) := by
  intro s r t hr hp
  unfold send at hr
  split at hr
  · cases hr
    exact hp
  · split at hr <;> cases hr <;> exact hp

theorem sendActorNew_samePorts {ok : Op → Node → Prop} (toRtUuid : Bytes) :
    Spec ok (SamePorts s) (Flow.sendActorNew mp a toRtUuid) fun _ => SamePorts s := by
  have hmoves : ∀ (w z : Node) (h : Host), z.host.Moves h → w.host.SameDevices z.host → w.host.SameDevices h :=
    fun w z h hm hz => Eq.trans hm.sameDevices hz
  refine spec_bind (spec_host_samePorts fun w => ?_) fun msgUuid => ?_
  · exact preserves_bind preserves_needTransport fun _ => preserves_uuid (hmoves w) _
  refine spec_bind (spec_perform (Q := fun _ => SamePorts s) _ fun w d z hz _ hp => ?_) fun d => ?_
  · exact preserves_actorSerialize (samePorts_quiet s) (fun _ _ h => h) mp a false w d z hz hp
  cases d with
  | none => exact spec_undefined
  | some state =>
    refine spec_host_samePorts fun w => ?_
    refine preserves_bind (preserves_bind (preserves_allocN (hmoves w) 3) fun b => ?_) fun r => ?_
    · split
      · exact preserves_pure _
      · refine preserves_bind ?_ fun _ => preserves_pure _
        intro z _ y hy hz
        cases hy
        exact hz
    · split
      · refine preserves_bind (send_sameDevices w _) fun r => ?_
        split
        · exact preserves_pure _
        · exact preserves_bind (preserves_removePendingMsg (hmoves w) _) fun _ => preserves_pure _
      · exact preserves_pure _

/-- No end of a connection of `a` is enabled, and the `will_migrate` callback leaves queues
and objects alone. -/
def NothingToUndo (a : Ref) (s : Node) : Prop :=
  (∀ p ∈ s.ends a, s.portState p ≠ some .enabled) ∧
  ∀ t, (callbackIfSet a s).map Prod.snd=some t → s.Keeps a t

/-- The node as `cc_actor_migrate` leaves it, whatever it returns. -/
theorem actorMigrate_strands {toRtUuid : Bytes} {r : Result} {ops : List Op}
    (h : (Flow.actorMigrate mp a toRtUuid).run s=some (r,t,ops)) :
    (∀ p ∈ s.ends a, t.portState p=some .disconnected) ∧
    ∃ u, callbackIfSet a s=some ((),u) ∧ SameContents u t := by
  have hspec : Spec (fun _ _ => True) (fun z => z=s) (Flow.actorMigrate mp a toRtUuid) fun _ z =>
      (∀ p ∈ s.ends a, z.portState p=some .disconnected) ∧
      ∃ u, callbackIfSet a s=some ((),u) ∧ SameContents u z := by
    refine spec_bind (Q := fun _ u => callbackIfSet a s=some ((),u)) (spec_act ?_) fun _ => ?_
    · rintro z u hu _ rfl
      obtain ⟨⟨⟨⟩,u'⟩,hr,he⟩ := Option.map_eq_some_iff.mp hu
      cases he
      exact hr
    refine spec_of_forall fun u hu => ?_
    have hends := callbackIfSet_ends hu
    refine spec_bind (Q := fun _ w => actorDisconnectPorts a true u=some ((),w)) (spec_act ?_)
      fun _ => ?_
    · rintro z w hw _ rfl
      obtain ⟨⟨⟨⟩,w'⟩,hr,he⟩ := Option.map_eq_some_iff.mp hw
      cases he
      exact hr
    refine spec_of_forall fun w hw => ?_
    obtain ⟨hdown,hsame⟩ := disconnectPorts_strands hw
    refine spec_mono (sendActorNew_samePorts (s := w) toRtUuid) ?_ fun _ z hz => ?_
    · rintro z rfl
      exact ⟨fun _ => rfl,.refl z⟩
    · refine ⟨fun p hp => ?_,u,hu,fun p => (hz.2.1 p).trans (hsame.1 p),
        Eq.trans hz.2.2 hsame.2⟩
      rw [hz.1 p]
      exact hdown p (hends ▸ hp)
  exact hspec s r t ops h ((Flow.actorMigrate mp a toRtUuid).runs h) rfl

/-- From a node with both ends down and the callback's queues and objects. -/
theorem restored_iff (hu : callbackIfSet a s=some ((),u))
    (hdown : ∀ p ∈ s.ends a, v.portState p=some .disconnected)
    (hkeep : ∀ p ∈ s.portsOf a, v.contentOf p=u.contentOf p) (hobj : v.objectsOf a=u.objectsOf a) :
    (s.Reconnects a v ∧ s.Keeps a v) ↔ NothingToUndo a s := by
  constructor
  · rintro ⟨hback,hfifo,hdev⟩
    refine ⟨fun p hp hen => ?_,fun u' hu' => ?_⟩
    · have := hback p hp hen
      rw [hdown p hp] at this
      cases this
    · rw [hu] at hu'
      cases hu'
      exact ⟨fun p hp => (hkeep p hp).symm.trans (hfifo p hp),hobj.symm.trans hdev⟩
  · rintro ⟨hnone,hcall⟩
    obtain ⟨hfifo,hdev⟩ := hcall u (by rw [hu,Option.map_some])
    exact ⟨fun p hp hen => absurd hen (hnone p hp),
      fun p hp => (hkeep p hp).trans (hfifo p hp),hobj.trans hdev⟩

/-- The status that a reply carries is another one than 200. -/
def Refused (mp : Msgpuck) (data : Bytes) : Prop :=
  ∀ value status, Coder.getValueFromMap mp data (ascii "value")=some (some value) →
    Coder.decodeUintFromMap mp value (ascii "status")=some (some status) → status ≠ 200

/-- The reply handler does nothing about a refusal. -/
theorem actorMigrateReplyHandler_refused {data : Bytes} (hdata : Refused mp data)
    {msgData : Option Ref} {r : Result} {ops : List Op}
    (h : (Flow.actorMigrateReplyHandler mp data msgData).run u=some (r,v,ops)) :
    r=.fail ∧ v=u := by
  have hfail : ∀ {φ : Prop}, Spec (fun _ _ => True) (fun z => z=u ∧ φ)
      (pure Result.fail : Flow mp Result) fun r z => r=.fail ∧ z=u :=
    spec_pure _ fun _ h => ⟨rfl,h.1⟩
  have hspec : Spec (fun _ _ => True) (fun z => z=u)
      (Flow.actorMigrateReplyHandler mp data msgData) fun r z => r=.fail ∧ z=u := by
    refine spec_bind (spec_ofOption _) fun b => ?_
    refine spec_bind (spec_mono (spec_look _) (fun _ h => h) fun _ _ h => h.1) fun id => ?_
    refine spec_bind (spec_ofOption_eq _) fun value => ?_
    cases value with
    | none => exact hfail
    | some value =>
      refine spec_bind (spec_ofOption_eq _) fun status => ?_
      cases status with
      | none => exact spec_pure _ fun _ h => ⟨rfl,h.1.1⟩
      | some status =>
        refine spec_have (C := status ≠ 200) (fun z h => hdata value status h.1.2 h.2) fun hne => ?_
        refine spec_bind (spec_mono (spec_look _) (fun _ h => h) fun _ _ h => h.1) fun c => ?_
        cases c with
        | none => exact spec_pure _ fun _ h => ⟨rfl,h.1.1⟩
        | some c =>
          dsimp only
          rw [if_neg hne]
          exact spec_pure _ fun _ h => ⟨rfl,h.1.1⟩
  exact hspec u r v ops h ((Flow.actorMigrateReplyHandler mp data msgData).runs h) rfl

/-- Nothing is undone when a migration fails. Where the call returns an error, and where the
reply is a refusal and the actor was left alone until then, its connections come back and its
queues and objects are kept exactly when there was nothing to undo; in general the refusal
finds and leaves the actor as the steps before it left it. -/
theorem failed_migration_recovers_iff {toRtUuid : Bytes} {r : Result} {ops : List Op}
    (h : (Flow.actorMigrate mp a toRtUuid).run s=some (r,t,ops)) :
    (r=.fail → ((s.Reconnects a t ∧ s.Keeps a t) ↔ NothingToUndo a s)) ∧
    (r=.success → ∀ data result ops', Refused mp data →
      (Flow.actorMigrateReplyHandler mp data (some a)).run u=some (result,v,ops') →
      ((s.Reconnects a v ∧ s.Keeps a v) ↔ s.Reconnects a u ∧ s.Keeps a u) ∧
      (s.Rests a t u → ((s.Reconnects a v ∧ s.Keeps a v) ↔ NothingToUndo a s))) := by
  obtain ⟨hdown,w,hw,hsame⟩ := actorMigrate_strands h
  refine ⟨fun _ => ?_,fun _ data result ops' hdata hreply => ?_⟩
  · exact restored_iff hw hdown (fun p _ => hsame.1 p) (hsame.objectsOf a)
  · obtain ⟨-,rfl⟩ := actorMigrateReplyHandler_refused hdata hreply
    refine ⟨Iff.rfl,fun hrest => ?_⟩
    have hmem : ∀ p ∈ s.portsOf a, p ∈ s.ends a := fun p hp => List.mem_append_left _ hp
    refine restored_iff hw (fun p hp => ?_) (fun p hp => ?_) ?_
    · rw [(hrest.1 p hp).1]
      exact hdown p hp
    · rw [(hrest.1 p (hmem p hp)).2]
      exact hsame.1 p
    · exact hrest.2.trans (hsame.objectsOf a)

end Migrate

section Examples

instance (s : Node) (a : Ref) (t : Node) : Decidable (s.Keeps a t) :=
  inferInstanceAs (Decidable ((∀ p ∈ s.portsOf a,
    (t.portMem.get p).map (fun x => x.fifo.map Fifo.content)=
      (s.portMem.get p).map fun x => x.fifo.map Fifo.content) ∧ t.objectsOf a=s.objectsOf a))

instance (s : Node) (a : Ref) (t : Node) : Decidable (s.Reconnects a t) :=
  inferInstanceAs (Decidable (∀ p ∈ s.ends a, s.portState p=some .enabled →
    (t.portState p).any PortState.connecting=true))

instance (a : Ref) (s : Node) : Decidable (NothingToUndo a s) :=
  inferInstanceAs (Decidable ((∀ p ∈ s.ends a, s.portState p ≠ some .enabled) ∧
    ∀ t, (Atom.callbackIfSet a s).map Prod.snd=some t → s.Keeps a t))

/-- A callback that sets up the state of its actor. -/
def setsState : Effect := ⟨true,some (.identity false),[],[],[]⟩

/-- An actor whose port waits for the registry, and a transport that gives out. -/
def lookingActor : List (Event × Fate) :=
  joining++[
    (.actorCreate (Message.actor "t" "a" [] [⟨"p",none,"q",none⟩]),
      {Fate.fresh 10 with effects := [setsState]}),
    (.schedule,{Fate.fresh 12 with sends := [false]})]

theorem failed_migration_recovers_unconnected :
    ∃ s t ops, (Flow.actorMigrate msgpack 0 (ascii "rt")).run s=some (.fail,t,ops) ∧
      s.ends 0=[0] ∧ NothingToUndo 0 s ∧ s.Reconnects 0 t ∧ s.Keeps 0 t := by
  have hrun : (Event.runAll (Event.step msgpack) lookingActor (.init bareHost)).any (fun s =>
      decide (s.ends 0=[0] ∧ NothingToUndo 0 s) &&
        ((Flow.actorMigrate msgpack 0 (ascii "rt")).run s).any fun r => decide (r.1=.fail))=true := by
    decide +kernel
  obtain ⟨s,-,hs⟩ := exists_of_any hrun
  rw [Bool.and_eq_true] at hs
  obtain ⟨hends,hnone⟩ := of_decide_eq_true hs.1
  obtain ⟨⟨r,t,ops⟩,hmigrate,hr⟩ := exists_of_any hs.2
  obtain rfl : r=.fail := of_decide_eq_true hr
  have hback := ((failed_migration_recovers_iff (u := s) (v := s) hmigrate).1 rfl).mpr hnone
  exact ⟨s,t,ops,hmigrate,hends,hnone,hback⟩

/-- Two actors of the node that are connected, and a transport that gives out. -/
def connectedActors : List (Event × Fate) :=
  joining++[
    (.actorCreate (Message.actor "t" "a" [] [⟨"p",none,"q",none⟩]),
      {Fate.fresh 10 with effects := [setsState]}),
    (.actorCreate (Message.actor "t" "b" [⟨"q",none,"p",none⟩] []),.fresh 11),
    (.schedule,{Fate.fresh 12 with sends := [false]})]

/-- Both ends of the connection stay down. -/
theorem failed_migration_strands_both_ends :
    ∃ s t ops, Runs (Event.step msgpack) (fun _ _ => True) (.init bareHost) connectedActors s ∧
      (Flow.actorMigrate msgpack 0 (ascii "rt")).run s=some (.fail,t,ops) ∧ s.ends 0=[0,1] ∧
      s.portState 0=some .enabled ∧ s.portState 1=some .enabled ∧
      t.portState 0=some .disconnected ∧ t.portState 1=some .disconnected ∧
      ¬s.Reconnects 0 t := by
  have hrun : (Event.runAll (Event.step msgpack) connectedActors (.init bareHost)).any (fun s =>
      decide (s.ends 0=[0,1] ∧ s.portState 0=some .enabled ∧ s.portState 1=some .enabled) &&
        ((Flow.actorMigrate msgpack 0 (ascii "rt")).run s).any fun r =>
          decide (r.1=.fail ∧ r.2.1.portState 0=some .disconnected ∧
            r.2.1.portState 1=some .disconnected ∧ ¬s.Reconnects 0 r.2.1))=true := by
    decide +kernel
  obtain ⟨s,hs,hstart⟩ := exists_of_any hrun
  rw [Bool.and_eq_true] at hstart
  obtain ⟨hends,hp,hq⟩ := of_decide_eq_true hstart.1
  obtain ⟨⟨r,t,ops⟩,hmigrate,hend⟩ := exists_of_any hstart.2
  obtain ⟨rfl,hp',hq',hnot⟩ := of_decide_eq_true hend
  exact ⟨s,t,ops,Event.runs_of_step msgpack hs,hmigrate,hends,hp,hq,hp',hq',hnot⟩

end Examples

end CalvinConstrained
