import CalvinConstrained.Framework.Trace
import CalvinConstrained.Runtime.Event

namespace CalvinConstrained

open Prog

/-- The operations that neither begin a connection attempt of a port nor belong to one. -/
def Op.plain : Op → Bool
  | .retry _ => false
  | .getTunnel _ => false
  | .setState _ state => decide (state ∉ [PortState.pendingTunnel,.pendingConnect,.pendingLookup])
  | _ => true

/-- The operations that do not belong to the creation of a port either. -/
def TopOp.plain : TopOp → Bool
  | .base o => o.plain
  | .build _ _ => false
  | _ => true

/-- A statement about runs, for the runs of a flow. -/
abbrev Trace.flow (L : Trace Node TopOp) : Trace Node Op := fun s ops t => L s (ops.map .base) t

/-- A statement about runs, for those that create an actor. -/
abbrev Trace.build (L : Trace Node TopOp) (a : Ref) : Trace Node BuildOp :=
  fun s ops t => L s (ops.map (BuildOp.toTop a)) t

/-- What has to be shown of a statement about runs so that it holds of the runs of all events:
connection attempts and the creation of a port are looked at as a whole. -/
structure Traced (mp : Msgpuck) (L : Trace Node TopOp) : Prop where
  closed : L.Closed (TopOp.apply mp)
  op : ∀ {o s t}, o.plain=true → o.apply mp s=some t → L s [o] t
  connect : ∀ p, Traces L.flow (Flow.portConnect mp p)
  transmit : ∀ p, Traces L.flow (Flow.portTransmit mp p)
  addPort : ∀ a objPort objPrevConnections direction objConnectionList,
    Traces (L.build a)
      (Build.addPort mp a objPort objPrevConnections direction objConnectionList)

namespace Traced

variable {mp : Msgpuck} {L : Trace Node TopOp} (k : Traced mp L)

include k

theorem flowClosed : L.flow.Closed (Op.apply mp) :=
  k.closed.comap (f := TopOp.base) fun _ _ => rfl

theorem buildClosed (a : Ref) : (L.build a).Closed (BuildOp.apply mp a) :=
  k.closed.comap (f := BuildOp.toTop a) (BuildOp.apply_toTop mp a)

theorem look {α : Type} (x : Atom α) : Traces L (Prog.look x : Top mp α) := by
  refine k.closed.bind k.closed.read fun s => ?_
  split
  · exact k.closed.pure _
  · exact Trace.Closed.undefined

omit k in
theorem toTop {α : Type} {m : Flow mp α} (hm : Traces L.flow m) : Traces L m.toTop :=
  Trace.Closed.lift _ hm

section Flows

theorem flowLook {α : Type} (x : Atom α) : Traces L.flow (Prog.look x : Flow mp α) := by
  refine k.flowClosed.bind k.flowClosed.read fun s => ?_
  split
  · exact k.flowClosed.pure _
  · exact Trace.Closed.undefined

theorem act {o : Op} (h : o.plain=true) : Traces L.flow (Prog.act o : Flow mp Unit) :=
  Trace.Closed.act fun _ _ hs => k.op h hs

theorem perform {α : Type} {o : Op} {f : Node → Option (α × Node)}
    (hf : ∀ s, (f s).map Prod.snd=o.apply mp s) (h : o.plain=true) :
    Traces L.flow (Prog.perform o f hf : Flow mp α) :=
  Trace.Closed.perform hf fun _ _ hs => k.op h hs

theorem host {α : Type} (x : Atom α) : Traces L.flow (Flow.host x : Flow mp α) := by
  refine k.flowClosed.bind k.flowClosed.read fun s => ?_
  split
  · exact k.flowClosed.bind (k.act rfl) fun _ => k.flowClosed.pure _
  · exact Trace.Closed.undefined

theorem value (r : Bytes) (key : String) : Traces L.flow (Flow.value mp r key) :=
  k.flowClosed.ofOption _

theorem text (r : Bytes) (key : String) : Traces L.flow (Flow.text mp r key) :=
  k.flowClosed.ofOption _

theorem number (r : Bytes) (key : String) : Traces L.flow (Flow.number mp r key) :=
  k.flowClosed.ofOption _

theorem fireActor (a : Ref) : Traces L.flow (Flow.fireActor mp a) := by
  have hports : ∀ ps, Traces L.flow (Prog.each (Flow.portTransmit mp) ps) := fun ps =>
    k.flowClosed.each k.transmit
  refine k.flowClosed.bind (k.flowLook _) fun x => ?_
  dsimp only
  split
  · exact k.flowClosed.bind (k.act rfl) fun _ => hports _
  · exact hports _

theorem fireLoop (n : Nat) (a : Option Ref) : Traces L.flow (Flow.fireLoop mp n a) := by
  induction n generalizing a with
  | zero => cases a <;> exact k.flowClosed.pure _
  | succ n ih =>
    cases a with
    | none => exact k.flowClosed.pure _
    | some a =>
      refine k.flowClosed.bind k.flowClosed.read fun s => ?_
      dsimp only
      split
      · exact k.flowClosed.bind Trace.Closed.undefined fun _ =>
          k.flowClosed.bind (k.flowLook _) fun x => Trace.Closed.ite
            (k.flowClosed.bind (k.act rfl) fun _ => ih _)
            (k.flowClosed.bind (k.fireActor a) fun _ => ih _)
      · exact k.flowClosed.bind (k.flowLook _) fun x => Trace.Closed.ite
          (k.flowClosed.bind (k.act rfl) fun _ => ih _)
          (k.flowClosed.bind (k.fireActor a) fun _ => ih _)

theorem fireActors : Traces L.flow (Flow.fireActors mp) :=
  k.flowClosed.bind k.flowClosed.read fun _ => k.fireLoop _ _

theorem sendActorNew (a : Ref) (toRtUuid : Bytes) :
    Traces L.flow (Flow.sendActorNew mp a toRtUuid) := by
  refine k.flowClosed.bind (k.host _) fun msgUuid =>
    k.flowClosed.bind (k.perform _ rfl) fun r => ?_
  split
  · exact Trace.Closed.undefined
  · exact k.host _

theorem actorMigrate (a : Ref) (toRtUuid : Bytes) :
    Traces L.flow (Flow.actorMigrate mp a toRtUuid) :=
  k.flowClosed.bind (k.act rfl) fun _ => k.flowClosed.bind (k.act rfl) fun _ =>
    k.sendActorNew a toRtUuid

theorem handleToken (p : Ref) (data : Bytes) (sequencenbr : UInt32) :
    Traces L.flow (Flow.handleToken mp p data sequencenbr) := by
  refine k.flowClosed.bind (k.flowLook _) fun x => k.flowClosed.bind (k.flowLook _) fun y => ?_
  dsimp only
  split
  · exact k.flowClosed.pure _
  refine k.flowClosed.bind (k.flowLook _) fun f => ?_
  split
  · exact k.flowClosed.pure _
  refine k.flowClosed.bind (k.host _) fun b => ?_
  split
  · exact k.flowClosed.pure _
  · exact k.flowClosed.bind (k.act rfl) fun _ => k.flowClosed.pure _

theorem handleTokenReply (portId : Text) (replyType : PortReplyType) (sequencenbr : UInt32) :
    Traces L.flow (Flow.handleTokenReply mp portId replyType sequencenbr) := by
  refine k.flowClosed.option (k.flowLook _) (k.flowClosed.pure _) fun p => ?_
  cases replyType with
  | abort => exact k.flowClosed.pure _
  | ack => exact k.flowClosed.bind (k.flowLook _) fun _ => k.act rfl
  | nack => exact k.flowClosed.bind (k.flowLook _) fun _ => k.act rfl

theorem handleTunnelNewRequest (peerId tunnelId : Text) :
    Traces L.flow (Flow.handleTunnelNewRequest mp peerId tunnelId) := by
  have hgive : ∀ r : Result, Traces L.flow (Pure.pure r : Flow mp Result) :=
    k.flowClosed.pure
  refine k.flowClosed.option (k.flowLook _) ?_ fun t => ?_
  · exact k.flowClosed.bind (k.perform _ rfl) fun r => Trace.Closed.ite (hgive _) (hgive _)
  refine k.flowClosed.bind (k.flowLook _) fun x => ?_
  split
  · exact hgive _
  refine k.flowClosed.bind k.flowClosed.read fun s => ?_
  dsimp only
  split
  · exact k.flowClosed.bind (k.flowClosed.ofOption _) fun _ =>
      k.flowClosed.bind (k.act rfl) fun _ => hgive _
  · exact k.flowClosed.bind (k.act rfl) fun _ => hgive _

theorem stopActor (a : Ref) : Traces L.flow (Flow.stopActor mp a) := by
  have hstop : ∀ (proxyLink : Atom Link) (terminate : Bool), Traces L.flow (do
      if (← Prog.read).host.stopMethod=.migrate then
        if terminate then
          Prog.act (.disconnectActor a)
          let _ ← Flow.host (Atom.sendRemoveReplica mp a)
          Prog.act (.freeActor a true)
        else
          let l ← Prog.look proxyLink
          let _ ← Flow.actorMigrate mp a l.peerId
          Prog.act (.freeActor a false)
      else
        Prog.act (.freeActor a true) : Flow mp Unit) := by
    intro proxyLink terminate
    refine k.flowClosed.bind k.flowClosed.read fun s => Trace.Closed.ite (Trace.Closed.ite ?_ ?_)
      (k.act rfl)
    · exact k.flowClosed.bind (k.act rfl) fun _ => k.flowClosed.bind (k.host _) fun _ => k.act rfl
    · exact k.flowClosed.bind (k.flowLook _) fun l =>
        k.flowClosed.bind (k.actorMigrate a _) fun _ => k.act rfl
  have hpure : ∀ b : Bool, Traces L.flow (Pure.pure b : Flow mp Bool) := k.flowClosed.pure
  refine k.flowClosed.option (k.flowLook _) (k.flowClosed.bind (hpure _) (hstop _)) fun data => ?_
  refine k.flowClosed.bind (k.flowClosed.ofOption _) fun _ => k.flowClosed.option
    (k.flowClosed.ofOption _) (k.flowClosed.bind (hpure _) (hstop _)) fun value => ?_
  exact k.flowClosed.bind (k.flowClosed.ofOption _) fun b => k.flowClosed.bind (hpure _) (hstop _)

theorem stopLoop (n : Nat) (a : Option Ref) : Traces L.flow (Flow.stopLoop mp n a) := by
  induction n generalizing a with
  | zero => cases a <;> exact k.flowClosed.pure _
  | succ n ih =>
    cases a with
    | none => exact k.flowClosed.pure _
    | some a =>
      refine k.flowClosed.bind k.flowClosed.read fun s => ?_
      dsimp only
      split
      · exact k.flowClosed.bind Trace.Closed.undefined fun _ =>
          k.flowClosed.bind (k.stopActor a) fun _ => ih _
      · exact k.flowClosed.bind (k.stopActor a) fun _ => ih _

theorem nodeStop : Traces L.flow (Flow.nodeStop mp) :=
  k.flowClosed.bind k.flowClosed.read fun _ => k.flowClosed.bind (k.stopLoop _ _) fun _ =>
    k.flowClosed.bind (k.act rfl) fun _ => k.act rfl

end Flows

section Messages

theorem fail : Traces L.flow (Pure.pure .fail : Flow mp Result) := k.flowClosed.pure _

theorem success : Traces L.flow (Pure.pure .success : Flow mp Result) := k.flowClosed.pure _

theorem nodeSetupReplyHandler (data : Bytes) :
    Traces L.flow (Flow.nodeSetupReplyHandler mp data) := by
  refine k.flowClosed.option (k.value _ _) k.fail fun v => ?_
  refine k.flowClosed.option (k.value _ _) k.fail fun v => ?_
  refine k.flowClosed.option (k.number _ _) k.fail fun status => ?_
  refine k.flowClosed.option (k.value _ _) k.fail fun objData => ?_
  refine k.flowClosed.option (k.value _ _) k.fail fun objTime => ?_
  refine Trace.Closed.ite k.fail (k.flowClosed.bind (k.flowClosed.ofOption _) fun type => ?_)
  exact Trace.Closed.ite k.fail (k.flowClosed.bind (k.host _) fun _ => k.success)

theorem enterSleepReplyHandler (data : Bytes) :
    Traces L.flow (Flow.enterSleepReplyHandler mp data) := by
  refine k.flowClosed.option (k.value _ _) k.fail fun v => ?_
  refine k.flowClosed.option (k.value _ _) k.fail fun v => ?_
  exact k.flowClosed.option (k.number _ _) k.success fun status =>
    k.flowClosed.bind (k.host _) fun _ => k.success

theorem tunnelRequestReplyHandler (data : Bytes) :
    Traces L.flow (Flow.tunnelRequestReplyHandler mp data) := by
  refine k.flowClosed.option (k.value _ _) k.fail fun v => ?_
  refine k.flowClosed.option (k.value _ _) k.fail fun dataValue => ?_
  refine k.flowClosed.option (k.text _ _) k.fail fun tunnelId => ?_
  refine k.flowClosed.option (k.number _ _) k.fail fun status => ?_
  refine k.flowClosed.option (k.flowLook _) k.fail fun t => Trace.Closed.ite ?_ ?_
  · exact k.flowClosed.bind (k.flowClosed.ofOption _) fun _ =>
      k.flowClosed.bind (k.act rfl) fun _ => k.success
  · exact k.flowClosed.bind (k.flowLook _) fun _ =>
      k.flowClosed.bind (k.act rfl) fun _ => k.success

theorem storeReplyHandler (known : Text → Atom (Option Ref)) (pre : Bytes) (data : Bytes) :
    Traces L.flow (Flow.storeReplyHandler mp known pre data) := by
  refine k.flowClosed.option (k.value _ _) k.fail fun v => ?_
  refine k.flowClosed.option (k.text _ _) k.fail fun key => Trace.Closed.ite k.fail ?_
  refine k.flowClosed.option (k.flowLook _) k.success fun _ => ?_
  refine k.flowClosed.option (k.value _ _) k.fail fun response => ?_
  exact k.flowClosed.option (k.number _ _) k.fail fun _ => k.success

theorem getPeerPortReplyHandler (data : Bytes) :
    Traces L.flow (Flow.getPeerPortReplyHandler mp data) := by
  refine k.flowClosed.option (k.value _ _) k.fail fun v => ?_
  refine k.flowClosed.option (k.text _ _) k.fail fun key => ?_
  refine k.flowClosed.option (k.flowLook _) k.success fun p => ?_
  refine k.flowClosed.bind (k.flowLook _) fun x => Trace.Closed.ite k.success ?_
  refine k.flowClosed.option (k.value _ _) k.fail fun valueValue => ?_
  refine k.flowClosed.option (k.text _ _) ?_ fun nodeId => ?_
  · exact k.flowClosed.bind (k.act rfl) fun _ => k.fail
  · exact k.flowClosed.bind (k.flowClosed.ofOption _) fun _ =>
      k.flowClosed.bind (k.act rfl) fun _ =>
        k.flowClosed.bind (k.connect p) fun _ => k.success

theorem portConnectReplyHandler (data : Bytes) :
    Traces L.flow (Flow.portConnectReplyHandler mp data) := by
  refine k.flowClosed.option (k.value _ _) k.fail fun v => ?_
  refine k.flowClosed.option (k.number _ _) k.fail fun status => ?_
  refine k.flowClosed.option (k.value _ _) k.fail fun valueData => ?_
  refine k.flowClosed.option (k.text _ _) k.success fun peerPortId => ?_
  refine k.flowClosed.option (k.flowLook _) k.success fun p => ?_
  refine k.flowClosed.bind (k.act ?_) fun _ => k.success
  split <;> rfl

theorem actorMigrateReplyHandler (data : Bytes) (msgData : Option Ref) :
    Traces L.flow (Flow.actorMigrateReplyHandler mp data msgData) := by
  refine k.flowClosed.bind (k.flowClosed.ofOption _) fun a =>
    k.flowClosed.bind (k.flowLook _) fun id => ?_
  refine k.flowClosed.option (k.value _ _) k.fail fun v => ?_
  refine k.flowClosed.option (k.number _ _) k.fail fun status => ?_
  refine k.flowClosed.option (k.flowLook _) k.fail fun b => ?_
  exact Trace.Closed.ite (k.flowClosed.bind (k.act rfl) fun _ => k.success) k.fail

theorem reqMatchReplyHandler (data : Bytes) :
    Traces L.flow (Flow.reqMatchReplyHandler mp data) := by
  refine k.flowClosed.option (k.value _ _) k.fail fun v => ?_
  refine k.flowClosed.option (k.value _ _) k.fail fun v => ?_
  refine k.flowClosed.option (k.value _ _) k.fail fun objData => ?_
  refine k.flowClosed.option (k.number _ _) k.fail fun status => Trace.Closed.ite k.success ?_
  refine k.flowClosed.option (k.text _ _) k.fail fun actorId => ?_
  refine k.flowClosed.option (k.flowLook _) k.fail fun a => ?_
  refine k.flowClosed.option (k.value _ _) k.fail fun placements => ?_
  refine k.flowClosed.bind (k.flowClosed.ofOption _) fun type => Trace.Closed.ite k.fail ?_
  refine k.flowClosed.bind (k.flowClosed.ofOption _) fun n => Trace.Closed.ite ?_ k.success
  exact k.flowClosed.option (k.flowClosed.ofOption _) k.fail fun peerId => k.actorMigrate a _

theorem parseToken (root : Bytes) : Traces L.flow (Flow.parseToken mp root) := by
  refine k.flowClosed.option (k.text _ _) k.fail fun fromRtUuid => ?_
  refine k.flowClosed.option (k.text _ _) k.fail fun _ => ?_
  refine k.flowClosed.option (k.value _ _) k.fail fun objValue => ?_
  refine k.flowClosed.option (k.text _ _) k.fail fun portId => ?_
  refine k.flowClosed.option (k.text _ _) k.fail fun peerPortId => ?_
  refine k.flowClosed.option (k.number _ _) k.fail fun sequencenbr => ?_
  refine k.flowClosed.option (k.value _ _) k.fail fun objToken => ?_
  refine k.flowClosed.option (k.value _ _) k.fail fun objData => ?_
  refine k.flowClosed.option (k.flowLook _) ?_ fun p => ?_
  · exact k.flowClosed.bind (k.flowClosed.pure _) fun b => k.host _
  · exact k.flowClosed.bind (k.flowClosed.ofOption _) fun size =>
      k.flowClosed.bind (k.handleToken p _ _) fun r =>
        k.flowClosed.bind (k.flowClosed.pure _) fun b => k.host _

theorem handleTokenStatus (portId : Text) (replyType : PortReplyType) (sequencenbr : UInt32) :
    Traces L.flow (Flow.handleTokenReply mp portId replyType sequencenbr >>= fun _ =>
      Pure.pure Result.success) :=
  k.flowClosed.bind (k.handleTokenReply _ _ _) fun _ => k.success

theorem parseTokenReply (root : Bytes) : Traces L.flow (Flow.parseTokenReply mp root) := by
  refine k.flowClosed.option (k.value _ _) k.fail fun v => ?_
  refine k.flowClosed.option (k.text _ _) k.fail fun portId => ?_
  refine k.flowClosed.option (k.text _ _) k.fail fun status => ?_
  refine k.flowClosed.option (k.number _ _) k.fail fun sequencenbr => ?_
  refine Trace.Closed.ite (k.handleTokenStatus _ _ _) ?_
  exact Trace.Closed.ite (k.handleTokenStatus _ _ _)
    (Trace.Closed.ite (k.handleTokenStatus _ _ _) k.fail)

theorem parseDestroy (root : Bytes) : Traces L.flow (Flow.parseDestroy mp root) := by
  refine k.flowClosed.option (k.text _ _) k.fail fun fromRtUuid => ?_
  refine k.flowClosed.option (k.text _ _) k.fail fun _ => ?_
  refine k.flowClosed.option (k.value _ _) k.fail fun objValue => ?_
  exact k.flowClosed.option (k.text _ _) k.fail fun method => k.host _

theorem sendReqMatch (a : Ref) (requirements : Bytes) (requires : Bool) :
    Traces L.flow (Flow.sendReqMatch mp a requirements requires) :=
  Trace.Closed.ite (k.flowClosed.bind (k.flowClosed.ofOption _) fun _ => k.host _)
    (k.flowClosed.bind (k.flowClosed.ofOption _) fun _ => k.host _)

theorem parseActorMigrate (root : Bytes) : Traces L.flow (Flow.parseActorMigrate mp root) := by
  have hreject : ∀ x : Atom Result,
      Traces L.flow (Flow.host x >>= fun _ => Pure.pure Result.fail : Flow mp Result) :=
    fun x => k.flowClosed.bind (k.host x) fun _ => k.fail
  refine k.flowClosed.option (k.text _ _) k.fail fun fromRtUuid => ?_
  refine k.flowClosed.option (k.text _ _) k.fail fun tmp => ?_
  refine k.flowClosed.bind (k.flowClosed.ofOption _) fun msgUuid => ?_
  refine k.flowClosed.option (k.text _ _) (hreject _) fun actorId => ?_
  refine k.flowClosed.option (k.flowLook _) (hreject _) fun a => ?_
  refine k.flowClosed.bind (k.flowClosed.ofOption _) fun b => Trace.Closed.ite ?_ ?_
  · refine k.flowClosed.option (k.text _ _) (hreject _) fun peerNodeId => ?_
    exact k.flowClosed.bind (k.actorMigrate a _) fun r => Trace.Closed.ite (k.host _) (k.host _)
  refine k.flowClosed.option (k.value _ _) (hreject _) fun requirements => ?_
  refine k.flowClosed.bind (k.flowLook _) fun x => ?_
  have hmatch : ∀ requires : Option Effect, Traces L.flow (do
      if (← Flow.sendReqMatch mp a requirements requires.isSome)=.success then
        Flow.host (Atom.send (.reply msgUuid fromRtUuid.content 200))
      else
        Flow.host (Atom.send (.reply msgUuid fromRtUuid.content 500)) : Flow mp Result) :=
    fun requires => k.flowClosed.bind (k.sendReqMatch a _ _) fun r =>
      Trace.Closed.ite (k.host _) (k.host _)
  dsimp only
  split
  · refine k.flowClosed.bind (k.host _) fun requires => ?_
    split
    · exact hreject _
    · exact hmatch _
  · refine k.flowClosed.bind (k.flowClosed.pure _) fun requires => ?_
    split
    · exact hreject _
    · exact hmatch _

theorem appDestroyLoop (objActorUuids : Bytes) (n i : Nat) :
    Traces L.flow (Flow.appDestroyLoop mp objActorUuids n i) := by
  induction n generalizing i with
  | zero => exact k.success
  | succ n ih =>
    refine k.flowClosed.option (k.flowClosed.ofOption _) k.fail fun actorId => ?_
    exact k.flowClosed.option (k.flowLook _) (ih _) fun a =>
      k.flowClosed.bind (k.act rfl) fun _ => ih _

theorem parseAppDestroy (root : Bytes) : Traces L.flow (Flow.parseAppDestroy mp root) := by
  refine k.flowClosed.option (k.text _ _) k.fail fun fromRtUuid => ?_
  refine k.flowClosed.option (k.text _ _) k.fail fun tmp => ?_
  refine k.flowClosed.bind (k.flowClosed.ofOption _) fun msgUuid => ?_
  refine k.flowClosed.option (k.value _ _) k.fail fun objActorUuids => ?_
  exact k.flowClosed.bind (k.flowClosed.ofOption _) fun size =>
    k.flowClosed.bind (k.appDestroyLoop _ _ _) fun result => k.host _

theorem parsePortDisconnect (root : Bytes) : Traces L.flow (Flow.parsePortDisconnect mp root) := by
  refine k.flowClosed.option (k.text _ _) k.fail fun fromRtUuid => ?_
  refine k.flowClosed.option (k.text _ _) k.fail fun msgUuid => ?_
  refine k.flowClosed.option (k.text _ _) k.fail fun peerPortId => ?_
  refine k.flowClosed.option (k.flowLook _) ?_ fun p => ?_
  · exact k.flowClosed.bind (k.flowClosed.pure _) fun status => k.host _
  · exact k.flowClosed.bind (k.act rfl) fun _ =>
      k.flowClosed.bind (k.flowClosed.pure _) fun status => k.host _

theorem parsePortConnect (root : Bytes) : Traces L.flow (Flow.parsePortConnect mp root) := by
  refine k.flowClosed.option (k.text _ _) k.fail fun fromRtUuid => ?_
  refine k.flowClosed.option (k.text _ _) k.fail fun msgUuid => ?_
  refine k.flowClosed.option (k.text _ _) k.fail fun peerPortId => ?_
  refine k.flowClosed.option (k.text _ _) k.fail fun tunnelId => ?_
  refine k.flowClosed.option (k.flowLook _) ?_ fun p => ?_
  · exact k.flowClosed.bind (k.flowClosed.pure _) fun status => k.host _
  · exact k.flowClosed.bind (k.perform _ rfl) fun r => Trace.Closed.ite
      (k.flowClosed.bind (k.flowClosed.pure _) fun status => k.host _)
      (k.flowClosed.bind (k.flowClosed.pure _) fun status => k.host _)

theorem tunnelNewReply (fromRtUuid msgUuid tunnelId : Text) (link : Option Ref) (result : Result) :
    Traces L.flow (do
      if result=.success then
        Flow.host (Atom.send
          (.tunnelNewReply msgUuid.content fromRtUuid.content 200 tunnelId.content))
      else
        match link with
        | none => Pure.pure ()
        | some l => Prog.act (.linkRemoveRef l)
        Flow.host (Atom.send
          (.tunnelNewReply msgUuid.content fromRtUuid.content 500 tunnelId.content)) :
        Flow mp Result) := by
  refine Trace.Closed.ite (k.host _) ?_
  cases link with
  | none => exact k.host _
  | some l => exact k.flowClosed.bind (k.act rfl) fun _ => k.host _

theorem parseTunnelNew (root : Bytes) : Traces L.flow (Flow.parseTunnelNew mp root) := by
  refine k.flowClosed.option (k.text _ _) k.fail fun fromRtUuid => ?_
  refine k.flowClosed.option (k.text _ _) k.fail fun msgUuid => ?_
  refine k.flowClosed.option (k.text _ _) k.fail fun type => ?_
  refine k.flowClosed.option (k.text _ _) k.fail fun tunnelId => ?_
  have hnew : ∀ link : Option Ref, Traces L.flow (do
      let result ← match link with
        | none => Pure.pure .fail
        | some _ => Flow.handleTunnelNewRequest mp fromRtUuid tunnelId
      if result=.success then
        Flow.host (Atom.send
          (.tunnelNewReply msgUuid.content fromRtUuid.content 200 tunnelId.content))
      else
        match link with
        | none => Pure.pure ()
        | some l => Prog.act (.linkRemoveRef l)
        Flow.host (Atom.send
          (.tunnelNewReply msgUuid.content fromRtUuid.content 500 tunnelId.content)) :
        Flow mp Result) := by
    intro link
    cases link with
    | none => exact k.flowClosed.bind k.fail (k.tunnelNewReply fromRtUuid msgUuid tunnelId none)
    | some l =>
      exact k.flowClosed.bind (k.handleTunnelNewRequest _ _)
        (k.tunnelNewReply fromRtUuid msgUuid tunnelId (some l))
  refine Trace.Closed.ite (k.flowClosed.bind (k.flowClosed.pure _) hnew) ?_
  refine k.flowClosed.option (k.flowLook _) ?_ fun l => ?_
  · exact k.flowClosed.bind (k.perform _ rfl) hnew
  · exact k.flowClosed.bind (k.flowClosed.pure _) hnew

end Messages

section Nodes

theorem nodeConnectTunnels (peerId : Text) :
    Traces L.flow (Top.nodeConnectTunnels mp peerId) := by
  have htunnels : Traces L.flow (do
      if !(← Flow.storageTunnel peerId) then return
      let _ ← Flow.proxyTunnel peerId : Flow mp Unit) :=
    k.flowClosed.bind (k.perform _ rfl) fun b => Trace.Closed.ite (k.flowClosed.pure _)
      (k.flowClosed.bind (k.perform _ rfl) fun _ => k.flowClosed.pure _)
  refine k.flowClosed.bind k.flowClosed.read fun s => Trace.Closed.ite ?_ htunnels
  exact k.flowClosed.option (k.perform _ rfl) (k.flowClosed.pure _) fun l =>
    k.flowClosed.bind (k.act rfl) fun _ => htunnels

theorem nodeConnectSetup (newProxy : Bool) :
    Traces L.flow (Top.nodeConnectSetup mp newProxy) := by
  refine k.flowClosed.bind k.flowClosed.read fun s => ?_
  split
  · refine k.flowClosed.bind (k.flowLook _) fun x => Trace.Closed.ite (k.flowClosed.pure _) ?_
    refine k.flowClosed.bind (k.flowLook _) fun y => Trace.Closed.ite (k.flowClosed.pure _) ?_
    exact k.flowClosed.bind (k.host _) fun _ => k.flowClosed.pure _
  · exact Trace.Closed.undefined

theorem nodeSetState : Traces L.flow (Top.nodeSetState mp) := by
  refine k.flowClosed.bind k.flowClosed.read fun s => k.flowClosed.each fun a => ?_
  refine k.flowClosed.bind (k.perform _ rfl) fun r => ?_
  exact Trace.Closed.ite Trace.Closed.undefined (k.flowClosed.pure _)

theorem nodeEnterSleep : Traces L.flow (Top.nodeEnterSleep mp) := k.host _

theorem linkDeserialize (buffer : Bytes) : Traces L.flow (Top.linkDeserialize mp buffer) := by
  have hgive : ∀ b : Bool, Traces L.flow (Pure.pure b : Flow mp Bool) := k.flowClosed.pure
  refine k.flowClosed.option (k.text _ _) (hgive _) fun peerId => ?_
  refine k.flowClosed.option (k.flowClosed.ofOption _) (hgive _) fun isProxy => ?_
  refine k.flowClosed.option (k.perform _ rfl) (hgive _) fun l => ?_
  refine k.flowClosed.bind (k.flowLook _) fun x => Trace.Closed.ite ?_ (hgive _)
  exact k.flowClosed.bind (k.act rfl) fun _ => hgive _

theorem tunnelDeserialize (buffer : Bytes) : Traces L.flow (Top.tunnelDeserialize mp buffer) := by
  have hgive : ∀ b : Bool, Traces L.flow (Pure.pure b : Flow mp Bool) := k.flowClosed.pure
  refine k.flowClosed.option (k.text _ _) (hgive _) fun id => ?_
  refine k.flowClosed.option (k.text _ _) (hgive _) fun peerId => ?_
  refine k.flowClosed.option (k.number _ _) (hgive _) fun state => ?_
  refine k.flowClosed.option (k.number _ _) (hgive _) fun type => ?_
  refine k.flowClosed.option (k.perform _ rfl) (hgive _) fun t => ?_
  refine k.flowClosed.bind (k.flowLook _) fun x => ?_
  split
  · exact k.flowClosed.bind (k.act rfl) fun _ => hgive _
  · exact k.flowClosed.bind (k.act rfl) fun _ => hgive _
  · exact hgive _

theorem restoreNodeState (buffer : Bytes) : Traces L.flow (Top.restoreNodeState mp buffer) := by
  refine k.flowClosed.bind (k.flowClosed.ofOption _) fun b =>
    Trace.Closed.ite ?_ (k.flowClosed.pure _)
  exact k.flowClosed.option (k.number _ _) (k.flowClosed.pure _) fun state => k.host _

end Nodes

section Builds

variable (a : Ref)

theorem buildLook {α : Type} (x : Atom α) :
    Traces (L.build a) (Prog.look x : Build mp a α) := by
  refine (k.buildClosed a).bind (k.buildClosed a).read fun s => ?_
  split
  · exact (k.buildClosed a).pure _
  · exact Trace.Closed.undefined

omit k in
/-- A flow inside the construction of an actor. -/
theorem toBuild {α : Type} {m : Flow mp α} (hm : Traces L.flow m) :
    Traces (L.build a) (m.toBuild (a := a)) := by
  refine Trace.Closed.lift (L := L.build a) (fun _ _ => rfl) fun s r t ops hrun => ?_
  have hops : (ops.map BuildOp.base).map (BuildOp.toTop a)=ops.map TopOp.base := by
    rw [List.map_map]
    rfl
  change L s _ t
  rw [hops]
  exact hm s r t ops hrun

theorem buildHost {α : Type} (x : Atom α) :
    Traces (L.build a) (Flow.toBuild (a := a) (Flow.host x : Flow mp α)) :=
  toBuild a (k.host x)

theorem give (b : Bool) : Traces (L.build a) (Pure.pure b : Build mp a Bool) :=
  (k.buildClosed a).pure _

theorem ofOption {α : Type} (x : Option α) :
    Traces (L.build a) (Prog.ofOption x : Build mp a α) :=
  (k.buildClosed a).ofOption x

theorem describe (id name : Option Bytes) (privateAttributes managedAttributes : List Attribute)
    (stateWas : StateWas) : Traces (L.build a)
      (Build.describe mp a id name privateAttributes managedAttributes stateWas) := by
  refine Trace.Closed.act fun s t hs => ?_
  exact k.op (o := .base (.describe a id name privateAttributes managedAttributes stateWas)) rfl hs

theorem createPortsLoop (objPrevConnections : Bytes) (direction : PortDirection)
    (objConnectionList : Option Bytes) (n : Nat) (ports : Bytes) : Traces (L.build a)
      (Build.createPortsLoop mp a objPrevConnections direction objConnectionList n ports) := by
  induction n generalizing ports with
  | zero => exact k.give a _
  | succ n ih =>
    refine (k.buildClosed a).bind (k.ofOption a _) fun ports => ?_
    refine (k.buildClosed a).bind (k.addPort a _ _ _ _) fun b => Trace.Closed.ite (k.give a _) ?_
    exact (k.buildClosed a).bind (k.ofOption a _) fun r =>
      (k.buildClosed a).bind (k.ofOption a _) fun ports => ih ports

theorem actorCreatePorts (objPorts objPrevConnections : Bytes) (direction : PortDirection)
    (objConnectionList : Option Bytes) : Traces (L.build a)
      (Build.actorCreatePorts mp a objPorts objPrevConnections direction objConnectionList) :=
  (k.buildClosed a).bind (k.ofOption a _) fun _ => k.createPortsLoop a _ _ _ _ _

theorem actorStart : Traces L.flow (Build.actorStart mp a) := by
  refine k.flowClosed.bind (k.flowLook _) fun x => k.flowClosed.bind (k.perform _ rfl) fun b => ?_
  have hgive : ∀ b : Bool, Traces L.flow (Pure.pure b : Flow mp Bool) := k.flowClosed.pure
  refine Trace.Closed.ite (Trace.Closed.ite ?_ (hgive _)) (Trace.Closed.ite ?_ (hgive _))
  · exact k.flowClosed.bind (k.act rfl) fun _ => hgive _
  · exact k.flowClosed.bind (k.flowClosed.ofOption _) fun _ =>
      k.flowClosed.bind (k.act rfl) fun _ => hgive _

theorem actorBegin (x : Actor) : Traces (L.build a) (Build.actorBegin mp a x) :=
  Trace.Closed.ite (k.give a _) (toBuild a (k.actorStart a))

theorem actorShadow (x : Actor) (objActorState objManaged : Bytes) :
    Traces (L.build a) (Build.actorShadow mp a x objActorState objManaged) := by
  refine (k.buildClosed a).bind (k.ofOption a _) fun replica =>
    (k.buildClosed a).bind (k.describe a _ _ _ _ _) fun _ => ?_
  refine (k.buildClosed a).option (k.ofOption a _) (k.give a _) fun args => ?_
  exact (k.buildClosed a).bind (k.buildHost a _) fun r =>
    (k.buildClosed a).bind (k.describe a _ _ _ _ _) fun _ => k.give a _

theorem actorStateFrom (objActorState objManaged : Bytes) :
    Traces (L.build a) (Build.actorStateFrom mp a objActorState objManaged) := by
  refine (k.buildClosed a).bind (k.buildLook a _) fun x =>
    (k.buildClosed a).bind (k.ofOption a _) fun shadow => Trace.Closed.ite ?_ ?_
  · exact (k.buildClosed a).bind (k.actorShadow a x _ _) fun b =>
      Trace.Closed.ite (k.actorBegin a x) (k.give a _)
  · exact (k.buildClosed a).bind (k.describe a _ _ _ _ _) fun _ => k.actorBegin a x

theorem actorCalvinsys (objPrivate : Bytes) :
    Traces (L.build a) (Build.actorCalvinsys mp a objPrivate) := by
  refine (k.buildClosed a).bind (k.ofOption a _) fun b => Trace.Closed.ite ?_ (k.give a _)
  exact (k.buildClosed a).option (k.ofOption a _) (k.give a _) fun r => k.buildHost a _

theorem actorPorts (objState objPrivate : Bytes) :
    Traces (L.build a) (Build.actorPorts mp a objState objPrivate) := by
  refine (k.buildClosed a).option (k.ofOption a _) (k.give a _) fun prev => ?_
  refine (k.buildClosed a).bind (k.ofOption a _) fun list =>
    (k.buildClosed a).bind (k.ofOption a _) fun type => Trace.Closed.ite (k.give a _) ?_
  refine (k.buildClosed a).option (k.ofOption a _) (k.give a _) fun id => ?_
  refine (k.buildClosed a).bind (k.ofOption a _) fun master => Trace.Closed.ite (k.give a _) ?_
  refine (k.buildClosed a).option (k.ofOption a _) (k.give a _) fun ports => ?_
  refine (k.buildClosed a).bind (k.actorCreatePorts a _ _ _ _) fun b =>
    Trace.Closed.ite (k.give a _) ?_
  exact (k.buildClosed a).option (k.ofOption a _) (k.give a _) fun ports =>
    k.actorCreatePorts a _ _ _ _

theorem actorStore : Traces (L.build a) (Build.actorStore mp a) := by
  refine (k.buildClosed a).bind (k.buildClosed a).read fun s => Trace.Closed.ite (k.give a _) ?_
  exact (k.buildClosed a).bind (k.buildHost a _) fun _ => k.give a _

theorem actorFill (objState : Bytes) : Traces (L.build a) (Build.actorFill mp a objState) := by
  refine (k.buildClosed a).option (k.ofOption a _) (k.give a _) fun objActorState => ?_
  refine (k.buildClosed a).option (k.ofOption a _) (k.give a _) fun objPrivate => ?_
  refine (k.buildClosed a).bind (k.actorCalvinsys a _) fun b => Trace.Closed.ite (k.give a _) ?_
  refine (k.buildClosed a).option (k.ofOption a _) (k.give a _) fun id => ?_
  refine (k.buildClosed a).bind (k.buildHost a _) fun r =>
    (k.buildClosed a).bind (k.describe a _ _ _ _ _) fun _ => Trace.Closed.ite (k.give a _) ?_
  refine (k.buildClosed a).bind (k.actorPorts a _ _) fun b => Trace.Closed.ite (k.give a _) ?_
  refine (k.buildClosed a).option (k.ofOption a _) (k.give a _) fun objManaged => ?_
  refine (k.buildClosed a).bind (k.buildHost a _) fun m =>
    (k.buildClosed a).bind (k.describe a _ _ _ _ _) fun _ => Trace.Closed.ite (k.give a _) ?_
  exact (k.buildClosed a).bind (k.actorStateFrom a _ _) fun b =>
    Trace.Closed.ite (k.give a _) (k.actorStore a)

theorem actorTidy (b : Bool) : Traces (L.build a) (Build.actorTidy mp a b) :=
  (k.buildClosed a).bind (k.buildLook a _) fun _ => (k.buildClosed a).bind (k.buildLook a _) fun _ =>
    (k.buildClosed a).bind (k.buildLook a _) fun _ =>
      (k.buildClosed a).bind (k.buildLook a _) fun _ => k.describe a _ _ _ _ _

end Builds

section Steps

theorem topAct {o : TopOp} (h : o.plain=true) : Traces L (Prog.act o : Top mp Unit) :=
  Trace.Closed.act fun _ _ hs => k.op h hs

theorem topPerform {α : Type} {o : TopOp} {f : Node → Option (α × Node)}
    (hf : ∀ s, (f s).map Prod.snd=o.apply mp s) (h : o.plain=true) :
    Traces L (Prog.perform o f hf : Top mp α) :=
  Trace.Closed.perform hf fun _ _ hs => k.op h hs

theorem topHost {α : Type} (x : Atom α) : Traces L (Flow.toTop (Flow.host x : Flow mp α)) :=
  toTop (k.host x)

theorem connectEach (ps : List Ref) : Traces L.flow (Top.connectEach mp ps) := by
  induction ps with
  | nil => exact k.flowClosed.pure _
  | cons p ps ih =>
    refine k.flowClosed.bind (k.flowLook _) fun x => ?_
    dsimp only
    split
    · exact k.flowClosed.bind (k.connect p) fun _ =>
        k.flowClosed.bind ih fun _ => k.flowClosed.pure _
    · exact k.flowClosed.bind ih fun _ => k.flowClosed.pure _

theorem actorConnectPorts (a : Ref) : Traces L (Top.actorConnectPorts mp a) :=
  k.closed.bind (k.topAct rfl) fun _ => k.closed.bind (k.look _) fun x =>
    k.closed.bind (toTop (k.connectEach x.ports)) fun _ => k.topAct rfl

theorem actorJoin (a : Ref) : Traces L (Top.actorJoin mp a) :=
  k.closed.bind (k.look _) fun _ => Trace.Closed.ite (k.actorConnectPorts a) (k.closed.pure _)

theorem actorReject (a : Ref) : Traces L (Top.actorReject mp a) :=
  k.closed.bind (k.topAct rfl) fun _ => k.closed.pure _

theorem actorFinish (a : Ref) (ok : Bool) : Traces L (Top.actorFinish mp a ok) := by
  refine Trace.Closed.ite (k.actorReject a) ?_
  refine k.closed.bind (k.topPerform _ rfl) fun b => Trace.Closed.ite ?_ (k.actorReject a)
  exact k.closed.bind (k.actorJoin a) fun _ => k.closed.pure _

theorem actorCreate (root : Bytes) : Traces L (Top.actorCreate mp root) := by
  refine k.closed.option (k.closed.ofOption _) Trace.Closed.undefined fun objState => ?_
  refine k.closed.option (k.closed.ofOption _) Trace.Closed.undefined fun type => ?_
  refine k.closed.option (k.topPerform _ rfl) (k.closed.pure _) fun a => ?_
  refine k.closed.bind (Trace.Closed.lift _ ?_) fun ok => k.actorFinish a ok
  exact (k.buildClosed a).bind (k.actorFill a _) fun b =>
    (k.buildClosed a).bind (k.actorTidy a b) fun _ => (k.buildClosed a).pure _

theorem dropManaged (a : Ref) : Traces L.flow (Top.dropManaged mp a) :=
  k.flowClosed.bind (k.flowLook _) fun _ => k.act rfl

theorem actorSendBack (a : Ref) : Traces L (Top.actorSendBack mp a) := by
  refine k.closed.bind (k.topAct rfl) fun _ => toTop ?_
  refine k.flowClosed.bind (k.dropManaged a) fun _ => k.flowClosed.bind (k.flowLook _) fun l => ?_
  exact k.flowClosed.bind (k.actorMigrate a _) fun r =>
    Trace.Closed.ite (k.act rfl) (k.flowClosed.pure _)

theorem actorStartLoaded (a : Ref) : Traces L (Top.actorStartLoaded mp a) := by
  refine k.closed.bind (toTop (k.actorStart a)) fun b => Trace.Closed.ite ?_ (k.actorSendBack a)
  exact k.closed.bind (toTop (k.dropManaged a)) fun _ => k.actorConnectPorts a

theorem actorUpdatePending (a : Ref) (type : Text) (status : UInt32) :
    Traces L (Top.actorUpdatePending mp a type status) := by
  refine k.closed.bind (k.look _) fun x => Trace.Closed.ite ?_ (k.closed.pure _)
  refine Trace.Closed.ite (k.actorSendBack a) ?_
  exact k.closed.bind (k.topPerform _ rfl) fun b =>
    Trace.Closed.ite (k.actorStartLoaded a) (k.actorSendBack a)

theorem updatePendingLoop (type : Text) (status : UInt32) (n : Nat) (a : Option Ref) :
    Traces L (Top.updatePendingLoop mp type status n a) := by
  induction n generalizing a with
  | zero => cases a <;> exact k.closed.pure _
  | succ n ih =>
    cases a with
    | none => exact k.closed.pure _
    | some a =>
      refine k.closed.bind (k.actorUpdatePending a type status) fun _ =>
        k.closed.bind k.closed.read fun s => ?_
      dsimp only
      split
      · exact k.closed.bind Trace.Closed.undefined fun _ => ih _
      · exact ih _

theorem topFail : Traces L (Pure.pure .fail : Top mp Result) := k.closed.pure _

theorem getCompiledActorReplyHandler (data : Bytes) :
    Traces L (Top.getCompiledActorReplyHandler mp data) := by
  refine k.closed.option (toTop (k.value _ _)) k.topFail fun v => ?_
  refine k.closed.option (toTop (k.value _ _)) k.topFail fun v => ?_
  refine k.closed.option (toTop (k.number _ _)) k.topFail fun status => ?_
  refine k.closed.option (toTop (k.value _ _)) k.topFail fun objData => ?_
  refine k.closed.option (toTop (k.text _ _)) k.topFail fun type => ?_
  exact k.closed.bind k.closed.read fun s =>
    k.closed.bind (k.updatePendingLoop _ _ _ _) fun _ => k.closed.pure _

theorem replyHandler (m : PendingMsg) (data : Bytes) : Traces L (Top.replyHandler mp m data) := by
  unfold Top.replyHandler
  cases m.handler with
  | nodeSetup => exact toTop (k.nodeSetupReplyHandler data)
  | enterSleep => exact toTop (k.enterSleepReplyHandler data)
  | tunnelRequest => exact toTop (k.tunnelRequestReplyHandler data)
  | portStore => exact toTop (k.storeReplyHandler _ _ data)
  | actorSet => exact toTop (k.storeReplyHandler _ _ data)
  | getPeerPort => exact toTop (k.getPeerPortReplyHandler data)
  | portConnect => exact toTop (k.portConnectReplyHandler data)
  | actorMigrate => exact toTop (k.actorMigrateReplyHandler data _)
  | reqMatch => exact toTop (k.reqMatchReplyHandler data)
  | getCompiledActor => exact k.getCompiledActorReplyHandler data
  | _ => exact k.closed.pure _

theorem handleReply (msgUuid data : Bytes) (unknown : Result) :
    Traces L (Top.handleReply mp msgUuid data unknown) := by
  refine k.closed.option (k.look _) (k.closed.pure _) fun m => ?_
  exact k.closed.bind (k.replyHandler m data) fun _ =>
    k.closed.bind (k.topHost _) fun _ => k.closed.pure _

theorem parseReply (data : Bytes) : Traces L (Top.parseReply mp data) := by
  refine k.closed.option (toTop (k.text _ _)) k.topFail fun tmp => ?_
  exact k.closed.bind (k.closed.ofOption _) fun _ => k.handleReply _ _ _

theorem parseTunnelData (root : Bytes) : Traces L (Top.parseTunnelData mp root) := by
  refine k.closed.option (toTop (k.value _ _)) k.topFail fun v => ?_
  refine k.closed.bind (k.closed.ofOption _) fun b => Trace.Closed.ite ?_ ?_
  · refine k.closed.option (toTop (k.text _ _)) k.topFail fun tmp => ?_
    exact k.closed.bind (k.closed.ofOption _) fun _ => k.handleReply _ _ _
  refine k.closed.bind (k.closed.ofOption _) fun b => Trace.Closed.ite ?_ k.topFail
  refine k.closed.option (toTop (k.text _ _)) k.topFail fun cmd => ?_
  refine Trace.Closed.ite (toTop (k.parseTokenReply root)) ?_
  exact Trace.Closed.ite (toTop (k.parseToken root))
    (Trace.Closed.ite (toTop (k.parseDestroy root)) k.topFail)

theorem parseActorNew (root : Bytes) : Traces L (Top.parseActorNew mp root) := by
  refine k.closed.option (toTop (k.text _ _)) k.topFail fun fromRtUuid => ?_
  refine k.closed.option (toTop (k.text _ _)) k.topFail fun tmp => ?_
  exact k.closed.bind (k.closed.ofOption _) fun _ =>
    k.closed.bind (k.actorCreate root) fun _ => k.topHost _

theorem commandHandlers (c : Bytes × (Bytes → Top mp Result)) (hc : c ∈ Top.commandHandlers mp)
    (data : Bytes) : Traces L (c.2 data) := by
  simp only [Top.commandHandlers,List.mem_cons,List.not_mem_nil,or_false] at hc
  obtain rfl | rfl | rfl | rfl | rfl | rfl | rfl | rfl | rfl := hc
  · exact k.parseReply data
  · exact k.parseTunnelData data
  · exact k.parseActorNew data
  · exact toTop (k.parseAppDestroy data)
  · exact toTop (k.parsePortDisconnect data)
  · exact toTop (k.parsePortConnect data)
  · exact toTop (k.parseTunnelNew data)
  · exact toTop (k.parseActorMigrate data)
  · exact Trace.Closed.undefined

theorem parseMessage (data : Bytes) : Traces L (Top.parseMessage mp data) := by
  refine k.closed.bind k.closed.read fun s => ?_
  split
  · exact Trace.Closed.undefined
  refine Trace.Closed.ite k.topFail ?_
  refine k.closed.option (toTop (k.text _ _)) k.topFail fun cmd => ?_
  dsimp only
  split
  · next hfind => exact k.commandHandlers _ (List.mem_of_find?_eq_some hfind) data
  refine k.closed.option (toTop (k.text _ _)) k.topFail fun tmp => ?_
  refine k.closed.bind (k.closed.ofOption _) fun msgUuid => ?_
  exact k.closed.option (toTop (k.text _ _)) k.topFail fun fromRtUuid => k.topHost _

theorem handleMessage (data : Bytes) : Traces L (Top.handleMessage mp data) := by
  refine k.closed.bind (k.parseMessage data) fun r => Trace.Closed.ite ?_ (k.closed.pure _)
  exact k.closed.bind k.closed.read fun s =>
    Trace.Closed.ite (toTop k.nodeSetState) (k.closed.pure _)

theorem nodeConnectStart : Traces L (Top.nodeConnectStart mp) := by
  refine k.closed.bind k.closed.read fun s => ?_
  split
  · exact Trace.Closed.undefined
  refine Trace.Closed.ite ?_ (k.closed.pure _)
  refine k.closed.bind (k.look _) fun b => Trace.Closed.ite ?_ (toTop (k.nodeConnectTunnels _))
  exact k.closed.bind (k.topAct rfl) fun _ => toTop (k.nodeConnectTunnels _)

theorem nodeConnectDone : Traces L (Top.nodeConnectDone mp) :=
  k.closed.bind k.closed.read fun _ =>
    Trace.Closed.ite (k.closed.each k.actorConnectPorts) (k.closed.pure _)

theorem restoreAll {restore : Bytes → Top mp Bool} (h : ∀ b, Traces L (restore b))
    (buffer : Bytes) (key : String) : Traces L (Top.restoreAll mp restore buffer key) := by
  have heach : ∀ array n i, Traces L (Top.restoreEach mp restore array n i) := by
    intro array n
    induction n with
    | zero => exact fun i => k.closed.pure _
    | succ n ih =>
      intro i
      refine k.closed.option (k.closed.ofOption _) (ih _) fun v => ?_
      exact k.closed.bind (h _) fun b => Trace.Closed.ite (k.closed.pure _) (ih _)
  refine k.closed.bind (k.closed.ofOption _) fun b => Trace.Closed.ite (k.closed.pure _) ?_
  refine k.closed.option (toTop (k.value _ _)) (k.closed.pure _) fun array => ?_
  exact k.closed.bind (k.closed.ofOption _) fun n => heach _ _ _

theorem nodeGetState (buffer : Bytes) : Traces L (Top.nodeGetState mp buffer) := by
  refine k.closed.option (toTop (k.text _ _)) (k.closed.pure _) fun id => ?_
  refine k.closed.bind (k.closed.ofOption _) fun id => k.closed.bind (k.topHost _) fun _ =>
    k.closed.bind (toTop (k.restoreNodeState _)) fun _ => ?_
  refine k.closed.bind (k.restoreAll (fun b => toTop (k.linkDeserialize b)) _ _) fun b =>
    Trace.Closed.ite (k.closed.pure _) ?_
  refine k.closed.bind (k.restoreAll (fun b => toTop (k.tunnelDeserialize b)) _ _) fun b =>
    Trace.Closed.ite (k.closed.pure _) ?_
  exact k.restoreAll (fun b => k.closed.bind (k.actorCreate b) fun _ => k.closed.pure _) _ _

theorem popActors (n : Nat) : Traces L (Top.popActors mp n) := by
  induction n with
  | zero => exact k.closed.pure _
  | succ n ih => exact k.closed.bind (k.topAct rfl) fun _ => ih

theorem nodeReset : Traces L (Top.nodeReset mp) :=
  k.closed.bind k.closed.read fun _ => k.closed.bind (k.popActors _) fun _ =>
    k.closed.bind (k.topAct rfl) fun _ => k.topHost _

theorem nodeSetup (file : Option Bytes) : Traces L (Top.nodeSetup mp file) := by
  cases file with
  | none => exact k.topHost _
  | some buffer =>
    refine k.closed.bind (k.nodeGetState buffer) fun b => Trace.Closed.ite ?_ (k.closed.pure _)
    exact k.closed.bind k.nodeReset fun _ => k.topHost _

theorem needActor (a : Ref) : Traces L (Event.needActor mp a) :=
  k.closed.bind k.closed.read fun _ =>
    Trace.Closed.ite Trace.Closed.undefined (k.closed.pure _)

theorem needPort (p : Ref) : Traces L (Event.needPort mp p) :=
  k.closed.bind (k.look _) fun _ => k.closed.bind (k.needActor _) fun _ =>
    k.closed.bind (k.look _) fun _ =>
      Trace.Closed.ite Trace.Closed.undefined (k.closed.pure _)

theorem program (e : Event) : Traces L (e.program mp) := by
  cases e with
  | start file =>
    refine k.closed.bind k.closed.read fun s => ?_
    dsimp only
    split
    · exact k.closed.bind Trace.Closed.undefined fun _ => k.nodeSetup file
    · exact k.nodeSetup file
  | message data => exact k.handleMessage data
  | transport client => exact k.topHost _
  | connectStart => exact k.nodeConnectStart
  | connectSetup newProxy => exact toTop (k.nodeConnectSetup newProxy)
  | connectDone => exact k.nodeConnectDone
  | schedule => exact toTop k.fireActors
  | stop => exact toTop k.nodeStop
  | enterSleep => exact toTop k.nodeEnterSleep
  | actorCreate root => exact k.closed.bind (k.actorCreate root) fun _ => k.closed.pure _
  | actorConnectPorts a => exact k.closed.bind (k.needActor a) fun _ => k.actorConnectPorts a
  | actorFree a removeFromRegistry => exact k.topAct rfl
  | portConnect p => exact k.closed.bind (k.needPort p) fun _ => toTop (k.connect p)
  | portConnectLocal p =>
    exact k.closed.bind (k.needPort p) fun _ =>
      k.closed.bind (toTop (k.perform _ rfl)) fun _ => k.closed.pure _
  | portDisconnect p => exact k.closed.bind (k.needPort p) fun _ => k.topAct rfl

theorem event (e : Event × Fate) : Traces L (Event.run mp e) :=
  k.closed.bind (k.topHost _) fun _ => k.program e.1

/-- The statement holds of the run of any events. -/
theorem events (es : List (Event × Fate)) : Traces L (Prog.each (Event.run mp) es) :=
  k.closed.each k.event

end Steps

end Traced

end CalvinConstrained
