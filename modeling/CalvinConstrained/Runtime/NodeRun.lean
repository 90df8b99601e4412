import CalvinConstrained.Runtime.Node

namespace CalvinConstrained

/-- The waits of `cc_node_connect_to_proxy`, with what comes before the first. -/
inductive ConnectStage
  | create
  | interface
  | connect
  | join
  | tunnels
  | setup
  deriving DecidableEq,Repr

/-- Where `cc_node_run` is; `left` counts the proxy URIs not tried yet. `sleepRequest` to
`sleepCheck` are `cc_node_enter_sleep`. -/
inductive RunPoint
  | loop
  | uris (left : Nat)
  | connecting (stage : ConnectStage) (left : Nat)
  | fireActors
  | fired
  | idle
  | sleepRequest
  | sleepWait
  | sleepCheck
  | stopped
  | asleep
  deriving DecidableEq,Repr

/-- What a message means for the state of the node. `setupReply` tells whether the reply
has status 200 and a usable time, `sleepReply` is the status if it can be decoded. -/
inductive Incoming
  | destroy
  | setupReply (accepted : Bool)
  | sleepReply (status : Option UInt32)
  | other
  deriving DecidableEq

/-- What the node run meets: the outcome of its own calls, what
`cc_platform_evt_wait` returns, and changes made by the transport layer. -/
inductive RunInput
  | proceed (success : Bool)
  | message (m : Incoming)
  | timeout (maySleep : Bool)
  | waitFailed
  | transport (state : Option TransportState)
  deriving DecidableEq

structure NodeRun where
  state : NodeState
  transport : Option TransportState
  pending : List Handler
  uris : Nat
  point : RunPoint
  deriving DecidableEq

namespace NodeRun

/-- `cc_node_run` is entered in the state that `cc_node_init` left. -/
def start (state : NodeState) (uris : Nat) : NodeRun where
  state := if uris=0 then .started else state
  transport := none
  pending := []
  uris := uris
  point := .loop

/-- `cc_node_handle_message`, as far as it touches the state. A reply is only handled while
its request is pending. -/
def handle : Incoming → NodeRun → Option NodeRun
  | .destroy,s => some {s with state := .stop}
  | .setupReply accepted,s =>
      if .nodeSetup ∈ s.pending then
        some {s with
          state := if accepted then .started else s.state
          pending := s.pending.erase .nodeSetup}
      else none
  | .sleepReply status,s =>
      if .enterSleep ∈ s.pending then
        some {s with
          state := match status with
            | none => s.state
            | some n => if n=200 then .doSleep else .started
          pending := s.pending.erase .enterSleep}
      else none
  | .other,s => some s

def goto (point : RunPoint) (s : NodeRun) : NodeRun := {s with point := point}

/-- The conditions of the wait loops of `cc_node_connect_to_proxy`; the third leaves out the
states of the two tunnels. -/
def waits (stage : ConnectStage) (s : NodeRun) : Bool :=
  match stage with
  | .create => false
  | .interface => decide (s.state≠.stop ∧ s.transport=some .interfaceDown)
  | .connect => decide (s.state≠.stop ∧ s.transport=some .pending)
  | .join => decide (s.state≠.stop ∧ s.transport=some .pending)
  | .tunnels => decide (s.state≠.stop ∧ s.transport=some .enabled)
  | .setup => decide (s.state≠.started ∧ s.state≠.stop ∧ s.transport=some .enabled)

/-- `cc_node_connect_to_proxy` goes on behind a wait; `success` is the outcome of what it
does next. -/
def connectOn (success : Bool) (left : Nat) (s : NodeRun) : ConnectStage → NodeRun
  | .create => s.goto (if s.transport.isSome then .connecting .interface left else .uris left)
  | .interface => s.goto (if success then .connecting .connect left else .uris left)
  | .connect =>
      if success then {s with transport := some .pending,point := .connecting .join left}
      else s.goto (.uris left)
  | .join =>
      if s.state≠.stop ∧ s.transport=some .enabled ∧ success then
        s.goto (.connecting .tunnels left)
      else s.goto (.uris left)
  | .tunnels =>
      if success then
        {s with pending := s.pending++[.nodeSetup],point := .connecting .setup left}
      else s.goto (.uris left)
  | .setup => s.goto (if s.state=.started then .fireActors else .uris left)

/-- `cc_node_run` goes on by itself. -/
def proceed (success : Bool) (s : NodeRun) : Option NodeRun :=
  match s.point with
  | .loop =>
      if s.state=.stop then some (s.goto .stopped)
      else if 0<s.uris ∧ s.transport≠some .enabled then some (s.goto (.uris s.uris))
      else some (s.goto .fireActors)
  | .uris 0 => some (s.goto .fireActors)
  | .uris (left+1) =>
      if s.state=.stop then some (s.goto .fireActors)
      else some {s with state := .doStart,point := .connecting .create left}
  | .connecting stage left =>
      if s.waits stage ∧ stage≠.tunnels then none else some (connectOn success left s stage)
  | .fireActors => some (s.goto (if success then .fired else .idle))
  | .sleepRequest =>
      if s.transport=some .enabled then
        if success then
          some {s with
            state := .pending
            pending := s.pending++[.enterSleep]
            point := .sleepWait}
        else some {s with state := .started,point := .loop}
      else some (s.goto .asleep)
  | .sleepCheck =>
      if s.state=.doSleep then some (s.goto .asleep)
      else some {s with state := .started,point := .loop}
  | _ => none

/-- Where the run is after `cc_platform_evt_wait` handled a message. -/
def afterMessage (s : NodeRun) : Option RunPoint :=
  match s.point with
  | .connecting stage left => if s.waits stage then some (.connecting stage left) else none
  | .fired => some .loop
  | .idle => some .loop
  | .sleepWait => some .sleepCheck
  | _ => none

def step : RunInput → NodeRun → Option NodeRun
  | .proceed success,s => s.proceed success
  | .message m,s =>
      match s.afterMessage,handle m s with
      | some point,some t => some (t.goto point)
      | _,_ => none
  | .timeout maySleep,s =>
      if s.point=.idle ∧ maySleep then some (s.goto .sleepRequest)
      else s.afterMessage.map fun point => s.goto point
  | .waitFailed,s =>
      match s.point with
      | .connecting stage left => if s.waits stage then some (s.goto (.uris left)) else none
      | .idle => some {s with
          transport := s.transport.map fun _ => .disconnected
          point := .loop}
      | _ => s.afterMessage.map fun point => s.goto point
  | .transport state,s => some {s with transport := state}

/-- In the stop state: no reply to the setup or the sleep request is acted on, and the sleep
procedure neither sends its request nor evaluates the answer. -/
def Respects : RunInput → NodeRun → Prop
  | .message (.setupReply accepted),s => s.state=.stop → accepted=false
  | .message (.sleepReply status),s => s.state=.stop → status=none
  | .proceed _,s => s.state=.stop →
      s.point≠.sleepCheck ∧ ¬(s.point=.sleepRequest ∧ s.transport=some .enabled)
  | _,_ => True

instance : (i : RunInput) → (s : NodeRun) → Decidable (Respects i s)
  | .message (.setupReply _),_ => inferInstanceAs (Decidable (_ → _))
  | .message (.sleepReply _),_ => inferInstanceAs (Decidable (_ → _))
  | .proceed _,_ => inferInstanceAs (Decidable (_ → _ ∧ ¬_))
  | .message .destroy,_ => isTrue trivial
  | .message .other,_ => isTrue trivial
  | .timeout _,_ => isTrue trivial
  | .waitFailed,_ => isTrue trivial
  | .transport _,_ => isTrue trivial

@[simp] theorem goto_state (point : RunPoint) (s : NodeRun) : (s.goto point).state=s.state := rfl

theorem connectOn_state (success : Bool) (left : Nat) (s : NodeRun) (stage : ConnectStage) :
    (connectOn success left s stage).state=s.state := by
  cases stage <;> simp only [connectOn] <;> repeat' split
  all_goals rfl

theorem proceed_stop_iff {success : Bool} {s t : NodeRun} (h : s.proceed success=some t)
    (hs : s.state=.stop) : t.state=.stop ↔ Respects (.proceed success) s := by
  have hgo : ∀ {point : RunPoint}, t=s.goto point → (s.point≠.sleepCheck ∧
      ¬(s.point=.sleepRequest ∧ s.transport=some .enabled)) →
      (t.state=.stop ↔ Respects (.proceed success) s) := by
    rintro point rfl hpoint
    exact iff_of_true hs fun _ => hpoint
  unfold proceed at h
  split at h
  · next hp =>
    rw [if_pos hs] at h
    exact hgo (Option.some_inj.mp h).symm (by simp [hp])
  · next hp => exact hgo (Option.some_inj.mp h).symm (by simp [hp])
  · next hp =>
    rw [if_pos hs] at h
    exact hgo (Option.some_inj.mp h).symm (by simp [hp])
  · next stage left hp =>
    split at h
    · cases h
    · cases h
      rw [connectOn_state]
      exact iff_of_true hs fun _ => by simp [hp]
  · next hp => exact hgo (Option.some_inj.mp h).symm (by simp [hp])
  · next hp =>
    split at h
    · next ht =>
      have hnot : ¬Respects (.proceed success) s := fun hr => (hr hs).2 ⟨hp,ht⟩
      split at h
      all_goals
        cases h
        exact iff_of_false (by simp) hnot
    · next ht => exact hgo (Option.some_inj.mp h).symm (by simp [hp,ht])
  · next hp =>
    rw [if_neg (by simp [hs])] at h
    cases h
    exact iff_of_false (by simp) fun hr => (hr hs).1 hp
  · cases h

theorem handle_stop_iff {m : Incoming} {s t : NodeRun} (h : handle m s=some t)
    (hs : s.state=.stop) : t.state=.stop ↔ Respects (.message m) s := by
  cases m with
  | destroy =>
    cases h
    exact iff_of_true rfl trivial
  | setupReply accepted =>
    simp only [handle] at h
    split at h
    · cases h
      cases accepted <;> simp [Respects,hs]
    · cases h
  | sleepReply status =>
    simp only [handle] at h
    split at h
    · cases h
      cases status with
      | none => simp [Respects,hs]
      | some n => by_cases hn : n=200 <;> simp [Respects,hs,hn]
    · cases h
  | other =>
    cases h
    exact iff_of_true hs trivial

/-- One step out of the stop state. -/
theorem step_stop_iff (i : RunInput) (s t : NodeRun) (h : step i s=some t) (hs : s.state=.stop) :
    t.state=.stop ↔ Respects i s := by
  cases i with
  | proceed success => exact proceed_stop_iff h hs
  | message m =>
    simp only [step] at h
    split at h
    · next point u _ hm =>
      cases h
      rw [goto_state]
      exact handle_stop_iff hm hs
    · cases h
  | timeout maySleep =>
    simp only [step] at h
    split at h
    · cases h
      exact iff_of_true hs trivial
    · obtain ⟨point,_,rfl⟩ := Option.map_eq_some_iff.mp h
      exact iff_of_true hs trivial
  | waitFailed =>
    simp only [step] at h
    split at h
    · split at h
      · cases h
        exact iff_of_true hs trivial
      · cases h
    · cases h
      exact iff_of_true hs trivial
    · obtain ⟨point,_,rfl⟩ := Option.map_eq_some_iff.mp h
      exact iff_of_true hs trivial
  | transport state =>
    cases h
    exact iff_of_true hs trivial

/-- From the moment the node is told to stop, whatever comes then: its state is stop all along
the run exactly when every step of the run respects it. -/
theorem stop_kept_iff (s t : NodeRun) (is : List RunInput) (hs : s.state=.stop)
    (hr : Runs step (fun _ _ => True) s is t) :
    (Runs step (fun _ u => u.state=.stop) s is t ∧ t.state=.stop) ↔ Runs step Respects s is t :=
  hr.inside_iff (fun u => u.state=.stop) step_stop_iff hs

/-- A node with one proxy URI connects, up to the wait for the setup reply. -/
def connectInputs : List RunInput :=
  [.proceed true,.proceed true,.transport (some .interfaceUp),.proceed true,.proceed true,
    .transport (some .connected),.proceed true,.transport (some .enabled),.proceed true,
    .proceed true]

/-- The node is stopped while it waits for the setup reply, which never comes. -/
theorem stop_kept_while_connecting :
    ∃ s t, Runs step (fun _ _ => True) (start .doStart 1) (connectInputs++[.message .destroy]) s ∧
      Runs step (fun _ u => u.state=.stop) s
        [.proceed true,.proceed true,.proceed false,.timeout false,.proceed true] t ∧
      t.state=.stop ∧ t.point=.stopped := by
  have hrun : (runChecked step (fun _ _ => True) (connectInputs++[.message .destroy])
      (start .doStart 1)).any (fun s => decide (s.state=.stop) && (runChecked step Respects
        [.proceed true,.proceed true,.proceed false,.timeout false,.proceed true] s).any
          fun t => decide (t.point=.stopped))=true := by
    decide
  obtain ⟨s,hs,hp⟩ := exists_of_any hrun
  obtain ⟨hstop,hrest⟩ := Bool.and_eq_true_iff.mp hp
  obtain ⟨t,ht,hpoint⟩ := exists_of_any hrest
  have hr := Runs.of_runChecked ht
  have hall : Runs step (fun _ _ => True) s
      [.proceed true,.proceed true,.proceed false,.timeout false,.proceed true] t :=
    hr.mono fun _ _ _ => trivial
  obtain ⟨hkept,hend⟩ := (stop_kept_iff s t _ (of_decide_eq_true hstop) hall).mpr hr
  exact ⟨s,t,Runs.of_runChecked hs,hkept,hend,of_decide_eq_true hpoint⟩

/-- The stop command arrives while the node waits for the answer to its sleep request. -/
theorem sleep_overwrites_stop :
    ∃ s t, Runs step (fun _ _ => True) (start .doStart 1)
        (connectInputs++[.message (.setupReply true),.proceed true,.proceed false,.timeout true,
          .proceed true,.message .destroy]) s ∧
      s.state=.stop ∧ step (.proceed true) s=some t ∧ t.state=.started ∧ t.point=.loop := by
  have hrun : (runChecked step (fun _ _ => True) (connectInputs++[.message (.setupReply true),
      .proceed true,.proceed false,.timeout true,.proceed true,.message .destroy])
      (start .doStart 1)).any (fun s => decide (s.state=.stop) && (step (.proceed true) s).any
        fun t => decide (t.state=.started ∧ t.point=.loop))=true := by
    decide
  obtain ⟨s,hs,hp⟩ := exists_of_any hrun
  obtain ⟨hstop,hrest⟩ := Bool.and_eq_true_iff.mp hp
  obtain ⟨t,ht,hpoint⟩ := exists_of_any hrest
  exact ⟨s,t,Runs.of_runChecked hs,of_decide_eq_true hstop,ht,of_decide_eq_true hpoint⟩

end NodeRun

end CalvinConstrained
