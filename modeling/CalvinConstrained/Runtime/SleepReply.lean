import CalvinConstrained.Runtime.NodeRun

namespace CalvinConstrained

namespace NodeRun

/-- The state that `cc_node_init` leaves: a fresh node starts, a restored one takes over the
state that was saved. -/
def restored : Option UInt32 → NodeState
  | none => .doStart
  | some value => if NodeState.ofUInt32 value=.doSleep then .started else .ofUInt32 value

theorem restored_awake (saved : Option UInt32) : restored saved≠.doSleep := by
  cases saved with
  | none => simp [restored]
  | some value =>
    by_cases h : NodeState.ofUInt32 value=.doSleep
    · simp [restored,h]
    · simp [restored,h]

/-- Only the reply to a sleep request puts the node into the sleep state. -/
theorem step_awake {i : RunInput} {s t : NodeRun} (h : step i s=some t)
    (hi : ∀ status, i≠.message (.sleepReply status)) (ht : t.state=.doSleep) :
    s.state=.doSleep := by
  cases i with
  | proceed success =>
    simp only [step,proceed] at h
    split at h
    · split at h
      · cases h
        exact ht
      · split at h <;> cases h <;> exact ht
    · cases h
      exact ht
    · split at h
      · cases h
        exact ht
      · cases h
        cases ht
    · split at h
      · cases h
      · cases h
        rwa [connectOn_state] at ht
    · cases h
      exact ht
    · split at h
      · split at h <;> cases h <;> cases ht
      · cases h
        exact ht
    · split at h
      · cases h
        exact ht
      · cases h
        cases ht
    · cases h
  | message m =>
    simp only [step] at h
    split at h
    · next point u _ hm =>
      cases h
      rw [goto_state] at ht
      cases m with
      | destroy =>
        cases hm
        cases ht
      | setupReply accepted =>
        simp only [handle] at hm
        split at hm
        · cases hm
          cases accepted with
          | true => cases ht
          | false => exact ht
        · cases hm
      | sleepReply status => exact absurd rfl (hi status)
      | other =>
        cases hm
        exact ht
    · cases h
  | timeout maySleep =>
    simp only [step] at h
    split at h
    · cases h
      exact ht
    · obtain ⟨point,_,rfl⟩ := Option.map_eq_some_iff.mp h
      exact ht
  | waitFailed =>
    simp only [step] at h
    split at h
    · split at h
      · cases h
        exact ht
      · cases h
    · cases h
      exact ht
    · obtain ⟨point,_,rfl⟩ := Option.map_eq_some_iff.mp h
      exact ht
  | transport state =>
    cases h
    exact ht

/-- The end of the sleep procedure. -/
def FallsAsleep (s : NodeRun) : Prop := s.point=.sleepCheck ∨ s.point=.asleep

instance (s : NodeRun) : Decidable s.FallsAsleep := inferInstanceAs (Decidable (_ ∨ _))

theorem afterMessage_fallsAsleep {s : NodeRun} (h : s.FallsAsleep) : s.afterMessage=none := by
  obtain h | h := h <;> simp [afterMessage,h]

/-- A node that falls asleep does nothing else. -/
theorem step_fallsAsleep {i : RunInput} {s t : NodeRun} (h : step i s=some t)
    (hs : s.FallsAsleep) (hsleep : s.state=.doSleep) : t.FallsAsleep := by
  have hnone := afterMessage_fallsAsleep hs
  cases i with
  | proceed success =>
    obtain hp | hp := hs
    · simp only [step,proceed,hp,hsleep,if_true] at h
      cases h
      exact .inr rfl
    · simp [step,proceed,hp] at h
  | message m => simp [step,hnone] at h
  | timeout maySleep =>
    obtain hp | hp := hs <;> simp [step,hnone,hp] at h
  | waitFailed =>
    obtain hp | hp := hs <;> simp [step,hnone,hp] at h
  | transport state =>
    cases h
    exact hs

end NodeRun

/-- `cc_node_run` with its sleep requests told apart: how many were sent, which of them have
no answer yet, and the one whose answer was to sleep. -/
structure SleepRun where
  run : NodeRun
  attempts : Nat
  unanswered : List Nat
  granted : Option Nat
  deriving DecidableEq

/-- `reply` is the answer to the sleep request with this number; it may come late, twice or
out of order. -/
inductive SleepInput
  | base (i : RunInput)
  | reply (attempt : Nat) (status : Option UInt32)
  deriving DecidableEq

namespace SleepRun

def start (saved : Option UInt32) (uris : Nat) : SleepRun :=
  ⟨.start (NodeRun.restored saved) uris,0,[],none⟩

/-- `cc_node_enter_sleep` gets its request out. -/
def Requests (i : RunInput) (s : NodeRun) : Prop :=
  i=.proceed true ∧ s.point=.sleepRequest ∧ s.transport=some .enabled

instance (i : RunInput) (s : NodeRun) : Decidable (Requests i s) :=
  inferInstanceAs (Decidable (_ ∧ _ ∧ _))

/-- A reply whose request is no longer in the table is handled as any other message. -/
def step : SleepInput → SleepRun → Option SleepRun
  | .base i,s =>
      match i with
      | .message (.sleepReply _) => none
      | _ => (NodeRun.step i s.run).map fun t =>
          if Requests i s.run then
            ⟨t,s.attempts+1,s.unanswered++[s.attempts],s.granted⟩
          else {s with run := t}
  | .reply attempt status,s =>
      if attempt ∈ s.unanswered then
        (NodeRun.step (.message (.sleepReply status)) s.run).map fun t =>
          ⟨t,s.attempts,s.unanswered.erase attempt,
            if status=some 200 then some attempt else s.granted⟩
      else (NodeRun.step (.message .other) s.run).map fun t => {s with run := t}

/-- The node waits for the answer to this request in the call that sent it. -/
def Current (attempt : Nat) (s : SleepRun) : Prop :=
  s.run.point=.sleepWait ∧ attempt+1=s.attempts

instance (attempt : Nat) (s : SleepRun) : Decidable (Current attempt s) :=
  inferInstanceAs (Decidable (_ ∧ _))

/-- The node is in the sleep state only while it falls asleep, for the request of this call. -/
def Awake (s : SleepRun) : Prop :=
  s.run.state=.doSleep → s.run.FallsAsleep ∧ ∃ k, s.granted=some k ∧ k+1=s.attempts

/-- After the reply to an abandoned request the node is where any other message would have
left it. -/
def Timely (i : SleepInput) (s : SleepRun) : Prop :=
  ∀ k status t, i=.reply k status → ¬Current k s → step i s=some t →
    ∃ u, NodeRun.step (.message .other) s.run=some u ∧ t.run.state=u.state ∧ t.run.point=u.point

/-- The reply to an abandoned request has no status, or denies the sleep to a node that is
started. -/
def Harmless : SleepInput → SleepRun → Prop
  | .base _,_ => True
  | .reply attempt status,s => attempt ∈ s.unanswered → ¬Current attempt s →
      status=none ∨ status≠some 200 ∧ s.run.state=.started

instance : (i : SleepInput) → (s : SleepRun) → Decidable (Harmless i s)
  | .base _,_ => isTrue trivial
  | .reply attempt status,s => inferInstanceAs (Decidable (attempt ∈ s.unanswered →
      ¬Current attempt s → status=none ∨ status≠some 200 ∧ s.run.state=.started))

theorem start_awake (saved : Option UInt32) (uris : Nat) : Awake (start saved uris) := by
  intro h
  exfalso
  simp only [start,NodeRun.start] at h
  split at h
  · cases h
  · exact NodeRun.restored_awake saved h

/-- Where the node handles a message it is not in the sleep state. -/
theorem Awake.handling {s : SleepRun} (hs : Awake s) {point : RunPoint}
    (h : s.run.afterMessage=some point) : s.run.state≠.doSleep := by
  intro hsleep
  rw [NodeRun.afterMessage_fallsAsleep (hs hsleep).1] at h
  cases h

/-- What `cc_platform_evt_wait` does with a message. -/
theorem message_eq_some {m : Incoming} {s t : NodeRun} (h : NodeRun.step (.message m) s=some t) :
    ∃ point u, s.afterMessage=some point ∧ NodeRun.handle m s=some u ∧ t=u.goto point := by
  simp only [NodeRun.step] at h
  split at h
  · next point u hpoint hu =>
    cases h
    exact ⟨point,u,hpoint,hu,rfl⟩
  · cases h

theorem handle_sleepReply {status : Option UInt32} {s t : NodeRun}
    (h : NodeRun.handle (.sleepReply status) s=some t) :
    t.state=if status=none then s.state else if status=some 200 then .doSleep else .started := by
  simp only [NodeRun.handle] at h
  split at h
  · cases h
    cases status with
    | none => rfl
    | some n => by_cases hn : n=200 <;> simp [hn]
  · cases h

theorem base_awake {i : RunInput} {s t : SleepRun} (h : step (.base i) s=some t) (hs : Awake s) :
    Awake t := by
  have hi : ∀ status, i≠.message (.sleepReply status) := by
    rintro status rfl
    cases h
  have hmap : (NodeRun.step i s.run).map (fun u => if Requests i s.run then
      ⟨u,s.attempts+1,s.unanswered++[s.attempts],s.granted⟩ else {s with run := u})=some t := by
    simpa only [step] using h
  obtain ⟨u,hu,rfl⟩ := Option.map_eq_some_iff.mp hmap
  intro hsleep
  have hrun : u.state=.doSleep := by
    split at hsleep
    · exact hsleep
    · exact hsleep
  have hbefore := NodeRun.step_awake hu hi hrun
  obtain ⟨hfalls,hgranted⟩ := hs hbefore
  have hrequests : ¬Requests i s.run := by
    rintro ⟨-,hpoint,-⟩
    obtain hp | hp := hfalls <;> rw [hp] at hpoint <;> cases hpoint
  rw [if_neg hrequests]
  exact ⟨NodeRun.step_fallsAsleep hu hfalls hbefore,hgranted⟩

/-- A reply to a request that is no longer in the table. -/
theorem unknown_reply {attempt : Nat} {status : Option UInt32} {s t : SleepRun}
    (h : step (.reply attempt status) s=some t) (hs : Awake s) (hk : attempt ∉ s.unanswered) :
    Awake t ∧ Timely (.reply attempt status) s := by
  have hstep := h
  simp only [step,if_neg hk] at h
  obtain ⟨u,hu,rfl⟩ := Option.map_eq_some_iff.mp h
  obtain ⟨point,v,hpoint,hv,rfl⟩ := message_eq_some hu
  cases hv
  refine ⟨fun hsleep => absurd hsleep (hs.handling hpoint),?_⟩
  intro k status' t hkey _ ht
  cases hstep.symm.trans ht
  exact ⟨_,hu,rfl,rfl⟩

/-- One step of a node that is awake: it stays so and goes on as if an abandoned request had
not been answered, exactly when the reply is harmless. -/
theorem step_iff (i : SleepInput) (s t : SleepRun) (h : step i s=some t) (hs : Awake s) :
    Awake t ∧ Timely i s ↔ Harmless i s := by
  cases i with
  | base i => exact iff_of_true ⟨base_awake h hs,fun k status t hi => by cases hi⟩ trivial
  | reply attempt status =>
    by_cases hk : attempt ∈ s.unanswered
    swap
    · exact iff_of_true (unknown_reply h hs hk) fun hmem => absurd hmem hk
    have hstep := h
    simp only [step,if_pos hk] at h
    obtain ⟨u,hu,rfl⟩ := Option.map_eq_some_iff.mp h
    obtain ⟨point,v,hpoint,hv,rfl⟩ := message_eq_some hu
    have hstate := handle_sleepReply hv
    have hawake := hs.handling hpoint
    have hother : NodeRun.step (.message .other) s.run=some (s.run.goto point) := by
      simp [NodeRun.step,hpoint,NodeRun.handle]
    by_cases hcurrent : Current attempt s
    · refine iff_of_true ⟨?_,fun k status' t hkey hnot _ => ?_⟩ fun _ hnot => absurd hcurrent hnot
      · intro hsleep
        have hwait : point=.sleepCheck := by
          rw [NodeRun.afterMessage,hcurrent.1] at hpoint
          exact (Option.some.inj hpoint).symm
        have hgranted : status=some 200 := by
          by_contra hne
          rw [NodeRun.goto_state,hstate,if_neg hne] at hsleep
          split at hsleep
          · exact hawake hsleep
          · cases hsleep
        rw [if_pos hgranted]
        exact ⟨.inl hwait,attempt,rfl,hcurrent.2⟩
      · cases hkey
        exact absurd hcurrent hnot
    · have htimely : Timely (.reply attempt status) s ↔ v.state=s.run.state := by
        constructor
        · intro htimely
          obtain ⟨w,hw,hsame,-⟩ := htimely attempt status _ rfl hcurrent hstep
          cases hother.symm.trans hw
          exact hsame
        · intro hsame k status' t hkey _ ht
          cases hstep.symm.trans ht
          exact ⟨_,hother,hsame,rfl⟩
      have hharmless : Harmless (.reply attempt status) s ↔ v.state=s.run.state := by
        rw [hstate]
        cases status with
        | none => simp [Harmless]
        | some n =>
          by_cases hn : n=200
          · simp [Harmless,hn,hk,hcurrent,Ne.symm hawake]
          · simp only [Harmless,hk,hcurrent,hn,not_false_eq_true,forall_const,reduceCtorEq,ne_eq,
              Option.some.injEq,true_and,false_or,if_false]
            exact eq_comm
      rw [hharmless,htimely,and_iff_right_iff_imp]
      intro hsame hsleep
      exact absurd (hsame.symm.trans hsleep) hawake

/-- Over a whole run: the node is in the sleep state only for a request of the sleep call it
is in, and no reply to an abandoned request makes a difference, exactly when every such reply
is harmless. -/
theorem late_reply_ignored_iff (saved : Option UInt32) (uris : Nat) (is : List SleepInput)
    (t : SleepRun) (hr : Runs step (fun _ _ => True) (start saved uris) is t) :
    (Runs step (fun i u => Awake u ∧ Timely i u) (start saved uris) is t ∧ Awake t) ↔
      Runs step Harmless (start saved uris) is t :=
  hr.conforms_iff Awake Timely step_iff (start_awake saved uris)

/-- A node with one proxy URI connects, is idle and asks for sleep; its wait ends without
the answer. -/
def abandonedRequest : List SleepInput :=
  (NodeRun.connectInputs++[RunInput.message (.setupReply true),.proceed true,.proceed false,
    .timeout true,.proceed true,.timeout false,.proceed true]).map .base

/-- The late answer is that the node may not sleep, while it is started. -/
theorem late_reply_ignored_denied : ∃ t,
    Runs step (fun i u => Awake u ∧ Timely i u) (start none 1)
      (abandonedRequest++[.base (.proceed true),.base (.proceed false),.reply 0 (some 500)]) t ∧
    t.run.state=.started ∧ t.unanswered=[] := by
  have hrun : (runChecked step Harmless
      (abandonedRequest++[.base (.proceed true),.base (.proceed false),.reply 0 (some 500)])
      (start none 1)).any (fun t => decide (t.run.state=.started ∧ t.unanswered=[]))=true := by
    decide
  obtain ⟨t,ht,hend⟩ := exists_of_any hrun
  have hr := Runs.of_runChecked ht
  have hall : Runs _ (fun _ _ => True) _ _ t := hr.mono fun _ _ _ => trivial
  exact ⟨t,((late_reply_ignored_iff none 1 _ t hall).mpr hr).1,of_decide_eq_true hend⟩

/-- The late answer is that the node may sleep: it is in the sleep state in its main loop. -/
theorem late_reply_puts_to_sleep : ∃ t,
    Runs step (fun _ _ => True) (start none 1)
      (abandonedRequest++[.base (.proceed true),.base (.proceed false),.reply 0 (some 200)]) t ∧
    t.run.point=.loop ∧ ¬Awake t := by
  have hrun : (runChecked step (fun _ _ => True)
      (abandonedRequest++[.base (.proceed true),.base (.proceed false),.reply 0 (some 200)])
      (start none 1)).any (fun t => decide (t.run.state=.doSleep ∧ t.run.point=.loop))=true := by
    decide
  obtain ⟨t,ht,hend⟩ := exists_of_any hrun
  obtain ⟨hsleep,hpoint⟩ := of_decide_eq_true hend
  refine ⟨t,Runs.of_runChecked ht,hpoint,fun hawake => ?_⟩
  obtain hp | hp := (hawake hsleep).1 <;> rw [hpoint] at hp <;> cases hp

end SleepRun

end CalvinConstrained
