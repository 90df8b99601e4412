import CalvinConstrained.Framework.Run
import CalvinConstrained.Runtime.Fifo
import CalvinConstrained.Runtime.Timer

namespace CalvinConstrained

/-- The state of the counter in C, with the object that its timer names, its out-port and the tokens
written so far. -/
structure CountTimer where
  timer : Option (Bytes × Timer)
  sleep : UInt32
  start : UInt32
  steps : UInt32
  count : UInt32
  stopped : Bool
  fifo : Fifo UInt32
  emitted : List UInt32

/-- What a firing meets: the time, the outcome of the allocations and of the opening of a timer. -/
structure Firing where
  now : UInt32
  periodAlloc : Bool
  opened : Option Bytes
  tokenAlloc : Bool
  timeoutAlloc : Bool
  periodicAlloc : Bool

namespace CountTimer

/-- `cc_actor_counttimer_init`, with a timer under a new id. -/
def init (sleep start steps : UInt32) (id : Bytes) (now : UInt32) (fifo : Fifo UInt32) : CountTimer where
  timer := some (id,.new false sleep now)
  sleep := sleep
  start := start
  steps := steps
  count := start
  stopped := false
  fifo := fifo
  emitted := []

def canRead (x : CountTimer) : Bool := x.timer.any fun o => o.2.triggered

def read (x : CountTimer) (now : UInt32) : CountTimer :=
  {x with timer := x.timer.map fun o => (o.1,o.2.read now)}

def close (x : CountTimer) : CountTimer := {x with timer := none}

/-- A repeating timer, which the counter opens with a period. -/
def openRepeating (x : CountTimer) (id : Bytes) (now : UInt32) : CountTimer :=
  {x with timer := some (id,.new true x.sleep now)}

/-- The result of the write is only logged. -/
def writeTimer (x : CountTimer) (now : UInt32) : CountTimer :=
  {x with timer := x.timer.map fun o => (o.1,(o.2.write (some x.sleep) now).1)}

/-- The number goes to the out-port, if that has a free slot. -/
def emit (x : CountTimer) : Result × CountTimer :=
  match x.fifo.write x.count with
  | (.success,f) => (.success,{x with fifo := f,emitted := x.emitted++[x.count]})
  | (r,_) => (r,x)

/-- The end of `cc_actor_counttimer_step_no_periodic`. A timeout that cannot be allocated leaves the
count as it was, although the number is out. -/
def stepNoPeriodicEmit (e : Firing) (x : CountTimer) : Bool × CountTimer :=
  if !e.tokenAlloc then (false,x)
  else
    match x.emit with
    | (.success,y) =>
      if !e.timeoutAlloc then (false,y)
      else (true,{y.writeTimer e.now with count := y.count+1})
    | (_,y) => (false,y)

/-- `cc_actor_counttimer_step_no_periodic`. `CC_FAIL` is returned as true. -/
def stepNoPeriodic (e : Firing) (x : CountTimer) : Bool × CountTimer :=
  if x.start+3 ≤ x.count || x.steps ≤ x.count || !x.canRead then (false,x)
  else
    let x := x.read e.now
    if x.count=x.start+2 then
      let x := x.close
      if !e.periodAlloc then (false,x)
      else
        match e.opened with
        | none => (true,x)
        | some id => (x.openRepeating id e.now).stepNoPeriodicEmit e
    else x.stepNoPeriodicEmit e

/-- `cc_actor_counttimer_step_periodic`. -/
def stepPeriodic (e : Firing) (x : CountTimer) : Bool × CountTimer :=
  if x.steps ≤ x.count || !x.canRead then (false,x)
  else
    let x := x.read e.now
    if !e.periodicAlloc then (false,x)
    else
      match x.emit with
      | (.success,y) => (true,{y with count := y.count+1})
      | (_,y) => (false,y)

/-- `cc_actor_counttimer_stop`. -/
def stop (x : CountTimer) : Bool × CountTimer :=
  if x.stopped then (false,x)
  else if x.count=x.steps then (true,{x.close with stopped := true})
  else (false,x)

/-- `cc_actor_counttimer_fire`. -/
def fire (e : Firing) (x : CountTimer) : Bool × CountTimer :=
  let first := x.stepNoPeriodic e
  let second := first.2.stepPeriodic e
  let third := second.2.stop
  (first.1 || second.1 || third.1,third.2)

/-- The timer object, the count and the queue are as before. -/
structure Unchanged (x y : CountTimer) : Prop where
  timer : y.timer=x.timer
  count : y.count=x.count
  fifo : y.fifo=x.fifo

/-- No number is due, and no timer has to be closed. -/
def Idle (x : CountTimer) : Prop :=
  ¬(x.count<x.steps ∧ x.canRead=true) ∧ ¬(x.count=x.steps ∧ x.stopped=false ∧ x.timer.isSome=true)

section Full

variable {x : CountTimer} {e : Firing}

theorem emit_full (h : x.fifo.slotsAvailable 1=false) : x.emit=(.fail,x) := by
  simp [emit,Fifo.write,h]

/-- A timer that was read is not readable, whether it repeats or not. -/
theorem canRead_read (x : CountTimer) (now : UInt32) : (x.read now).canRead=false := by
  unfold canRead read
  cases x.timer with
  | none => rfl
  | some o => cases hrepeats : o.2.repeats <;> simp [Timer.read,Timer.set,hrepeats]

theorem canRead_close (x : CountTimer) : x.close.canRead=false := rfl

theorem canRead_openRepeating (x : CountTimer) (id : Bytes) (now : UInt32) :
    (x.openRepeating id now).canRead=false := by
  by_cases hsleep : 0<x.sleep
  · simp [canRead,openRepeating,Timer.new,Timer.set,hsleep]
  · simp [canRead,openRepeating,Timer.new,hsleep]

theorem stepNoPeriodicEmit_full (h : x.fifo.slotsAvailable 1=false) :
    x.stepNoPeriodicEmit e=(false,x) := by
  rw [stepNoPeriodicEmit,emit_full h]
  split <;> rfl

/-- Behind its guard, the first step acknowledges the timer. -/
theorem stepNoPeriodic_full (h : x.fifo.slotsAvailable 1=false)
    (hguard : (x.start+3 ≤ x.count || x.steps ≤ x.count || !x.canRead)=false) :
    (x.stepNoPeriodic e).2.canRead=false := by
  rw [stepNoPeriodic,hguard,if_neg Bool.false_ne_true]
  dsimp only
  split
  · split
    · exact canRead_close _
    · cases e.opened with
      | none => exact canRead_close _
      | some id =>
        have hend := stepNoPeriodicEmit_full (e := e)
          (x := (x.read e.now).close.openRepeating id e.now) h
        dsimp only
        rw [hend]
        exact canRead_openRepeating _ _ _
  · have hend := stepNoPeriodicEmit_full (e := e) (x := x.read e.now) h
    rw [hend]
    exact canRead_read _ _

theorem stepPeriodic_acked (h : x.canRead=false) : x.stepPeriodic e=(false,x) := by
  simp [stepPeriodic,h]

theorem stepPeriodic_full (h : x.fifo.slotsAvailable 1=false)
    (hguard : (x.steps ≤ x.count || !x.canRead)=false) : (x.stepPeriodic e).2.canRead=false := by
  have hemit : (x.read e.now).emit=(.fail,x.read e.now) := emit_full h
  rw [stepPeriodic,hguard,if_neg Bool.false_ne_true]
  dsimp only
  rw [hemit]
  split
  · exact canRead_read _ _
  · exact canRead_read _ _

theorem stop_acked (h : x.canRead=false) : x.stop.2.canRead=false := by
  rw [stop]
  split
  · exact h
  · split
    · rfl
    · exact h

/-- A number that is due is acknowledged without a slot for it. -/
theorem fire_full (h : x.fifo.slotsAvailable 1=false) (hlt : x.count<x.steps)
    (hread : x.canRead=true) : (x.fire e).2.canRead=false := by
  have hle : decide (x.steps ≤ x.count)=false := decide_eq_false (UInt32.not_le.mpr hlt)
  apply stop_acked
  cases hguard : decide (x.start+3 ≤ x.count) with
  | true =>
    have hfirst : x.stepNoPeriodic e=(false,x) := by simp [stepNoPeriodic,of_decide_eq_true hguard]
    rw [hfirst]
    exact stepPeriodic_full h (by simp [hle,hread])
  | false =>
    have hfirst : (x.stepNoPeriodic e).2.canRead=false :=
      stepNoPeriodic_full h (by simp [hguard,hle,hread])
    rw [stepPeriodic_acked hfirst]
    exact hfirst

/-- Where nothing is due, only a counter that is done goes on, to its stop. -/
theorem fire_idle (h : ¬(x.count<x.steps ∧ x.canRead=true)) : (x.fire e).2=x.stop.2 := by
  have hguard : (decide (x.steps ≤ x.count) || !x.canRead)=true := by
    by_cases hlt : x.count<x.steps
    · have hread : x.canRead=false := Bool.eq_false_iff.mpr fun hc => h ⟨hlt,hc⟩
      rw [hread,Bool.not_false,Bool.or_true]
    · rw [decide_eq_true (UInt32.not_lt.mp hlt),Bool.true_or]
  have hfirst : x.stepNoPeriodic e=(false,x) := by
    rw [stepNoPeriodic,Bool.or_assoc,hguard,Bool.or_true,if_pos rfl]
  have hsecond : x.stepPeriodic e=(false,x) := by rw [stepPeriodic,hguard,if_pos rfl]
  rw [fire,hfirst]
  dsimp only
  rw [hsecond]

/-- A firing without a free slot changes nothing when nothing is due. -/
theorem fire_unchanged_iff (h : x.fifo.slotsAvailable 1=false) :
    Unchanged x (x.fire e).2 ↔ x.Idle := by
  constructor
  · intro hsame
    constructor
    · intro hdue
      have hacked := fire_full (e := e) h hdue.1 hdue.2
      have hread := hdue.2
      rw [canRead,hsame.timer] at hacked
      rw [canRead,hacked] at hread
      cases hread
    · intro hend
      obtain ⟨hcount,hstopped,hsome⟩ := hend
      have hnot : ¬(x.count<x.steps ∧ x.canRead=true) := fun hc => by
        rw [hcount] at hc
        exact UInt32.lt_irrefl _ hc.1
      have htimer := hsame.timer
      rw [fire_idle hnot,stop,hstopped,if_neg Bool.false_ne_true,if_pos hcount] at htimer
      rw [← htimer] at hsome
      cases hsome
  · intro hidle
    rw [fire_idle hidle.1,stop]
    split
    · exact ⟨rfl,rfl,rfl⟩
    · next hstopped =>
      split
      · next hcount =>
        have hnone : x.timer=none := by
          rw [← Option.not_isSome_iff_eq_none]
          exact fun hsome => hidle.2 ⟨hcount,Bool.eq_false_iff.mpr hstopped,hsome⟩
        exact ⟨hnone.symm,rfl,rfl⟩
      · exact ⟨rfl,rfl,rfl⟩

end Full

end CountTimer

/-- What happens to a counter: its timer is checked, the other side of its out-port or anything else
works on the queue, or it is fired. -/
inductive CounterEvent
  | check (now : UInt32)
  | port (fifo : Fifo UInt32)
  | fire (e : Firing)

namespace CounterEvent

def step : CounterEvent → CountTimer → CountTimer
  | .check now,x => {x with timer := x.timer.map fun o => (o.1,o.2.expire now)}
  | .port fifo,x => {x with fifo := fifo}
  | .fire e,x => (x.fire e).2

/-- A firing that finds no free slot leaves everything as it was. -/
def Waits : CounterEvent → CountTimer → Prop
  | .fire e,x => x.fifo.slotsAvailable 1=false → x.Unchanged (x.fire e).2
  | _,_ => True

/-- A firing that finds no free slot comes when nothing is due. -/
def InTime : CounterEvent → CountTimer → Prop
  | .fire _,x => x.fifo.slotsAvailable 1=false → x.Idle
  | _,_ => True

end CounterEvent

/-- In a run of a counter every firing without a free slot changes nothing exactly when at each
of them nothing is due. -/
theorem counttimer_waits_iff (events : List CounterEvent) (x : CountTimer) :
    Always CounterEvent.step CounterEvent.Waits events x ↔
      Always CounterEvent.step CounterEvent.InTime events x := by
  refine always_congr (fun _ => True) (fun event y _ => ?_) (fun _ _ _ _ => trivial) events x trivial
  cases event with
  | check now => exact Iff.rfl
  | port fifo => exact Iff.rfl
  | fire e => exact forall_congr' fun hfull => CountTimer.fire_unchanged_iff hfull

/-- A firing in which every allocation succeeds. -/
def calmFiring (now : UInt32) : Firing := ⟨now,true,some (ascii "timer"),true,true,true⟩

/-- A counter whose queue has room for one number is fired when its timer is due, and once more
while the number waits. -/
def busyEvents : List CounterEvent := [.check 1,.fire (calmFiring 1),.check 2,.fire (calmFiring 2)]

def busyStart : CountTimer := .init 1 1 20 (ascii "timer") 0 (.init 2)

def busyEnd : CountTimer := busyEvents.foldl (fun x event => CounterEvent.step event x) busyStart

/-- The second number is acknowledged and not written; the timer, which is not armed again, is never
due from then on. -/
theorem counttimer_loses_number :
    ¬Always CounterEvent.step CounterEvent.Waits busyEvents busyStart ∧
    busyEnd.timer=some (ascii "timer",⟨1,false,2,false,false⟩) ∧ busyEnd.emitted=[1] := by
  refine ⟨fun h => ?_,by decide,by decide⟩
  have htimer := (h.2.2.2.1 (by decide)).timer
  revert htimer
  decide

end CalvinConstrained
