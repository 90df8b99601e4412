import CalvinConstrained.Runtime.CountTimer

namespace CalvinConstrained

namespace MicroPython

/-- The counter in Python, with the object that its timer names, its out-port and the tokens written
so far. Without a timer, using it raises an exception. There is always enough memory. -/
structure CountTimer where
  timer : Option (Bytes × Timer)
  sleep : UInt32
  start : Nat
  steps : Nat
  count : Nat
  fifo : Fifo Nat
  emitted : List Nat

namespace CountTimer

/-- `init`, with a timer under a new id. -/
def init (sleep : UInt32) (start steps : Nat) (id : Bytes) (now : UInt32) (fifo : Fifo Nat) :
    CountTimer where
  timer := some (id,.new false sleep now)
  sleep := sleep
  start := start
  steps := steps+start
  count := start
  fifo := fifo
  emitted := []

def canRead (x : CountTimer) : Option Bool := x.timer.map fun o => o.2.triggered

def read (x : CountTimer) (now : UInt32) : CountTimer :=
  {x with timer := x.timer.map fun o => (o.1,o.2.read now)}

/-- A repeating timer, which is opened without a period. -/
def openRepeating (x : CountTimer) (id : Bytes) (now : UInt32) : CountTimer :=
  {x with timer := some (id,.new true 0 now)}

def writeTimer (x : CountTimer) (now : UInt32) : CountTimer :=
  {x with timer := x.timer.map fun o => (o.1,(o.2.write (some x.sleep) now).1)}

/-- The value that an action returns goes to the out-port. -/
def writeToken (x : CountTimer) (value : Nat) : CountTimer :=
  match x.fifo.write value with
  | (.success,f) => {x with fifo := f,emitted := x.emitted++[value]}
  | _ => x

/-- `step_no_periodic` behind its guard and its condition. -/
def countNoPeriodic (now : UInt32) (id : Bytes) (x : CountTimer) : CountTimer :=
  let y := x.read now
  let y := if y.count=y.start+2 then y.openRepeating id now else y
  ({y.writeTimer now with count := y.count+1}).writeToken x.count

/-- `step_periodic` behind its guard and its condition. -/
def countPeriodic (now : UInt32) (x : CountTimer) : CountTimer :=
  ({x.read now with count := x.count+1}).writeToken x.count

/-- An action with a guard that ends in `can_read`, and the condition of a free slot. -/
def action (guard : Bool) (body : CountTimer → CountTimer) (x : CountTimer) :
    Option (Bool × CountTimer) :=
  if guard then
    x.canRead.map fun readable =>
      if readable && x.fifo.slotsAvailable 1 then (true,body x) else (false,x)
  else some (false,x)

def stepNoPeriodic (now : UInt32) (id : Bytes) (x : CountTimer) : Option (Bool × CountTimer) :=
  x.action (x.count<x.start+3 && x.count<x.steps) (countNoPeriodic now id)

def stepPeriodic (now : UInt32) (x : CountTimer) : Option (Bool × CountTimer) :=
  x.action (x.count<x.steps) (countPeriodic now)

def stop (x : CountTimer) : Option (Bool × CountTimer) :=
  if x.count=x.steps then x.timer.map fun _ => (true,{x with timer := none,count := x.count+1})
  else some (false,x)

/-- The first action that fires. -/
def pick (now : UInt32) (id : Bytes) (x : CountTimer) : Option (Bool × CountTimer) := do
  let first ← x.stepNoPeriodic now id
  if first.1 then return first
  let second ← x.stepPeriodic now
  if second.1 then return second
  x.stop

/-- `fire`: actions are picked until none fires. It has no result when the rounds run out. -/
def fire (now : UInt32) (id : Bytes) : Nat → CountTimer → Option CountTimer
  | 0,_ => none
  | n+1,x => do
      let picked ← x.pick now id
      if picked.1 then fire now id n picked.2 else return picked.2

end CountTimer

end MicroPython

/-- What comes before a firing and what it meets: the timers are checked, and the out-port is in some
state. -/
structure Turn (α : Type) (φ : Type) where
  check : UInt32
  fifo : Fifo α
  firing : φ

/-- A firing with enough memory. -/
structure Firing.Calm (e : Firing) : Prop where
  periodAlloc : e.periodAlloc=true
  opened : e.opened.isSome=true
  tokenAlloc : e.tokenAlloc=true
  timeoutAlloc : e.timeoutAlloc=true
  periodicAlloc : e.periodicAlloc=true

namespace CountTimer

def ready (i : Turn UInt32 Firing) (x : CountTimer) : CountTimer :=
  {x with timer := x.timer.map fun o => (o.1,o.2.expire i.check),fifo := i.fifo}

def turn (i : Turn UInt32 Firing) (x : CountTimer) : Option CountTimer :=
  some ((x.ready i).fire i.firing).2

/-- The out-port has a free slot, the timer is due while there is one, and memory suffices. -/
structure Due (i : Turn UInt32 Firing) (x : CountTimer) : Prop where
  slots : i.fifo.slotsAvailable 1=true
  timer : ∀ o ∈ (x.ready i).timer, o.2.triggered=true
  calm : i.firing.Calm

/-- A timer that will be due, or is. -/
def Live (timer : Option (Bytes × Timer)) : Prop := ∀ o ∈ timer, o.2.armed=true ∨ o.2.triggered=true

theorem emit_success {x : CountTimer} (h : x.fifo.slotsAvailable 1=true) : ∃ f, x.emit=
    (.success,{x with fifo := f,emitted := x.emitted++[x.count]}) := by
  simp [emit,Fifo.write,h]

/-- A timer that was read and then written is armed. -/
theorem armed_write_read (t : Timer) (now : UInt32) (sleep : UInt32) :
    (((t.read now).write (some sleep) now).1).armed=true := by
  cases hrepeats : t.repeats with
  | true => simp [Timer.read,Timer.write,Timer.canWrite,Timer.set,hrepeats]
  | false =>
    cases harmed : t.armed with
    | true => simp [Timer.read,Timer.write,Timer.canWrite,hrepeats,harmed]
    | false => simp [Timer.read,Timer.write,Timer.canWrite,Timer.set,hrepeats,harmed]

theorem triggered_write_read (t : Timer) (now : UInt32) (sleep : UInt32) :
    (((t.read now).write (some sleep) now).1).triggered=false := by
  cases hrepeats : t.repeats with
  | true => simp [Timer.read,Timer.write,Timer.canWrite,Timer.set,hrepeats]
  | false =>
    cases harmed : t.armed with
    | true => simp [Timer.read,Timer.write,Timer.canWrite,hrepeats,harmed]
    | false => simp [Timer.read,Timer.write,Timer.canWrite,Timer.set,hrepeats,harmed]

/-- One number is out, and the timer runs again. -/
structure Emits (x z : CountTimer) : Prop where
  sleep : z.sleep=x.sleep
  start : z.start=x.start
  steps : z.steps=x.steps
  count : z.count=x.count+1
  emitted : z.emitted=x.emitted++[x.count]
  acked : z.canRead=false
  timer : ∃ o, z.timer=some o ∧ o.2.armed=true

section Fire

variable {x : CountTimer} {e : Firing} (hcalm : e.Calm) (hslots : x.fifo.slotsAvailable 1=true)

include hcalm hslots

theorem stepNoPeriodicEmit_calm : ∃ f, x.stepNoPeriodicEmit e=(true,
    {x.writeTimer e.now with
      count := x.count+1
      fifo := f
      emitted := x.emitted++[x.count]}) := by
  obtain ⟨f,hf⟩ := emit_success hslots
  refine ⟨f,?_⟩
  rw [stepNoPeriodicEmit,hcalm.tokenAlloc,hf,hcalm.timeoutAlloc]
  rfl

/-- Behind its guard, the first step emits; for the third number it opens a repeating timer. -/
theorem stepNoPeriodic_calm (hsleep : 0<x.sleep) {o : Bytes × Timer} (ho : x.timer=some o)
    (hguard : (x.start+3 ≤ x.count || x.steps ≤ x.count || !x.canRead)=false) :
    ∃ z, x.stepNoPeriodic e=(true,z) ∧ x.Emits z ∧
      (x.count=x.start+2 → ∀ o ∈ z.timer, o.2.repeats=true) := by
  obtain ⟨id,hid⟩ := Option.isSome_iff_exists.mp hcalm.opened
  rw [stepNoPeriodic,hguard,if_neg Bool.false_ne_true]
  dsimp only
  by_cases hthird : x.count=x.start+2
  · obtain ⟨f,hf⟩ := stepNoPeriodicEmit_calm (x := (x.read e.now).close.openRepeating id e.now)
      hcalm hslots
    have hperiod : (!e.periodAlloc)=false := by rw [hcalm.periodAlloc]; rfl
    have hcount : (x.read e.now).count=(x.read e.now).start+2 := hthird
    rw [if_pos hcount,hperiod,if_neg Bool.false_ne_true,hid]
    dsimp only
    have harmed : Timer.new true x.sleep e.now=⟨x.sleep,true,e.now+x.sleep,true,false⟩ := by
      simp [Timer.new,Timer.set,hsleep]
    refine ⟨_,hf,⟨rfl,rfl,rfl,rfl,rfl,?_,?_⟩,?_⟩
    · simp [canRead,writeTimer,openRepeating,close,read,harmed,Timer.write,Timer.canWrite]
    · simp [writeTimer,openRepeating,close,read,harmed,Timer.write,Timer.canWrite]
    · simp [writeTimer,openRepeating,close,read,harmed,Timer.write,Timer.canWrite]
  · obtain ⟨f,hf⟩ := stepNoPeriodicEmit_calm (x := x.read e.now) hcalm hslots
    have hcount : ¬(x.read e.now).count=(x.read e.now).start+2 := hthird
    rw [if_neg hcount]
    refine ⟨_,hf,⟨rfl,rfl,rfl,rfl,rfl,?_,?_⟩,fun h => absurd h hthird⟩
    · simp [canRead,writeTimer,read,ho,triggered_write_read]
    · simp [writeTimer,read,ho,armed_write_read]

/-- In the periodic phase the second step emits, and the timer arms itself. -/
theorem stepPeriodic_calm {o : Bytes × Timer} (ho : x.timer=some o) (hrepeats : o.2.repeats=true)
    (hguard : (x.steps ≤ x.count || !x.canRead)=false) :
    ∃ z, x.stepPeriodic e=(true,z) ∧ x.Emits z ∧ ∀ o ∈ z.timer, o.2.repeats=true := by
  obtain ⟨f,hf⟩ := emit_success (x := x.read e.now) hslots
  have halloc : (!e.periodicAlloc)=false := by rw [hcalm.periodicAlloc]; rfl
  rw [stepPeriodic,hguard,if_neg Bool.false_ne_true]
  dsimp only
  rw [halloc,if_neg Bool.false_ne_true,hf]
  refine ⟨_,rfl,⟨rfl,rfl,rfl,rfl,rfl,canRead_read x e.now,?_⟩,?_⟩
  · simp [read,ho,Timer.read,Timer.set,hrepeats]
  · simp [read,ho,Timer.read,Timer.set,hrepeats]

/-- A counter that is due emits its number; then it stops if that was the last one. -/
theorem fire_calm (hsleep : 0<x.sleep) {o : Bytes × Timer} (ho : x.timer=some o)
    (hdue : o.2.triggered=true) (hlt : x.count<x.steps)
    (hperiodic : x.start+3 ≤ x.count → o.2.repeats=true) :
    ∃ z, (x.fire e).2=z.stop.2 ∧ x.Emits z ∧
      (x.start+3 ≤ x.count ∨ x.count=x.start+2 → ∀ o ∈ z.timer, o.2.repeats=true) := by
  have hread : x.canRead=true := by simp [canRead,ho,hdue]
  have hle : decide (x.steps ≤ x.count)=false := decide_eq_false (UInt32.not_le.mpr hlt)
  cases hguard : decide (x.start+3 ≤ x.count) with
  | true =>
    have hfirst : x.stepNoPeriodic e=(false,x) := by simp [stepNoPeriodic,of_decide_eq_true hguard]
    obtain ⟨z,hz,hemits,hrepeats⟩ := stepPeriodic_calm hcalm hslots ho
      (hperiodic (of_decide_eq_true hguard)) (by simp [hle,hread])
    refine ⟨z,?_,hemits,fun _ => hrepeats⟩
    rw [fire,hfirst]
    dsimp only
    rw [hz]
  | false =>
    obtain ⟨z,hz,hemits,hrepeats⟩ := stepNoPeriodic_calm hcalm hslots hsleep ho
      (by simp [hguard,hle,hread])
    refine ⟨z,?_,hemits,fun h => ?_⟩
    · rw [fire,hz]
      dsimp only
      rw [stepPeriodic_acked hemits.acked]
    · rcases h with h | h
      · exact absurd h (of_decide_eq_false hguard)
      · exact hrepeats h

end Fire

/-- Where a counter stands after `n` turns. -/
structure At (sleep start steps : UInt32) (n : Nat) (x : CountTimer) : Prop where
  keptSleep : x.sleep=sleep
  keptStart : x.start=start
  keptSteps : x.steps=steps
  count : x.count.toNat=start.toNat+min n (steps.toNat-start.toNat)
  emitted : x.emitted.map UInt32.toNat=List.range' start.toNat (min n (steps.toNat-start.toNat))
  opened : x.count<x.steps → x.timer.isSome=true
  live : Live x.timer
  periodic : x.start.toNat+3 ≤ x.count.toNat → x.count<x.steps → ∀ o ∈ x.timer, o.2.repeats=true

section Turns

variable {sleep start steps : UInt32} {n : Nat} {x : CountTimer} {i : Turn UInt32 Firing}

theorem at_init (id : Bytes) (now : UInt32) (fifo : Fifo UInt32) (hsleep : 0<sleep) :
    At sleep start steps 0 (init sleep start steps id now fifo) where
  keptSleep := rfl
  keptStart := rfl
  keptSteps := rfl
  count := by simp [init]
  emitted := by simp [init]
  opened := fun _ => rfl
  live := by
    intro o ho
    cases ho
    exact .inl (by simp [Timer.new,Timer.set,hsleep])
  periodic := by
    intro h
    change start.toNat+3 ≤ start.toNat at h
    omega

theorem live_expire {timer : Option (Bytes × Timer)} (h : Live timer) (now : UInt32) :
    Live (timer.map fun o => (o.1,o.2.expire now)) := by
  intro o ho
  obtain ⟨o',ho',rfl⟩ := Option.map_eq_some_iff.mp ho
  unfold Timer.expire
  split
  · exact .inr rfl
  · exact h o' ho'

theorem repeats_expire (t : Timer) (now : UInt32) : (t.expire now).repeats=t.repeats := by
  unfold Timer.expire
  split <;> rfl

theorem at_stop (hx : At sleep start steps n x) : At sleep start steps n x.stop.2 := by
  unfold stop
  split
  · exact hx
  · split
    · next hcount =>
      have hnot : ¬x.count<x.steps := fun h => UInt32.lt_irrefl _ (hcount ▸ h)
      exact ⟨hx.keptSleep,hx.keptStart,hx.keptSteps,hx.count,hx.emitted,fun h => absurd h hnot,
        fun o ho => (nomatch ho),fun _ h => absurd h hnot⟩
    · exact hx

/-- A turn of a counter that is not done adds one number, every other turn none. -/
theorem at_turn (hsleep : 0<sleep) (hbound : start.toNat+steps.toNat<2^32)
    (hx : At sleep start steps n x) (hdue : Due i x) {y : CountTimer} (hy : turn i x=some y) :
    At sleep start steps (n+1) y := by
  cases hy
  have hlive : Live (x.ready i).timer := live_expire hx.live i.check
  by_cases hlt : x.count<x.steps
  · obtain ⟨o,ho⟩ := Option.isSome_iff_exists.mp (hx.opened hlt)
    have hready : (x.ready i).timer=some (o.1,o.2.expire i.check) := by simp [ready,ho]
    have hnat := UInt32.lt_iff_toNat_lt.mp hlt
    have hcount := hx.count
    have hsteps := congrArg UInt32.toNat hx.keptSteps
    have hstart := congrArg UInt32.toNat hx.keptStart
    have hthree : (x.start+3).toNat=x.start.toNat+3 := by
      rw [UInt32.toNat_add,show (3 : UInt32).toNat=3 from rfl]
      omega
    obtain ⟨z,hz,hemits,hrepeats⟩ := fire_calm (x := x.ready i) hdue.calm hdue.slots
      (show 0<x.sleep from hx.keptSleep ▸ hsleep) hready
      (hdue.timer _ hready) hlt fun hle => by
        rw [repeats_expire]
        refine hx.periodic ?_ hlt o ho
        have hle := UInt32.le_iff_toNat_le.mp hle
        change (x.start+3).toNat ≤ x.count.toNat at hle
        omega
    have hwas : (x.ready i).count=x.count := rfl
    have hone : z.count.toNat=x.count.toNat+1 := by
      rw [hemits.count,hwas,UInt32.toNat_add,show (1 : UInt32).toNat=1 from rfl]
      omega
    have hemitted : z.emitted.map UInt32.toNat=List.range' start.toNat (n+1) := by
      have hprev : x.emitted.map UInt32.toNat=List.range' start.toNat n := by
        rw [hx.emitted]
        congr 1
        omega
      rw [hemits.emitted,List.map_append,List.range'_1_concat]
      change x.emitted.map UInt32.toNat++[x.count.toNat]=_
      rw [hprev,hcount]
      congr 2
      omega
    rw [hz]
    apply at_stop
    refine ⟨hemits.sleep.trans hx.keptSleep,hemits.start.trans hx.keptStart,
      hemits.steps.trans hx.keptSteps,by omega,?_,fun _ => ?_,?_,fun hge _ => ?_⟩
    · rw [hemitted]
      congr 1
      omega
    · obtain ⟨o',ho',-⟩ := hemits.timer
      rw [ho']
      rfl
    · obtain ⟨o',ho',harmed⟩ := hemits.timer
      intro o'' ho''
      rw [ho'] at ho''
      cases ho''
      exact .inl harmed
    · apply hrepeats
      change x.start+3 ≤ x.count ∨ x.count=x.start+2
      rw [hemits.start] at hge
      change x.start.toNat+3 ≤ z.count.toNat at hge
      by_cases hle : x.start.toNat+3 ≤ x.count.toNat
      · exact .inl (UInt32.le_iff_toNat_le.mpr (by omega))
      · right
        apply UInt32.toNat_inj.mp
        rw [UInt32.toNat_add,show (2 : UInt32).toNat=2 from rfl]
        omega
  · have hnot : ¬((x.ready i).count<(x.ready i).steps ∧ (x.ready i).canRead=true) := fun h => hlt h.1
    have hnat := Nat.not_lt.mp fun h => hlt (UInt32.lt_iff_toNat_lt.mpr h)
    have hcount := hx.count
    have hsteps := congrArg UInt32.toNat hx.keptSteps
    have hmin : min n (steps.toNat-start.toNat)=min (n+1) (steps.toNat-start.toNat) := by omega
    rw [fire_idle hnot]
    apply at_stop
    exact ⟨hx.keptSleep,hx.keptStart,hx.keptSteps,hmin ▸ hx.count,hmin ▸ hx.emitted,
      fun h => absurd h hlt,hlive,fun _ h => absurd h hlt⟩

end Turns

section Runs

variable {sleep start steps : UInt32}

/-- Every number of turns can be taken. -/
theorem exists_turns (hsleep : 0<sleep) (hbound : start.toNat+steps.toNat<2^32) (id : Bytes)
    (now : UInt32) (n : Nat) :
    ∀ {x m}, At sleep start steps m x → ∃ is y, is.length=n ∧ Runs turn Due x is y ∧
      At sleep start steps (m+n) y := by
  induction n with
  | zero => exact fun {x m} hx => ⟨[],x,rfl,.nil x,hx⟩
  | succ n ih =>
    intro x m hx
    let i : Turn UInt32 Firing :=
      ⟨x.timer.elim 0 fun o => o.2.nextTime,.init 2,⟨now,true,some id,true,true,true⟩⟩
    have hslots : (Fifo.init 2 : Fifo UInt32).slotsAvailable 1=true := by decide
    have hdue : Due i x := by
      refine ⟨hslots,fun o ho => ?_,rfl,rfl,rfl,rfl,rfl⟩
      obtain ⟨o',ho',rfl⟩ := Option.map_eq_some_iff.mp ho
      have hcheck : i.check=o'.2.nextTime := by simp [i,ho']
      rw [hcheck,Timer.expire,Timer.isDue]
      cases harmed : o'.2.armed with
      | true => simp
      | false =>
        have hlive := hx.live o' ho'
        simpa [harmed] using hlive
    obtain ⟨is,y,hlen,hruns,hy⟩ := ih (at_turn hsleep hbound hx hdue rfl)
    refine ⟨i::is,y,by simp [hlen],.cons hdue rfl hruns,?_⟩
    rwa [show m+(n+1)=m+1+n by omega]

theorem at_runs (hsleep : 0<sleep) (hbound : start.toNat+steps.toNat<2^32) {x y : CountTimer}
    {is : List (Turn UInt32 Firing)} (hr : Runs turn Due x is y) {m : Nat}
    (hx : At sleep start steps m x) : At sleep start steps (m+is.length) y := by
  induction hr generalizing m with
  | nil => exact hx
  | @cons x z y i is hdue hz _ ih =>
    have hy := ih (at_turn hsleep hbound hx hdue hz)
    rwa [List.length_cons,show m+(is.length+1)=m+1+is.length by omega]

end Runs

end CountTimer

namespace MicroPython.CountTimer

abbrev PythonTurn := Turn Nat (UInt32 × Bytes)

def ready (i : PythonTurn) (x : CountTimer) : CountTimer :=
  {x with timer := x.timer.map fun o => (o.1,o.2.expire i.check),fifo := i.fifo}

/-- A firing, for which three rounds have to be enough. -/
def turn (i : PythonTurn) (x : CountTimer) : Option CountTimer :=
  fire i.firing.1 i.firing.2 3 (x.ready i)

structure Due (i : PythonTurn) (x : CountTimer) : Prop where
  slots : i.fifo.slotsAvailable 1=true
  timer : ∀ o ∈ (x.ready i).timer, o.2.triggered=true

/-- What the stop does to a counter that is done. -/
def finish (x : CountTimer) : CountTimer :=
  if x.count=x.steps then {x with timer := none,count := x.count+1} else x

section Fire

variable {x : CountTimer} (now : UInt32) (id : Bytes)

/-- A result stays the same with more rounds. -/
theorem fire_mono {n : Nat} {y : CountTimer} (h : fire now id n x=some y) :
    fire now id (n+1) x=some y := by
  induction n generalizing x with
  | zero => cases h
  | succ n ih =>
    obtain ⟨picked,hpicked,h⟩ := Option.bind_eq_some_iff.mp h
    rw [fire,hpicked,Option.bind_eq_bind,Option.bind_some]
    split at h
    · next hfired =>
      rw [if_pos hfired]
      exact ih h
    · next hfired =>
      rw [if_neg hfired]
      exact h

/-- Where the timer is acknowledged or the count is done, only the stop is left. -/
theorem pick_idle (hidle : x.count<x.steps → ∃ o, x.timer=some o ∧ o.2.triggered=false)
    (hopen : x.count ≤ x.steps → x.timer.isSome=true) :
    x.pick now id=some (decide (x.count=x.steps),x.finish) := by
  have haction : ∀ guard body, (guard=true → x.count<x.steps) → x.action guard body=some (false,x) := by
    intro guard body hguard
    rw [action]
    split
    · next h =>
      obtain ⟨o,ho,hread⟩ := hidle (hguard h)
      simp [canRead,ho,hread]
    · rfl
  have hfirst : x.stepNoPeriodic now id=some (false,x) :=
    haction _ _ fun h => of_decide_eq_true (Bool.and_eq_true_iff.mp h).2
  have hsecond : x.stepPeriodic now=some (false,x) := haction _ _ of_decide_eq_true
  have hstop : x.stop=some (decide (x.count=x.steps),x.finish) := by
    rw [stop,finish]
    by_cases hcount : x.count=x.steps
    · obtain ⟨o,ho⟩ := Option.isSome_iff_exists.mp (hopen hcount.le)
      simp [hcount,ho]
    · simp [hcount]
  simp [pick,hfirst,hsecond,hstop]

theorem fire_idle (hidle : x.count<x.steps → ∃ o, x.timer=some o ∧ o.2.triggered=false)
    (hopen : x.count ≤ x.steps → x.timer.isSome=true) : fire now id 2 x=some x.finish := by
  rw [fire,pick_idle now id hidle hopen,Option.bind_eq_bind,Option.bind_some]
  by_cases hcount : x.count=x.steps
  · have hdone : x.finish={x with timer := none,count := x.count+1} := by rw [finish,if_pos hcount]
    have hlater : ¬x.count+1 ≤ x.steps := by omega
    have hnext : x.finish.pick now id=some (false,x.finish) := by
      have h := pick_idle (x := x.finish) now id
        (fun hlt => absurd (show x.count+1<x.steps by rwa [hdone] at hlt) (by omega))
        (fun hle => absurd (show x.count+1 ≤ x.steps by rwa [hdone] at hle) hlater)
      rw [h,hdone]
      simp [finish,show ¬x.count+1=x.steps by omega]
    rw [decide_eq_true hcount,if_pos rfl,fire,hnext]
    rfl
  · rw [decide_eq_false hcount,if_neg Bool.false_ne_true]
    rfl

/-- One number is out, and the timer runs again. -/
structure Emits (x z : CountTimer) : Prop where
  sleep : z.sleep=x.sleep
  start : z.start=x.start
  steps : z.steps=x.steps
  count : z.count=x.count+1
  emitted : z.emitted=x.emitted++[x.count]
  timer : ∃ o, z.timer=some o ∧ o.2.armed=true ∧ o.2.triggered=false

theorem writeToken_success (value : Nat) (h : x.fifo.slotsAvailable 1=true) :
    ∃ f, x.writeToken value={x with fifo := f,emitted := x.emitted++[value]} := by
  simp [writeToken,Fifo.write,h]

section Due

variable {o : Bytes × Timer} (ho : x.timer=some o) (hdue : o.2.triggered=true)
  (hslots : x.fifo.slotsAvailable 1=true)

include ho hslots

theorem countNoPeriodic_emits : x.Emits (x.countNoPeriodic now id) ∧
    (x.count=x.start+2 → ∀ o ∈ (x.countNoPeriodic now id).timer, o.2.repeats=true) := by
  unfold countNoPeriodic
  by_cases hthird : x.count=x.start+2
  · have hcount : (x.read now).count=(x.read now).start+2 := hthird
    dsimp only
    rw [if_pos hcount]
    obtain ⟨f,hf⟩ := writeToken_success x.count (x :=
      {((x.read now).openRepeating id now).writeTimer now with
        count := ((x.read now).openRepeating id now).count+1}) hslots
    rw [hf]
    refine ⟨⟨rfl,rfl,rfl,rfl,rfl,?_⟩,fun _ => ?_⟩
    · simp [writeTimer,openRepeating,Timer.new,Timer.write,Timer.canWrite,Timer.set]
    · simp [writeTimer,openRepeating,Timer.new,Timer.write,Timer.canWrite,Timer.set]
  · have hcount : ¬(x.read now).count=(x.read now).start+2 := hthird
    dsimp only
    rw [if_neg hcount]
    obtain ⟨f,hf⟩ := writeToken_success x.count (x :=
      {(x.read now).writeTimer now with count := (x.read now).count+1}) hslots
    rw [hf]
    refine ⟨⟨rfl,rfl,rfl,rfl,rfl,?_⟩,fun h => absurd h hthird⟩
    simp [writeTimer,read,ho,CalvinConstrained.CountTimer.armed_write_read,
      CalvinConstrained.CountTimer.triggered_write_read]

theorem countPeriodic_emits (hrepeats : o.2.repeats=true) : x.Emits (x.countPeriodic now) ∧
    ∀ o ∈ (x.countPeriodic now).timer, o.2.repeats=true := by
  obtain ⟨f,hf⟩ := writeToken_success x.count
    (x := {x.read now with count := x.count+1}) hslots
  rw [countPeriodic,hf]
  refine ⟨⟨rfl,rfl,rfl,rfl,rfl,?_⟩,?_⟩
  · simp [read,ho,Timer.read,Timer.set,hrepeats]
  · simp [read,ho,Timer.read,Timer.set,hrepeats]

include hdue

theorem pick_due (hlt : x.count<x.steps) (hperiodic : x.start+3 ≤ x.count → o.2.repeats=true) :
    ∃ z, x.pick now id=some (true,z) ∧ x.Emits z ∧
      (x.start+2 ≤ x.count → ∀ o ∈ z.timer, o.2.repeats=true) := by
  have haction : ∀ body, x.action true body=some (true,body x) := by
    intro body
    simp [action,canRead,ho,hdue,hslots]
  by_cases hfirst : x.count<x.start+3
  · obtain ⟨hemits,hrepeats⟩ := countNoPeriodic_emits now id ho hslots
    refine ⟨_,?_,hemits,fun h => hrepeats (by omega)⟩
    simp [pick,stepNoPeriodic,hfirst,hlt,haction]
  · obtain ⟨hemits,hrepeats⟩ := countPeriodic_emits now ho hslots (hperiodic (by omega))
    refine ⟨_,?_,hemits,fun _ => hrepeats⟩
    have hnone : ∀ body, x.action false body=some (false,x) := fun _ => rfl
    simp [pick,stepNoPeriodic,stepPeriodic,hfirst,hlt,haction,hnone]

/-- A counter that is due emits its number; then it stops if that was the last one. -/
theorem fire_due (hlt : x.count<x.steps) (hperiodic : x.start+3 ≤ x.count → o.2.repeats=true) :
    ∃ z, fire now id 3 x=some z.finish ∧ x.Emits z ∧
      (x.start+2 ≤ x.count → ∀ o ∈ z.timer, o.2.repeats=true) := by
  obtain ⟨z,hz,hemits,hrepeats⟩ := pick_due now id ho hdue hslots hlt hperiodic
  refine ⟨z,?_,hemits,hrepeats⟩
  obtain ⟨o',ho',-,hacked⟩ := hemits.timer
  rw [fire,hz]
  exact fire_idle now id (fun _ => ⟨o',ho',hacked⟩) fun _ => by rw [ho']; rfl

end Due

end Fire

/-- Where a counter stands after `n` turns. -/
structure At (sleep : UInt32) (start steps n : Nat) (x : CountTimer) : Prop where
  keptSleep : x.sleep=sleep
  keptStart : x.start=start
  keptSteps : x.steps=steps+start
  count : x.count=start+min n steps ∨ x.count=x.steps+1 ∧ steps ≤ n
  emitted : x.emitted=List.range' start (min n steps)
  opened : x.count ≤ x.steps → x.timer.isSome=true
  live : CalvinConstrained.CountTimer.Live x.timer
  periodic : x.start+3 ≤ x.count → ∀ o ∈ x.timer, o.2.repeats=true

section Turns

variable {sleep : UInt32} {start steps n : Nat} {x : CountTimer} {i : PythonTurn}

theorem at_init (id : Bytes) (now : UInt32) (fifo : Fifo Nat) (hsleep : 0<sleep) :
    At sleep start steps 0 (init sleep start steps id now fifo) where
  keptSleep := rfl
  keptStart := rfl
  keptSteps := rfl
  count := .inl (by simp [init])
  emitted := by simp [init]
  opened := fun _ => rfl
  live := by
    intro o ho
    cases ho
    exact .inl (by simp [Timer.new,Timer.set,hsleep])
  periodic := by
    intro h
    change start+3 ≤ start at h
    omega

/-- The stop counts one further and leaves no timer. -/
theorem at_finish (hx : At sleep start steps n x) (hn : x.count=x.steps → steps ≤ n) :
    At sleep start steps n x.finish := by
  unfold finish
  split
  · next hcount =>
    exact ⟨hx.keptSleep,hx.keptStart,hx.keptSteps,.inr ⟨congrArg (· + 1) hcount,hn hcount⟩,
      hx.emitted,fun h => absurd (show x.count+1 ≤ x.steps from h) (by omega),
      fun o ho => (nomatch ho),fun _ o ho => (nomatch ho)⟩
  · exact hx

/-- A turn has a result; it adds one number unless the counter is done. -/
theorem at_turn (hx : At sleep start steps n x) (hdue : Due i x) :
    ∃ y, turn i x=some y ∧ At sleep start steps (n+1) y := by
  have hlive : CalvinConstrained.CountTimer.Live (x.ready i).timer :=
    CalvinConstrained.CountTimer.live_expire hx.live i.check
  have hcount := hx.count
  have hsteps := hx.keptSteps
  by_cases hlt : x.count<x.steps
  · have hn : n<steps := by omega
    have hnow : x.count=start+n := by omega
    obtain ⟨o,ho⟩ := Option.isSome_iff_exists.mp (hx.opened hlt.le)
    have hready : (x.ready i).timer=some (o.1,o.2.expire i.check) := by simp [ready,ho]
    obtain ⟨z,hz,hemits,hrepeats⟩ := fire_due (x := x.ready i) i.firing.1
      i.firing.2 hready (hdue.timer _ hready) hdue.slots hlt fun hle => by
        rw [CalvinConstrained.CountTimer.repeats_expire]
        exact hx.periodic hle o ho
    have hzcount : z.count=x.count+1 := hemits.count
    have hzsteps : z.steps=x.steps := hemits.steps
    obtain ⟨o',ho',harmed,-⟩ := hemits.timer
    refine ⟨_,hz,at_finish ⟨hemits.sleep.trans hx.keptSleep,hemits.start.trans hx.keptStart,
      hemits.steps.trans hx.keptSteps,.inl (by omega),?_,fun _ => by rw [ho']; rfl,?_,?_⟩
      fun h => by omega⟩
    · have hemitted : z.emitted=x.emitted++[x.count] := hemits.emitted
      rw [hemitted,hx.emitted,hnow,Nat.min_eq_left hn.le,Nat.min_eq_left (Nat.succ_le_of_lt hn),
        List.range'_1_concat]
    · intro o'' ho''
      rw [ho'] at ho''
      cases ho''
      exact .inl harmed
    · intro hge
      apply hrepeats
      have hzstart : z.start=x.start := hemits.start
      change x.start+2 ≤ x.count
      omega
  · have hfire : fire i.firing.1 i.firing.2 2 (x.ready i)=some (x.ready i).finish := by
      refine fire_idle _ _ (fun h => absurd h hlt) fun h => ?_
      obtain ⟨o,ho⟩ := Option.isSome_iff_exists.mp (hx.opened h)
      simp [ready,ho]
    have hmin : min n steps=min (n+1) steps := by omega
    refine ⟨_,fire_mono _ _ hfire,at_finish ⟨hx.keptSleep,hx.keptStart,hx.keptSteps,?_,
      hmin ▸ hx.emitted,fun h => ?_,hlive,fun hge => ?_⟩ fun h => ?_⟩
    · change x.count=start+min (n+1) steps ∨ x.count=x.steps+1 ∧ steps ≤ n+1
      omega
    · obtain ⟨o,ho⟩ := Option.isSome_iff_exists.mp (hx.opened h)
      simp [ready,ho]
    · intro o ho
      obtain ⟨o',ho',rfl⟩ := Option.map_eq_some_iff.mp ho
      rw [CalvinConstrained.CountTimer.repeats_expire]
      exact hx.periodic hge o' ho'
    · change x.count=x.steps at h
      omega

theorem at_runs {y : CountTimer} {is : List PythonTurn} (hr : Runs turn Due x is y)
    (hx : At sleep start steps n x) : At sleep start steps (n+is.length) y := by
  induction hr generalizing n with
  | nil => exact hx
  | @cons x z y i is hdue hz _ ih =>
    obtain ⟨w,hw,hnext⟩ := at_turn hx hdue
    cases hz.symm.trans hw
    have hy := ih hnext
    rwa [List.length_cons,show n+(is.length+1)=n+1+is.length by omega]

end Turns

end MicroPython.CountTimer

/-- Every stream of tokens is a start of the whole sequence, and after one turn more than it has
tokens it is the sequence. -/
def Counts (start steps turns : Nat) (emitted : List Nat) : Prop :=
  emitted <+: List.range' start steps ∧ (steps+1 ≤ turns → emitted=List.range' start steps)

/-- The two counters are the same actor: in turns with a free slot and a timer that is due both write
the sequence, and no firing of the one in Python goes wrong. -/
structure SameCounter (sleep start steps : UInt32) : Prop where
  c : ∀ id now fifo is y,
    Runs CountTimer.turn CountTimer.Due (.init sleep start steps id now fifo) is y →
      Counts start.toNat steps.toNat is.length (y.emitted.map UInt32.toNat)
  python : ∀ id now fifo is y, Runs MicroPython.CountTimer.turn MicroPython.CountTimer.Due
    (.init sleep start.toNat steps.toNat id now fifo) is y →
      Counts start.toNat steps.toNat is.length y.emitted ∧
      ∀ i, MicroPython.CountTimer.Due i y → (MicroPython.CountTimer.turn i y).isSome=true

/-- The stream after some turns. -/
theorem counts_take (start steps turns : Nat) :
    Counts start steps turns (List.range' start (min turns steps)) := by
  refine ⟨?_,fun h => ?_⟩
  · obtain ⟨rest,hrest⟩ := Nat.exists_eq_add_of_le (Nat.min_le_right turns steps)
    refine ⟨List.range' (start+min turns steps) rest,?_⟩
    rw [List.range'_append_1,← hrest]
  · rw [Nat.min_eq_right (by omega)]

/-- The two counters are the same actor exactly when they start at zero, or have nothing to count. -/
theorem counttimers_same_iff {sleep start steps : UInt32} (hsleep : 1 ≤ sleep)
    (hbound : start.toNat+steps.toNat<2^32) :
    SameCounter sleep start steps ↔ start=0 ∨ steps=0 := by
  have hpos : 0<sleep := by
    rw [UInt32.le_iff_toNat_le] at hsleep
    exact UInt32.lt_iff_toNat_lt.mpr hsleep
  constructor
  · intro hsame
    obtain ⟨is,y,hlen,hruns,hy⟩ := CountTimer.exists_turns hpos hbound (ascii "timer") 0
      (steps.toNat+1) (CountTimer.at_init (ascii "timer") 0 (.init 2) hpos)
    have hwhole := (hsame.c _ _ _ is y hruns).2 hlen.ge
    have hemitted := congrArg List.length (hy.emitted.symm.trans hwhole)
    rw [List.length_range',List.length_range'] at hemitted
    by_cases hstart : start=0
    · exact .inl hstart
    · right
      have hne : start.toNat ≠ 0 := fun h => hstart (UInt32.toNat_inj.mp h)
      apply UInt32.toNat_inj.mp
      change steps.toNat=0
      omega
  · intro hzero
    constructor
    · intro id now fifo is y hr
      have hy := CountTimer.at_runs hpos hbound hr (CountTimer.at_init id now fifo hpos)
      have hsteps : min (0+is.length) (steps.toNat-start.toNat)=min is.length steps.toNat := by
        rcases hzero with rfl | rfl
        · simp
        · simp
      rw [hy.emitted,hsteps]
      exact counts_take _ _ _
    · intro id now fifo is y hr
      have hy := MicroPython.CountTimer.at_runs hr (MicroPython.CountTimer.at_init id now fifo hpos)
      refine ⟨?_,fun i hdue => ?_⟩
      · rw [hy.emitted,Nat.zero_add]
        exact counts_take _ _ _
      · obtain ⟨z,hz,-⟩ := MicroPython.CountTimer.at_turn hy hdue
        rw [hz]
        rfl

theorem counttimers_same_from_zero : SameCounter 1 0 8 :=
  (counttimers_same_iff (by decide) (by decide)).mpr (.inl rfl)

/-- From 1, the counter in C ends one number early. -/
theorem counttimers_differ_from_one : ¬SameCounter 1 1 8 ∧
    ∃ is y, is.length=9 ∧ Runs CountTimer.turn CountTimer.Due
      (.init 1 1 8 (ascii "timer") 0 (.init 2)) is y ∧
      y.emitted.map UInt32.toNat=[1,2,3,4,5,6,7] := by
  have hpos : (0 : UInt32)<1 := by decide
  have hbound : (1 : UInt32).toNat+(8 : UInt32).toNat<2^32 := by decide
  obtain ⟨is,y,hlen,hruns,hy⟩ := CountTimer.exists_turns hpos hbound (ascii "timer") 0 9
    (CountTimer.at_init (ascii "timer") 0 (.init 2) hpos)
  have hemitted : y.emitted.map UInt32.toNat=[1,2,3,4,5,6,7] := hy.emitted.trans (by decide)
  refine ⟨fun h => ?_,is,y,hlen,hruns,hemitted⟩
  have hwhole := (h.c _ _ _ is y hruns).2 (by rw [hlen]; decide)
  rw [hemitted] at hwhole
  revert hwhole
  decide

end CalvinConstrained
