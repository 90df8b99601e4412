import CalvinConstrained.Runtime.CString
import CalvinConstrained.Runtime.Common

namespace CalvinConstrained

/-- `cc_calvinsys_timer_t`. -/
structure Timer where
  timeout : UInt32
  armed : Bool
  nextTime : UInt32
  repeats : Bool
  triggered : Bool
  deriving DecidableEq

namespace Timer

/-- `cc_calvinsys_timer_set`. -/
def set (t : Timer) (now timeout : UInt32) : Timer :=
  {t with armed := true,nextTime := now+timeout}

/-- `cc_calvinsys_timer_open`, once the period is decoded; without one it is 0. -/
def new (repeats : Bool) (period now : UInt32) : Timer :=
  let t : Timer := ⟨period,false,0,repeats,false⟩
  if 0<period then t.set now period else t

/-- `cc_calvinsys_timer_read`. -/
def read (t : Timer) (now : UInt32) : Timer :=
  let t := {t with triggered := false}
  if t.repeats then t.set now t.timeout else t

/-- `cc_calvinsys_timer_can_write`. -/
def canWrite (t : Timer) : Bool := !(t.triggered || t.armed)

/-- `cc_calvinsys_timer_write`; `value` is what could be decoded. -/
def write (t : Timer) (value : Option UInt32) (now : UInt32) : Timer × Result :=
  if !t.canWrite then (t,.fail)
  else
    match value with
    | none => (t,.fail)
    | some timeout => (({t with timeout := timeout}).set now timeout,.success)

/-- What `cc_calvinsys_timers_check` does with one timer and its timeout. -/
def check (t : Timer) (now timeout : UInt32) : Timer × UInt32 :=
  if t.armed then
    if t.nextTime ≤ now then ({t with triggered := true,armed := false},0)
    else (t,t.nextTime-now)
  else (t,timeout)

def isDue (t : Timer) (now : UInt32) : Bool := t.armed && decide (t.nextTime ≤ now)

/-- What is left of the time of an armed timer. -/
def left (t : Timer) (now : UInt32) : Nat := t.nextTime.toNat-now.toNat

/-- A timer whose time has come is triggered and no longer armed. -/
def expire (t : Timer) (now : UInt32) : Timer :=
  if t.isDue now then {t with triggered := true,armed := false} else t

end Timer

/-- The state behind a calvinsys object, where `α` is that of all other capabilities. -/
inductive ObjectState (α : Type)
  | timer (t : Timer)
  | other (x : α)

def ObjectState.isTimer {α : Type} : ObjectState α → Bool
  | .timer _ => true
  | .other _ => false

/-- `sys.timer`, with which the names of the two timer capabilities start. -/
def timerPrefix : Bytes := ascii "sys.timer"

/-- A calvinsys object. Its state is a timer where the name of its capability says so. -/
structure SysObject (α : Type) where
  capability : Bytes
  state : ObjectState α
  named : strncmpEq capability timerPrefix 9=state.isTimer

namespace SysObject

variable {α : Type}

/-- The body of the loop of `cc_calvinsys_timers_check`. -/
def check (o : SysObject α) (now timeout : UInt32) : SysObject α × UInt32 :=
  if strncmpEq o.capability timerPrefix 9 then
    match o with
    | ⟨c,.timer t,h⟩ => (⟨c,.timer (t.check now timeout).1,h⟩,(t.check now timeout).2)
    | o => (o,timeout)
  else (o,timeout)

/-- An object changes only if it is a timer whose time has come. -/
def expire (o : SysObject α) (now : UInt32) : SysObject α :=
  match o with
  | ⟨c,.timer t,h⟩ => ⟨c,.timer (t.expire now),h⟩
  | o => o

def armedTimer (o : SysObject α) : Option Timer :=
  match o.state with
  | .timer t => if t.armed then some t else none
  | .other _ => none

end SysObject

/-- `cc_calvinsys_timers_check` on the list of objects and the value of `timeout`. -/
def timersCheck {α : Type} (now : UInt32) :
    List (SysObject α) → UInt32 → List (SysObject α) × UInt32
  | [],timeout => ([],timeout)
  | o::list,timeout =>
    let r := timersCheck now list (o.check now timeout).2
    ((o.check now timeout).1::r.1,r.2)

section Check

variable {α : Type}

def armedTimers (objects : List (SysObject α)) : List Timer := objects.filterMap SysObject.armedTimer

/-- The next timeout as the header of the timers describes it: nothing to wait for once a
timer has expired, else the time until the earliest one. -/
structure IsNextTimeout (objects : List (SysObject α)) (now timeout result : UInt32) : Prop where
  expired : (∃ t ∈ armedTimers objects, t.nextTime ≤ now) → result=0
  earliest : (∀ t ∈ armedTimers objects, now<t.nextTime) → armedTimers objects ≠ [] →
    (∀ t ∈ armedTimers objects, result ≤ t.nextTime-now) ∧
    ∃ t ∈ armedTimers objects, result=t.nextTime-now
  idle : armedTimers objects=[] → result=timeout

/-- No armed timer has less time left than the last one in the list. -/
def LastIsFirst (objects : List (SysObject α)) (now : UInt32) : Prop :=
  ∀ t ∈ (armedTimers objects).getLast?,∀ u ∈ armedTimers objects, t.left now ≤ u.left now

instance (objects : List (SysObject α)) (now : UInt32) : Decidable (LastIsFirst objects now) :=
  inferInstanceAs (Decidable (∀ t ∈ (armedTimers objects).getLast?,_))

theorem Timer.check_fst (t : Timer) (now timeout : UInt32) :
    (t.check now timeout).1=t.expire now := by
  cases harmed : t.armed with
  | false => simp [check,expire,isDue,harmed]
  | true =>
    by_cases hdue : t.nextTime ≤ now
    · simp [check,expire,isDue,harmed,hdue]
    · simp [check,expire,isDue,harmed,hdue]

/-- The timeout of an armed timer is what it has left. -/
theorem Timer.check_snd {t : Timer} (harmed : t.armed=true) (now timeout : UInt32) :
    (t.check now timeout).2.toNat=t.left now := by
  by_cases hdue : t.nextTime ≤ now
  · have hle : t.nextTime.toNat ≤ now.toNat := hdue
    simp only [check,harmed,hdue,if_true,left]
    change 0=_
    omega
  · have hle : now.toNat ≤ t.nextTime.toNat := by
      have hlt : ¬t.nextTime.toNat ≤ now.toNat := hdue
      omega
    simp only [check,harmed,hdue,if_true,if_false,left]
    exact UInt32.toNat_sub_of_le _ _ hle

theorem SysObject.check_fst (o : SysObject α) (now timeout : UInt32) :
    (o.check now timeout).1=o.expire now := by
  obtain ⟨c,state,h⟩ := o
  cases state with
  | timer t =>
    have hname : strncmpEq c timerPrefix 9=true := h
    simp only [check,expire,hname,if_true]
    congr 2
    exact t.check_fst now timeout
  | other x =>
    have hname : strncmpEq c timerPrefix 9=false := h
    simp [check,expire,hname]

theorem SysObject.check_snd (o : SysObject α) (now timeout : UInt32) :
    (o.check now timeout).2=o.armedTimer.elim timeout fun t => (t.check now timeout).2 := by
  obtain ⟨c,state,h⟩ := o
  cases state with
  | timer t =>
    have hname : strncmpEq c timerPrefix 9=true := h
    cases harmed : t.armed with
    | true => simp [check,hname,armedTimer,harmed]
    | false => simp [check,hname,armedTimer,harmed,Timer.check]
  | other x =>
    have hname : strncmpEq c timerPrefix 9=false := h
    simp [check,hname,armedTimer]

theorem armedTimers_armed {objects : List (SysObject α)} {t : Timer}
    (h : t ∈ armedTimers objects) : t.armed=true := by
  obtain ⟨o,-,ho⟩ := List.mem_filterMap.mp h
  unfold SysObject.armedTimer at ho
  split at ho
  · split at ho
    · next harmed =>
      cases ho
      exact harmed
    · cases ho
  · cases ho

/-- The check triggers the timers whose time has come and touches nothing else. -/
theorem timersCheck_objects (objects : List (SysObject α)) (now timeout : UInt32) :
    (timersCheck now objects timeout).1=objects.map fun o => o.expire now := by
  induction objects generalizing timeout with
  | nil => rfl
  | cons o list ih =>
    rw [timersCheck,List.map_cons,ih,SysObject.check_fst]

/-- Every armed timer overwrites the timeout of those before it. -/
theorem timersCheck_timeout (objects : List (SysObject α)) (now timeout : UInt32) :
    (timersCheck now objects timeout).2=
      (armedTimers objects).getLast?.elim timeout fun t => (t.check now timeout).2 := by
  induction objects generalizing timeout with
  | nil => rfl
  | cons o list ih =>
    rw [timersCheck,ih,SysObject.check_snd]
    cases ho : o.armedTimer with
    | none =>
      have hcons : armedTimers (o::list)=armedTimers list := List.filterMap_cons_none ho
      rw [hcons]
      rfl
    | some t =>
      have hcons : armedTimers (o::list)=t::armedTimers list := List.filterMap_cons_some ho
      rw [hcons]
      cases hlast : (armedTimers list).getLast? with
      | none =>
        rw [List.getLast?_eq_none_iff] at hlast
        simp [hlast]
      | some u =>
        have harmed := armedTimers_armed (List.mem_of_getLast? hlast)
        rw [List.getLast?_cons,hlast]
        simp [Timer.check,harmed]

/-- The check leaves what the last armed timer has left. -/
theorem timersCheck_left {objects : List (SysObject α)} {t : Timer}
    (h : (armedTimers objects).getLast?=some t) (now timeout : UInt32) :
    (timersCheck now objects timeout).2.toNat=t.left now := by
  rw [timersCheck_timeout,h]
  exact Timer.check_snd (armedTimers_armed (List.mem_of_getLast? h)) now timeout

/-- An armed timer has nothing left when its time has come. -/
theorem Timer.left_eq_zero {t : Timer} {now : UInt32} : t.left now=0 ↔ t.nextTime ≤ now := by
  rw [left,UInt32.le_iff_toNat_le]
  omega

theorem Timer.left_of_lt {t : Timer} {now : UInt32} (h : now<t.nextTime) :
    (t.nextTime-now).toNat=t.left now :=
  UInt32.toNat_sub_of_le _ _ (UInt32.le_iff_toNat_le.mpr (UInt32.lt_iff_toNat_lt.mp h).le)

theorem pending_of_none_due {timers : List Timer} {now : UInt32}
    (h : ¬∃ t ∈ timers, t.nextTime ≤ now) : ∀ t ∈ timers, now<t.nextTime := by
  intro t ht
  rw [← UInt32.not_le]
  exact fun hdue => h ⟨t,ht,hdue⟩

/-- The result is the next timeout when it is what is left of some armed timer and of no
other less. -/
theorem isNextTimeout_iff {objects : List (SysObject α)} {now timeout result : UInt32} {t : Timer}
    (hmem : t ∈ armedTimers objects) (hresult : result.toNat=t.left now) :
    IsNextTimeout objects now timeout result ↔
      ∀ u ∈ armedTimers objects, t.left now ≤ u.left now := by
  have hzero : result=0 ↔ t.left now=0 := by
    rw [← hresult,← UInt32.toNat_inj]
    rfl
  constructor
  · intro h u hu
    by_cases hsome : ∃ v ∈ armedTimers objects, v.nextTime ≤ now
    · rw [hzero.mp (h.expired hsome)]
      exact Nat.zero_le _
    · have hsome := pending_of_none_due hsome
      have hle := (h.earliest hsome (List.ne_nil_of_mem hmem)).1 u hu
      rw [UInt32.le_iff_toNat_le,hresult,Timer.left_of_lt (hsome u hu)] at hle
      exact hle
  · intro h
    refine ⟨?_,fun hnone _ => ⟨fun u hu => ?_,t,hmem,?_⟩,?_⟩
    · rintro ⟨u,hu,hdue⟩
      have hle := h u hu
      rw [Timer.left_eq_zero.mpr hdue] at hle
      exact hzero.mpr (Nat.le_zero.mp hle)
    · rw [UInt32.le_iff_toNat_le,hresult,Timer.left_of_lt (hnone u hu)]
      exact h u hu
    · rw [← UInt32.toNat_inj,hresult,Timer.left_of_lt (hnone t hmem)]
    · intro hnil
      rw [hnil] at hmem
      cases hmem

theorem timersCheck_isNext_iff (objects : List (SysObject α)) (now timeout : UInt32) :
    IsNextTimeout objects now timeout (timersCheck now objects timeout).2 ↔
      LastIsFirst objects now := by
  unfold LastIsFirst
  cases hlast : (armedTimers objects).getLast? with
  | none =>
    have hnil : armedTimers objects=[] := List.getLast?_eq_none_iff.mp hlast
    rw [timersCheck_timeout,hlast]
    constructor
    · intro _ t ht
      cases ht
    · intro _
      refine ⟨?_,fun _ h => absurd hnil h,fun _ => rfl⟩
      rintro ⟨t,ht,-⟩
      rw [hnil] at ht
      cases ht
  | some t =>
    rw [isNextTimeout_iff (List.mem_of_getLast? hlast) (timersCheck_left hlast now timeout)]
    simp

theorem armedTimers_perm {objects objects' : List (SysObject α)} (h : objects.Perm objects') :
    (armedTimers objects).Perm (armedTimers objects') := h.filterMap _

/-- There is at most one next timeout, whatever the order of the objects. -/
theorem IsNextTimeout.unique {objects objects' : List (SysObject α)}
    {now timeout result result' : UInt32} (hperm : objects.Perm objects')
    (h : IsNextTimeout objects now timeout result)
    (h' : IsNextTimeout objects' now timeout result') : result=result' := by
  have hmem : ∀ t, t ∈ armedTimers objects ↔ t ∈ armedTimers objects' := fun t =>
    (armedTimers_perm hperm).mem_iff
  by_cases hsome : ∃ t ∈ armedTimers objects, t.nextTime ≤ now
  · obtain ⟨t,ht,hdue⟩ := hsome
    rw [h.expired ⟨t,ht,hdue⟩,h'.expired ⟨t,(hmem t).mp ht,hdue⟩]
  · have hsome := pending_of_none_due hsome
    cases harmed : armedTimers objects with
    | nil =>
      have harmed' : armedTimers objects'=[] :=
        List.nil_perm.mp (harmed ▸ armedTimers_perm hperm)
      rw [h.idle harmed,h'.idle harmed']
    | cons t list =>
      have hne : armedTimers objects ≠ [] := by simp [harmed]
      have hne' : armedTimers objects' ≠ [] :=
        List.ne_nil_of_mem ((hmem t).mp (harmed ▸ List.mem_cons_self))
      obtain ⟨hle,u,hu,he⟩ := h.earliest hsome hne
      obtain ⟨hle',v,hv,he'⟩ := h'.earliest (fun w hw => hsome w ((hmem w).mpr hw)) hne'
      have hone : result ≤ result' := he' ▸ hle v ((hmem v).mpr hv)
      have htwo : result' ≤ result := he ▸ hle' u ((hmem u).mp hu)
      exact UInt32.le_antisymm hone htwo

/-- The timers are updated as they should be, and the timeout is the next one exactly when
the last armed timer is due first. Lists in which it is give the same timeout in any order. -/
theorem timers_check_next_iff (objects : List (SysObject α)) (now timeout : UInt32) :
    ((timersCheck now objects timeout).1=objects.map (fun o => o.expire now) ∧
      IsNextTimeout objects now timeout (timersCheck now objects timeout).2 ↔
        LastIsFirst objects now) ∧
    ∀ objects' : List (SysObject α), objects.Perm objects' → LastIsFirst objects now →
      LastIsFirst objects' now →
        (timersCheck now objects timeout).1.Perm (timersCheck now objects' timeout).1 ∧
        (timersCheck now objects timeout).2=(timersCheck now objects' timeout).2 := by
  refine ⟨?_,fun objects' hperm hfirst hfirst' => ⟨?_,?_⟩⟩
  · rw [and_iff_right (timersCheck_objects objects now timeout)]
    exact timersCheck_isNext_iff objects now timeout
  · rw [timersCheck_objects,timersCheck_objects]
    exact hperm.map _
  · exact ((timersCheck_isNext_iff objects now timeout).mpr hfirst).unique hperm
      ((timersCheck_isNext_iff objects' now timeout).mpr hfirst')

/-- A timer that runs out once. -/
def onceTimer (nextTime : UInt32) : SysObject Unit :=
  ⟨ascii "sys.timer.once",.timer ⟨0,true,nextTime,false,false⟩,rfl⟩

theorem timers_check_next_of_sooner_last : LastIsFirst [onceTimer 9,onceTimer 5] 0 ∧
    IsNextTimeout [onceTimer 9,onceTimer 5] 0 2
      (timersCheck 0 [onceTimer 9,onceTimer 5] 2).2 :=
  ⟨by decide,((timers_check_next_iff _ 0 2).1.mpr (by decide)).2⟩

/-- The later of two timers hides the sooner one, and the order of the two matters. -/
theorem timers_check_hides_sooner :
    ¬IsNextTimeout [onceTimer 5,onceTimer 9] 0 2 (timersCheck 0 [onceTimer 5,onceTimer 9] 2).2 ∧
    (timersCheck 0 [onceTimer 5,onceTimer 9] 2).2 ≠
      (timersCheck 0 [onceTimer 9,onceTimer 5] 2).2 := by
  refine ⟨fun h => ?_,by decide⟩
  have hle := (h.earliest (by decide) (by decide)).1 ⟨0,true,5,false,false⟩ (by decide)
  exact absurd hle (by decide)

end Check

end CalvinConstrained
