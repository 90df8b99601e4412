import CalvinConstrained.Framework.Run
import CalvinConstrained.Runtime.Timer

namespace CalvinConstrained

/-- The build options that the main loop depends on. Every configuration of the repository
has a positive `CC_INACTIVITY_TIMEOUT`. -/
structure LoopConfig where
  useSleep : Bool
  inactivityTimeout : UInt32
  positive : 0 < inactivityTimeout

/-- `cc_config_x86.h`. -/
def x86Config : LoopConfig := ⟨true,5,by decide⟩

/-- What messages and actors do to the calvinsys objects. `add` stands for objects that are
opened or restored. -/
inductive SysOp (α : Type)
  | add (o : SysObject α)
  | close (i : Nat)
  | write (i : Nat) (value : Option UInt32) (now : UInt32)
  | read (i : Nat) (now : UInt32)
  | change (i : Nat) (x : α)

namespace SysOp

variable {α : Type}

def onTimer (f : Timer → Timer) (o : SysObject α) : SysObject α :=
  match o with
  | ⟨c,.timer t,h⟩ => ⟨c,.timer (f t),h⟩
  | o => o

def onOther (x : α) (o : SysObject α) : SysObject α :=
  match o with
  | ⟨c,.other _,h⟩ => ⟨c,.other x,h⟩
  | o => o

def apply (objects : List (SysObject α)) : SysOp α → List (SysObject α)
  | .add o => objects++[o]
  | .close i => objects.eraseIdx i
  | .write i value now => objects.modify i (onTimer fun t => (t.write value now).1)
  | .read i now => objects.modify i (onTimer fun t => t.read now)
  | .change i x => objects.modify i (onOther x)

end SysOp

/-- What `cc_node_run` keeps from one iteration to the next. -/
structure LoopState (α : Type) where
  objects : List (SysObject α)
  nextTimerTimeout : UInt32

/-- An iteration of the main loop: what happened to the objects before it, the clock at the
first check, what the actors did and whether one fired, the clock after that, and the clock
after a wait that timed out. -/
structure Pass (α : Type) where
  handled : List (SysOp α)
  first : UInt32
  actions : List (SysOp α)
  fired : Bool
  second : UInt32
  timedOut : Option UInt32

/-- A call of `cc_platform_evt_wait`: the timeout, the clock, and the objects after the
actors fired and at the call. -/
structure Wait (α : Type) where
  timeout : UInt32
  now : UInt32
  atFire : List (SysObject α)
  objects : List (SysObject α)

namespace Pass

variable {α : Type} (c : LoopConfig) (p : Pass α) (s : LoopState α)

/-- The first check of an iteration. -/
def firstCheck : List (SysObject α) × UInt32 :=
  timersCheck p.first (p.handled.foldl SysOp.apply s.objects) s.nextTimerTimeout

/-- The objects after the actors fired. -/
def acted : List (SysObject α) := p.actions.foldl SysOp.apply (p.firstCheck s).1

/-- Under `CC_USE_SLEEP` the node waits no longer than until it tries to sleep. -/
def clamp (timeout : UInt32) : UInt32 :=
  if c.useSleep && decide (c.inactivityTimeout<timeout) then c.inactivityTimeout else timeout

def wait : Wait α :=
  if p.fired then ⟨1,p.second,p.acted s,p.acted s⟩
  else
    let r := timersCheck p.second (p.acted s) c.inactivityTimeout
    ⟨clamp c r.2,p.second,p.acted s,r.1⟩

/-- The objects at the end of an iteration. A wait that timed out is followed by a third
check, for the time to sleep; its timeout does not matter here. -/
def afterWait (objects : List (SysObject α)) : List (SysObject α) :=
  match p.timedOut with
  | none => objects
  | some now => if c.useSleep && !p.fired then (timersCheck now objects 0).1 else objects

def step : Option (LoopState α) :=
  some ⟨p.afterWait c (p.wait c s).objects,(p.firstCheck s).2⟩

end Pass

section Waits

variable {α : Type}

def SysObject.timer (o : SysObject α) : Option Timer :=
  match o.state with
  | .timer t => some t
  | .other _ => none

/-- An armed timer has become a triggered one. -/
def HasTriggered (before after : List (SysObject α)) : Prop :=
  ∃ (i : Nat) (t u : Timer), before[i]?.bind SysObject.timer=some t ∧ after[i]?.bind SysObject.timer=some u ∧
    t.armed=true ∧ u.armed=false ∧ u.triggered=true

/-- The timeout that `cc_platform_evt_wait` gives to `select`; without one, it waits for
an event. -/
def selectTimeout (timeoutSeconds : UInt32) : Option UInt32 :=
  if 0<timeoutSeconds then some timeoutSeconds else none

/-- The wait ends before any timer does, and does not last forever when a timer has already
triggered. -/
structure Wait.InTime (w : Wait α) : Prop where
  armed : armedTimers w.objects ≠ [] →
    1 ≤ w.timeout ∧ ∀ t ∈ armedTimers w.objects, w.timeout.toNat ≤ t.left w.now
  triggered : HasTriggered w.atFire w.objects → selectTimeout w.timeout ≠ none

/-- When an actor fired, no armed timer is due; else the last armed timer is not due and no
other armed timer that is not due has less time left than the node waits for the last. -/
def Pass.Punctual (c : LoopConfig) (p : Pass α) (s : LoopState α) : Prop :=
  if p.fired then ∀ t ∈ armedTimers (p.acted s), p.second<t.nextTime
  else ∀ t ∈ (armedTimers (p.acted s)).getLast?, p.second<t.nextTime ∧
    ∀ u ∈ armedTimers (p.acted s), p.second<u.nextTime →
      (Pass.clamp c (t.nextTime-p.second)).toNat ≤ u.left p.second

/-- What is armed after a check was armed before and is not due. -/
theorem mem_armedTimers_expire {objects : List (SysObject α)} {now : UInt32} {t : Timer} :
    t ∈ armedTimers (objects.map fun o => o.expire now) ↔
      t ∈ armedTimers objects ∧ now<t.nextTime := by
  rw [armedTimers,armedTimers,List.filterMap_map,List.mem_filterMap,List.mem_filterMap]
  have hone : ∀ o : SysObject α, (SysObject.armedTimer ∘ fun o => o.expire now) o=some t ↔
      o.armedTimer=some t ∧ now<t.nextTime := by
    rintro ⟨c,state,h⟩
    cases state with
    | other x => simp [SysObject.expire,SysObject.armedTimer]
    | timer u =>
      have hlt : now<u.nextTime ↔ ¬u.nextTime ≤ now := UInt32.not_le.symm
      cases harmed : u.armed with
      | false => simp [SysObject.expire,SysObject.armedTimer,Timer.expire,Timer.isDue,harmed]
      | true =>
        by_cases hdue : u.nextTime ≤ now
        · simp only [SysObject.expire,SysObject.armedTimer,Timer.expire,Timer.isDue,harmed,hdue,
            Function.comp,decide_true,Bool.and_self,if_true,Bool.false_eq_true,if_false,
            Option.some.injEq]
          constructor
          · intro hn
            cases hn
          · rintro ⟨rfl,hn⟩
            exact absurd hdue (hlt.mp hn)
        · simp only [SysObject.expire,SysObject.armedTimer,Timer.expire,Timer.isDue,harmed,hdue,
            Function.comp,decide_false,Bool.and_false,if_true,Bool.false_eq_true,if_false,
            Option.some.injEq]
          constructor
          · rintro rfl
            exact ⟨rfl,hlt.mpr hdue⟩
          · exact fun hn => hn.1
  constructor
  · rintro ⟨o,ho,ht⟩
    obtain ⟨ht,hn⟩ := (hone o).mp ht
    exact ⟨⟨o,ho,ht⟩,hn⟩
  · rintro ⟨⟨o,ho,ht⟩,hn⟩
    exact ⟨o,ho,(hone o).mpr ⟨ht,hn⟩⟩

theorem hasTriggered_self (objects : List (SysObject α)) : ¬HasTriggered objects objects := by
  rintro ⟨i,t,u,ht,hu,harmed,hdone,-⟩
  rw [ht] at hu
  cases hu
  exact absurd (harmed.symm.trans hdone) (by decide)

/-- A check has triggered a timer when one that was armed is due. -/
theorem hasTriggered_check (objects : List (SysObject α)) (now : UInt32) :
    HasTriggered objects (objects.map fun o => o.expire now) ↔
      ∃ t ∈ armedTimers objects, t.nextTime ≤ now := by
  constructor
  · rintro ⟨i,t,u,ht,hu,harmed,hdone,-⟩
    obtain ⟨o,ho,hot⟩ := Option.bind_eq_some_iff.mp ht
    rw [List.getElem?_map,ho,Option.map_some,Option.bind_some] at hu
    obtain ⟨c,state,h⟩ := o
    cases state with
    | other x => cases hot
    | timer v =>
      cases hot
      refine ⟨t,List.mem_filterMap.mpr ⟨_,List.mem_of_getElem? ho,?_⟩,?_⟩
      · simp [SysObject.armedTimer,harmed]
      · by_contra hdue
        cases hu
        simp [Timer.expire,Timer.isDue,hdue,harmed] at hdone
  · rintro ⟨t,ht,hdue⟩
    have harmed := armedTimers_armed ht
    obtain ⟨o,ho,hot⟩ := List.mem_filterMap.mp ht
    obtain ⟨i,hi⟩ := List.mem_iff_getElem?.mp ho
    obtain ⟨c,state,h⟩ := o
    cases state with
    | other x => cases hot
    | timer v =>
      simp only [SysObject.armedTimer] at hot
      split at hot
      · cases hot
        refine ⟨i,t,t.expire now,?_,?_,harmed,?_,?_⟩
        · rw [hi]
          rfl
        · rw [List.getElem?_map,hi]
          rfl
        · simp [Timer.expire,Timer.isDue,hdue,harmed]
        · simp [Timer.expire,Timer.isDue,hdue,harmed]
      · cases hot

theorem Timer.left_pos {t : Timer} {now : UInt32} : 1 ≤ t.left now ↔ now<t.nextTime := by
  rw [left,UInt32.lt_iff_toNat_lt]
  omega

theorem Pass.clamp_pos (c : LoopConfig) {timeout : UInt32} (h : 1 ≤ timeout) :
    1 ≤ Pass.clamp c timeout := by
  have hpos : 0 < c.inactivityTimeout.toNat := UInt32.lt_iff_toNat_lt.mp c.positive
  unfold Pass.clamp
  split
  · exact UInt32.le_iff_toNat_le.mpr hpos
  · exact h

theorem Pass.clamp_zero (c : LoopConfig) : Pass.clamp c 0=0 := by
  unfold Pass.clamp
  split
  · next h =>
    rw [Bool.and_eq_true,decide_eq_true_eq] at h
    have hlt : c.inactivityTimeout.toNat<0 := UInt32.lt_iff_toNat_lt.mp h.2
    omega
  · rfl

theorem Pass.fired_inTime_iff {c : LoopConfig} {p : Pass α} {s : LoopState α} (h : p.fired=true) :
    (p.wait c s).InTime ↔ ∀ t ∈ armedTimers (p.acted s), p.second<t.nextTime := by
  rw [Pass.wait,if_pos h]
  constructor
  · intro hw t ht
    exact Timer.left_pos.mp ((hw.armed (List.ne_nil_of_mem ht)).2 t ht)
  · intro hall
    refine ⟨fun _ => ⟨UInt32.le_refl 1,fun t ht => Timer.left_pos.mpr (hall t ht)⟩,fun ht => ?_⟩
    exact absurd ht (hasTriggered_self _)

/-- The timeout of an idle node, when the last armed timer is `t`. -/
theorem Pass.idle_timeout {p : Pass α} {s : LoopState α} {t : Timer} (timeout : UInt32)
    (hlast : (armedTimers (p.acted s)).getLast?=some t) (hdue : p.second<t.nextTime) :
    (timersCheck p.second (p.acted s) timeout).2=t.nextTime-p.second := by
  rw [← UInt32.toNat_inj,timersCheck_left hlast,Timer.left_of_lt hdue]

theorem Pass.idle_inTime_iff {c : LoopConfig} {p : Pass α} {s : LoopState α}
    (h : p.fired=false) :
    (p.wait c s).InTime ↔ ∀ t ∈ (armedTimers (p.acted s)).getLast?, p.second<t.nextTime ∧
      ∀ u ∈ armedTimers (p.acted s), p.second<u.nextTime →
        (Pass.clamp c (t.nextTime-p.second)).toNat ≤ u.left p.second := by
  rw [Pass.wait,if_neg (by simp [h])]
  dsimp only
  rw [timersCheck_objects]
  constructor
  · intro hw t hlast
    have hmem : t ∈ armedTimers (p.acted s) := List.mem_of_getLast? hlast
    have hdue : p.second<t.nextTime := by
      rw [← UInt32.not_le]
      intro hdue
      have hzero : (timersCheck p.second (p.acted s) c.inactivityTimeout).2=0 := by
        rw [← UInt32.toNat_inj,timersCheck_left hlast,Timer.left_eq_zero.mpr hdue]
        rfl
      refine hw.triggered ((hasTriggered_check _ _).mpr ⟨t,hmem,hdue⟩) ?_
      dsimp only
      rw [hzero,Pass.clamp_zero]
      rfl
    refine ⟨hdue,fun u hu hlt => ?_⟩
    have hafter := mem_armedTimers_expire.mpr ⟨hu,hlt⟩
    have hle := (hw.armed (List.ne_nil_of_mem hafter)).2 u hafter
    dsimp only at hle
    rwa [Pass.idle_timeout _ hlast hdue] at hle
  · intro hall
    cases hlast : (armedTimers (p.acted s)).getLast? with
    | none =>
      have hnil : armedTimers (p.acted s)=[] := List.getLast?_eq_none_iff.mp hlast
      refine ⟨fun hne => ?_,fun ht => ?_⟩
      · obtain ⟨t,ht⟩ := List.exists_mem_of_ne_nil _ hne
        have hbefore := (mem_armedTimers_expire.mp ht).1
        rw [hnil] at hbefore
        cases hbefore
      · obtain ⟨t,ht,-⟩ := (hasTriggered_check _ _).mp ht
        rw [hnil] at ht
        cases ht
    | some t =>
      obtain ⟨hdue,hfirst⟩ := hall t hlast
      have hpos : 1 ≤ t.nextTime-p.second := by
        rw [UInt32.le_iff_toNat_le,Timer.left_of_lt hdue]
        exact Timer.left_pos.mpr hdue
      rw [Pass.idle_timeout _ hlast hdue]
      have hone := Pass.clamp_pos c hpos
      refine ⟨fun _ => ⟨hone,fun u hu => ?_⟩,fun _ hnone => ?_⟩
      · obtain ⟨hbefore,hlt⟩ := mem_armedTimers_expire.mp hu
        exact hfirst u hbefore hlt
      · have hlt : 0<Pass.clamp c (t.nextTime-p.second) := by
          rw [UInt32.lt_iff_toNat_lt]
          exact UInt32.le_iff_toNat_le.mp hone
        dsimp only at hnone
        rw [selectTimeout,if_pos hlt] at hnone
        cases hnone

theorem Pass.inTime_iff (c : LoopConfig) (p : Pass α) (s : LoopState α) :
    (p.wait c s).InTime ↔ p.Punctual c s := by
  unfold Pass.Punctual
  cases h : p.fired with
  | true =>
    rw [if_pos rfl]
    exact Pass.fired_inTime_iff h
  | false =>
    rw [if_neg (by decide)]
    exact Pass.idle_inTime_iff h

/-- In every run of the main loop, all its waits are in time exactly when all its iterations
are punctual. -/
theorem main_loop_waits_in_time_iff (c : LoopConfig) (passes : List (Pass α)) (s t : LoopState α) :
    Runs (Pass.step c) (fun p u => (p.wait c u).InTime) s passes t ↔
      Runs (Pass.step c) (fun p u => p.Punctual c u) s passes t :=
  ⟨Runs.mono fun p u => (p.inTime_iff c u).mp,Runs.mono fun p u => (p.inTime_iff c u).mpr⟩

/-- Nothing happens in the iteration but that the clock reaches 10. -/
def clockTicks : Pass Unit := ⟨[],9,[],false,10,none⟩

/-- A timer that runs out between the two checks of an iteration makes the node wait until
something else wakes it. -/
theorem main_loop_waits_forever :
    (clockTicks.wait x86Config ⟨[onceTimer 10],0⟩).timeout=0 ∧
    ¬(clockTicks.wait x86Config ⟨[onceTimer 10],0⟩).InTime := by
  refine ⟨by decide,fun h => h.triggered ?_ (by decide)⟩
  exact ⟨0,⟨0,true,10,false,false⟩,⟨0,false,10,false,true⟩,by decide⟩

end Waits

end CalvinConstrained
