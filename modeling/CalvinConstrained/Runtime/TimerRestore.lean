import CalvinConstrained.Runtime.Lookup
import CalvinConstrained.Runtime.Message
import CalvinConstrained.Runtime.Payload
import CalvinConstrained.Runtime.Proto
import CalvinConstrained.Runtime.TimerLoop

namespace CalvinConstrained

/-- What `cc_calvinsys_timer_serialize` writes under the key `obj`. -/
def Timer.entries (mp : Msgpuck) (t : Timer) : List (Bytes × Doc) :=
  [(ascii "nexttrigger",.raw (if t.armed then mp.encodeUint t.nextTime else mp.encodeNil)),
    (ascii "repeats",.raw (mp.encodeBool t.repeats)),
    (ascii "timeout",.raw (mp.encodeUint t.timeout)),
    (ascii "triggered",.raw (mp.encodeBool t.triggered))]

def Timer.doc (mp : Msgpuck) (t : Timer) : Doc := .map 4 (t.entries mp)

/-- The name of the capability of a timer. -/
def timerCapability (repeats : Bool) : Bytes :=
  if repeats then ascii "sys.timer.repeating" else ascii "sys.timer.once"

namespace Atom

variable (mp : Msgpuck) (ofFloat : Bytes → UInt32)

/-- The arguments of an object that `cc_calvinsys_deserialize` collects; a value stays where it
is in the message. -/
def kwargsLoop : Nat → Bytes → List Attribute → Atom (Option (List Attribute))
  | 0,_,kwargs => return some kwargs
  | n+1,args,kwargs => do
      let some key ← ofOption (Coder.decodeStr mp args) | return none
      let value ← ofOption (mp.next args)
      let args ← ofOption (mp.next value)
      if !(← allocN 2) then return none
      kwargsLoop n args (kwargs++[⟨key.bytes,some value⟩])

def kwarg (kwargs : List Attribute) (key : String) : Option Attribute :=
  kwargs.find? fun item => listGetMatches item.id (ascii key)

/-- The time of the next trigger, which stays 0 where the type is another. -/
def nextTrigger (data : Bytes) : Atom UInt32 := do
  match ← ofOption (mp.typeOf data) with
  | .uint => return (← ofOption (Encode.decodeUint mp ofFloat data)).getD 0
  | .float => return (← ofOption (Encode.decodeUint mp ofFloat data)).getD 0
  | .double => return (← ofOption (Encode.decodeUint mp ofFloat data)).getD 0
  | _ => return 0

/-- `cc_calvinsys_timer_deserialize`. The clock is read twice: for the timeout, and again
when the timer is set. -/
def timerDeserialize (now now' : UInt32) (kwargs : List Attribute) : Atom (Option Timer) := do
  let some item := kwarg kwargs "timeout" | return none
  let some timeout ← ofOption (Encode.decodeUint mp ofFloat (← ofOption item.data)) | return none
  let some item := kwarg kwargs "repeats" | return none
  let some repeats ← ofOption (Coder.decodeBool mp (← ofOption item.data)) | return none
  let some item := kwarg kwargs "triggered" | return none
  let some triggered ← ofOption (Coder.decodeBool mp (← ofOption item.data)) | return none
  if !(← alloc) then return none
  let timer : Timer := ⟨timeout,false,0,repeats,triggered⟩
  match kwarg kwargs "nexttrigger" with
  | none => return some timer
  | some item =>
    let nexttrigger ← nextTrigger mp ofFloat (← ofOption item.data)
    return some (timer.set now' (nexttrigger-now))

/-- What `cc_calvinsys_deserialize` does with the object of a timer once it is in the list. -/
def timerRestore (now now' : UInt32) (buffer : Bytes) : Atom (Option Timer) := do
  let some args ← ofOption (Coder.getValueFromMap mp buffer (ascii "obj")) | return none
  if (← ofOption (mp.typeOf args))=.nil then
    timerDeserialize mp ofFloat now now' []
  else
    let (size,args) ← ofOption (mp.decodeMap args)
    match ← kwargsLoop mp size args [] with
    | none => return none
    | some kwargs => timerDeserialize mp ofFloat now now' kwargs

end Atom

/-- What `cc_calvinsys_get_attributes` writes for the object of a timer, in front of `r`. -/
def timerMessage (mp : Msgpuck) (id : Bytes) (a : Ref) (repeats : Bool) (t : Timer) (r : Bytes) :
    Bytes :=
  (Atom.calvinsysObject mp
    ⟨id,timerCapability repeats,a,some (some ((t.doc mp).encode mp))⟩).2.encode mp++r

/-- What is done to an open timer. -/
inductive TimerOp
  | write (value : Option UInt32) (now : UInt32)
  | read (now : UInt32)
  | check (now : UInt32)

def Timer.step : TimerOp → Timer → Option Timer
  | .write value now,t => some (t.write value now).1
  | .read now,t => some (t.read now)
  | .check now,t => some (t.check now 0).1

/-- The timer comes back as it was, so that it can still be written if it could before, and
is not armed and triggered at once. -/
def Timer.Survives (t : Timer) (restored : Option (Option Timer × Node)) : Prop :=
  ∃ t' s, restored=some (some t',s) ∧ t'.armed=t.armed ∧ t'.triggered=t.triggered ∧
    t'.repeats=t.repeats ∧ t'.timeout=t.timeout ∧ (t.armed=true → t'.nextTime=t.nextTime) ∧
    (t.canWrite=true → t'.canWrite=true) ∧ ¬(t'.armed=true ∧ t'.triggered=true)

section Restore

variable {mp : Msgpuck} (hmp : mp.LawfulTypes) (ofFloat : Bytes → UInt32)

open Doc Atom

include hmp in
theorem Timer.valid_doc (t : Timer) : Valid mp (t.doc mp) := by
  have hnext : mp.IsValue (if t.armed then mp.encodeUint t.nextTime else mp.encodeNil) := by
    split
    · exact hmp.isValue_uint _
    · exact hmp.isValue_nil
  simp only [Timer.doc,Timer.entries,valid_map,entriesValid_cons,entriesValid_nil,valid_raw,and_true]
  exact ⟨rfl,by decide,by decide,hnext,by decide,hmp.isValue_bool _,by decide,hmp.isValue_uint _,
    by decide,hmp.isValue_bool _⟩

include hmp in
theorem timerObject_eq (id : Bytes) (a : Ref) (repeats : Bool) (t : Timer) :
    calvinsysObject mp ⟨id,timerCapability repeats,a,some (some ((t.doc mp).encode mp))⟩=
      (id,.map 3 [(ascii "name",.raw (mp.encodeStr (timerCapability repeats))),
        (ascii "obj",.raw ((t.doc mp).encode mp)),(ascii "args",.map 0 [])]) := by
  have hwritten : (t.doc mp).encode mp ≠ [] := by
    intro hnil
    have hpos := hmp.isValue_pos ((t.valid_doc hmp).isValue hmp.toLawful)
    simp [hnil] at hpos
  simp [calvinsysObject,hwritten]

include hmp in
theorem timerMessage_valid (id : Bytes) (a : Ref) (repeats : Bool) (t : Timer) :
    Valid mp (calvinsysObject mp
      ⟨id,timerCapability repeats,a,some (some ((t.doc mp).encode mp))⟩).2 := by
  have hname : (timerCapability repeats).length<2^32 := by cases repeats <;> decide
  rw [timerObject_eq hmp]
  simp only [valid_map,entriesValid_cons,entriesValid_nil,valid_raw,and_true]
  exact ⟨rfl,by decide,by decide,hmp.isValue_str hname,by decide,
    (t.valid_doc hmp).isValue hmp.toLawful,by decide,rfl,by decide⟩

include hmp in
/-- One argument is added to the list. -/
theorem kwargsLoop_cons {k : Bytes} {v : Doc} {entries : List (Bytes × Doc)} {r : Bytes} {n : Nat}
    {kwargs : List Attribute} {s : Node} (hs : s.host.fate.allocs=[]) (hk : k.length<2^32)
    (hnul : 0 ∉ k) (hv : Valid mp v) :
    kwargsLoop mp (n+1) (encodeEntries mp ((k,v)::entries)++r) kwargs s=
      kwargsLoop mp n (encodeEntries mp entries++r)
        (kwargs++[⟨k,some (encode mp v++(encodeEntries mp entries++r))⟩]) s := by
  have halloc : allocN 2 s=some (true,s) := by simp [allocN,bind_apply,alloc,hs]
  have hkey : (⟨k++(encode mp v++(encodeEntries mp entries++r)),k.length⟩ : Text).bytes=k := by
    simp [Text.bytes,cstr_of_not_mem hnul]
  rw [kwargsLoop]
  simp only [bind_apply,ofOption,Coder.decodeStr_key hmp.toLawful hk,
    Coder.next_key hmp.toLawful hk,hv.isValue hmp.toLawful _,Option.map_some,Option.bind_some,
    halloc,Bool.not_true,Bool.false_eq_true,if_false,hkey]

/-- The arguments that are collected for a timer. -/
def timerKwargs (mp : Msgpuck) (t : Timer) (r : Bytes) : List Attribute :=
  let triggered := mp.encodeBool t.triggered++r
  let timeout := mp.encodeUint t.timeout++(mp.encodeStr (ascii "triggered")++triggered)
  let repeats := mp.encodeBool t.repeats++(mp.encodeStr (ascii "timeout")++timeout)
  let next := (if t.armed then mp.encodeUint t.nextTime else mp.encodeNil)++
    (mp.encodeStr (ascii "repeats")++repeats)
  [⟨ascii "nexttrigger",some next⟩,⟨ascii "repeats",some repeats⟩,⟨ascii "timeout",some timeout⟩,
    ⟨ascii "triggered",some triggered⟩]

include hmp in
theorem kwargsLoop_timer {s : Node} (hs : s.host.fate.allocs=[]) (t : Timer) (r : Bytes) :
    kwargsLoop mp 4 (encodeEntries mp (t.entries mp)++r) [] s=
      some (some (timerKwargs mp t r),s) := by
  obtain ⟨-,-,hvalid⟩ := (valid_map _ _).mp (t.valid_doc hmp)
  simp only [Timer.entries,entriesValid_cons,valid_raw] at hvalid
  obtain ⟨-,hnext,-,hrepeats,-,htimeout,-,htriggered,-⟩ := hvalid
  rw [Timer.entries,kwargsLoop_cons hmp hs (by decide) (by decide) ((valid_raw _).mpr hnext),
    kwargsLoop_cons hmp hs (by decide) (by decide) ((valid_raw _).mpr hrepeats),
    kwargsLoop_cons hmp hs (by decide) (by decide) ((valid_raw _).mpr htimeout),
    kwargsLoop_cons hmp hs (by decide) (by decide) ((valid_raw _).mpr htriggered)]
  simp [kwargsLoop,timerKwargs,encode,encodeEntries,pure_apply]

theorem kwarg_timer (mp : Msgpuck) (t : Timer) (r : Bytes) :
    kwarg (timerKwargs mp t r) "nexttrigger"=(timerKwargs mp t r)[0]? ∧
    kwarg (timerKwargs mp t r) "repeats"=(timerKwargs mp t r)[1]? ∧
    kwarg (timerKwargs mp t r) "timeout"=(timerKwargs mp t r)[2]? ∧
    kwarg (timerKwargs mp t r) "triggered"=(timerKwargs mp t r)[3]? := by
  exact ⟨rfl,rfl,rfl,rfl⟩

/-- The next trigger of a timer that is not armed is read as 0. -/
def Timer.savedTrigger (t : Timer) : UInt32 := if t.armed then t.nextTime else 0

include hmp in
theorem nextTrigger_saved (t : Timer) (r : Bytes) (s : Node) :
    nextTrigger mp ofFloat
      ((if t.armed then mp.encodeUint t.nextTime else mp.encodeNil)++r) s=
        some (t.savedTrigger,s) := by
  unfold Timer.savedTrigger
  cases t.armed with
  | true =>
    simp [-bind_pure_comp,nextTrigger,bind_apply,ofOption,hmp.type_uint,Encode.decodeUint,
      hmp.decode_uint]
  | false => simp [nextTrigger,bind_apply,ofOption,hmp.type_nil]

include hmp in
theorem timerDeserialize_kwargs {s : Node} (hs : s.host.fate.allocs=[]) (t : Timer) (r : Bytes)
    (now now' : UInt32) :
    timerDeserialize mp ofFloat now now' (timerKwargs mp t r) s=
      some (some (Timer.set ⟨t.timeout,false,0,t.repeats,t.triggered⟩ now'
        (t.savedTrigger-now)),s) := by
  obtain ⟨hnext,hrepeats,htimeout,htriggered⟩ := kwarg_timer mp t r
  have halloc : alloc s=some (true,s) := by simp [alloc,hs]
  unfold timerDeserialize
  rw [hnext,hrepeats,htimeout,htriggered]
  simp [-bind_pure_comp,timerKwargs,bind_apply,ofOption,Encode.decodeUint,Coder.decodeBool,hmp.type_uint,
    hmp.decode_uint,hmp.type_bool,hmp.decode_bool,halloc,nextTrigger_saved hmp]

include hmp in
/-- Every timer comes back armed. -/
theorem timerRestore_message {s : Node} (hs : s.host.fate.allocs=[]) (id : Bytes) (a : Ref)
    (repeats : Bool) (t : Timer) (r : Bytes) (now now' : UInt32) :
    timerRestore mp ofFloat now now' (timerMessage mp id a repeats t r) s=
      some (some (Timer.set ⟨t.timeout,false,0,t.repeats,t.triggered⟩ now'
        (t.savedTrigger-now)),s) := by
  have hvalid := timerMessage_valid hmp id a repeats t
  rw [timerObject_eq hmp] at hvalid
  have hget := Coder.getValueFromMap_at hmp.toLawful 1 hvalid
    (show _=[ascii "name",ascii "obj",ascii "args"] from rfl) rfl r (by decide)
  generalize hrest : encodeEntries mp _++r=rest at hget
  have hdoc : encode mp (.raw ((t.doc mp).encode mp))++rest=
      mp.encodeMap 4++(encodeEntries mp (t.entries mp)++rest) := by
    simp [encode,Timer.doc]
  rw [hdoc] at hget
  have htype := hmp.type_map (show 4<2^32 by decide) (encodeEntries mp (t.entries mp)++rest)
  have hmap := hmp.decode_map (show 4<2^32 by decide) (encodeEntries mp (t.entries mp)++rest)
  have hbuffer : Coder.getValueFromMap mp (timerMessage mp id a repeats t r) (ascii "obj")=
      some (some (mp.encodeMap 4++(encodeEntries mp (t.entries mp)++rest))) := by
    rw [timerMessage,timerObject_eq hmp]
    exact hget
  simp [-bind_pure_comp,timerRestore,bind_apply,ofOption,hbuffer,htype,hmap,
    kwargsLoop_timer hmp hs,timerDeserialize_kwargs hmp ofFloat hs]

/-- A timer that was opened is never armed and triggered at once. -/
theorem Timer.step_exclusive {op : TimerOp} {t t' : Timer} (h : Timer.step op t=some t')
    (ht : ¬(t.armed=true ∧ t.triggered=true)) : ¬(t'.armed=true ∧ t'.triggered=true) := by
  cases op with
  | write value now =>
    cases h
    unfold Timer.write
    split
    · exact ht
    · next hwrite =>
      cases value with
      | none => exact ht
      | some timeout =>
        have hidle : t.triggered=false ∧ t.armed=false := by simpa [Timer.canWrite] using hwrite
        simp [Timer.set,hidle.1]
  | read now =>
    cases h
    unfold Timer.read
    dsimp only
    split
    · simp [Timer.set]
    · simp
  | check now =>
    cases h
    unfold Timer.check
    split
    · split
      · simp
      · exact ht
    · exact ht

theorem Timer.new_exclusive (repeats : Bool) (period now : UInt32) :
    ¬((Timer.new repeats period now).armed=true ∧
      (Timer.new repeats period now).triggered=true) := by
  unfold Timer.new
  dsimp only
  split
  · simp [Timer.set]
  · simp

/-- A reachable timer survives its serialization exactly when it is armed and the clock does
not move while it is restored. -/
theorem timer_survives_iff {mp : Msgpuck} (hmp : mp.LawfulTypes) (ofFloat : Bytes → UInt32)
    {repeats : Bool} {period start : UInt32} {ops : List TimerOp} {t : Timer}
    (hr : Runs Timer.step (fun _ _ => True) (.new repeats period start) ops t)
    {s : Node} (hs : s.host.fate.allocs=[]) (id : Bytes) (a : Ref) (r : Bytes)
    (now now' : UInt32) :
    t.Survives (timerRestore mp ofFloat now now' (timerMessage mp id a repeats t r) s) ↔
      t.armed=true ∧ now=now' := by
  have hexclusive : ¬(t.armed=true ∧ t.triggered=true) :=
    hr.invariant (fun t => ¬(t.armed=true ∧ t.triggered=true))
      (fun _ _ _ _ h => Timer.step_exclusive h) (Timer.new_exclusive repeats period start)
  rw [timerRestore_message hmp ofFloat hs]
  constructor
  · rintro ⟨t',u,he,harmed,-,-,-,hnext,-⟩
    cases he
    have harmed : t.armed=true := harmed.symm
    have hnext : now'+(t.savedTrigger-now)=t.nextTime := hnext harmed
    refine ⟨harmed,?_⟩
    rw [Timer.savedTrigger,if_pos harmed] at hnext
    grind
  · rintro ⟨harmed,rfl⟩
    have hidle : t.triggered=false := by
      cases htrig : t.triggered with
      | true => exact absurd ⟨harmed,htrig⟩ hexclusive
      | false => rfl
    refine ⟨_,s,rfl,harmed.symm,rfl,rfl,rfl,fun _ => ?_,fun hwrite => ?_,?_⟩
    · change now+(t.savedTrigger-now)=t.nextTime
      rw [Timer.savedTrigger,if_pos harmed]
      grind
    · simp [Timer.canWrite,harmed] at hwrite
    · rintro ⟨-,htrig⟩
      have htrig : t.triggered=true := htrig
      rw [hidle] at htrig
      cases htrig

theorem timer_survives_armed : (Timer.new false 5 10).armed=true ∧
    (Timer.new false 5 10).Survives (timerRestore msgpack (fun _ => 0) 12 12
      (timerMessage msgpack [] 0 false (.new false 5 10) []) (.init bareHost)) :=
  ⟨by decide,(timer_survives_iff msgpack_lawfulTypes (fun _ => 0) (.nil _) rfl [] 0 [] 12 12).mpr
    ⟨by decide,rfl⟩⟩

/-- A timer that was opened without a period is idle, and armed once it is restored. -/
theorem idle_timer_restored_armed :
    (Timer.new false 0 0).armed=false ∧ ¬(Timer.new false 0 0).Survives
      (timerRestore msgpack (fun _ => 0) 100 100
        (timerMessage msgpack [] 0 false (.new false 0 0) []) (.init bareHost)) := by
  refine ⟨by decide,?_⟩
  rw [timerRestore_message msgpack_lawfulTypes (fun _ => 0) rfl]
  rintro ⟨t',u,he,harmed,-⟩
  cases he
  exact absurd harmed (by decide)

end Restore

end CalvinConstrained
