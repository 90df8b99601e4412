import CalvinConstrained.Runtime.ListLookup
import CalvinConstrained.Runtime.Scalars

namespace CalvinConstrained

/-- A truth value where a `cc_result_t` is expected: false is `CC_SUCCESS`. -/
def Result.ofBool : Bool → Result
  | false => .success
  | true => .fail

/-- What an `init` or `set_state` meets: the outcomes of the allocations, of opening the object and
of writing to it, and the ids of the objects that are there. -/
structure ActorSetup where
  stateAlloc : Bool
  dataAlloc : Bool
  itemAlloc : Bool
  opened : Option Uuid
  written : Bool
  objects : List CString

/-- A key of the source. -/
def attributeKey (key : String) : CString := .ofBytes (ascii key) key.length

/-- The data of the item that `cc_list_get` finds. -/
def attributeData (attributes : List (ListItem Bytes)) (key : CString) : Option Bytes :=
  ((ListItem.get attributes key).bind fun i => attributes[i]?).map ListItem.data

/-- `cc_actor_counttimer_state_t`, cleared. -/
structure CountTimerFields where
  timer : Bytes := []
  sleep : UInt32 := 0
  start : UInt32 := 0
  steps : UInt32 := 0
  count : UInt32 := 0
  stopped : Bool := false
  deriving DecidableEq

/-- `cc_actor_log_state_t`. -/
structure LogFields where
  loglevel : Option Bytes := none
  deriving DecidableEq

/-- `cc_actor_coap_state_t`. -/
structure CoapFields where
  source : Bytes := []
  deriving DecidableEq

namespace ActorSetup

variable (mp : MsgpuckScalars) (ofFloat : Bytes → UInt32) (attributes : List (ListItem Bytes))

/-- An attribute that may be absent. -/
def optionalUint (key : String) (absent : UInt32) : Option (Option UInt32) :=
  match attributeData attributes (attributeKey key) with
  | none => some (some absent)
  | some data => Encode.decodeUint mp.toMsgpuck ofFloat data

/-- `cc_actor_counttimer_init`: the result and `instance_state`. -/
def counttimerInit (e : ActorSetup) : Option (Result × Option CountTimerFields) := do
  if !e.stateAlloc then return (.fail,none)
  let some sleep ← optionalUint mp ofFloat attributes "sleep" 1
    | return (.ofBool false,some {})
  let some start ← optionalUint mp ofFloat attributes "start" 1
    | return (.ofBool false,some {sleep := sleep})
  let some steps ← optionalUint mp ofFloat attributes "steps" 0xffffffff
    | return (.ofBool false,some {sleep := sleep,start := start})
  if !e.dataAlloc then
    return (.ofBool false,some {sleep := sleep,start := start,steps := steps})
  if !e.itemAlloc then return (.fail,some {sleep := sleep,start := start,steps := steps})
  let some id := e.opened | return (.fail,some {sleep := sleep,start := start,steps := steps})
  let some count ← optionalUint mp ofFloat attributes "count" start
    | return (.ofBool false,
        some {timer := id.bytes,sleep := sleep,start := start,steps := steps})
  return (.success,some ⟨id.bytes,sleep,start,steps,count,false⟩)

/-- The rest of `cc_actor_counttimer_set_state` from an attribute on. -/
def requiredUint (key : String) (state : CountTimerFields)
    (next : UInt32 → Option (Result × Option CountTimerFields)) :
    Option (Result × Option CountTimerFields) :=
  match attributeData attributes (attributeKey key) with
  | none => some (.fail,some state)
  | some data =>
    (Encode.decodeUint mp.toMsgpuck ofFloat data).bind fun value =>
      value.elim (some (.ofBool false,some state)) next

/-- `cc_actor_counttimer_set_state`. -/
def counttimerSetState (e : ActorSetup) : Option (Result × Option CountTimerFields) := do
  if !e.stateAlloc then return (.fail,none)
  let some data := attributeData attributes (attributeKey "timer") | return (.fail,some {})
  let some objRef ← Coder.decodeStr mp.toMsgpuck data | return (.fail,some {})
  let timer ← objRef.copy uuidBufferSize
  requiredUint mp ofFloat attributes "sleep" {timer := timer} fun sleep =>
    requiredUint mp ofFloat attributes "start" {timer := timer,sleep := sleep} fun start =>
      requiredUint mp ofFloat attributes "steps" {timer := timer,sleep := sleep,start := start}
        fun steps =>
          requiredUint mp ofFloat attributes "count"
            {timer := timer,sleep := sleep,start := start,steps := steps} fun count =>
              some (.success,some ⟨timer,sleep,start,steps,count,false⟩)

/-- `cc_actor_log_init`. Without the attribute it reads through a null pointer. -/
def logInit (e : ActorSetup) : Option (Result × Option LogFields) :=
  if !e.stateAlloc then some (.fail,none)
  else
    match attributeData attributes (attributeKey "loglevel") with
    | none => none
    | some data => if !e.dataAlloc then some (.fail,some {}) else some (.success,some ⟨some data⟩)

/-- `cc_actor_log_set_state`. -/
def logSetState (e : ActorSetup) : Option (Result × Option LogFields) :=
  if !e.stateAlloc then some (.fail,none)
  else
    match attributeData attributes (attributeKey "loglevel") with
    | none => some (.fail,some {})
    | some data => if !e.dataAlloc then some (.fail,some {}) else some (.success,some ⟨some data⟩)

/-- `cc_actor_coap_init`. -/
def coapInit (e : ActorSetup) : Option (Result × Option CoapFields) :=
  if !e.stateAlloc then some (.fail,none)
  else
    match e.opened with
    | none => some (.fail,some {})
    | some id =>
      if !e.written then some (.ofBool false,some ⟨id.bytes⟩) else some (.success,some ⟨id.bytes⟩)

/-- What stands behind the first dot of `requires`. -/
def capabilityName (requires : CString) : Option CString :=
  if 46 ∈ requires.bytes then
    some (.ofBytes ((requires.bytes.dropWhile (· ≠ 46)).drop 1) requires.length)
  else none

/-- `cc_actor_coap_set_state`; `instance_state` is set once the source is copied. -/
def coapSetState (requires : CString) (e : ActorSetup) : Option (Result × Option CoapFields) := do
  let some name := capabilityName requires | return (.fail,none)
  if !e.stateAlloc then return (.fail,none)
  let some data := attributeData attributes name | return (.fail,none)
  let some objRef ← Coder.decodeStr mp.toMsgpuck data | return (.fail,none)
  let source ← objRef.copy uuidBufferSize
  if !e.written then return (.fail,some ⟨source⟩)
  return (.success,some ⟨source⟩)

/-- A number that was decoded, or the default of an attribute that is absent. -/
def expectUint (key : String) (absent : Option UInt32) : Option UInt32 :=
  match attributeData attributes (attributeKey key) with
  | none => absent
  | some data => (Encode.decodeUint mp.toMsgpuck ofFloat data).join

/-- A string that was decoded and has room in the state. -/
def expectText (key : CString) : Option Bytes :=
  (attributeData attributes key).bind fun data =>
    (Coder.decodeStr mp.toMsgpuck data).join.bind fun text => text.copy uuidBufferSize

/-- The state after an initialization none of whose steps failed. -/
def counttimerInitial (e : ActorSetup) : Option CountTimerFields := do
  if !e.stateAlloc then none
  let sleep ← expectUint mp ofFloat attributes "sleep" (some 1)
  let start ← expectUint mp ofFloat attributes "start" (some 1)
  let steps ← expectUint mp ofFloat attributes "steps" (some 0xffffffff)
  if !e.dataAlloc || !e.itemAlloc then none
  let id ← e.opened
  let count ← expectUint mp ofFloat attributes "count" (some start)
  return ⟨id.bytes,sleep,start,steps,count,false⟩

def counttimerRestored (e : ActorSetup) : Option CountTimerFields := do
  if !e.stateAlloc then none
  let timer ← expectText mp attributes (attributeKey "timer")
  let sleep ← expectUint mp ofFloat attributes "sleep" none
  let start ← expectUint mp ofFloat attributes "start" none
  let steps ← expectUint mp ofFloat attributes "steps" none
  let count ← expectUint mp ofFloat attributes "count" none
  if !e.objects.any fun id => id.bytes=timer then none
  return ⟨timer,sleep,start,steps,count,false⟩

def logInitial (e : ActorSetup) : Option LogFields :=
  if !e.stateAlloc then none
  else
    match attributeData attributes (attributeKey "loglevel") with
    | none => some {}
    | some data => if !e.dataAlloc then none else some ⟨some data⟩

def logRestored (e : ActorSetup) : Option LogFields := do
  if !e.stateAlloc || !e.dataAlloc then none
  let data ← attributeData attributes (attributeKey "loglevel")
  return ⟨some data⟩

def coapInitial (e : ActorSetup) : Option CoapFields := do
  if !e.stateAlloc || !e.written then none
  let id ← e.opened
  return ⟨id.bytes⟩

def coapRestored (requires : CString) (e : ActorSetup) : Option CoapFields := do
  if !e.stateAlloc || !e.written then none
  let name ← capabilityName requires
  let source ← expectText mp attributes name
  return ⟨source⟩

/-- The function succeeds with the state completely filled in, or fails where a step failed. -/
def Honest {σ : Type} (run : Option (Result × Option σ)) (filled : Option σ) : Prop :=
  match filled with
  | some state => run=some (.success,some state)
  | none => ∃ state, run=some (.fail,state)

/-- The attribute is decoded if it is present. -/
def Decodes (key : String) : Prop :=
  ∀ data, attributeData attributes (attributeKey key)=some data →
    ∃ value, Encode.decodeUint mp.toMsgpuck ofFloat data=some (some value)

/-- The attribute fits into a buffer of the state if it is a string. -/
def TextFits (key : CString) : Prop :=
  ∀ data text, attributeData attributes key=some data →
    Coder.decodeStr mp.toMsgpuck data=some (some text) → text.len<uuidBufferSize

/-- The attribute is absent, or it is decoded and so on. -/
def DecodesUpTo (key : String) (rest : Prop) : Prop :=
  attributeData attributes (attributeKey key)=none ∨
    (∃ data value, attributeData attributes (attributeKey key)=some data ∧
      Encode.decodeUint mp.toMsgpuck ofFloat data=some (some value)) ∧ rest

/-- The numbers of a saved counter: all in front of the first that is absent are decoded, and if
none is absent, so on. -/
def NumbersDecode (rest : Prop) : Prop :=
  DecodesUpTo mp ofFloat attributes "sleep" <| DecodesUpTo mp ofFloat attributes "start" <|
    DecodesUpTo mp ofFloat attributes "steps" <| DecodesUpTo mp ofFloat attributes "count" rest

section Values

variable {mp ofFloat attributes}

/-- Every value can be looked at: it is there, and where it has the type asked for it is decoded. -/
theorem decodeUint_defined (hmp : mp.Readable) {data r : Bytes} (h : mp.next data=some r) :
    ∃ value, Encode.decodeUint mp.toMsgpuck ofFloat data=some value := by
  obtain ⟨type,htype⟩ := hmp.typed h
  by_cases huint : type=.uint
  · subst huint
    obtain ⟨x,hx⟩ := Option.isSome_iff_exists.mp ((hmp.uint h).mpr htype)
    exact ⟨some x,by simp [Encode.decodeUint,htype,hx]⟩
  · cases type <;> simp_all [Encode.decodeUint]

theorem decodeStr_defined (hmp : mp.Readable) {data r : Bytes} (h : mp.next data=some r) :
    ∃ text, Coder.decodeStr mp.toMsgpuck data=some text := by
  obtain ⟨type,htype⟩ := hmp.typed h
  by_cases hstr : type=.str
  · subst hstr
    obtain ⟨x,hx⟩ := Option.isSome_iff_exists.mp ((hmp.str h).mpr htype)
    exact ⟨some x,by simp [Coder.decodeStr,htype,hx]⟩
  · exact ⟨none,by simp [Coder.decodeStr,htype,hstr]⟩

theorem attributeData_mem {key : CString} {data : Bytes} (h : attributeData attributes key=some data) :
    ∃ item ∈ attributes, item.data=data := by
  obtain ⟨item,hitem,hdata⟩ := Option.map_eq_some_iff.mp h
  obtain ⟨i,-,hi⟩ := Option.bind_eq_some_iff.mp hitem
  exact ⟨item,List.mem_of_getElem? hi,hdata⟩

variable (hmp : mp.Readable) (hvalues : ∀ item ∈ attributes, ∃ r, mp.next item.data=some r)

include hmp hvalues

variable (ofFloat) in
theorem uint_defined {key : CString} {data : Bytes} (h : attributeData attributes key=some data) :
    ∃ value, Encode.decodeUint mp.toMsgpuck ofFloat data=some value := by
  obtain ⟨item,hitem,rfl⟩ := attributeData_mem h
  obtain ⟨r,hr⟩ := hvalues item hitem
  exact decodeUint_defined hmp hr

theorem str_defined {key : CString} {data : Bytes} (h : attributeData attributes key=some data) :
    ∃ text, Coder.decodeStr mp.toMsgpuck data=some text := by
  obtain ⟨item,hitem,rfl⟩ := attributeData_mem h
  obtain ⟨r,hr⟩ := hvalues item hitem
  exact decodeStr_defined hmp hr

theorem optionalUint_eq (key : String) (absent : UInt32) :
    optionalUint mp ofFloat attributes key absent=
      some (expectUint mp ofFloat attributes key (some absent)) := by
  rw [optionalUint,expectUint]
  cases hdata : attributeData attributes (attributeKey key) with
  | none => rfl
  | some data =>
    obtain ⟨value,hvalue⟩ := uint_defined ofFloat hmp hvalues hdata
    simp [hvalue]

theorem decodes_iff (key : String) (absent : UInt32) :
    Decodes mp ofFloat attributes key ↔
      (expectUint mp ofFloat attributes key (some absent)).isSome := by
  rw [Decodes,expectUint]
  cases hdata : attributeData attributes (attributeKey key) with
  | none => simp
  | some data =>
    obtain ⟨value,hvalue⟩ := uint_defined ofFloat hmp hvalues hdata
    cases value <;> simp [hvalue]

/-- A required attribute of another type than a number is reported as success. -/
theorem requiredUint_honest (key : String) (state : CountTimerFields)
    {next : UInt32 → Option (Result × Option CountTimerFields)}
    {filled : UInt32 → Option CountTimerFields} {rest : Prop}
    (hnext : ∀ value, Honest (next value) (filled value) ↔ rest) :
    Honest (requiredUint mp ofFloat attributes key state next)
        ((expectUint mp ofFloat attributes key none).bind filled) ↔
      DecodesUpTo mp ofFloat attributes key rest := by
  rw [requiredUint,expectUint,DecodesUpTo]
  cases hdata : attributeData attributes (attributeKey key) with
  | none => simp [Honest]
  | some data =>
    obtain ⟨value,hvalue⟩ := uint_defined ofFloat hmp hvalues hdata
    cases value with
    | none => simp [hvalue,Honest,Result.ofBool]
    | some value => simp [hvalue,hnext]

theorem counttimerInit_honest (e : ActorSetup) :
    Honest (counttimerInit mp ofFloat attributes e) (counttimerInitial mp ofFloat attributes e) ↔
      e.stateAlloc=false ∨ Decodes mp ofFloat attributes "sleep" ∧
        Decodes mp ofFloat attributes "start" ∧ Decodes mp ofFloat attributes "steps" ∧
        e.dataAlloc=true ∧ (e.itemAlloc=false ∨ e.opened=none ∨
          Decodes mp ofFloat attributes "count") := by
  rw [counttimerInit,counttimerInitial]
  cases hstate : e.stateAlloc with
  | false => simp [Honest]
  | true =>
    simp only [optionalUint_eq hmp hvalues,decodes_iff hmp hvalues "sleep" 1,
      decodes_iff hmp hvalues "start" 1,decodes_iff hmp hvalues "steps" 0xffffffff]
    cases hsleep : expectUint mp ofFloat attributes "sleep" (some 1) with
    | none => simp [Honest,Result.ofBool]
    | some sleep =>
      cases hstart : expectUint mp ofFloat attributes "start" (some 1) with
      | none => simp [Honest,Result.ofBool]
      | some start =>
        rw [decodes_iff hmp hvalues "count" start]
        cases hsteps : expectUint mp ofFloat attributes "steps" (some 0xffffffff) with
        | none => simp [Honest,Result.ofBool]
        | some steps =>
          cases hdata : e.dataAlloc with
          | false => simp [Honest,Result.ofBool]
          | true =>
            cases hitem : e.itemAlloc with
            | false => simp [Honest]
            | true =>
              cases hopened : e.opened with
              | none => simp [Honest]
              | some id =>
                cases hcount : expectUint mp ofFloat attributes "count" (some start) <;>
                  simp [Honest,Result.ofBool,hcount]

theorem numbers_honest (timer : Bytes) (there : Bool) :
    Honest (requiredUint mp ofFloat attributes "sleep" {timer := timer} fun sleep =>
        requiredUint mp ofFloat attributes "start" {timer := timer,sleep := sleep} fun start =>
          requiredUint mp ofFloat attributes "steps" {timer := timer,sleep := sleep,start := start}
            fun steps =>
              requiredUint mp ofFloat attributes "count"
                {timer := timer,sleep := sleep,start := start,steps := steps} fun count =>
                  some (.success,some ⟨timer,sleep,start,steps,count,false⟩))
      ((expectUint mp ofFloat attributes "sleep" none).bind fun sleep =>
        (expectUint mp ofFloat attributes "start" none).bind fun start =>
          (expectUint mp ofFloat attributes "steps" none).bind fun steps =>
            (expectUint mp ofFloat attributes "count" none).bind fun count =>
              if there=false then none else some ⟨timer,sleep,start,steps,count,false⟩) ↔
      NumbersDecode mp ofFloat attributes (there=true) := by
  refine requiredUint_honest hmp hvalues _ _ fun sleep => ?_
  refine requiredUint_honest hmp hvalues _ _ fun start => ?_
  refine requiredUint_honest hmp hvalues _ _ fun steps => ?_
  refine requiredUint_honest hmp hvalues _ _ fun count => ?_
  cases there <;> simp [Honest]

omit hmp hvalues in
/-- What is asked of the text of an attribute is asked of the one text it has. -/
theorem forall_text_iff {data : Bytes} {text : Option Text} {P : Text → Prop}
    (htext : Coder.decodeStr mp.toMsgpuck data=some text) :
    (∀ data' text', some data=some data' →
      Coder.decodeStr mp.toMsgpuck data'=some (some text') → P text') ↔
      ∀ text' ∈ text, P text' := by
  constructor
  · intro h text' hmem
    rw [Option.mem_def.mp hmem] at htext
    exact h data text' rfl htext
  · intro h data' text' hdata htext'
    cases hdata
    cases htext.symm.trans htext'
    exact h text' rfl

theorem counttimerSetState_honest (e : ActorSetup) :
    Honest (counttimerSetState mp ofFloat attributes e)
        (counttimerRestored mp ofFloat attributes e) ↔
      e.stateAlloc=false ∨ ∀ data text, attributeData attributes (attributeKey "timer")=some data →
        Coder.decodeStr mp.toMsgpuck data=some (some text) →
          text.len<uuidBufferSize ∧ NumbersDecode mp ofFloat attributes
            (e.objects.any (fun id => id.bytes=cstr text.content)=true) := by
  rw [counttimerSetState,counttimerRestored,expectText]
  cases hstate : e.stateAlloc with
  | false => simp [Honest]
  | true =>
    cases hdata : attributeData attributes (attributeKey "timer") with
    | none => simp [Honest]
    | some data =>
      obtain ⟨text,htext⟩ := str_defined hmp hvalues hdata
      rw [forall_text_iff htext]
      cases text with
      | none => simp [Honest,htext]
      | some text =>
        by_cases hlen : text.len<uuidBufferSize
        · have hcopy : text.copy uuidBufferSize=some (cstr text.content) := if_pos hlen
          simp only [htext,Option.mem_some_iff,forall_eq',hlen,true_and]
          rw [← numbers_honest hmp hvalues (cstr text.content)]
          simp [htext,hcopy]
        · have hcopy : text.copy uuidBufferSize=none := if_neg hlen
          simp [Honest,htext,hcopy,hlen]

omit hmp hvalues in
theorem logInit_honest (e : ActorSetup) :
    Honest (logInit attributes e) (logInitial attributes e) ↔
      e.stateAlloc=false ∨ (attributeData attributes (attributeKey "loglevel")).isSome := by
  rw [logInit,logInitial]
  cases hstate : e.stateAlloc with
  | false => simp [Honest]
  | true =>
    cases hdata : attributeData attributes (attributeKey "loglevel") with
    | none => simp [Honest]
    | some data => cases halloc : e.dataAlloc <;> simp [Honest]

omit hmp hvalues in
theorem logSetState_honest (e : ActorSetup) :
    Honest (logSetState attributes e) (logRestored attributes e) := by
  rw [logSetState,logRestored]
  cases hstate : e.stateAlloc with
  | false => simp [Honest]
  | true =>
    cases hdata : attributeData attributes (attributeKey "loglevel") with
    | none => cases halloc : e.dataAlloc <;> simp [Honest]
    | some data => cases halloc : e.dataAlloc <;> simp [Honest]

omit hmp hvalues in
theorem coapInit_honest (e : ActorSetup) :
    Honest (coapInit e) (coapInitial e) ↔
      e.stateAlloc=false ∨ e.opened=none ∨ e.written=true := by
  rw [coapInit,coapInitial]
  cases hstate : e.stateAlloc with
  | false => simp [Honest]
  | true =>
    cases hopened : e.opened with
    | none => cases hwritten : e.written <;> simp [Honest]
    | some id => cases hwritten : e.written <;> simp [Honest,Result.ofBool]

theorem coapSetState_honest (requires : CString) (e : ActorSetup) :
    Honest (coapSetState mp attributes requires e) (coapRestored mp attributes requires e) ↔
      e.stateAlloc=false ∨ ∀ name ∈ capabilityName requires, TextFits mp attributes name := by
  rw [coapSetState,coapRestored]
  cases hstate : e.stateAlloc with
  | false => cases hname : capabilityName requires <;> simp [Honest]
  | true =>
    cases hname : capabilityName requires with
    | none => cases hwritten : e.written <;> simp [Honest]
    | some name =>
      simp only [Option.mem_some_iff,forall_eq',TextFits,expectText]
      cases hdata : attributeData attributes name with
      | none => cases hwritten : e.written <;> simp [Honest,hdata]
      | some data =>
        obtain ⟨text,htext⟩ := str_defined hmp hvalues hdata
        rw [forall_text_iff htext]
        cases text with
        | none => cases hwritten : e.written <;> simp [Honest,hdata,htext]
        | some text =>
          by_cases hlen : text.len<uuidBufferSize
          · have hcopy : text.copy uuidBufferSize=some (cstr (text.ptr.take text.len)) := if_pos hlen
            cases hwritten : e.written <;> simp [Honest,hdata,htext,hcopy,hlen]
          · have hcopy : text.copy uuidBufferSize=none := if_neg hlen
            cases hwritten : e.written <;> simp [Honest,hdata,htext,hcopy,hlen]

end Values

/-- When the functions of the three actor types report honestly. -/
theorem reports_honestly_iff (mp : MsgpuckScalars) (ofFloat : Bytes → UInt32)
    (attributes : List (ListItem Bytes)) (requires : CString) (e : ActorSetup) (hmp : mp.Readable)
    (hvalues : ∀ item ∈ attributes, ∃ r, mp.next item.data=some r) :
    (Honest (counttimerInit mp ofFloat attributes e) (counttimerInitial mp ofFloat attributes e) ↔
      e.stateAlloc=false ∨ Decodes mp ofFloat attributes "sleep" ∧
        Decodes mp ofFloat attributes "start" ∧ Decodes mp ofFloat attributes "steps" ∧
        e.dataAlloc=true ∧ (e.itemAlloc=false ∨ e.opened=none ∨
          Decodes mp ofFloat attributes "count")) ∧
    (Honest (counttimerSetState mp ofFloat attributes e)
        (counttimerRestored mp ofFloat attributes e) ↔
      e.stateAlloc=false ∨ ∀ data text, attributeData attributes (attributeKey "timer")=some data →
        Coder.decodeStr mp.toMsgpuck data=some (some text) →
          text.len<uuidBufferSize ∧ NumbersDecode mp ofFloat attributes
            (e.objects.any (fun id => id.bytes=cstr text.content)=true)) ∧
    (Honest (logInit attributes e) (logInitial attributes e) ↔
      e.stateAlloc=false ∨ (attributeData attributes (attributeKey "loglevel")).isSome) ∧
    Honest (logSetState attributes e) (logRestored attributes e) ∧
    (Honest (coapInit e) (coapInitial e) ↔
      e.stateAlloc=false ∨ e.opened=none ∨ e.written=true) ∧
    (Honest (coapSetState mp attributes requires e) (coapRestored mp attributes requires e) ↔
      e.stateAlloc=false ∨ ∀ name ∈ capabilityName requires, TextFits mp attributes name) :=
  ⟨counttimerInit_honest hmp hvalues e,counttimerSetState_honest hmp hvalues e,logInit_honest e,
    logSetState_honest e,coapInit_honest e,coapSetState_honest hmp hvalues requires e⟩

/-- An actor whose allocations succeed and whose object is opened and written. -/
def smooth : ActorSetup where
  stateAlloc := true
  dataAlloc := true
  itemAlloc := true
  opened := some (.gen fun _ => 0)
  written := true
  objects := []

/-- Attributes in which the period is a number, or a text. -/
def sleepNumber : List (ListItem Bytes) := ListItem.add true [] (attributeKey "sleep") [0x05]

def sleepText : List (ListItem Bytes) := ListItem.add true [] (attributeKey "sleep") [0xa1,0x61]

theorem reports_honestly_number :
    Honest (counttimerInit msgpackScalars (fun _ => 0) sleepNumber smooth)
      (counttimerInitial msgpackScalars (fun _ => 0) sleepNumber smooth) := by
  have hvalues : ∀ item ∈ sleepNumber, ∃ r, msgpackScalars.next item.data=some r := by
    intro item hitem
    simp only [sleepNumber,ListItem.add,if_true,List.nil_append,List.mem_singleton] at hitem
    subst hitem
    exact ⟨[],by decide⟩
  refine (reports_honestly_iff msgpackScalars (fun _ => 0) sleepNumber (attributeKey "io.coap") smooth
    msgpackScalars_readable hvalues).1.mpr (.inr ⟨?_,?_,?_,rfl,.inr (.inr ?_)⟩)
  · intro data hdata
    have hfive : attributeData sleepNumber (attributeKey "sleep")=some [0x05] := by decide
    cases hfive.symm.trans hdata
    exact ⟨5,by decide⟩
  all_goals
    intro data hdata
    revert hdata
    rw [show attributeData sleepNumber _=none by decide]
    intro hdata
    cases hdata

/-- A period that is a text is reported as success, with nothing filled in. -/
theorem init_dishonest :
    counttimerInit msgpackScalars (fun _ => 0) sleepText smooth=some (.success,some {}) ∧
      ¬Honest (counttimerInit msgpackScalars (fun _ => 0) sleepText smooth)
        (counttimerInitial msgpackScalars (fun _ => 0) sleepText smooth) ∧
      logInit [] smooth=none ∧ coapInit {smooth with written := false}=
        some (.success,some ⟨(Uuid.gen fun _ => 0).bytes⟩) := by
  have hrun : counttimerInit msgpackScalars (fun _ => 0) sleepText smooth=some (.success,some {}) := by
    decide
  have hfilled : counttimerInitial msgpackScalars (fun _ => 0) sleepText smooth=none := by decide
  refine ⟨hrun,?_,by decide,by decide⟩
  rw [hrun,hfilled]
  intro h
  obtain ⟨state,hstate⟩ := h
  cases hstate

end ActorSetup

end CalvinConstrained
