import CalvinConstrained.Runtime.Fifo
import CalvinConstrained.Runtime.ListLookup
import CalvinConstrained.Runtime.Payload
import CalvinConstrained.Runtime.Timer

namespace CalvinConstrained

/-- The callbacks of the objects of a capability other than a timer. A read gives its data or fails. -/
structure SensorOps (α : Type) where
  canRead : α → Bool
  read : α → Option Bytes × α
  write : α → Bytes → Result × α

/-- The state behind a calvinsys object that an actor can name. -/
inductive SensorObject (α : Type)
  | timer (t : Timer)
  | sensor (x : α)

/-- A SoilMoisture or TemperatureTagged actor: the ids in its state, the objects of the node and
its out-port. -/
structure SensorActor (α : Type) where
  sensor : CString
  timer : CString
  objects : List (ListItem (SensorObject α))
  fifo : Fifo Bytes

/-- What a firing meets: the outcomes of the two allocations and the time. -/
structure SensorFiring where
  boolAlloc : Bool
  bufferAlloc : Bool
  now : UInt32

namespace SensorActor

variable {α : Type} (ops : SensorOps α) (mp : Msgpuck) (ofFloat : Bytes → UInt32)

/-- The object that `cc_list_get` finds, with its place. -/
def object (x : SensorActor α) (id : CString) : Option (Nat × SensorObject α) :=
  (ListItem.get x.objects id).bind fun i => (x.objects[i]?).map fun item => (i,item.data)

def setObject (x : SensorActor α) (i : Nat) (o : SensorObject α) : SensorActor α :=
  {x with objects := x.objects.modify i fun item => {item with data := o}}

/-- `cc_calvinsys_can_read`. -/
def canRead (x : SensorActor α) (id : CString) : Bool :=
  match x.object id with
  | none => false
  | some (_,.timer t) => t.triggered
  | some (_,.sensor y) => ops.canRead y

/-- `cc_calvinsys_read`. A timer has no data; what its reader takes for data is undefined. -/
def read (x : SensorActor α) (id : CString) : Option (Option Bytes × SensorActor α) :=
  match x.object id with
  | none => some (none,x)
  | some (_,.timer _) => none
  | some (i,.sensor y) => some ((ops.read y).1,x.setObject i (.sensor (ops.read y).2))

/-- `cc_calvinsys_write`. A value that the library cannot look at is undefined. -/
def write (x : SensorActor α) (id : CString) (data : Bytes) (now : UInt32) :
    Option (Result × SensorActor α) :=
  match x.object id with
  | none => some (.fail,x)
  | some (i,.timer t) =>
    if !t.canWrite then some (.fail,x)
    else
      (Encode.decodeUint mp ofFloat data).map fun value =>
        ((t.write value now).2,x.setObject i (.timer (t.write value now).1))
  | some (i,.sensor y) => some ((ops.write y data).1,x.setObject i (.sensor (ops.write y data).2))

/-- A token for the out-port. -/
def emit (x : SensorActor α) (token : Bytes) : Bool × SensorActor α :=
  match x.fifo.write token with
  | (.success,f) => (true,{x with fifo := f})
  | _ => (false,x)

/-- The common shape of the two firings: the timer is written, the sensor is read, and the token that
`token` makes of the data goes to the out-port. -/
def fire (token : Bytes → Option (Option Bytes)) (e : SensorFiring) (x : SensorActor α) :
    Option (Bool × SensorActor α) :=
  if !x.canRead ops x.timer || !x.canRead ops x.sensor then some (false,x)
  else if !x.fifo.slotsAvailable 1 then some (false,x)
  else if !e.boolAlloc then some (false,x)
  else
    (x.write ops mp ofFloat x.timer (mp.encodeBool true) e.now).bind fun w =>
      if w.1 ≠ .success then some (false,w.2)
      else
        (w.2.read ops w.2.sensor).bind fun r =>
          match r.1 with
          | none => some (false,r.2)
          | some data => (token data).map fun t => t.elim (false,r.2) r.2.emit

/-- `cc_actor_soil_moisture_fire`. -/
def soilMoistureFire (e : SensorFiring) (x : SensorActor α) : Option (Bool × SensorActor α) :=
  x.fire ops mp ofFloat (fun data => some (some data)) e

/-- What TemperatureTagged makes of the data; the buffer has 200 bytes. -/
def tag (nodeId data : Bytes) (now : UInt32) : Bytes :=
  mp.encodeMap 3++(Coder.encodeKvValue mp (ascii "value") (some data)++
    (Coder.encodeKvStr mp (ascii "node_id") nodeId++Coder.encodeKvUint mp (ascii "time") now))

/-- `cc_actor_temperature_tagged_fire`. -/
def temperatureTaggedFire (nodeId : Bytes) (e : SensorFiring) (x : SensorActor α) :
    Option (Bool × SensorActor α) :=
  x.fire ops mp ofFloat (fun data =>
    if !e.bufferAlloc then some none
    else if (tag mp nodeId data e.now).length ≤ 200 then some (some (tag mp nodeId data e.now))
    else none) e

/-- The timer of the actor has triggered, its sensor is readable and its out-port has a slot. -/
structure Due (x : SensorActor α) : Prop where
  triggered : ∃ i t, x.object x.timer=some (i,.timer t) ∧ t.triggered=true
  readable : x.canRead ops x.sensor=true
  slot : x.fifo.slotsAvailable 1=true

/-- A firing that goes on: it appends a token, acknowledges the timer and arms it again. -/
def KeepsRunning (x : SensorActor α) (r : Option (Bool × SensorActor α)) : Prop :=
  ∃ y token i t, r=some (true,y) ∧ x.fifo.write token=(.success,y.fifo) ∧
    y.object y.timer=some (i,.timer t) ∧ t.triggered=false ∧ t.armed=true

variable {ops mp ofFloat} {x : SensorActor α}

variable (ops mp ofFloat) in
/-- A timer that has triggered takes no period before it is read. -/
theorem write_triggered {id : CString} {i : Nat} {t : Timer} (h : x.object id=some (i,.timer t))
    (ht : t.triggered=true) (data : Bytes) (now : UInt32) :
    x.write ops mp ofFloat id data now=some (.fail,x) := by
  have hbusy : t.canWrite=false := by rw [Timer.canWrite,ht,Bool.true_or,Bool.not_true]
  simp [write,h,hbusy]

/-- An actor whose timer has triggered gives up, whatever it would send. -/
theorem fire_due (h : x.Due ops) (token : Bytes → Option (Option Bytes)) (e : SensorFiring) :
    x.fire ops mp ofFloat token e=some (false,x) := by
  obtain ⟨i,t,hobject,ht⟩ := h.triggered
  have hread : x.canRead ops x.timer=true := by
    rw [canRead,hobject]
    exact ht
  have hwrite := write_triggered ops mp ofFloat hobject ht
    (mp.encodeBool true) e.now
  rw [fire,hread,h.readable,h.slot,hwrite]
  cases e.boolAlloc <;> rfl

theorem not_keepsRunning (x y : SensorActor α) : ¬x.KeepsRunning (some (false,y)) := by
  intro h
  obtain ⟨z,token,i,t,hr,-⟩ := h
  cases hr

/-- No firing of the two sensor actors goes on once the timer has triggered. -/
theorem fire_never_runs (ops : SensorOps α) (mp : Msgpuck) (ofFloat : Bytes → UInt32) (nodeId : Bytes)
    (e : SensorFiring) (x : SensorActor α) (h : x.Due ops) :
    ¬x.KeepsRunning (x.soilMoistureFire ops mp ofFloat e) ∧
      ¬x.KeepsRunning (x.temperatureTaggedFire ops mp ofFloat nodeId e) := by
  rw [soilMoistureFire,temperatureTaggedFire,fire_due h,fire_due h]
  exact ⟨not_keepsRunning x x,not_keepsRunning x x⟩

/-- A sensor that always reads 21. -/
def steadySensor : SensorOps Unit where
  canRead _ := true
  read _ := (some [21],())
  write _ _ := (.success,())

/-- An actor whose timer has triggered. -/
def waiting : SensorActor Unit where
  sensor := .ofBytes [115] 1
  timer := .ofBytes [116] 1
  objects := ListItem.add true (ListItem.add true [] (.ofBytes [115] 1) (.sensor ()))
    (.ofBytes [116] 1) (.timer ⟨60,false,0,false,true⟩)
  fifo := .init 4

theorem waiting_due : waiting.Due steadySensor where
  triggered := ⟨1,⟨60,false,0,false,true⟩,rfl,rfl⟩
  readable := rfl
  slot := by decide

theorem fire_never_runs_waiting :
    ¬waiting.KeepsRunning (waiting.soilMoistureFire steadySensor msgpack (fun _ => 0) ⟨true,true,60⟩) :=
  (fire_never_runs steadySensor msgpack (fun _ => 0) [] ⟨true,true,60⟩ waiting waiting_due).1

/-- The first period of a sensor actor is its last. -/
theorem waiting_stays : waiting.Due steadySensor ∧
    waiting.soilMoistureFire steadySensor msgpack (fun _ => 0) ⟨true,true,60⟩=
      some (false,waiting) ∧
    ¬waiting.KeepsRunning
      (waiting.soilMoistureFire steadySensor msgpack (fun _ => 0) ⟨true,true,60⟩) := by
  have hfire : waiting.soilMoistureFire steadySensor msgpack (fun _ => 0) ⟨true,true,60⟩=
      some (false,waiting) := fire_due waiting_due _ _
  refine ⟨waiting_due,hfire,?_⟩
  rw [hfire]
  exact not_keepsRunning waiting waiting

end SensorActor

end CalvinConstrained
