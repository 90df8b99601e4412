import CalvinConstrained.Runtime.IdentityChain
import CalvinConstrained.Runtime.Payload

namespace CalvinConstrained

/-- The callbacks of a calvinsys object. One that an actor cannot find does and gives nothing. -/
structure Device (δ : Type) where
  canRead : δ → Bool
  canWrite : δ → Bool
  read : δ → Option Bytes × δ
  write : δ → Option Bytes → Result × δ

/-- A device with the data read from it, the data written to it and how many writes failed. -/
structure Recorded (δ : Type) where
  state : δ
  readings : List Bytes
  writes : List (Option Bytes)
  failures : Nat

def Device.recorded {δ : Type} (d : Device δ) : Device (Recorded δ) where
  canRead x := d.canRead x.state
  canWrite x := d.canWrite x.state
  read x := ((d.read x.state).1,{x with
    state := (d.read x.state).2
    readings := x.readings++(d.read x.state).1.toList})
  write x data :=
    if (d.write x.state data).1=.success then
      (.success,{x with state := (d.write x.state data).2,writes := x.writes++[data]})
    else
      ((d.write x.state data).1,{x with state := (d.write x.state data).2,failures := x.failures+1})

/-- What the firing of a C actor works on: the queues of its first in-port and of its first out-port,
and the object that its state names. -/
structure ActorBody (δ : Type) where
  inp : Fifo Bytes
  out : Fifo Bytes
  device : δ

namespace ActorBody

variable {δ : Type} (d : Device δ)

/-- The common shape of the firings that take a token: it is peeked, and `act` decides whether it is
released or given back. -/
def consume (ready : ActorBody δ → Bool)
    (act : Option Bytes → ActorBody δ → Option (Bool × ActorBody δ)) (free : Bool) (x : ActorBody δ) :
    Option (Bool × ActorBody δ) :=
  if !x.inp.tokensAvailable 1 || !ready x then some (false,x)
  else
    (act x.inp.peek.1 {x with inp := x.inp.peek.2}).map fun r =>
      if r.1 then (true,{r.2 with inp := r.2.inp.commitRead free})
      else (false,{r.2 with inp := r.2.inp.cancelCommit})

/-- `cc_actor_light_fire`. -/
def lightFire : ActorBody δ → Option (Bool × ActorBody δ) :=
  consume (fun _ => true) (fun token x =>
    some (decide ((d.write x.device token).1=.success),{x with device := (d.write x.device token).2}))
    true

/-- `cc_actor_log_fire`, without the line that it logs. -/
def logFire : ActorBody δ → Option (Bool × ActorBody δ) :=
  consume (fun _ => true) (fun _ x => some (true,x)) true

/-- `cc_actor_identity_fire`. -/
def identityFire : ActorBody δ → Option (Bool × ActorBody δ) :=
  consume (fun x => x.out.slotsAvailable 1) (fun token x =>
    some (decide ((x.out.writeToken token).1=.success),{x with out := (x.out.writeToken token).2}))
    false

/-- What `%d:%d` makes of two numbers. -/
def replicaText (index tokenNbr : UInt32) : Bytes :=
  ascii (toString index.toInt32.toInt)++ascii ":"++ascii (toString tokenNbr.toInt32.toInt)

/-- `cc_actor_replica_identity_fire`. -/
def replicaIdentityFire (mp : Msgpuck) (ofFloat : Bytes → UInt32) (index : UInt32) (alloc : Bool) :
    ActorBody δ → Option (Bool × ActorBody δ) :=
  consume (fun x => x.out.slotsAvailable 1) (fun token x =>
    token.bind fun value => (Encode.decodeUint mp ofFloat value).map fun n =>
      match n with
      | none => (false,x)
      | some tokenNbr =>
        if !alloc then (false,x)
        else
          let w := x.out.write (mp.encodeStr (replicaText index tokenNbr))
          (decide (w.1=.success),{x with out := w.2})) false

/-- A reading goes to the out-port. -/
def putReading (x : ActorBody δ) : Bool × ActorBody δ :=
  match d.read x.device with
  | (none,s) => (false,{x with device := s})
  | (some data,s) =>
    (decide ((x.out.write data).1=.success),{x with out := (x.out.write data).2,device := s})

/-- `cc_actor_registry_attribute_fire` with a state. -/
def registryAttributeFire (x : ActorBody δ) : Bool × ActorBody δ :=
  if !d.canRead x.device || !x.inp.tokensAvailable 1 || !x.out.slotsAvailable 1 then (false,x)
  else
    match d.read x.device with
    | (none,s) => (false,{x with device := s})
    | (some data,s) =>
      if (x.out.write data).1=.success then
        (true,⟨x.inp.peek.2.commitRead true,(x.out.write data).2,s⟩)
      else (false,⟨x.inp.peek.2.cancelCommit,(x.out.write data).2,s⟩)

/-- The common shape of the firings that only read their object. -/
def produce (x : ActorBody δ) : Bool × ActorBody δ :=
  if !d.canRead x.device || !x.out.slotsAvailable 1 then (false,x) else putReading d x

/-- `cc_actor_button_fire`. -/
def buttonFire : ActorBody δ → Bool × ActorBody δ := produce d

/-- `cc_actor_gyroscope_fire`. -/
def gyroscopeFire : ActorBody δ → Bool × ActorBody δ := produce d

/-- `cc_actor_accelerometer_fire`. -/
def accelerometerFire : ActorBody δ → Bool × ActorBody δ := produce d

/-- `cc_actor_coap_fire`. -/
def coapFire : ActorBody δ → Bool × ActorBody δ := produce d

/-- `cc_actor_triggered_temperature_trigger_measurement`. The token is gone before the measurement is
started. -/
def triggerMeasurement (x : ActorBody δ) : Bool × ActorBody δ :=
  if !x.inp.tokensAvailable 1 || !d.canWrite x.device then (false,x)
  else
    let w := d.write x.device (some [0xc3])
    (decide (w.1=.success),{x with inp := x.inp.peek.2.commitRead true,device := w.2})

/-- `cc_actor_triggered_temperature_fire`, which reads a measurement and starts one. -/
def triggeredTemperatureFire (x : ActorBody δ) : Bool × ActorBody δ :=
  let r := produce d x
  let t := triggerMeasurement d r.2
  (r.1 || t.1,t.2)

/-- `cc_actor_camera_fire` with a state. The token is not given back when the trigger fails, and a
picture is read whether it finds a slot or not; without a picture the data is not set. -/
def cameraFire (x : ActorBody δ) : Option (Bool × ActorBody δ) :=
  if x.inp.tokensAvailable 1 then
    let w := d.write x.device (some (ascii "trigger"))
    if w.1=.success then some (true,{x with inp := x.inp.peek.2.commitRead false,device := w.2})
    else some (false,{x with inp := x.inp.peek.2,device := w.2})
  else if d.canRead x.device then
    match d.read x.device with
    | (none,_) => none
    | (some data,s) =>
      if x.out.slotsAvailable 1 then
        some (decide ((x.out.write data).1=.success),{x with out := (x.out.write data).2,device := s})
      else some (false,{x with device := s})
  else some (false,x)

/-- The firing of Identity is that of the chains of Identity actors. -/
theorem identityFire_queues (x : ActorBody δ) : x.identityFire=
    some ((CalvinConstrained.identityFire x.inp x.out).1,{x with
      inp := (CalvinConstrained.identityFire x.inp x.out).2.1
      out := (CalvinConstrained.identityFire x.inp x.out).2.2}) := by
  unfold identityFire consume CalvinConstrained.identityFire
  cases htokens : x.inp.tokensAvailable 1 with
  | false => rfl
  | true =>
    cases hslots : x.out.slotsAvailable 1 with
    | false => simp [hslots]
    | true =>
      by_cases h : (x.out.writeToken x.inp.peek.1).1=.success
      · simp [h,hslots]
      · simp [h,hslots]

end ActorBody

/-- The C actors that take every token once. -/
inductive CActor
  | light
  | log
  | identity
  | replicaIdentity (index : UInt32)
  | registryAttribute
  | button
  | gyroscope
  | accelerometer
  | coapSource
  | triggeredTemperature

namespace CActor

variable {δ : Type} (mp : Msgpuck) (ofFloat : Bytes → UInt32)

def fire (d : Device δ) (alloc : Bool) (x : ActorBody δ) : CActor → Option (Bool × ActorBody δ)
  | .light => x.lightFire d
  | .log => x.logFire
  | .identity => x.identityFire
  | .replicaIdentity index => x.replicaIdentityFire mp ofFloat index alloc
  | .registryAttribute => some (x.registryAttributeFire d)
  | .button => some (x.buttonFire d)
  | .gyroscope => some (x.gyroscopeFire d)
  | .accelerometer => some (x.accelerometerFire d)
  | .coapSource => some (x.coapFire d)
  | .triggeredTemperature => some (x.triggeredTemperatureFire d)

/-- What the actor makes of the tokens that it takes and of the data that it reads: the tokens that it
gives, and the data that it writes to its object. -/
def Makes (taken given readings : List Bytes) (writes : List (Option Bytes)) : CActor → Prop
  | .light => writes=taken.map some ∧ given=[] ∧ readings=[]
  | .log => given=[] ∧ readings=[] ∧ writes=[]
  | .identity => given=taken ∧ readings=[] ∧ writes=[]
  | .replicaIdentity index => List.Forall₂ (fun t g => ∃ n, Encode.decodeUint mp ofFloat t=
      some (some n) ∧ g=mp.encodeStr (ActorBody.replicaText index n)) taken given ∧
        readings=[] ∧ writes=[]
  | .registryAttribute => given=readings ∧ taken.length=given.length ∧ writes=[]
  | .triggeredTemperature => given=readings ∧ writes.length ≤ taken.length
  | _ => given=readings ∧ taken=[] ∧ writes=[]

end CActor

/-- What has become of a body: the tokens taken and given, the data read and written. -/
structure ActorBody.Change {δ : Type} (x y : ActorBody (Recorded δ))
    (taken given readings : List Bytes) (writes : List (Option Bytes)) : Prop where
  inp : taken=[] ∧ y.inp=x.inp ∨ ∃ t free, taken=[t] ∧ x.inp.tokensAvailable 1=true ∧
    x.inp.peek.1=some t ∧ y.inp=x.inp.peek.2.commitRead free
  out : given=[] ∧ y.out=x.out ∨ ∃ g, given=[g] ∧ x.out.slotsAvailable 1=true ∧
    y.out=(x.out.write g).2
  readings : y.device.readings=x.device.readings++readings
  writes : y.device.writes=x.device.writes++writes

section Firing

variable {δ : Type} {mp : Msgpuck} {ofFloat : Bytes → UInt32} {d : Device δ}
  {x y : ActorBody (Recorded δ)} {q r : TentativeQueue Bytes}

theorem ActorBody.Change.nothing (x : ActorBody (Recorded δ)) : x.Change x [] [] [] [] where
  inp := .inl ⟨rfl,rfl⟩
  out := .inl ⟨rfl,rfl⟩
  readings := (List.append_nil _).symm
  writes := (List.append_nil _).symm

theorem Fifo.Refines.cancelPeek {f : Fifo Bytes} (h : f.Refines q) (hp : q.peeked=0) :
    f.peek.2.cancelCommit=f := by
  have ht := h.tentative
  rw [hp,Nat.add_zero,← h.stores.read,UInt32.toNat_inj] at ht
  exact Fifo.ext rfl rfl rfl ht.symm rfl

theorem Fifo.write_success {f : Fifo Bytes} (h : f.slotsAvailable 1=true) (data : Bytes) :
    (f.write data).1=.success := by
  rw [Fifo.write,if_pos h]

/-- A token that is peeked and released is the oldest one. -/
theorem Fifo.Refines.take {f : Fifo Bytes} (h : f.Refines q) (hp : q.peeked=0)
    (hsome : f.tokensAvailable 1=true) : ∃ t rest, q.items=t::rest ∧ f.peek.1=some t ∧
      f.slot f.readPos=some t ∧ ∀ free, ∃ r : TentativeQueue Bytes,
        (f.peek.2.commitRead free).Refines r ∧ r.peeked=0 ∧ r.items=rest ∧
          r.released=q.released+1 := by
  rw [h.peekable,decide_eq_true_eq] at hsome
  have hread : f.tentativeReadPos=f.readPos := by
    have ht := h.tentative
    rwa [hp,Nat.add_zero,← h.stores.read,UInt32.toNat_inj] at ht
  obtain ⟨htoken,hpeek⟩ := h.peek hsome
  obtain ⟨t,rest,hitems⟩ := List.exists_cons_of_length_pos (Nat.lt_of_le_of_lt (Nat.zero_le _) hsome)
  have htake : f.peek.1=some t := by
    rw [htoken,TentativeQueue.peek,dif_pos hsome]
    simp [hp,hitems]
  refine ⟨t,rest,hitems,htake,?_,fun free => ⟨q.peek.2.commit,hpeek.commitRead free,?_⟩⟩
  · rw [← hread]
    exact htake
  · simp [TentativeQueue.peek,TentativeQueue.commit,hp,hitems]

/-- A token that finds a slot is the newest one. -/
theorem Fifo.Refines.put {f : Fifo Bytes} (h : f.Refines r) (hroom : f.slotsAvailable 1=true)
    (hfit : r.total+1<2^32) (g : Bytes) : ∃ w : TentativeQueue Bytes, (f.write g).2.Refines w ∧
      w.peeked=r.peeked ∧ w.items=r.items++[g] ∧ w.released=r.released ∧
        (f.write g).2.writePos ≠ f.writePos ∧ (f.write g).2.slot f.writePos=some g := by
  have hlt := h.hasRoom.mp hroom
  obtain ⟨hwrite,hrefines⟩ := h.write_item (x := g) hlt hfit
  have hitems : (r.write g).2.items=r.items++[g] := by simp [TentativeQueue.write,hlt]
  have hrel : (r.write g).2.released=r.released := by simp [TentativeQueue.write,hlt]
  have hpos := hrefines.stores.write
  have hold := h.stores.write
  rw [hitems,hrel,List.length_append,List.length_singleton] at hpos
  refine ⟨_,hrefines,by simp [TentativeQueue.write,hlt],hitems,hrel,?_,?_⟩
  · intro heq
    rw [heq] at hpos
    omega
  · rw [hrefines.stores.slot f.writePos r.items.length (by simp [hitems]) (by rw [hrel]; exact hold)]
    simp [hitems]

theorem Device.recorded_write (d : Device δ) (s : Recorded δ) (data : Option Bytes) :
    (d.recorded.write s data).2.readings=s.readings ∧
      (d.recorded.write s data).2.writes=
        s.writes++if (d.recorded.write s data).1=.success then [data] else [] := by
  by_cases h : (d.write s.state data).1=.success
  · simp [Device.recorded,h]
  · simp [Device.recorded,h]

theorem ActorBody.Change.append {z : ActorBody (Recorded δ)} {taken given readings more : List Bytes}
    {writes : List (Option Bytes)} (h : x.Change y [] given readings [])
    (k : y.Change z taken [] more writes) : x.Change z taken given (readings++more) writes where
  inp := by
    rcases h.inp with ⟨-,hinp⟩ | ⟨t,_,ht,-⟩
    · rw [← hinp]
      exact k.inp
    · cases ht
  out := by
    rcases k.out with ⟨-,hout⟩ | ⟨g,hg,-⟩
    · rw [hout]
      exact h.out
    · cases hg
  readings := by rw [k.readings,h.readings,List.append_assoc]
  writes := by rw [k.writes,h.writes,List.append_nil]

namespace ActorBody

/-- A firing that takes a token does nothing, or what `act` says with the oldest token. -/
theorem consume_cases {ready : ActorBody (Recorded δ) → Bool}
    {act : Option Bytes → ActorBody (Recorded δ) → Option (Bool × ActorBody (Recorded δ))}
    {free ok : Bool} (h : x.inp.Refines q) (hp : q.peeked=0)
    (hc : consume ready act free x=some (ok,y)) :
    y=x ∨ ∃ t z, x.inp.tokensAvailable 1=true ∧ ready x=true ∧ x.inp.peek.1=some t ∧
      act (some t) {x with inp := x.inp.peek.2}=some (ok,z) ∧
      y={z with inp := if ok then z.inp.commitRead free else z.inp.cancelCommit} := by
  unfold consume at hc
  cases htokens : x.inp.tokensAvailable 1 with
  | false =>
    simp only [htokens,Bool.not_false,Bool.true_or,if_true,Option.some.injEq,Prod.mk.injEq] at hc
    exact .inl hc.2.symm
  | true =>
    cases hready : ready x with
    | false =>
      simp only [htokens,hready,Bool.not_true,Bool.not_false,Bool.or_true,if_true,Option.some.injEq,
        Prod.mk.injEq] at hc
      exact .inl hc.2.symm
    | true =>
      obtain ⟨t,-,-,ht,-⟩ := h.take hp htokens
      simp only [htokens,hready,Bool.not_true,Bool.or_self,Bool.false_eq_true,if_false,ht,
        Option.map_eq_some_iff] at hc
      obtain ⟨⟨b,z⟩,hz,hy⟩ := hc
      cases b with
      | false =>
        simp only [Bool.false_eq_true,if_false,Prod.mk.injEq] at hy
        obtain ⟨rfl,rfl⟩ := hy
        exact .inr ⟨t,z,rfl,rfl,ht,hz,by simp⟩
      | true =>
        simp only [if_true,Prod.mk.injEq] at hy
        obtain ⟨rfl,rfl⟩ := hy
        exact .inr ⟨t,z,rfl,rfl,ht,hz,by simp⟩

theorem Change.take {t : Bytes} (free : Bool) (hsome : x.inp.tokensAvailable 1=true)
    (ht : x.inp.peek.1=some t) {given : List Bytes} {device : Recorded δ} {out : Fifo Bytes}
    (hout : given=[] ∧ out=x.out ∨ ∃ g, given=[g] ∧ x.out.slotsAvailable 1=true ∧
      out=(x.out.write g).2) {readings : List Bytes} {writes : List (Option Bytes)}
    (hr : device.readings=x.device.readings++readings)
    (hw : device.writes=x.device.writes++writes) :
    x.Change ⟨x.inp.peek.2.commitRead free,out,device⟩ [t] given readings writes :=
  ⟨.inr ⟨t,free,rfl,hsome,ht,rfl⟩,hout,hr,hw⟩

theorem lightFire_change {ok : Bool} (h : x.inp.Refines q) (hp : q.peeked=0)
    (hc : x.lightFire d.recorded=some (ok,y)) :
    ∃ taken, x.Change y taken [] [] (taken.map some) := by
  rcases consume_cases h hp hc with rfl | ⟨t,z,hsome,-,ht,hact,rfl⟩
  · exact ⟨[],.nothing y⟩
  · cases hact
    obtain ⟨hreadings,hwrites⟩ := d.recorded_write x.device (some t)
    by_cases hw : (d.recorded.write x.device (some t)).1=.success
    · refine ⟨[t],?_⟩
      simp only [hw,decide_true,if_true] at hwrites ⊢
      exact .take true hsome ht (.inl ⟨rfl,rfl⟩) (by rw [hreadings,List.append_nil]) hwrites
    · refine ⟨[],?_⟩
      simp only [hw,decide_false,Bool.false_eq_true,if_false,h.cancelPeek hp] at hwrites ⊢
      exact ⟨.inl ⟨rfl,rfl⟩,.inl ⟨rfl,rfl⟩,by rw [hreadings,List.append_nil],hwrites⟩

theorem logFire_change {ok : Bool} (h : x.inp.Refines q) (hp : q.peeked=0)
    (hc : x.logFire=some (ok,y)) : ∃ taken, x.Change y taken [] [] [] := by
  rcases consume_cases h hp hc with rfl | ⟨t,z,hsome,-,ht,hact,rfl⟩
  · exact ⟨[],.nothing y⟩
  · cases hact
    exact ⟨[t],.take true hsome ht (.inl ⟨rfl,rfl⟩) (List.append_nil _).symm (List.append_nil _).symm⟩

theorem identityFire_change {ok : Bool} (h : x.inp.Refines q) (hp : q.peeked=0)
    (hc : x.identityFire=some (ok,y)) : ∃ taken, x.Change y taken taken [] [] := by
  rcases consume_cases h hp hc with rfl | ⟨t,z,hsome,hroom,ht,hact,rfl⟩
  · exact ⟨[],.nothing y⟩
  · have hwritten := Fifo.write_success hroom t
    have hput : x.out.writeToken (some t)=x.out.write t := rfl
    simp only [hput,hwritten,decide_true,Option.some.injEq,Prod.mk.injEq] at hact
    obtain ⟨rfl,rfl⟩ := hact
    refine ⟨[t],?_⟩
    exact .take false hsome ht (.inr ⟨t,rfl,hroom,rfl⟩) (List.append_nil _).symm
      (List.append_nil _).symm

theorem replicaIdentityFire_change {index : UInt32} {alloc ok : Bool} (h : x.inp.Refines q)
    (hp : q.peeked=0) (hc : x.replicaIdentityFire mp ofFloat index alloc=some (ok,y)) :
    x.Change y [] [] [] [] ∨ ∃ t n, Encode.decodeUint mp ofFloat t=some (some n) ∧
      x.Change y [t] [mp.encodeStr (replicaText index n)] [] [] := by
  rcases consume_cases h hp hc with rfl | ⟨t,z,hsome,hroom,ht,hact,rfl⟩
  · exact .inl (.nothing y)
  · rw [Option.bind_some,Option.map_eq_some_iff] at hact
    obtain ⟨n,hn,hact⟩ := hact
    have hback : x.Change {x with inp := x.inp.peek.2.cancelCommit} [] [] [] [] := by
      rw [h.cancelPeek hp]
      exact .nothing x
    cases n with
    | none =>
      cases hact
      exact .inl hback
    | some n =>
      cases alloc with
      | false =>
        cases hact
        exact .inl hback
      | true =>
        have hwritten := Fifo.write_success hroom (mp.encodeStr (replicaText index n))
        simp only [hwritten,decide_true,Bool.not_true,Bool.false_eq_true,if_false,
          Prod.mk.injEq] at hact
        obtain ⟨rfl,rfl⟩ := hact
        refine .inr ⟨t,n,hn,?_⟩
        exact .take false hsome ht (.inr ⟨_,rfl,hroom,rfl⟩) (List.append_nil _).symm
          (List.append_nil _).symm

/-- A reading finds a slot. -/
theorem putReading_change (hroom : x.out.slotsAvailable 1=true) :
    ∃ given, x.Change (putReading d.recorded x).2 [] given given [] := by
  cases hread : (d.read x.device.state).1 with
  | none =>
    refine ⟨[],.inl ⟨rfl,?_⟩,.inl ⟨rfl,?_⟩,?_,?_⟩ <;> simp [putReading,Device.recorded,hread]
  | some data =>
    refine ⟨[data],.inl ⟨rfl,?_⟩,.inr ⟨data,rfl,hroom,?_⟩,?_,?_⟩ <;>
      simp [putReading,Device.recorded,hread]

theorem produce_change : ∃ given, x.Change (produce d.recorded x).2 [] given given [] := by
  unfold produce
  split
  · exact ⟨[],.nothing x⟩
  · next hready =>
    refine putReading_change ?_
    cases hroom : x.out.slotsAvailable 1 with
    | false => simp [hroom] at hready
    | true => rfl

theorem registryAttributeFire_change (h : x.inp.Refines q) (hp : q.peeked=0) :
    ∃ taken given, taken.length=given.length ∧
      x.Change (registryAttributeFire d.recorded x).2 taken given given [] := by
  unfold registryAttributeFire
  split
  · exact ⟨[],[],rfl,.nothing x⟩
  · next hready =>
    simp only [Bool.or_eq_true,Bool.not_eq_true',not_or,Bool.not_eq_false] at hready
    obtain ⟨⟨-,hsome⟩,hroom⟩ := hready
    obtain ⟨t,-,-,ht,-⟩ := h.take hp hsome
    cases hread : (d.read x.device.state).1 with
    | none =>
      refine ⟨[],[],rfl,.inl ⟨rfl,?_⟩,.inl ⟨rfl,?_⟩,?_,?_⟩ <;> simp [Device.recorded,hread]
    | some data =>
      have hwritten := Fifo.write_success hroom data
      refine ⟨[t],[data],rfl,.inr ⟨t,true,rfl,hsome,ht,?_⟩,.inr ⟨data,rfl,hroom,?_⟩,?_,?_⟩ <;>
        simp [Device.recorded,hread,hwritten]

theorem triggerMeasurement_change (h : x.inp.Refines q) (hp : q.peeked=0) :
    ∃ taken writes, writes.length ≤ taken.length ∧
      x.Change (triggerMeasurement d.recorded x).2 taken [] [] writes := by
  unfold triggerMeasurement
  split
  · exact ⟨[],[],Nat.le_refl _,.nothing x⟩
  · next hready =>
    simp only [Bool.or_eq_true,Bool.not_eq_true',not_or,Bool.not_eq_false] at hready
    obtain ⟨t,-,-,ht,-⟩ := h.take hp hready.1
    obtain ⟨hreadings,hwrites⟩ := d.recorded_write x.device (some [0xc3])
    refine ⟨[t],_,?_,.take true hready.1 ht (.inl ⟨rfl,rfl⟩) (by rw [hreadings,List.append_nil])
      hwrites⟩
    split <;> simp

end ActorBody

/-- A firing of the camera triggers it and takes a token, fails to trigger it and keeps a token handed
out, or leaves its in-port alone. -/
theorem ActorBody.cameraFire_cases {ok : Bool} (hc : x.cameraFire d.recorded=some (ok,y)) :
    (x.inp.tokensAvailable 1=true ∧ y.out=x.out ∧ y.device.readings=x.device.readings ∧
      (y.inp=x.inp.peek.2.commitRead false ∧ y.device.failures=x.device.failures ∧
          y.device.writes.length=x.device.writes.length+1 ∨
        y.inp=x.inp.peek.2 ∧ y.device.failures=x.device.failures+1 ∧
          y.device.writes.length=x.device.writes.length)) ∨
      y.inp=x.inp ∧ y.device.failures=x.device.failures ∧
        y.device.writes.length=x.device.writes.length ∧ ∃ given readings,
          (given=[] ∧ y.out=x.out ∨ ∃ g, given=[g] ∧ x.out.slotsAvailable 1=true ∧
            y.out=(x.out.write g).2) ∧ List.Sublist given readings ∧
          y.device.readings=x.device.readings++readings := by
  unfold cameraFire at hc
  cases hsome : x.inp.tokensAvailable 1 with
  | true =>
    simp only [hsome,if_true] at hc
    by_cases hw : (d.write x.device.state (some (ascii "trigger"))).1=.success
    · simp only [Device.recorded,hw,if_true,Option.some.injEq,Prod.mk.injEq] at hc
      obtain ⟨-,rfl⟩ := hc
      exact .inl ⟨rfl,rfl,rfl,.inl ⟨rfl,rfl,by rw [List.length_append]; rfl⟩⟩
    · simp only [Device.recorded,hw,if_false,Option.some.injEq,Prod.mk.injEq] at hc
      obtain ⟨-,rfl⟩ := hc
      exact .inl ⟨rfl,rfl,rfl,.inr ⟨rfl,rfl,rfl⟩⟩
  | false =>
    simp only [hsome,Bool.false_eq_true,if_false] at hc
    refine .inr ?_
    split at hc
    · cases hread : (d.read x.device.state).1 with
      | none => simp [Device.recorded,hread] at hc
      | some data =>
        cases hroom : x.out.slotsAvailable 1 with
        | true =>
          simp only [Device.recorded,hread,hroom,if_true,Option.some.injEq,Prod.mk.injEq] at hc
          obtain ⟨-,rfl⟩ := hc
          exact ⟨rfl,rfl,rfl,[data],[data],.inr ⟨data,rfl,rfl,rfl⟩,.refl _,rfl⟩
        | false =>
          simp only [Device.recorded,hread,hroom,Bool.false_eq_true,if_false,Option.some.injEq,
            Prod.mk.injEq] at hc
          obtain ⟨-,rfl⟩ := hc
          exact ⟨rfl,rfl,rfl,[],[data],.inl ⟨rfl,rfl⟩,List.nil_sublist _,rfl⟩
    · cases hc
      exact ⟨rfl,rfl,rfl,[],[],.inl ⟨rfl,rfl⟩,.refl _,(List.append_nil _).symm⟩

namespace CActor

variable {c : CActor} {taken given readings taken' given' readings' : List Bytes}
  {writes writes' : List (Option Bytes)}

theorem makes_nothing : c.Makes mp ofFloat [] [] [] [] := by
  cases c <;> simp [Makes]

theorem Makes.append (h : c.Makes mp ofFloat taken given readings writes)
    (k : c.Makes mp ofFloat taken' given' readings' writes') :
    c.Makes mp ofFloat (taken++taken') (given++given') (readings++readings') (writes++writes') := by
  cases c with
  | light =>
    obtain ⟨rfl,rfl,rfl⟩ := h
    obtain ⟨rfl,rfl,rfl⟩ := k
    exact ⟨(List.map_append ..).symm,rfl,rfl⟩
  | replicaIdentity index =>
    obtain ⟨hpairs,rfl,rfl⟩ := h
    obtain ⟨hmore,rfl,rfl⟩ := k
    exact ⟨List.rel_append hpairs hmore,rfl,rfl⟩
  | registryAttribute =>
    obtain ⟨rfl,hlen,rfl⟩ := h
    obtain ⟨rfl,hmore,rfl⟩ := k
    exact ⟨rfl,by rw [List.length_append,List.length_append,hlen,hmore],rfl⟩
  | triggeredTemperature =>
    obtain ⟨rfl,hlen⟩ := h
    obtain ⟨rfl,hmore⟩ := k
    exact ⟨rfl,by rw [List.length_append,List.length_append]; exact Nat.add_le_add hlen hmore⟩
  | _ =>
    obtain ⟨rfl,rfl,rfl⟩ := h
    obtain ⟨rfl,rfl,rfl⟩ := k
    exact ⟨rfl,rfl,rfl⟩

/-- One firing of an actor whose in-port has handed out nothing. -/
theorem fire_change {alloc ok : Bool} (h : x.inp.Refines q) (hp : q.peeked=0)
    (hf : c.fire mp ofFloat d.recorded alloc x=some (ok,y)) :
    ∃ taken given readings writes, x.Change y taken given readings writes ∧
      c.Makes mp ofFloat taken given readings writes := by
  cases c with
  | light =>
    obtain ⟨taken,hchange⟩ := ActorBody.lightFire_change h hp hf
    exact ⟨_,_,_,_,hchange,rfl,rfl,rfl⟩
  | log =>
    obtain ⟨taken,hchange⟩ := ActorBody.logFire_change h hp hf
    exact ⟨_,_,_,_,hchange,rfl,rfl,rfl⟩
  | identity =>
    obtain ⟨taken,hchange⟩ := ActorBody.identityFire_change h hp hf
    exact ⟨_,_,_,_,hchange,rfl,rfl,rfl⟩
  | replicaIdentity index =>
    rcases ActorBody.replicaIdentityFire_change h hp hf with hchange | ⟨t,n,hn,hchange⟩
    · exact ⟨_,_,_,_,hchange,makes_nothing⟩
    · exact ⟨_,_,_,_,hchange,.cons ⟨n,hn,rfl⟩ .nil,rfl,rfl⟩
  | registryAttribute =>
    obtain rfl := congrArg Prod.snd (Option.some.inj hf)
    obtain ⟨taken,given,hlen,hchange⟩ := ActorBody.registryAttributeFire_change h hp
    exact ⟨_,_,_,_,hchange,rfl,hlen,rfl⟩
  | triggeredTemperature =>
    obtain rfl := congrArg Prod.snd (Option.some.inj hf)
    obtain ⟨given,hread⟩ := ActorBody.produce_change (d := d) (x := x)
    have hkeep : (ActorBody.produce d.recorded x).2.inp=x.inp := by
      rcases hread.inp with ⟨-,hinp⟩ | ⟨t,_,ht,-⟩
      · exact hinp
      · cases ht
    obtain ⟨taken,writes,hlen,hchange⟩ := ActorBody.triggerMeasurement_change
      (d := d) (x := (ActorBody.produce d.recorded x).2) (q := q) (by rw [hkeep]; exact h) hp
    exact ⟨_,_,_,_,hread.append hchange,(List.append_nil _).symm,hlen⟩
  | button | gyroscope | accelerometer | coapSource =>
    obtain rfl := congrArg Prod.snd (Option.some.inj hf)
    obtain ⟨given,hchange⟩ := ActorBody.produce_change (d := d) (x := x)
    exact ⟨_,_,_,_,hchange,rfl,rfl,rfl⟩

end CActor

end Firing

/-- An actor's body in a run, with the tokens that came to its in-port, those that it took and gave,
and those that left its out-port. -/
structure ActorRun (δ : Type) where
  body : ActorBody (Recorded δ)
  arrived : List Bytes
  taken : List Bytes
  given : List Bytes
  departed : List Bytes

/-- A token comes, the actor is fired, the out-port's oldest token goes, the object changes. -/
inductive ActorEvent (δ : Type)
  | arrive (data : Bytes)
  | fire (alloc : Bool)
  | depart
  | device (s : δ)

namespace ActorRun

variable {δ : Type}

def init (n m : UInt32) (s : δ) : ActorRun δ :=
  ⟨⟨Fifo.init n,Fifo.init m,⟨s,[],[],0⟩⟩,[],[],[],[]⟩

/-- What is taken and given is read off the positions of the queues. -/
def after (s : ActorRun δ) (y : ActorBody (Recorded δ)) : ActorRun δ := {s with
  body := y
  taken := s.taken++if y.inp.readPos=s.body.inp.readPos then []
    else (s.body.inp.slot s.body.inp.readPos).toList
  given := s.given++if y.out.writePos=s.body.out.writePos then []
    else (y.out.slot s.body.out.writePos).toList}

def step (fire : Bool → ActorBody (Recorded δ) → Option (Bool × ActorBody (Recorded δ))) :
    ActorEvent δ → ActorRun δ → Option (ActorRun δ)
  | .arrive data,s =>
    let w := s.body.inp.write data
    some {s with
      body := {s.body with inp := w.2}
      arrived := if w.1=.success then s.arrived++[data] else s.arrived}
  | .fire alloc,s => (fire alloc s.body).map fun r => s.after r.2
  | .depart,s =>
    if s.body.out.tokensAvailable 1 then some {s with
      body := {s.body with out := s.body.out.peek.2.commitRead false}
      departed := s.departed++s.body.out.peek.1.toList}
    else some s
  | .device t,s => some {s with body := {s.body with device := {s.body.device with state := t}}}

variable (mp : Msgpuck) (ofFloat : Bytes → UInt32) (d : Device δ) (c : CActor)

/-- The tokens that came are those taken and those queued, the tokens given are those gone and those
queued, and the actor made the second of the first; `n` more events can follow. -/
structure Conserved (n : Nat) (s : ActorRun δ) : Prop where
  inp : ∃ q : TentativeQueue Bytes, s.body.inp.Refines q ∧ q.peeked=0 ∧ q.total+n<2^32 ∧
    s.arrived=s.taken++q.items
  out : ∃ r : TentativeQueue Bytes, s.body.out.Refines r ∧ r.peeked=0 ∧ r.total+n<2^32 ∧
    s.given=s.departed++r.items
  makes : c.Makes mp ofFloat s.taken s.given s.body.device.readings s.body.device.writes

variable {mp ofFloat d c} {n : Nat} {s t : ActorRun δ}

theorem init_conserved (a b : UInt32) (ha : 1 ≤ a.toNat) (hb : 1 ≤ b.toNat) (x : δ)
    (hn : n<2^32) : Conserved mp ofFloat c n (init a b x) where
  inp := ⟨_,Fifo.init_refines a ha,rfl,by simpa [TentativeQueue.total,TentativeQueue.empty] using hn,
    rfl⟩
  out := ⟨_,Fifo.init_refines b hb,rfl,by simpa [TentativeQueue.total,TentativeQueue.empty] using hn,
    rfl⟩
  makes := CActor.makes_nothing

/-- The tokens of an out-port after a firing that left it alone or put one token there. -/
theorem given_after {r : TentativeQueue Bytes} {y : ActorBody (Recorded δ)} {given : List Bytes}
    (hr : s.body.out.Refines r) (hrn : r.total+(n+1)<2^32) (hgiven : s.given=s.departed++r.items)
    (hrest : r.peeked=0)
    (hout : given=[] ∧ y.out=s.body.out ∨ ∃ g, given=[g] ∧ s.body.out.slotsAvailable 1=true ∧
      y.out=(s.body.out.write g).2) :
    (s.after y).given=s.given++given ∧ ∃ r' : TentativeQueue Bytes, y.out.Refines r' ∧
      r'.peeked=0 ∧ r'.total+n<2^32 ∧ (s.after y).given=s.departed++r'.items := by
  rcases hout with ⟨rfl,hsame⟩ | ⟨g,rfl,hroom,hput⟩
  · have hnone : (s.after y).given=s.given++[] := by simp only [after,hsame,if_true]
    exact ⟨hnone,r,hsame ▸ hr,hrest,by omega,by rw [hnone,List.append_nil,hgiven]⟩
  · obtain ⟨r',hr',hzero,hitems,hreleased,hmoved,hslot⟩ := hr.put hroom (by omega) g
    rw [← hput] at hr' hmoved hslot
    have hone : (s.after y).given=s.given++[g] := by
      simp only [after,if_neg hmoved,hslot,Option.toList_some]
    refine ⟨hone,r',hr',hzero.trans hrest,?_,?_⟩
    · rw [TentativeQueue.total] at hrn
      rw [TentativeQueue.total,hitems,hreleased,List.length_append,List.length_singleton]
      omega
    · rw [hone,hgiven,hitems,List.append_assoc]

/-- The oldest token leaves the out-port. -/
theorem depart_out {r : TentativeQueue Bytes} (hr : s.body.out.Refines r) (hrest : r.peeked=0)
    (hsome : s.body.out.tokensAvailable 1=true) (hrn : r.total+(n+1)<2^32)
    (hgiven : s.given=s.departed++r.items) : ∃ r' : TentativeQueue Bytes,
      (s.body.out.peek.2.commitRead false).Refines r' ∧ r'.peeked=0 ∧ r'.total+n<2^32 ∧
        s.given=(s.departed++s.body.out.peek.1.toList)++r'.items := by
  obtain ⟨t,rest,hitems,ht,-,htake⟩ := hr.take hrest hsome
  obtain ⟨r',hr',hzero,hrest',hreleased⟩ := htake false
  refine ⟨r',hr',hzero,?_,?_⟩
  · rw [TentativeQueue.total,hitems,List.length_cons] at hrn
    rw [TentativeQueue.total,hrest',hreleased]
    omega
  · rw [ht,hgiven,hitems,hrest']
    simp

theorem Conserved.fire {y : ActorBody (Recorded δ)} {alloc ok : Bool}
    (h : Conserved mp ofFloat c (n+1) s)
    (hf : c.fire mp ofFloat d.recorded alloc s.body=some (ok,y)) :
    Conserved mp ofFloat c n (s.after y) := by
  obtain ⟨q,hq,hpeeked,hqn,harrived⟩ := h.inp
  obtain ⟨r,hr,hrest,hrn,hgiven⟩ := h.out
  obtain ⟨taken,given,readings,writes,hchange,hmakes⟩ := CActor.fire_change hq hpeeked hf
  have hin : (if y.inp.readPos=s.body.inp.readPos then []
      else (s.body.inp.slot s.body.inp.readPos).toList)=taken ∧
      ∃ q' : TentativeQueue Bytes, y.inp.Refines q' ∧ q'.peeked=0 ∧ q'.total+n<2^32 ∧
        q.items=taken++q'.items := by
    rcases hchange.inp with ⟨rfl,hsame⟩ | ⟨t,free,rfl,hsome,ht,htook⟩
    · rw [hsame,if_pos rfl]
      exact ⟨rfl,q,hq,hpeeked,by omega,rfl⟩
    · obtain ⟨u,rest,hitems,hu,hslot,htake⟩ := hq.take hpeeked hsome
      obtain ⟨q',hq',hzero,hrest',hreleased⟩ := htake free
      obtain rfl : t=u := Option.some.inj (ht.symm.trans hu)
      have hmoved : y.inp.readPos ≠ s.body.inp.readPos := by
        intro heq
        have hnew := hq'.stores.read
        rw [← htook,heq,hq.stores.read,hreleased] at hnew
        omega
      refine ⟨by rw [if_neg hmoved,hslot]; rfl,q',by rw [htook]; exact hq',hzero,?_,?_⟩
      · rw [TentativeQueue.total,hitems,List.length_cons] at hqn
        rw [TentativeQueue.total,hrest',hreleased]
        omega
      · rw [hitems,hrest']
        rfl
  obtain ⟨htaken,q',hq',hzero,hlimit,hitems⟩ := hin
  obtain ⟨hgave,hout⟩ := given_after hr hrn hgiven hrest hchange.out
  refine ⟨⟨q',hq',hzero,hlimit,?_⟩,hout,?_⟩
  · simp only [after,htaken]
    rw [harrived,hitems,List.append_assoc]
  · rw [hgave]
    simp only [after,htaken]
    rw [hchange.readings,hchange.writes]
    exact h.makes.append hmakes

theorem step_conserved {e : ActorEvent δ}
    (he : step (fun alloc x => c.fire mp ofFloat d.recorded alloc x) e s=some t)
    (h : Conserved mp ofFloat c (n+1) s) : Conserved mp ofFloat c n t := by
  obtain ⟨q,hq,hpeeked,hqn,harrived⟩ := h.inp
  obtain ⟨r,hr,hrest,hrn,hgiven⟩ := h.out
  have hkeep : Conserved mp ofFloat c n s :=
    ⟨⟨q,hq,hpeeked,by omega,harrived⟩,⟨r,hr,hrest,by omega,hgiven⟩,h.makes⟩
  cases e with
  | arrive data =>
    cases he
    refine ⟨?_,hkeep.out,hkeep.makes⟩
    cases hroom : s.body.inp.slotsAvailable 1 with
    | true =>
      obtain ⟨w,hw,hzero,hitems,hreleased,-,-⟩ := hq.put hroom (by omega) data
      refine ⟨w,hw,hzero.trans hpeeked,?_,?_⟩
      · rw [TentativeQueue.total] at hqn
        rw [TentativeQueue.total,hitems,hreleased,List.length_append,List.length_singleton]
        omega
      · simp only [Fifo.write_success hroom,if_true]
        rw [harrived,hitems,List.append_assoc]
    | false =>
      have hsame : s.body.inp.write data=(.fail,s.body.inp) := by simp [Fifo.write,hroom]
      simp only [hsame,reduceCtorEq,if_false]
      exact hkeep.inp
  | fire alloc =>
    obtain ⟨⟨ok,y⟩,hy,rfl⟩ := Option.map_eq_some_iff.mp he
    exact h.fire hy
  | depart =>
    simp only [step] at he
    split at he
    · next hsome =>
      cases he
      exact ⟨hkeep.inp,depart_out hr hrest hsome hrn hgiven,hkeep.makes⟩
    · cases he
      exact hkeep
  | device u =>
    cases he
    exact ⟨hkeep.inp,hkeep.out,hkeep.makes⟩

theorem run_conserved {es : List (ActorEvent δ)}
    (hr : Runs (step (fun alloc x => c.fire mp ofFloat d.recorded alloc x)) (fun _ _ => True) s es t)
    (h : Conserved mp ofFloat c es.length s) : Conserved mp ofFloat c 0 t := by
  induction hr with
  | nil => exact h
  | cons _ he _ ih => exact ih (step_conserved he h)

/-- In every run every token that came is taken once and in order or still queued, every token given
is gone or still queued, nothing is left handed out, and what the actor gave and wrote is what it
makes of the tokens taken and the data read. -/
theorem firings_conserve (mp : Msgpuck) (ofFloat : Bytes → UInt32) (d : Device δ) (c : CActor)
    (a b : UInt32) (ha : 1 ≤ a.toNat) (hb : 1 ≤ b.toNat) (x : δ) (es : List (ActorEvent δ))
    (hes : es.length<2^32) (s : ActorRun δ)
    (hr : Runs (step (fun alloc x => c.fire mp ofFloat d.recorded alloc x)) (fun _ _ => True)
      (init a b x) es s) :
    s.arrived.map some=s.taken.map some++s.body.inp.uncommitted ∧
      s.given.map some=s.departed.map some++s.body.out.uncommitted ∧
      s.body.inp.tentativeReadPos=s.body.inp.readPos ∧
      c.Makes mp ofFloat s.taken s.given s.body.device.readings s.body.device.writes := by
  have h := run_conserved hr (init_conserved a b ha hb x hes)
  obtain ⟨q,hq,hpeeked,-,harrived⟩ := h.inp
  obtain ⟨r,hr,-,-,hgiven⟩ := h.out
  refine ⟨?_,?_,?_,h.makes⟩
  · rw [harrived,List.map_append,hq.uncommitted]
  · rw [hgiven,List.map_append,hr.uncommitted]
  · have ht := hq.tentative
    rwa [hpeeked,Nat.add_zero,← hq.stores.read,UInt32.toNat_inj] at ht

/-- A device whose writes succeed as its state says. -/
def switchDevice : Device Bool where
  canRead _ := false
  canWrite _ := true
  read s := (none,s)
  write s _ := (if s then .success else .fail,s)

/-- The text of the second token cannot be allocated at first. -/
def replicaEvents : List (ActorEvent Bool) :=
  [.arrive [7],.arrive [9],.fire true,.fire false,.depart,.fire true]

theorem firings_conserve_replica :
    ∃ s, Runs (step fun alloc x => CActor.fire msgpack (fun _ => 0) switchDevice.recorded alloc x
        (.replicaIdentity 3)) (fun _ _ => True) (init 4 4 true) replicaEvents s ∧
      s.given=[0xa3::ascii "3:7",0xa3::ascii "3:9"] ∧ s.departed=[0xa3::ascii "3:7"] ∧
      (CActor.replicaIdentity 3).Makes msgpack (fun _ => 0) s.taken s.given
        s.body.device.readings s.body.device.writes := by
  have hrun : (runChecked (step fun alloc x => CActor.fire msgpack (fun _ => 0)
      switchDevice.recorded alloc x (.replicaIdentity 3)) (fun _ _ => True) replicaEvents
      (init 4 4 true)).any (fun s => decide (s.given=[0xa3::ascii "3:7",0xa3::ascii "3:9"] ∧
        s.departed=[0xa3::ascii "3:7"]))=true := rfl
  obtain ⟨s,hs,hend⟩ := exists_of_any hrun
  obtain ⟨hgiven,hdeparted⟩ := of_decide_eq_true hend
  have hr := Runs.of_runChecked hs
  exact ⟨s,hr,hgiven,hdeparted,(firings_conserve msgpack (fun _ => 0) switchDevice
    (.replicaIdentity 3) 4 4 (by decide) (by decide) true replicaEvents (by decide) s hr).2.2.2⟩

/-- The in-port of a camera: its read position counts the triggers that succeeded and the tokens that
it handed out are those whose trigger failed. -/
structure Camera (n m : Nat) (s : ActorRun δ) : Prop where
  inp : ∃ q : TentativeQueue Bytes, s.body.inp.Refines q ∧ q.cap+1=m ∧ q.total+n<2^32 ∧
    q.released=s.body.device.writes.length ∧ q.peeked=s.body.device.failures ∧
      q.total=s.arrived.length
  out : ∃ r : TentativeQueue Bytes, s.body.out.Refines r ∧ r.peeked=0 ∧ r.total+n<2^32 ∧
    s.given=s.departed++r.items
  pictures : List.Sublist s.given s.body.device.readings

theorem init_camera (a b : UInt32) (ha : 1 ≤ a.toNat) (hb : 1 ≤ b.toNat) (x : δ) (hn : n<2^32) :
    Camera n a.toNat (init a b x) where
  inp := ⟨_,Fifo.init_refines a ha,Nat.sub_add_cancel ha,
    by simpa [TentativeQueue.total,TentativeQueue.empty] using hn,rfl,rfl,rfl⟩
  out := ⟨_,Fifo.init_refines b hb,rfl,by simpa [TentativeQueue.total,TentativeQueue.empty] using hn,
    rfl⟩
  pictures := List.Sublist.slnil

/-- The run of a camera. -/
def cameraStep (d : Device δ) : ActorEvent δ → ActorRun δ → Option (ActorRun δ) :=
  step fun _ x => x.cameraFire d.recorded

theorem Camera.fire {m : Nat} {y : ActorBody (Recorded δ)} {ok : Bool} (h : Camera (n+1) m s)
    (hf : s.body.cameraFire d.recorded=some (ok,y)) : Camera n m (s.after y) := by
  obtain ⟨q,hq,hcap,hqn,hreleased,hpeeked,htotal⟩ := h.inp
  obtain ⟨r,hr,hrest,hrn,hgiven⟩ := h.out
  rcases ActorBody.cameraFire_cases hf with ⟨hsome,hout,hread,htrigger⟩ |
    ⟨hinp,hfail,hwrite,given,readings,hout,hsub,hread⟩
  · obtain ⟨hsame,hafter⟩ := given_after hr hrn hgiven hrest (.inl ⟨rfl,hout⟩)
    have hlt : q.peeked<q.items.length := by
      rw [hq.peekable] at hsome
      exact of_decide_eq_true hsome
    have hpeek := (hq.peek hlt).2
    have hcap' : q.peek.2.cap=q.cap := by simp [TentativeQueue.peek,hlt]
    have hrel' : q.peek.2.released=q.released := by simp [TentativeQueue.peek,hlt]
    have hone : q.peek.2.peeked=q.peeked+1 := by simp [TentativeQueue.peek,hlt]
    have hpictures : List.Sublist (s.after y).given y.device.readings := by
      rw [hsame,List.append_nil,hread]
      exact h.pictures
    refine ⟨?_,hafter,hpictures⟩
    rcases htrigger with ⟨hinp,hfail,hwrite⟩ | ⟨hinp,hfail,hwrite⟩
    · have hcommit := hpeek.commitRead false
      rw [← hinp] at hcommit
      refine ⟨q.peek.2.commit,hcommit,?_,?_,?_,?_,?_⟩
      · rw [← hcap,← hcap']
        simp [TentativeQueue.commit,hone]
      · rw [q.peek.2.total_commit,q.total_peek]
        omega
      · rw [show (s.after y).body.device=y.device from rfl,hwrite,← hreleased,← hrel']
        simp [TentativeQueue.commit,hone]
      · rw [show (s.after y).body.device=y.device from rfl,hfail,← hpeeked]
        simp [TentativeQueue.commit,hone]
      · rw [q.peek.2.total_commit,q.total_peek]
        exact htotal
    · rw [← hinp] at hpeek
      refine ⟨q.peek.2,hpeek,by rw [hcap',hcap],?_,?_,?_,?_⟩
      · rw [q.total_peek]
        omega
      · rw [hrel',hreleased]
        exact hwrite.symm
      · rw [hone,hpeeked]
        exact hfail.symm
      · rw [q.total_peek]
        exact htotal
  · obtain ⟨hmore,hafter⟩ := given_after hr hrn hgiven hrest hout
    refine ⟨⟨q,by rw [← hinp] at hq; exact hq,hcap,by omega,hreleased.trans hwrite.symm,
      hpeeked.trans hfail.symm,htotal⟩,hafter,?_⟩
    rw [hmore,show (s.after y).body.device=y.device from rfl,hread]
    exact h.pictures.append hsub

theorem cameraStep_camera {m : Nat} {e : ActorEvent δ} (he : cameraStep d e s=some t)
    (h : Camera (n+1) m s) : Camera n m t := by
  obtain ⟨q,hq,hcap,hqn,hreleased,hpeeked,htotal⟩ := h.inp
  obtain ⟨r,hr,hrest,hrn,hgiven⟩ := h.out
  have hkeep : Camera n m s :=
    ⟨⟨q,hq,hcap,by omega,hreleased,hpeeked,htotal⟩,⟨r,hr,hrest,by omega,hgiven⟩,h.pictures⟩
  cases e with
  | arrive data =>
    cases he
    refine ⟨?_,hkeep.out,hkeep.pictures⟩
    cases hroom : s.body.inp.slotsAvailable 1 with
    | true =>
      obtain ⟨w,hw,hzero,hitems,hrel,-,-⟩ := hq.put hroom (by omega) data
      have hwcap : w.cap+1=m := by
        rw [hw.cap,← hcap,hq.cap]
        simp [Fifo.write,hroom,Fifo.setSlot]
      have hlen : w.total=q.total+1 := by
        rw [TentativeQueue.total,hitems,hrel,List.length_append,TentativeQueue.total,Nat.add_assoc]
        rfl
      refine ⟨w,hw,hwcap,by omega,hrel.trans hreleased,hzero.trans hpeeked,?_⟩
      simp only [Fifo.write_success hroom,if_true]
      rw [hlen,htotal,List.length_append]
      rfl
    | false =>
      have hsame : s.body.inp.write data=(.fail,s.body.inp) := by simp [Fifo.write,hroom]
      simp only [hsame,reduceCtorEq,if_false]
      exact hkeep.inp
  | fire alloc =>
    obtain ⟨⟨ok,y⟩,hy,rfl⟩ := Option.map_eq_some_iff.mp he
    exact h.fire hy
  | depart =>
    simp only [cameraStep,step] at he
    split at he
    · next hsome =>
      cases he
      exact ⟨hkeep.inp,depart_out hr hrest hsome hrn hgiven,hkeep.pictures⟩
    · cases he
      exact hkeep
  | device u =>
    cases he
    exact ⟨hkeep.inp,hkeep.out,hkeep.pictures⟩

theorem run_camera {m : Nat} {es : List (ActorEvent δ)}
    (hr : Runs (cameraStep d) (fun _ _ => True) s es t) (h : Camera es.length m s) :
    Camera 0 m t := by
  induction hr with
  | nil => exact h
  | cons _ he _ ih => exact ih (cameraStep_camera he h)

/-- A camera never gives back a token whose trigger failed: in every run the tokens that it can still
take are those that came less all triggers, and the slots of its in-port fill with those that came
less the triggers that succeeded. A picture leaves once and in order, or not at all. -/
theorem camera_failures_fill (d : Device δ) (a b : UInt32) (ha : 1 ≤ a.toNat) (hb : 1 ≤ b.toNat)
    (x : δ) (es : List (ActorEvent δ)) (hes : es.length<2^32) (s : ActorRun δ)
    (hr : Runs (cameraStep d) (fun _ _ => True) (init a b x) es s) :
    s.body.device.writes.length+s.body.device.failures ≤ s.arrived.length ∧
      (s.body.inp.tokensAvailable 1=true ↔
        s.body.device.writes.length+s.body.device.failures<s.arrived.length) ∧
      (s.body.inp.slotsAvailable 1=true ↔
        s.arrived.length+1<s.body.device.writes.length+a.toNat) ∧
      s.given.map some=s.departed.map some++s.body.out.uncommitted ∧
      List.Sublist s.given s.body.device.readings := by
  have h := run_camera hr (init_camera a b ha hb x hes)
  obtain ⟨q,hq,hcap,-,hreleased,hpeeked,htotal⟩ := h.inp
  obtain ⟨r,hr,-,-,hgiven⟩ := h.out
  have hle := q.peeked_le
  rw [TentativeQueue.total] at htotal
  refine ⟨by omega,?_,?_,by rw [hgiven,List.map_append,hr.uncommitted],h.pictures⟩
  · rw [hq.peekable,decide_eq_true_eq]
    omega
  · rw [hq.hasRoom]
    omega

/-- The first of two triggers fails, and its token stays in the in-port of two slots. -/
theorem camera_failures_fill_once :
    ∃ s, Runs (cameraStep switchDevice) (fun _ _ => True) (init 3 2 false)
        [.arrive [7],.fire true,.arrive [8],.device true,.fire true,.arrive [9]] s ∧
      s.body.device.writes.length=1 ∧ s.body.device.failures=1 ∧ s.arrived=[[7],[8],[9]] ∧
      s.body.inp.slotsAvailable 1=false := by
  have hrun : (runChecked (cameraStep switchDevice) (fun _ _ => True)
      [.arrive [7],.fire true,.arrive [8],.device true,.fire true,.arrive [9]]
      (init 3 2 false)).any (fun s => decide (s.body.device.writes.length=1 ∧
        s.body.device.failures=1 ∧ s.arrived=[[7],[8],[9]]))=true := rfl
  obtain ⟨s,hs,hend⟩ := exists_of_any hrun
  obtain ⟨hwrites,hfailures,harrived⟩ := of_decide_eq_true hend
  have hr := Runs.of_runChecked hs
  have hslots := (camera_failures_fill switchDevice 3 2 (by decide) (by decide) false _ (by decide)
    s hr).2.2.1
  rw [hwrites,harrived] at hslots
  exact ⟨s,hr,hwrites,hfailures,harrived,by rw [← Bool.not_eq_true,hslots]; decide⟩

end ActorRun

end CalvinConstrained
