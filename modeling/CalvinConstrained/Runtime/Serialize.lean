import CalvinConstrained.Runtime.Port

namespace CalvinConstrained

/-- An encoding in the making. A map or an array carries the size its header declares,
next to what is written under it; `raw` is an encoded value. -/
inductive Doc
  | raw (bytes : Bytes)
  | map (size : Nat) (entries : List (Bytes × Doc))
  | array (size : Nat) (items : List Doc)

namespace Doc

mutual

def encode (mp : Msgpuck) : Doc → Bytes
  | .raw bytes => bytes
  | .map size entries => mp.encodeMap size++encodeEntries mp entries
  | .array size items => mp.encodeArray size++encodeItems mp items

def encodeEntries (mp : Msgpuck) : List (Bytes × Doc) → Bytes
  | [] => []
  | (key,value)::entries => mp.encodeStr key++encode mp value++encodeEntries mp entries

def encodeItems (mp : Msgpuck) : List Doc → Bytes
  | [] => []
  | item::items => encode mp item++encodeItems mp items

end

mutual

/-- No map contains a key twice. -/
def KeysUnique : Doc → Prop
  | .raw _ => True
  | .map _ entries => (entries.map Prod.fst).Nodup ∧ EntriesUnique entries
  | .array _ items => ItemsUnique items

def EntriesUnique : List (Bytes × Doc) → Prop
  | [] => True
  | (_,value)::entries => KeysUnique value ∧ EntriesUnique entries

def ItemsUnique : List Doc → Prop
  | [] => True
  | item::items => KeysUnique item ∧ ItemsUnique items

end

end Doc

namespace Atom

variable (mp : Msgpuck)

/-- The two allocations of `cc_list_add_n`. -/
def listAddN (id : Bytes) (data : Option Bytes) (attributes : List Attribute) :
    Atom (Option (List Attribute)) := do
  if !(← allocN 2) then return none
  return some (attributes++[⟨id,data⟩])

/-- An attribute encoded into a buffer of its own, which is allocated first. -/
def addEncoded (id value : Bytes) (attributes : List Attribute) :
    Atom (Option (List Attribute)) := do
  if !(← allocN 3) then return none
  return some (attributes++[⟨id,some value⟩])

/-- Attributes encoded one after the other; the first failure ends the list. -/
def addAllEncoded (attributes : List Attribute) :
    List (Bytes × Bytes) → Atom (Option (List Attribute))
  | [] => return some attributes
  | (id,value)::rest => do
      match ← addEncoded id value attributes with
      | none => return none
      | some attributes => addAllEncoded attributes rest

/-- The attributes a type encodes from its state, in order. -/
def encodedAttributes : InstanceState → List (Bytes × Bytes)
  | .button button _ => [(ascii "button",mp.encodeStr button)]
  | .light light => [(ascii "light",mp.encodeStr light)]
  | .log _ => []
  | .camera _ => []
  | .identity dump => [(ascii "dump",mp.encodeBool dump),(ascii "last",mp.encodeNil)]
  | .replicaIdentity dump index =>
      [(ascii "dump",mp.encodeBool dump),(ascii "index",mp.encodeUint index)]
  | .counttimer timer sleep start steps count _ =>
      [(ascii "timer",mp.encodeStr timer),(ascii "sleep",mp.encodeUint sleep),
        (ascii "start",mp.encodeUint start),(ascii "steps",mp.encodeUint steps),
        (ascii "count",mp.encodeUint count)]
  | .temperature temperature timer _ =>
      [(ascii "timer",mp.encodeStr timer),(ascii "temperature",mp.encodeStr temperature)]
  | .temperatureTagged temperature timer =>
      [(ascii "timer",mp.encodeStr timer),(ascii "temperature",mp.encodeStr temperature)]
  | .triggeredTemperature temperature => [(ascii "temperature",mp.encodeStr temperature)]
  | .soilMoisture soilmoisture timer =>
      [(ascii "timer",mp.encodeStr timer),(ascii "soilmoisture",mp.encodeStr soilmoisture)]
  | .coap source requires => [((requires.dropWhile (· ≠ 46)).drop 1,mp.encodeStr source)]
  | .gyroscope level _ => [(ascii "level",mp.encodeStr level)]
  | .accelerometer level _ => [(ascii "level",mp.encodeStr level)]
  | .registryAttribute registry => [(ascii "registry",mp.encodeStr registry)]
  | .mpy attributes => attributes.map fun a => (a.id,a.data.getD mp.encodeNil)

/-- The attribute a type hands over together with its buffer, and the state without it. -/
def handedOver : InstanceState → Option (Bytes × Option Bytes × InstanceState)
  | .button button text => some (ascii "text",text,.button button none)
  | .log loglevel => some (ascii "loglevel",loglevel,.log none)
  | .temperature temperature timer period =>
      some (ascii "period",period,.temperature temperature timer none)
  | .gyroscope level period => some (ascii "period",period,.gyroscope level none)
  | .accelerometer level period => some (ascii "period",period,.accelerometer level none)
  | _ => none

/-- The `get_managed_attributes` callbacks of the actor types. A CoAP source needs a
point in the name of its capability. -/
def getManagedAttributes (a : Ref) : Atom (Option (List Attribute)) := do
  let x ← actor a
  if !x.loaded then return some []
  match x.instanceState with
  | none => undefined
  | some (.coap source requires) =>
    if requires.contains 46 then
      addAllEncoded [] (encodedAttributes mp (.coap source requires))
    else return none
  | some state =>
    match ← addAllEncoded [] (encodedAttributes mp state) with
    | none => return none
    | some attributes =>
      match handedOver state with
      | none => return some attributes
      | some (id,data,rest) =>
        match ← listAddN id data attributes with
        | none => return none
        | some attributes =>
          setActor a {x with instanceState := some rest}
          return some attributes

/-- What `cc_calvinsys_get_attributes` writes for one object. Three pairs are declared, also
where the serialize callback writes nothing. -/
def calvinsysObject (o : CalvinsysObject) : Bytes × Doc :=
  let name := (ascii "name",Doc.raw (mp.encodeStr o.capability))
  let obj := match o.serialized with
    | some (some bytes) => if bytes=[] then [] else [(ascii "obj",Doc.raw bytes)]
    | _ => [(ascii "obj",Doc.map 0 [])]
  (o.id,.map 3 (name::obj++[(ascii "args",.map 0 [])]))

/-- `cc_calvinsys_get_attributes`, which adds to the actor's own attribute list. -/
def calvinsysGetAttributes (a : Ref) : Atom Result := do
  let objects := (← get).host.objects.filter fun o => o.actor=a
  if !(← alloc) then return .fail
  let data := Doc.map objects.length (objects.map (calvinsysObject mp))
  let x ← actor a
  match ← listAddN (ascii "_calvinsys") (some (data.encode mp)) x.privateAttributes with
  | none => return .fail
  | some attributes =>
    setActor a {x with privateAttributes := attributes}
    return .success

/-- `cc_port_serialize_prev_connections`. -/
def portSerializePrevConnections (x : Port) : Bytes × Doc :=
  let peerId := if x.peerId.length=0 then mp.encodeNil else mp.encodeStr x.peerId
  (x.id,.array 1 [.array 2 [.raw peerId,.raw (mp.encodeStr x.peerPortId)]])

/-- `cc_token_encode` without the key `token`. -/
def tokenDoc (token : Option Bytes) : Doc :=
  .map 2 [(ascii "type",.raw (mp.encodeStr (ascii "Token"))),
    (ascii "data",.raw (token.getD mp.encodeNil))]

/-- `cc_port_serialize_port`; an in-port is written with its tentative read position as
read position. -/
def portSerializePort (x : Port) (f : Fifo Bytes) (includeState : Bool) : Bytes × Doc :=
  let reader := match x.direction with
    | .dirIn => x.id
    | .dirOut => x.peerPortId
  let readPos := match x.direction with
    | .dirIn => f.tentativeReadPos
    | .dirOut => f.readPos
  let direction := match x.direction with
    | .dirIn => ascii "in"
    | .dirOut => ascii "out"
  let queue := Doc.map 7 [
    (ascii "queuetype",.raw (mp.encodeStr (ascii "fanout_fifo"))),
    (ascii "write_pos",.raw (mp.encodeUint f.writePos)),
    (ascii "readers",.array 1 [.raw (mp.encodeStr reader)]),
    (ascii "N",.raw (mp.encodeUint f.size)),
    (ascii "tentative_read_pos",.map 1 [(reader,.raw (mp.encodeUint f.tentativeReadPos))]),
    (ascii "read_pos",.map 1 [(reader,.raw (mp.encodeUint readPos))]),
    (ascii "fifo",.array f.size.toNat (f.tokens.map (tokenDoc mp)))]
  let properties := Doc.map 3 [
    (ascii "nbr_peers",.raw (mp.encodeUint 1)),
    (ascii "direction",.raw (mp.encodeStr direction)),
    (ascii "routing",.raw (mp.encodeStr (ascii "default")))]
  let state := if includeState then
      [(ascii "constrained_state",Doc.raw (mp.encodeUint x.state.toUInt32))]
    else []
  (x.name,.map (4+state.length) (state++[
    (ascii "id",.raw (mp.encodeStr x.id)),
    (ascii "name",.raw (mp.encodeStr x.name)),
    (ascii "queue",queue),
    (ascii "properties",properties)]))

/-- The ports of a list with their queues. -/
def readPorts : List Ref → Atom (List (Port × Fifo Bytes))
  | [] => return []
  | p::ps => do
      let x ← port p
      match x.fifo with
      | none => undefined
      | some f => return (x,f)::(← readPorts ps)

def attributeEntry (item : Attribute) : Bytes × Doc :=
  (item.id,.raw (item.data.getD mp.encodeNil))

/-- `cc_actor_serialize`; the document is what follows the key `state`. -/
def actorSerialize (a : Ref) (includeState : Bool) : Atom (Option Doc) := do
  if (← actor a).privateAttributes=[] then
    return none
  match ← getManagedAttributes mp a with
  | none => return none
  | some managed =>
    if (← calvinsysGetAttributes mp a) ≠ .success then
      return none
    let x ← actor a
    let inPorts ← readPorts x.inPorts
    let outPorts ← readPorts x.outPorts
    let prev := fun (ports : List (Port × Fifo Bytes)) =>
      Doc.map ports.length (ports.map fun (x,_) => portSerializePrevConnections mp x)
    let ports := fun (ports : List (Port × Fifo Bytes)) =>
      Doc.map ports.length (ports.map fun (x,f) => portSerializePort mp x f includeState)
    let state := if includeState then
        [(ascii "constrained_state",Doc.raw (mp.encodeUint x.state.toUInt32))]
      else []
    return some (.map (3+state.length) (state++[
      (ascii "actor_type",.raw (mp.encodeStr x.type)),
      (ascii "prev_connections",.map 2 [
        (ascii "inports",prev inPorts),
        (ascii "outports",prev outPorts)]),
      (ascii "actor_state",.map 4 [
        (ascii "security",.map 1 [(ascii "_subject_attributes",.raw mp.encodeNil)]),
        (ascii "custom",.map 0 []),
        (ascii "managed",.map managed.length (managed.map (attributeEntry mp))),
        (ascii "private",.map (x.privateAttributes.length+2)
          (x.privateAttributes.map (attributeEntry mp)++[
            (ascii "inports",ports inPorts),
            (ascii "outports",ports outPorts)]))])]))

end Atom

end CalvinConstrained
