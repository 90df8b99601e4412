import CalvinConstrained.Runtime.ActorDoc
import CalvinConstrained.Runtime.EncodedSize
import CalvinConstrained.Runtime.Message
import CalvinConstrained.Runtime.Ownership

namespace CalvinConstrained

namespace Size

theorem text_of_lt {n : Nat} (h : n<32) : text n=n+1 := by simp [text,h]

theorem header_of_lt {n : Nat} (h : n<16) : header n=1 := by simp [header,h]

/-- A value kept in encoded form; a missing one is written as nil. -/
def stored (data : Option Bytes) : Nat := data.elim 1 List.length

theorem length_stored {mp : Msgpuck} (hmp : mp.Sized) (data : Option Bytes) :
    (data.getD mp.encodeNil).length=stored data := by
  cases data with
  | none => exact hmp.length_nil
  | some b => rfl

def optionalText (b : Option Bytes) : Nat := b.elim 1 fun b => text b.length

/-- An attribute with its key. -/
def ofAttribute (i : Attribute) : Nat := text i.id.length+stored i.data

/-- A port in the previous connections. -/
def ofPeer (x : Port) : Nat :=
  2+text x.id.length+text x.peerId.length+text x.peerPortId.length

/-- A port with its queue: its name twice, its id, its positions, three times the id of its reader,
and 17 bytes around every token. -/
def ofPort (includeState : Bool) (x : Port) (f : Fifo Bytes) : Nat :=
  2*text x.name.length+text x.id.length+number f.writePos+number f.size+
    number f.tentativeReadPos+header f.size.toNat+(f.tokens.map fun d => 17+stored d).sum+
    (match x.direction with
      | .dirIn => 146+number f.tentativeReadPos+3*text x.id.length
      | .dirOut => 147+number f.readPos+3*text x.peerPortId.length)+
    if includeState then 18+number x.state.toUInt32 else 0

end Size

namespace Encode

variable {mp : Msgpuck} (hmp : mp.Sized)

include hmp

theorem size_text (b : Bytes) : (text mp b).size=Size.text b.length := by
  rw [text,Doc.size_raw,hmp.length_str]

theorem size_uint (x : UInt32) : (uint mp x).size=Size.number x := by
  rw [uint,Doc.size_raw,hmp.length_uint]

theorem size_textOrNil (b : Option Bytes) : (textOrNil mp b).size=Size.optionalText b := by
  cases b with
  | none => rw [textOrNil,Option.elim_none,nil,Doc.size_raw,hmp.length_nil,Size.optionalText,
      Option.elim_none]
  | some b => exact size_text hmp b

theorem size_tokenDoc (data : Option Bytes) :
    (Atom.tokenDoc mp data).size=17+Size.stored data := by
  simp [Atom.tokenDoc,hmp.length_str,Size.length_stored hmp,Size.text_of_lt,Size.header_of_lt,
    ascii]
  omega

/-- A message in a tunnel has 57 bytes around its ids and its value. -/
theorem size_tunnelData (peerId nodeId tunnelId : Bytes) (value : Doc) :
    (tunnelData mp (toFrom mp peerId nodeId) tunnelId value).size=
      57+Size.text peerId.length+Size.text nodeId.length+Size.text tunnelId.length+value.size := by
  simp [tunnelData,toFrom,kvStr,size_text hmp,Size.text_of_lt,Size.header_of_lt,ascii]
  omega

theorem size_portSerializePrevConnections (x : Port) :
    Size.text (Atom.portSerializePrevConnections mp x).1.length+
      (Atom.portSerializePrevConnections mp x).2.size=Size.ofPeer x := by
  have hpeer : (if x.peerId.length=0 then mp.encodeNil else mp.encodeStr x.peerId).length=
      Size.text x.peerId.length := by
    split
    · next h =>
      rw [h,hmp.length_nil]
      rfl
    · exact hmp.length_str _
  simp only [Atom.portSerializePrevConnections,Doc.size_array,Doc.sizeItems_cons,Doc.sizeItems_nil,
    Doc.size_raw,hpeer,hmp.length_str,Size.ofPeer,Size.header_of_lt (n := 1) (by decide),
    Size.header_of_lt (n := 2) (by decide)]
  omega

theorem size_queue (reader : Bytes) (readPos : UInt32) (f : Fifo Bytes) :
    (Doc.map 7 [
      (ascii "queuetype",.raw (mp.encodeStr (ascii "fanout_fifo"))),
      (ascii "write_pos",.raw (mp.encodeUint f.writePos)),
      (ascii "readers",.array 1 [.raw (mp.encodeStr reader)]),
      (ascii "N",.raw (mp.encodeUint f.size)),
      (ascii "tentative_read_pos",.map 1 [(reader,.raw (mp.encodeUint f.tentativeReadPos))]),
      (ascii "read_pos",.map 1 [(reader,.raw (mp.encodeUint readPos))]),
      (ascii "fifo",.array f.size.toNat (f.tokens.map (Atom.tokenDoc mp)))]).size=
      79+Size.number f.writePos+Size.number f.size+Size.number f.tentativeReadPos+
        Size.number readPos+3*Size.text reader.length+Size.header f.size.toNat+
        (f.tokens.map fun d => 17+Size.stored d).sum := by
  have htokens : Doc.sizeItems (f.tokens.map (Atom.tokenDoc mp))=
      (f.tokens.map fun d => 17+Size.stored d).sum := by
    rw [Doc.sizeItems_map]
    exact congrArg List.sum (List.map_congr_left fun d _ => size_tokenDoc hmp d)
  simp [htokens,hmp.length_str,hmp.length_uint,Size.text_of_lt,Size.header_of_lt,ascii]
  omega

theorem size_properties (direction : Bytes) :
    (Doc.map 3 [
      (ascii "nbr_peers",.raw (mp.encodeUint 1)),
      (ascii "direction",.raw (mp.encodeStr direction)),
      (ascii "routing",.raw (mp.encodeStr (ascii "default")))]).size=
      38+Size.text direction.length := by
  have hone : Size.number 1=1 := by decide
  simp [hmp.length_str,hmp.length_uint,hone,Size.text_of_lt,Size.header_of_lt,ascii]
  omega

theorem size_portSerializePort (includeState : Bool) (x : Port) (f : Fifo Bytes) :
    Size.text (Atom.portSerializePort mp x f includeState).1.length+
      (Atom.portSerializePort mp x f includeState).2.size=Size.ofPort includeState x f := by
  have hid : Size.text (ascii "id").length=3 := by decide
  have hname : Size.text (ascii "name").length=5 := by decide
  have hqueue : Size.text (ascii "queue").length=6 := by decide
  have hproperties : Size.text (ascii "properties").length=11 := by decide
  have hstate : Size.text (ascii "constrained_state").length=18 := by decide
  have hin : Size.text (ascii "in").length=3 := by decide
  have hout : Size.text (ascii "out").length=4 := by decide
  cases includeState <;> cases hd : x.direction
  all_goals
    simp only [Atom.portSerializePort,Size.ofPort,hd]
    rw [Doc.size_map]
    simp only [Doc.sizeEntries_append,Doc.sizeEntries_cons,Doc.sizeEntries_nil,size_queue hmp,
      size_properties hmp,Doc.size_raw,hmp.length_str,hid,hname,hqueue,hproperties,hin,hout]
    simp [Size.header_of_lt,hstate,hmp.length_uint]
    omega

end Encode

namespace Size

/-- A calvinsys object. A serialize callback that returns its buffer unchanged writes nothing. -/
def ofObject (o : CalvinsysObject) : Nat :=
  12+text o.id.length+text o.capability.length+
    match o.serialized with
    | some (some []) => 0
    | serialized => 4+stored serialized.join

/-- The ports of one direction, in the previous connections and in the private state. -/
def ofPorts (includeState : Bool) (ports : List (Port × Fifo Bytes)) : Nat :=
  2*header ports.length+(ports.map fun r => ofPeer r.1+ofPort includeState r.1 r.2).sum

/-- An actor of a node with everything it keeps. -/
def ofActor (mp : Msgpuck) (includeState : Bool) (s : Node) (a : Ref) (x : Actor) : Nat :=
  let objects := s.host.objects.filter fun o => o.actor=a
  143+text x.type.length+
    header (x.managed mp).length+((x.managed mp).map ofAttribute).sum+
    header (x.privateAttributes.length+3)+(x.privateAttributes.map ofAttribute).sum+
    header objects.length+(objects.map ofObject).sum+
    ofPorts includeState (s.queuesOf x.inPorts)+ofPorts includeState (s.queuesOf x.outPorts)+
    if includeState then 18+number x.state.toUInt32 else 0

end Size

namespace Encode

variable {mp : Msgpuck} (hmp : mp.Sized)

include hmp

theorem size_calvinsysObject (o : CalvinsysObject) :
    Size.text (Atom.calvinsysObject mp o).1.length+(Atom.calvinsysObject mp o).2.size=
      Size.ofObject o := by
  rcases hs : o.serialized with _ | _ | _ | ⟨c,bytes⟩
  all_goals
    simp [Atom.calvinsysObject,hs,hmp.length_str,Size.ofObject,Size.stored,Size.text_of_lt,
      Size.header_of_lt,ascii]
    omega

theorem size_calvinsysItem (s : Node) (a : Ref) :
    Size.ofAttribute (s.calvinsysItem mp a)=
      11+Size.header (s.host.objects.filter fun o => o.actor=a).length+
        ((s.host.objects.filter fun o => o.actor=a).map Size.ofObject).sum := by
  have hobjects : ∀ objects : List CalvinsysObject,
      Doc.sizeEntries (objects.map (Atom.calvinsysObject mp))=
        (objects.map Size.ofObject).sum := by
    intro objects
    rw [Doc.sizeEntries_map]
    exact congrArg List.sum (List.map_congr_left fun o _ => size_calvinsysObject hmp o)
  have hkey : Size.text (ascii "_calvinsys").length=11 := by decide
  simp only [Size.ofAttribute,Node.calvinsysItem,Size.stored,Option.elim_some,hkey]
  rw [Doc.length_encode hmp,Node.objectsDoc,Doc.size_map,hobjects]
  omega

theorem size_attributes (attributes : List Attribute) :
    Doc.sizeEntries (attributes.map (Atom.attributeEntry mp))=
      (attributes.map Size.ofAttribute).sum := by
  rw [Doc.sizeEntries_map]
  refine congrArg List.sum (List.map_congr_left fun i _ => ?_)
  rw [Atom.attributeEntry,Doc.size_raw,Size.length_stored hmp,Size.ofAttribute]

theorem size_peers (ports : List (Port × Fifo Bytes)) :
    Doc.sizeEntries (ports.map fun r => Atom.portSerializePrevConnections mp r.1)=
      (ports.map fun r => Size.ofPeer r.1).sum := by
  rw [Doc.sizeEntries_map]
  exact congrArg List.sum (List.map_congr_left fun r _ => size_portSerializePrevConnections hmp r.1)

theorem size_ports (includeState : Bool) (ports : List (Port × Fifo Bytes)) :
    Doc.sizeEntries (ports.map fun r => Atom.portSerializePort mp r.1 r.2 includeState)=
      (ports.map fun r => Size.ofPort includeState r.1 r.2).sum := by
  rw [Doc.sizeEntries_map]
  exact congrArg List.sum
    (List.map_congr_left fun r _ => size_portSerializePort hmp includeState r.1 r.2)

theorem size_stateEntry (includeState : Bool) (x : Actor) :
    Doc.sizeEntries (stateEntry mp includeState x)=
      if includeState then 18+Size.number x.state.toUInt32 else 0 := by
  have hkey : Size.text (ascii "constrained_state").length=18 := by decide
  cases includeState with
  | false => simp [stateEntry]
  | true => simp [stateEntry,hkey,hmp.length_uint]

theorem size_connectionsDoc (inPorts outPorts : List (Port × Fifo Bytes)) :
    (connectionsDoc mp inPorts outPorts).size=
      18+Size.header inPorts.length+(inPorts.map fun r => Size.ofPeer r.1).sum+
        Size.header outPorts.length+(outPorts.map fun r => Size.ofPeer r.1).sum := by
  have hin : Size.text (ascii "inports").length=8 := by decide
  have hout : Size.text (ascii "outports").length=9 := by decide
  have htwo : Size.header 2=1 := by decide
  simp only [connectionsDoc,prevDoc,Doc.size_map,Doc.sizeEntries_cons,Doc.sizeEntries_nil,
    size_peers hmp,hin,hout,htwo]
  omega

theorem size_privateDoc (includeState : Bool) (attributes : List Attribute)
    (inPorts outPorts : List (Port × Fifo Bytes)) :
    (privateDoc mp includeState attributes inPorts outPorts).size=
      17+Size.header (attributes.length+2)+(attributes.map Size.ofAttribute).sum+
        Size.header inPorts.length+(inPorts.map fun r => Size.ofPort includeState r.1 r.2).sum+
        Size.header outPorts.length+
        (outPorts.map fun r => Size.ofPort includeState r.1 r.2).sum := by
  have hin : Size.text (ascii "inports").length=8 := by decide
  have hout : Size.text (ascii "outports").length=9 := by decide
  simp only [privateDoc,portsDoc,Doc.size_map,Doc.sizeEntries_append,Doc.sizeEntries_cons,
    Doc.sizeEntries_nil,size_attributes hmp,size_ports hmp,hin,hout]
  omega

theorem size_actorStateDoc (managed : List Attribute) (privateState : Doc) :
    (actorStateDoc mp managed privateState).size=
      56+Size.header managed.length+(managed.map Size.ofAttribute).sum+privateState.size := by
  have hsecurity : Size.text (ascii "security").length=9 := by decide
  have hsubject : Size.text (ascii "_subject_attributes").length=20 := by decide
  have hcustom : Size.text (ascii "custom").length=7 := by decide
  have hmanaged : Size.text (ascii "managed").length=8 := by decide
  have hprivate : Size.text (ascii "private").length=8 := by decide
  have hfour : Size.header 4=1 := by decide
  have hone : Size.header 1=1 := by decide
  have hzero : Size.header 0=1 := by decide
  simp only [actorStateDoc,Doc.size_map,Doc.sizeEntries_cons,Doc.sizeEntries_nil,Doc.size_raw,
    hmp.length_nil,size_attributes hmp,hsecurity,hsubject,hcustom,hmanaged,hprivate,hfour,hone,
    hzero]
  omega

theorem size_actorDoc (includeState : Bool) (x : Actor) (managed : List Attribute)
    (inPorts outPorts : List (Port × Fifo Bytes)) :
    (actorDoc mp includeState x managed inPorts outPorts).size=
      132+Size.text x.type.length+
        Size.header managed.length+(managed.map Size.ofAttribute).sum+
        Size.header (x.privateAttributes.length+2)+(x.privateAttributes.map Size.ofAttribute).sum+
        Size.ofPorts includeState inPorts+Size.ofPorts includeState outPorts+
        if includeState then 18+Size.number x.state.toUInt32 else 0 := by
  have htype : Size.text (ascii "actor_type").length=11 := by decide
  have hprev : Size.text (ascii "prev_connections").length=17 := by decide
  have hstate : Size.text (ascii "actor_state").length=12 := by decide
  have hheader : Size.header (3+(stateEntry mp includeState x).length)=1 := by
    cases includeState <;> rfl
  simp only [actorDoc,Doc.size_map,Doc.sizeEntries_append,Doc.sizeEntries_cons,Doc.sizeEntries_nil,
    Doc.size_raw,hmp.length_str,size_stateEntry hmp,size_connectionsDoc hmp,size_actorStateDoc hmp,
    size_privateDoc hmp,htype,hprev,hstate,hheader,Size.ofPorts,List.sum_map_add]
  omega

end Encode

namespace Atom

/-- The bytes of a serialized actor, and the node it leaves. -/
theorem actorSerialize_size {mp : Msgpuck} (hmp : mp.Sized) {a : Ref} {includeState : Bool} {s t : Node} {d : Doc}
    (h : actorSerialize mp a includeState s=some (some d,t)) :
    ∃ x, s.actorMem.get a=some x ∧ d.size=Size.ofActor mp includeState s a x ∧
      ∃ n, t=(s.serialized mp a).dropAllocs n := by
  obtain ⟨x,hx,rfl,hnode⟩ := actorSerialize_gives h
  obtain ⟨htype,hstate,-,-,-⟩ := handOver_fixed x
  have hobjects := Encode.size_calvinsysItem hmp s a
  refine ⟨x,hx,?_,hnode⟩
  rw [Encode.size_actorDoc hmp]
  simp only [htype,hstate,List.map_append,List.sum_append,List.map_cons,List.map_nil,List.sum_cons,
    List.sum_nil,hobjects,List.length_append,List.length_cons,List.length_nil,Size.ofActor,
    Nat.add_assoc,Nat.zero_add,Nat.reduceAdd]
  omega

end Atom

namespace Size

def ofLink (s : Node) (l : Ref) : Nat :=
  (s.linkMem.get l).elim 0 fun x => 19+text x.peerId.length

def ofTunnel (s : Node) (t : Ref) : Nat :=
  (s.tunnelMem.get t).elim 0 fun x =>
    23+text x.id.length+number x.state.toUInt32+number x.type.toUInt32+
      (s.linkMem.get x.link).elim 0 fun l => text l.peerId.length

/-- Actors one after the other, each as the ones before it leave it. -/
def ofActors (mp : Msgpuck) : List Ref → Node → Nat
  | [],_ => 0
  | a::as,s => 7+(s.actorMem.get a).elim 0 (ofActor mp true s a)+ofActors mp as (s.serialized mp a)

theorem ofActors_withFate (mp : Msgpuck) (as : List Ref) (s : Node) (fate : Fate) :
    ofActors mp as (s.withFate fate)=ofActors mp as s := by
  induction as generalizing s with
  | nil => rfl
  | cons a as ih =>
    have hnext : (s.withFate fate).serialized mp a=(s.serialized mp a).withFate fate := by
      simp only [Node.serialized,Node.withFate]
      cases s.actorMem.get a <;> rfl
    rw [ofActors,hnext,ih]
    rfl

end Size

namespace Encoder

/-- The encoders with a buffer that was measured by estimate. -/
def estimated : Encoder → Bool
  | .nodeSetup _ => true
  | .token .. => true
  | .actorNew .. => true
  | .nodeSetState .. => true
  | _ => false

/-- The bytes that the data of a node takes in these encodings, by its fields. -/
def needs (mp : Msgpuck) (s : Node) : Encoder → Nat
  | .nodeSetup attributes =>
    (s.proxyTunnel.bind s.tunnelMem.get).elim 0 fun t => (s.linkMem.get t.link).elim 0 fun l =>
      203+Size.text l.peerId.length+Size.text s.host.id.length+Size.text t.id.length+
        Size.optionalText attributes+Size.header s.host.capabilities.length+
        (s.host.capabilities.map fun c => Size.text c.name.length).sum
  | .token p data sequencenbr =>
    (s.portMem.get p).elim 0 fun x => (x.tunnel.bind s.tunnelMem.get).elim 0 fun t =>
      124+Size.text x.peerId.length+Size.text s.host.id.length+Size.text t.id.length+
        Size.number sequencenbr+Size.text x.id.length+Size.text x.peerPortId.length+
        Size.stored data
  | .actorNew a toRtUuid =>
    98+Size.text toRtUuid.length+Size.text s.host.id.length+
      (s.actorMem.get a).elim 0 (Size.ofActor mp false s a)
  | .nodeSetState attributes proxyUris includeState =>
    26+Size.text s.host.id.length+Size.optionalText attributes+Size.header proxyUris.length+
      (proxyUris.map fun uri => Size.text uri.length).sum+
      if includeState then
        27+Size.number s.host.state.toUInt32+
          Size.header s.links.length+(s.links.map (Size.ofLink s)).sum+
          Size.header s.tunnels.length+(s.tunnels.map (Size.ofTunnel s)).sum+
          Size.header s.actors.length+Size.ofActors mp s.actors s
      else 0
  | _ => 0

end Encoder

namespace Encode

variable {mp : Msgpuck} (hmp : mp.Sized)

include hmp

open Atom

omit hmp in
theorem size_msgUuid {s t : Node} {b : Bytes} (h : msgUuid s=some (b,t)) :
    Size.text b.length=44 := by
  obtain ⟨⟨rand,rfl⟩,-⟩ := msgUuid_gives h
  have hlen : (genUuid rand (ascii "MSGID_")).length=42 := by
    rw [genUuid,List.length_append,List.length_map,List.length_range]
    rfl
  rw [hlen]
  rfl

theorem size_token {p : Ref} {data : Option Bytes} {sequencenbr : UInt32} {s t : Node} {d : Doc}
    (h : token mp p data sequencenbr s=some (some d,t)) :
    d.size=(Encoder.token p data sequencenbr).needs mp s := by
  obtain ⟨⟨⟩,u,htransport,h₁⟩ := bind_eq_some.mp h
  obtain ⟨-,-,he⟩ := Option.map_eq_some_iff.mp htransport
  cases he
  obtain ⟨x,u,hread,h₂⟩ := bind_eq_some.mp h₁
  obtain ⟨hx,hu⟩ := port_eq_some hread
  subst hu
  obtain ⟨tunnelId,v,htunnel,h₃⟩ := bind_eq_some.mp h₂
  unfold portTunnelId at htunnel
  cases hr : x.tunnel with
  | none =>
    rw [hr] at htunnel
    cases htunnel
  | some r =>
    rw [hr] at htunnel
    obtain ⟨y,w,hread,hend⟩ := bind_eq_some.mp htunnel
    obtain ⟨hy,hw⟩ := tunnel_eq_some hread
    subst hw
    cases hend
    cases h₃
    have hcmd : Size.text (ascii "cmd").length=4 := by decide
    have htoken : Size.text (ascii "TOKEN").length=6 := by decide
    have hseq : Size.text (ascii "sequencenbr").length=12 := by decide
    have hid : Size.text (ascii "port_id").length=8 := by decide
    have hpeer : Size.text (ascii "peer_port_id").length=13 := by decide
    have hkey : Size.text (ascii "token").length=6 := by decide
    have hfive : Size.header 5=1 := by decide
    rw [size_tunnelData hmp]
    simp only [Doc.size_map,Doc.sizeEntries_cons,Doc.sizeEntries_nil,kvStr,size_text hmp,size_uint hmp,
      tokenEntry,size_tokenDoc hmp,hcmd,htoken,hseq,hid,hpeer,hkey,hfive,Encoder.needs,hx,hr,hy,
      Option.bind_some,Option.elim_some]
    omega

theorem size_actorState {a : Ref} {includeState : Bool} {s t : Node} {d : Doc}
    (h : actorState mp a includeState s=some (d,t)) :
    d.size=(s.actorMem.get a).elim 0 (Size.ofActor mp includeState s a) ∧
      ∃ n, t=(s.serialized mp a).dropAllocs n := by
  obtain ⟨r,u,hserialize,hend⟩ := bind_eq_some.mp h
  cases r with
  | none => cases hend
  | some state =>
    cases hend
    obtain ⟨x,hx,hsize,hnode⟩ := actorSerialize_size hmp hserialize
    rw [hx]
    exact ⟨hsize,hnode⟩

omit hmp in
theorem proxyHeader_gives {s t : Node} {header : Bytes × Bytes} (h : proxyHeader s=some (header,t)) :
    t=s ∧ ∃ r y l, s.proxyTunnel=some r ∧ s.tunnelMem.get r=some y ∧
      s.linkMem.get y.link=some l ∧ header=(l.peerId,y.id) := by
  obtain ⟨s',u,hs,h₁⟩ := bind_eq_some.mp h
  cases hs
  cases hr : s.proxyTunnel with
  | none =>
    rw [hr] at h₁
    cases h₁
  | some r =>
    rw [hr] at h₁
    obtain ⟨y,v,hread,h₂⟩ := bind_eq_some.mp h₁
    obtain ⟨hy,hv⟩ := tunnel_eq_some hread
    subst hv
    obtain ⟨l,w,hread,hend⟩ := bind_eq_some.mp h₂
    obtain ⟨hl,hw⟩ := link_eq_some hread
    subst hw
    cases hend
    exact ⟨rfl,r,y,l,rfl,hy,hl,rfl⟩

theorem size_nodeSetup {attributes : Option Bytes} {s t : Node} {d : Doc}
    (h : nodeSetup mp attributes s=some (some d,t)) :
    d.size=(Encoder.nodeSetup attributes).needs mp s := by
  obtain ⟨b,u,htransport,h₁⟩ := bind_eq_some.mp h
  cases htransport
  split at h₁
  · cases h₁
  obtain ⟨s',u,hget,h₂⟩ := bind_eq_some.mp h₁
  cases hget
  obtain ⟨d',u,hproxy,hend⟩ := bind_eq_some.mp h₂
  cases hend
  obtain ⟨⟨⟩,u,htransport,h₃⟩ := bind_eq_some.mp hproxy
  obtain ⟨-,-,he⟩ := Option.map_eq_some_iff.mp htransport
  cases he
  obtain ⟨uuid,v,huuid,h₄⟩ := bind_eq_some.mp h₃
  have hlength := size_msgUuid huuid
  obtain ⟨-,fate,rfl⟩ := msgUuid_gives huuid
  obtain ⟨header,w,hheader,hend⟩ := bind_eq_some.mp h₄
  obtain ⟨rfl,r,y,l,hr,hy,hl,rfl⟩ := proxyHeader_gives hheader
  cases hend
  have hnames : Doc.sizeItems (s.host.capabilities.map fun c => text mp c.name)=
      (s.host.capabilities.map fun c => Size.text c.name.length).sum := by
    rw [Doc.sizeItems_map]
    exact congrArg List.sum (List.map_congr_left fun c _ => size_text hmp c.name)
  have huid : Size.text (ascii "msg_uuid").length=9 := by decide
  have hcmd : Size.text (ascii "cmd").length=4 := by decide
  have hconfig : Size.text (ascii "CONFIG").length=7 := by decide
  have hattributes : Size.text (ascii "attributes").length=11 := by decide
  have hcapabilities : Size.text (ascii "capabilities").length=13 := by decide
  have hproperty : Size.text (ascii "port_property_capability").length=25 := by decide
  have hruntime : Size.text (ascii "runtime.constrained.1").length=22 := by decide
  have hredeploy : Size.text (ascii "redeploy").length=9 := by decide
  have hfive : Size.header 5=1 := by decide
  have hr' : s.proxyTunnel=some r := hr
  have hy' : s.tunnelMem.get r=some y := hy
  have hl' : s.linkMem.get y.link=some l := hl
  rw [size_tunnelData hmp]
  simp only [Doc.size_map,Doc.size_array,Doc.sizeEntries_cons,Doc.sizeEntries_nil,Doc.size_raw,
    kvStr,size_text hmp,size_textOrNil hmp,bool,hmp.length_bool,hnames,hlength,huid,hcmd,hconfig,
    hattributes,hcapabilities,hproperty,hruntime,hredeploy,hfive,Encoder.needs,hr',hy',hl',
    Option.bind_some,Option.elim_some]
  change 57+Size.text l.peerId.length+Size.text s.host.id.length+_+_=_
  omega

theorem size_actorNew {a : Ref} {toRtUuid : Bytes} {s t : Node} {d : Doc}
    (h : actorNew mp a toRtUuid s=some (some d,t)) :
    d.size=(Encoder.actorNew a toRtUuid).needs mp s := by
  obtain ⟨uuid,u,huuid,h₁⟩ := bind_eq_some.mp h
  have hlength := size_msgUuid huuid
  obtain ⟨-,fate,rfl⟩ := msgUuid_gives huuid
  obtain ⟨⟨⟩,u,htransport,h₂⟩ := bind_eq_some.mp h₁
  obtain ⟨-,-,he⟩ := Option.map_eq_some_iff.mp htransport
  cases he
  obtain ⟨state,v,hstate,hend⟩ := bind_eq_some.mp h₂
  obtain ⟨hsize,n,rfl⟩ := size_actorState hmp hstate
  cases hend
  have hto : Size.text (ascii "to_rt_uuid").length=11 := by decide
  have hfrom : Size.text (ascii "from_rt_uuid").length=13 := by decide
  have hcmd : Size.text (ascii "cmd").length=4 := by decide
  have hactor : Size.text (ascii "ACTOR_NEW").length=10 := by decide
  have huid : Size.text (ascii "msg_uuid").length=9 := by decide
  have hkey : Size.text (ascii "state").length=6 := by decide
  have hfive : Size.header 5=1 := by decide
  have hid : (((s.withFate fate).serialized mp a).dropAllocs n).host.id=s.host.id := by
    cases hx : (s.withFate fate).actorMem.get a <;> simp [Node.serialized,hx] <;> rfl
  have hsame : (s.withFate fate).actorMem=s.actorMem := rfl
  rw [hsame] at hsize
  simp only [Doc.size_map,Doc.sizeEntries_cons,Doc.sizeEntries_nil,kvStr,size_text hmp,hlength,hsize,
    hto,hfrom,hcmd,hactor,huid,hkey,hfive,hid,Encoder.needs]
  have hactorSize : Size.ofActor mp false (s.withFate fate) a=Size.ofActor mp false s a := rfl
  rw [hactorSize]
  omega

theorem size_linkDoc (l : Link) : (linkDoc mp l).size=19+Size.text l.peerId.length := by
  simp [linkDoc,kvStr,size_text hmp,bool,hmp.length_bool,Size.text_of_lt,Size.header_of_lt,ascii]
  omega

theorem size_tunnelDoc (t : Tunnel) (l : Link) :
    (tunnelDoc mp t l).size=23+Size.text t.id.length+Size.number t.state.toUInt32+
      Size.number t.type.toUInt32+Size.text l.peerId.length := by
  simp [tunnelDoc,kvStr,size_text hmp,size_uint hmp,Size.text_of_lt,Size.header_of_lt,ascii]
  omega

theorem size_linkDocs {ls : List Ref} {s t : Node} {docs : List Doc}
    (h : linkDocs mp ls s=some (docs,t)) :
    Doc.sizeItems docs=(ls.map (Size.ofLink s)).sum ∧ t=s := by
  induction ls generalizing docs t with
  | nil =>
    cases h
    exact ⟨rfl,rfl⟩
  | cons l ls ih =>
    obtain ⟨x,u,hread,h₁⟩ := bind_eq_some.mp h
    obtain ⟨hx,hu⟩ := link_eq_some hread
    subst hu
    obtain ⟨rest,v,hrest,hend⟩ := bind_eq_some.mp h₁
    cases hend
    obtain ⟨hsize,hnode⟩ := ih hrest
    have hl : Size.ofLink u l=19+Size.text x.peerId.length := by rw [Size.ofLink,hx]; rfl
    rw [Doc.sizeItems_cons,size_linkDoc hmp,List.map_cons,List.sum_cons,hsize,hl]
    exact ⟨rfl,hnode⟩

theorem size_tunnelDocs {ts : List Ref} {s t : Node} {docs : List Doc}
    (h : tunnelDocs mp ts s=some (docs,t)) :
    Doc.sizeItems docs=(ts.map (Size.ofTunnel s)).sum ∧ t=s := by
  induction ts generalizing docs t with
  | nil =>
    cases h
    exact ⟨rfl,rfl⟩
  | cons r ts ih =>
    obtain ⟨x,u,hread,h₁⟩ := bind_eq_some.mp h
    obtain ⟨hx,hu⟩ := tunnel_eq_some hread
    subst hu
    obtain ⟨l,v,hread,h₂⟩ := bind_eq_some.mp h₁
    obtain ⟨hl,hv⟩ := link_eq_some hread
    subst hv
    obtain ⟨rest,w,hrest,hend⟩ := bind_eq_some.mp h₂
    cases hend
    obtain ⟨hsize,hnode⟩ := ih hrest
    have ht : Size.ofTunnel v r=23+Size.text x.id.length+Size.number x.state.toUInt32+
        Size.number x.type.toUInt32+Size.text l.peerId.length := by
      simp [Size.ofTunnel,hx,hl]
    rw [Doc.sizeItems_cons,size_tunnelDoc hmp,List.map_cons,List.sum_cons,hsize,ht]
    exact ⟨rfl,hnode⟩

theorem size_actorDocs {as : List Ref} {s t : Node} {docs : List Doc}
    (h : actorDocs mp as s=some (docs,t)) :
    Doc.sizeItems docs=Size.ofActors mp as s := by
  induction as generalizing docs s with
  | nil =>
    cases h
    rfl
  | cons a as ih =>
    obtain ⟨state,u,hstate,h₁⟩ := bind_eq_some.mp h
    obtain ⟨hsize,n,hnode⟩ := size_actorState hmp hstate
    obtain ⟨rest,v,hrest,hend⟩ := bind_eq_some.mp h₁
    have hkey : Size.text (ascii "state").length=6 := by decide
    have hone : Size.header 1=1 := by decide
    have hnext : Size.ofActors mp as u=Size.ofActors mp as (s.serialized mp a) := by
      rw [hnode]
      exact Size.ofActors_withFate mp as (s.serialized mp a) _
    cases hend
    rw [Doc.sizeItems_cons,Size.ofActors,ih hrest,hnext]
    simp only [Doc.size_map,Doc.sizeEntries_cons,Doc.sizeEntries_nil,hkey,hone,hsize]
    omega

theorem size_nodeEntries (id : Bytes) (attributes : Option Bytes) (proxyUris : List Bytes) :
    Doc.sizeEntries (nodeEntries mp id attributes proxyUris)=
      25+Size.text id.length+Size.optionalText attributes+Size.header proxyUris.length+
        (proxyUris.map fun uri => Size.text uri.length).sum := by
  have huris : Doc.sizeItems (proxyUris.map (text mp))=
      (proxyUris.map fun uri => Size.text uri.length).sum := by
    rw [Doc.sizeItems_map]
    exact congrArg List.sum (List.map_congr_left fun uri _ => size_text hmp uri)
  have hid : Size.text (ascii "id").length=3 := by decide
  have hattributes : Size.text (ascii "attributes").length=11 := by decide
  have huri : Size.text (ascii "proxy_uris").length=11 := by decide
  simp only [nodeEntries,Doc.sizeEntries_cons,Doc.sizeEntries_nil,kvStr,size_text hmp,size_textOrNil hmp,
    Doc.size_array,huris,hid,hattributes,huri]
  omega

theorem size_nodeSetState {attributes : Option Bytes} {proxyUris : List Bytes}
    {includeState : Bool} {s t : Node} {d : Doc}
    (h : nodeSetState mp attributes proxyUris includeState s=some (some d,t)) :
    d.size=(Encoder.nodeSetState attributes proxyUris includeState).needs mp s := by
  obtain ⟨s',u,hget,h₁⟩ := bind_eq_some.mp h
  cases hget
  obtain ⟨b,u,halloc,h₂⟩ := bind_eq_some.mp h₁
  rw [alloc_eq] at halloc
  obtain ⟨rfl,rfl⟩ := Prod.mk.inj (Option.some.inj halloc)
  split at h₂
  · cases h₂
  have hentries := size_nodeEntries hmp s.host.id attributes proxyUris
  cases includeState with
  | false =>
    have hthree : Size.header 3=1 := by decide
    cases h₂
    rw [Doc.size_map,hentries,hthree]
    simp only [Encoder.needs]
    rw [if_neg Bool.false_ne_true]
    omega
  | true =>
    rw [if_pos rfl] at h₂
    obtain ⟨links,v,hlinks,h₃⟩ := bind_eq_some.mp h₂
    obtain ⟨tunnels,w,htunnels,h₄⟩ := bind_eq_some.mp h₃
    obtain ⟨actors,w',hactors,hend⟩ := bind_eq_some.mp h₄
    obtain ⟨hlinkSize,rfl⟩ := size_linkDocs hmp hlinks
    obtain ⟨htunnelSize,rfl⟩ := size_tunnelDocs hmp htunnels
    have hactorSize : Doc.sizeItems actors=Size.ofActors mp s.actors s :=
      (size_actorDocs hmp hactors).trans (Size.ofActors_withFate mp s.actors s _)
    have hstate : Size.text (ascii "state").length=6 := by decide
    have hlink : Size.text (ascii "links").length=6 := by decide
    have htunnel : Size.text (ascii "tunnels").length=8 := by decide
    have hactor : Size.text (ascii "actors").length=7 := by decide
    have hseven : Size.header 7=1 := by decide
    cases hend
    simp only [Doc.size_map,Doc.size_array,Doc.sizeEntries_append,Doc.sizeEntries_cons,
      Doc.sizeEntries_nil,hentries,hlinkSize,htunnelSize,hactorSize,size_uint hmp,hstate,hlink,htunnel,
      hactor,hseven]
    simp only [Encoder.needs,if_true]
    have hlinkSame : Size.ofLink (s.dropAllocs 1)=Size.ofLink s := rfl
    have htunnelSame : Size.ofTunnel (s.dropAllocs 1)=Size.ofTunnel s := rfl
    rw [hlinkSame,htunnelSame]
    omega

end Encode

namespace Encoder

theorem doc_size {mp : Msgpuck} (hmp : mp.Sized) {ofFloat : Bytes → UInt32} {prefixLen : Nat} {e : Encoder} {s t : Node} {d : Doc}
    (he : e.estimated=true) (h : e.doc mp ofFloat prefixLen s=some (some d,t)) :
    d.size=e.needs mp s := by
  cases e with
  | nodeSetup attributes => exact Encode.size_nodeSetup hmp h
  | token p data sequencenbr => exact Encode.size_token hmp h
  | actorNew a toRtUuid => exact Encode.size_actorNew hmp h
  | nodeSetState attributes proxyUris includeState => exact Encode.size_nodeSetState hmp h
  | _ => simp [estimated] at he

/-- The setup, a token, an actor and the state of a node stay in their buffers exactly when the
data of the node does. -/
theorem estimated_fits_iff {mp : Msgpuck} (hmp : mp.Sized) {ofFloat : Bytes → UInt32}
    {prefixLen : Nat} {e : Encoder} {s t : Node} {d : Doc} (he : e.estimated=true) (h : e.doc mp ofFloat prefixLen s=some (some d,t)) :
    e.prefixOf prefixLen+(d.encode mp).length ≤ e.bufferSize s ↔
      e.prefixOf prefixLen+e.needs mp s ≤ e.bufferSize s := by
  have hsize : (d.encode mp).length=e.needs mp s := by rw [Doc.length_encode hmp,doc_size hmp he h]
  rw [hsize]

section Examples

/-- The `n`-th id a node generates while it joins. -/
def joinedId (n : Nat) (pre : Bytes) : Bytes := genUuid (fun j => [n].getD j 0) pre

/-- The proxy opens the tunnel with the `n`-th id. -/
def tunnelOpened (n : Nat) : Bytes :=
  (Message.obj [("cmd",Message.text "REPLY"),
    ("msg_uuid",.raw (msgpack.encodeStr (joinedId (n+1) (ascii "MSGID_")))),
    ("value",Message.obj [("status",Message.number 200),
      ("data",Message.obj [("tunnel_id",.raw (msgpack.encodeStr (joinedId n [])))])])]).encode
    msgpack

/-- A node that is about to send its setup. -/
def tunnelsOpen : List (Event × Fate) :=
  joining++[(.message (tunnelOpened 1),.fine),(.message (tunnelOpened 3),.fine)]

/-- The setup without attributes. -/
theorem setup_fits :
    ∃ s d t, Runs (Event.step msgpack) (fun _ _ => True) (.init bareHost) tunnelsOpen s ∧
      (nodeSetup none).doc msgpack (fun _ => 0) 4 s=some (some d,t) ∧
      4+(d.encode msgpack).length ≤ 1000 := by
  have hrun : (Event.runAll (Event.step msgpack) tunnelsOpen (.init bareHost)).any (fun s =>
      ((nodeSetup none).doc msgpack (fun _ => 0) 4 s).any fun r => r.1.isSome &&
        decide (4+(nodeSetup none).needs msgpack s ≤ 1000))=true := by decide +kernel
  obtain ⟨s,hs,hdoc⟩ := exists_of_any hrun
  obtain ⟨⟨r,t⟩,hr,hend⟩ := exists_of_any hdoc
  rw [Bool.and_eq_true] at hend
  obtain ⟨d,rfl⟩ := Option.isSome_iff_exists.mp hend.1
  exact ⟨s,d,t,Event.runs_of_step msgpack hs,hr,
    (estimated_fits_iff msgpack_sized rfl hr).mpr (of_decide_eq_true hend.2)⟩

/-- With 1000 bytes of attributes, which the node accepts, the setup runs over its buffer. -/
theorem setup_overflows :
    ∃ s u d t, Runs (Event.step msgpack) (fun _ _ => True) (.init bareHost) tunnelsOpen s ∧
      Event.step msgpack (.connectSetup true,.fine) s=some u ∧ u.host.pendingMsgs ≠ [] ∧
      (nodeSetup (some (List.replicate 1000 97))).doc msgpack (fun _ => 0) 4 s=some (some d,t) ∧
      1000<4+(d.encode msgpack).length := by
  have hrun : (Event.runAll (Event.step msgpack) tunnelsOpen (.init bareHost)).any (fun s =>
      ((Event.step msgpack (.connectSetup true,.fine) s).any fun u =>
        decide (u.host.pendingMsgs ≠ [])) &&
      ((nodeSetup (some (List.replicate 1000 97))).doc msgpack (fun _ => 0) 4 s).any fun r =>
        r.1.any fun d => decide (1000<4+(d.encode msgpack).length))=true := by decide +kernel
  obtain ⟨s,hs,hend⟩ := exists_of_any hrun
  rw [Bool.and_eq_true] at hend
  obtain ⟨u,hu,hpending⟩ := exists_of_any hend.1
  obtain ⟨⟨r,t⟩,hr,hdoc⟩ := exists_of_any hend.2
  obtain ⟨d,rfl,hlength⟩ := exists_of_any hdoc
  exact ⟨s,u,d,t,Event.runs_of_step msgpack hs,hu,of_decide_eq_true hpending,hr,
    of_decide_eq_true hlength⟩

end Examples

end Encoder

end CalvinConstrained
