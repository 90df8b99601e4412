import CalvinConstrained.Runtime.Frame
import CalvinConstrained.Runtime.Payload

namespace CalvinConstrained

/-- The managed attributes that the callbacks of the actor give. -/
def Actor.managed (mp : Msgpuck) (x : Actor) : List Attribute :=
  match x.loaded,x.instanceState with
  | true,some state =>
    Atom.appended [] (Atom.encodedAttributes mp state)++
      (Atom.handedOver state).toList.map fun given => ⟨given.1,given.2.1⟩
  | _,_ => []

namespace Node

def objectsDoc (mp : Msgpuck) (s : Node) (a : Ref) : Doc :=
  let objects := s.host.objects.filter fun o => o.actor=a
  .map objects.length (objects.map (Atom.calvinsysObject mp))

/-- The attribute that `cc_calvinsys_get_attributes` adds. -/
def calvinsysItem (mp : Msgpuck) (s : Node) (a : Ref) : Attribute :=
  ⟨ascii "_calvinsys",some ((s.objectsDoc mp a).encode mp)⟩

/-- What `cc_actor_serialize` makes of the actor. -/
def serialized (mp : Msgpuck) (s : Node) (a : Ref) : Node :=
  match s.actorMem.get a with
  | none => s
  | some x => {s with actorMem := s.actorMem.set a {Atom.handOver x with
      privateAttributes := x.privateAttributes++[s.calvinsysItem mp a]}}

/-- Ports with their queues. -/
def queuesOf (s : Node) (ps : List Ref) : List (Port × Fifo Bytes) :=
  ps.filterMap fun p => (s.portMem.get p).bind fun x => x.fifo.map fun f => (x,f)

end Node

namespace Atom

variable {mp : Msgpuck} {a : Ref} {x : Actor} {s t : Node}

theorem getManagedAttributes_gives {managed : List Attribute} (h : s.actorMem.get a=some x)
    (hm : getManagedAttributes mp a s=some (some managed,t)) :
    managed=x.managed mp ∧
      ∃ n, t={s.dropAllocs n with actorMem := s.actorMem.set a (handOver x)} := by
  have hsame : handOver x=x → s={s.dropAllocs 0 with actorMem := s.actorMem.set a (handOver x)} := by
    intro hx
    rw [hx,Heap.set_self h]
    simp [Node.dropAllocs,Node.withFate]
  cases hl : x.loaded with
  | false =>
    rw [getManagedAttributes_unloaded h hl] at hm
    cases hm
    exact ⟨by simp [Actor.managed,hl],0,hsame (by simp [handOver,hl])⟩
  | true =>
    cases hi : x.instanceState with
    | none =>
      rw [getManagedAttributes_uninitialized h hl hi] at hm
      cases hm
    | some state =>
      by_cases hn : Unnamed x
      · rw [getManagedAttributes_unnamed h hn] at hm
        cases hm
      rw [getManagedAttributes_named h hl hi hn] at hm
      obtain ⟨r,u,henc,hm⟩ := bind_eq_some.mp hm
      have hencoded := addAllEncoded_allocates [] (encodedAttributes mp state) s
      by_cases hf : false ∈ s.host.fate.allocs.take (3*(encodedAttributes mp state).length)
      · obtain ⟨v,hv,-⟩ := hencoded.1 hf
        rw [hv] at henc
        cases henc
        cases hm
      rw [hencoded.2 hf] at henc
      cases henc
      dsimp only at hm
      cases ho : handedOver state with
      | none =>
        rw [ho] at hm
        cases hm
        refine ⟨by simp [Actor.managed,hl,hi,ho],3*(encodedAttributes mp state).length,?_⟩
        have hx : handOver x=x := by simp [handOver,hl,hi,ho]
        rw [hx,Heap.set_self h]
        rfl
      | some given =>
        rw [ho] at hm
        obtain ⟨id,data,rest⟩ := given
        obtain ⟨r,v,hadd,hm⟩ := bind_eq_some.mp hm
        have hadded := listAddN_allocates id data (appended [] (encodedAttributes mp state))
          (s.dropAllocs (3*(encodedAttributes mp state).length))
        by_cases hg : false ∈ (s.dropAllocs
            (3*(encodedAttributes mp state).length)).host.fate.allocs.take 2
        · obtain ⟨w,hw,-⟩ := hadded.1 hg
          rw [hw] at hadd
          cases hadd
          cases hm
        rw [hadded.2 hg,dropAllocs_add] at hadd
        cases hadd
        cases hm
        refine ⟨by simp [Actor.managed,hl,hi,ho],3*(encodedAttributes mp state).length+2,?_⟩
        have hx : handOver x={x with instanceState := some rest} := by simp [handOver,hl,hi,ho]
        rw [hx]
        rfl

theorem calvinsysGetAttributes_gives (h : s.actorMem.get a=some x)
    (hr : calvinsysGetAttributes mp a s=some (.success,t)) :
    t={s.dropAllocs 3 with actorMem := s.actorMem.set a {x with
      privateAttributes := x.privateAttributes++[s.calvinsysItem mp a]}} := by
  obtain ⟨s',u,hs,hr⟩ := bind_eq_some.mp hr
  cases hs
  obtain ⟨b,u,halloc,hr⟩ := bind_eq_some.mp hr
  rw [alloc_eq] at halloc
  obtain ⟨rfl,rfl⟩ := Prod.mk.inj (Option.some.inj halloc)
  split at hr
  · cases hr
  obtain ⟨y,u,hread,hr⟩ := bind_eq_some.mp hr
  obtain ⟨hy,hu⟩ := actor_eq_some hread
  subst hu
  obtain rfl : x=y := Option.some.inj (h.symm.trans hy)
  obtain ⟨r,v,hadd,hr⟩ := bind_eq_some.mp hr
  have hadded := listAddN_allocates (ascii "_calvinsys") (some ((s.objectsDoc mp a).encode mp))
    x.privateAttributes (s.dropAllocs 1)
  by_cases hf : false ∈ (s.dropAllocs 1).host.fate.allocs.take 2
  · obtain ⟨w,hw,-⟩ := hadded.1 hf
    rw [Node.objectsDoc] at hw
    rw [hw] at hadd
    cases hadd
    cases hr
  have hadds := hadded.2 hf
  rw [Node.objectsDoc,dropAllocs_add] at hadds
  rw [hadds] at hadd
  cases hadd
  cases hr
  rfl

theorem readPorts_gives {ps : List Ref} {r : List (Port × Fifo Bytes)}
    (h : readPorts ps s=some (r,t)) : r=s.queuesOf ps ∧ t=s := by
  refine ⟨?_,readPorts_state h⟩
  induction ps generalizing r t with
  | nil =>
    cases h
    rfl
  | cons p ps ih =>
    obtain ⟨x,u,hread,hrun⟩ := bind_eq_some.mp h
    obtain ⟨hx,hu⟩ := port_eq_some hread
    subst hu
    cases hf : x.fifo with
    | none => simp [hf,undefined] at hrun
    | some f =>
      rw [hf] at hrun
      obtain ⟨rest,v,hrest,hend⟩ := bind_eq_some.mp hrun
      cases hend
      rw [ih hrest]
      simp [Node.queuesOf,hx,hf]

end Atom

namespace Encode

variable (mp : Msgpuck)

/-- The state of an actor while the node keeps it. -/
def stateEntry (includeState : Bool) (x : Actor) : List (Bytes × Doc) :=
  if includeState then
    [(ascii "constrained_state",.raw (mp.encodeUint x.state.toUInt32))]
  else []

def prevDoc (ports : List (Port × Fifo Bytes)) : Doc :=
  .map ports.length (ports.map fun r => Atom.portSerializePrevConnections mp r.1)

def portsDoc (includeState : Bool) (ports : List (Port × Fifo Bytes)) : Doc :=
  .map ports.length (ports.map fun r => Atom.portSerializePort mp r.1 r.2 includeState)

def connectionsDoc (inPorts outPorts : List (Port × Fifo Bytes)) : Doc :=
  .map 2 [(ascii "inports",prevDoc mp inPorts),(ascii "outports",prevDoc mp outPorts)]

def privateDoc (includeState : Bool) (attributes : List Attribute)
    (inPorts outPorts : List (Port × Fifo Bytes)) : Doc :=
  .map (attributes.length+2) (attributes.map (Atom.attributeEntry mp)++[
    (ascii "inports",portsDoc mp includeState inPorts),
    (ascii "outports",portsDoc mp includeState outPorts)])

def actorStateDoc (managed : List Attribute) (privateState : Doc) : Doc :=
  .map 4 [
    (ascii "security",.map 1 [(ascii "_subject_attributes",.raw mp.encodeNil)]),
    (ascii "custom",.map 0 []),
    (ascii "managed",.map managed.length (managed.map (Atom.attributeEntry mp))),
    (ascii "private",privateState)]

/-- The document of `cc_actor_serialize` by its parts. -/
def actorDoc (includeState : Bool) (x : Actor) (managed : List Attribute)
    (inPorts outPorts : List (Port × Fifo Bytes)) : Doc :=
  .map (3+(stateEntry mp includeState x).length) (stateEntry mp includeState x++[
    (ascii "actor_type",.raw (mp.encodeStr x.type)),
    (ascii "prev_connections",connectionsDoc mp inPorts outPorts),
    (ascii "actor_state",actorStateDoc mp managed
      (privateDoc mp includeState x.privateAttributes inPorts outPorts))])

end Encode

namespace Atom

theorem handOver_fixed (x : Actor) : (handOver x).type=x.type ∧ (handOver x).state=x.state ∧
    (handOver x).inPorts=x.inPorts ∧ (handOver x).outPorts=x.outPorts ∧
    (handOver x).privateAttributes=x.privateAttributes := by
  unfold handOver
  split
  · split <;> exact ⟨rfl,rfl,rfl,rfl,rfl⟩
  · exact ⟨rfl,rfl,rfl,rfl,rfl⟩

/-- The document of a serialized actor, and the node it leaves. -/
theorem actorSerialize_gives {mp : Msgpuck} {a : Ref} {includeState : Bool} {s t : Node} {d : Doc}
    (h : actorSerialize mp a includeState s=some (some d,t)) :
    ∃ x, s.actorMem.get a=some x ∧
      d=Encode.actorDoc mp includeState {handOver x with
        privateAttributes := x.privateAttributes++[s.calvinsysItem mp a]} (x.managed mp)
        (s.queuesOf x.inPorts) (s.queuesOf x.outPorts) ∧
      ∃ n, t=(s.serialized mp a).dropAllocs n := by
  obtain ⟨x,u,hread,h₁⟩ := bind_eq_some.mp h
  obtain ⟨hx,hu⟩ := actor_eq_some hread
  subst hu
  refine ⟨x,hx,?_⟩
  split at h₁
  · cases h₁
  obtain ⟨managed,v,hmanaged,h₂⟩ := bind_eq_some.mp h₁
  cases managed with
  | none => cases h₂
  | some managed =>
    obtain ⟨rfl,n,rfl⟩ := getManagedAttributes_gives hx hmanaged
    dsimp only at h₂
    obtain ⟨r,w,hcalvinsys,h₃⟩ := bind_eq_some.mp h₂
    split at h₃
    · cases h₃
    next hr =>
    obtain rfl := not_not.mp hr
    have hhand := calvinsysGetAttributes_gives (Heap.get_set_self hx (handOver x)) hcalvinsys
    obtain ⟨y,w',hread,h₄⟩ := bind_eq_some.mp h₃
    obtain ⟨hy,hw⟩ := actor_eq_some hread
    subst hw
    obtain ⟨inPorts,w'',hin,h₅⟩ := bind_eq_some.mp h₄
    obtain ⟨hin,rfl⟩ := readPorts_gives hin
    obtain ⟨outPorts,w'',hout,h₆⟩ := bind_eq_some.mp h₅
    obtain ⟨hout,rfl⟩ := readPorts_gives hout
    have hget : w''.actorMem.get a=some {handOver x with
        privateAttributes := x.privateAttributes++[u.calvinsysItem mp a]} := by
      rw [hhand,← (handOver_fixed x).2.2.2.2]
      exact Heap.get_set_self (Heap.get_set_self hx _) _
    cases hget.symm.trans hy
    obtain ⟨-,-,hinPorts,houtPorts,hprivate⟩ := handOver_fixed x
    have hins : inPorts=u.queuesOf x.inPorts := by
      rw [hin,hhand,← hinPorts]
      rfl
    have houts : outPorts=u.queuesOf x.outPorts := by
      rw [hout,hhand,← houtPorts]
      rfl
    cases h₆
    refine ⟨?_,n+3,?_⟩
    · rw [← hins,← houts]
      rfl
    · rw [hhand,Heap.set_set,hprivate]
      simp only [Node.serialized,hx]
      rw [← dropAllocs_add]
      rfl

end Atom

namespace Encode

open Atom

variable {mp : Msgpuck} {s t : Node}

theorem actorState_gives {a : Ref} {includeState : Bool} {d : Doc}
    (h : actorState mp a includeState s=some (d,t)) :
    actorSerialize mp a includeState s=some (some d,t) := by
  obtain ⟨r,u,hserialize,hend⟩ := bind_eq_some.mp h
  cases r with
  | none => cases hend
  | some state =>
    cases hend
    exact hserialize

theorem msgUuid_gives {b : Bytes} (h : msgUuid s=some (b,t)) :
    (∃ rand, b=genUuid rand (ascii "MSGID_")) ∧ ∃ fate, t=s.withFate fate := by
  change uuid (ascii "MSGID_") s=_ at h
  unfold uuid at h
  split at h
  · cases h
    exact ⟨⟨_,rfl⟩,s.host.fate,rfl⟩
  · cases h
    exact ⟨⟨_,rfl⟩,_,rfl⟩

theorem linkDocs_state {ls : List Ref} {docs : List Doc} (h : linkDocs mp ls s=some (docs,t)) :
    t=s := by
  induction ls generalizing docs t with
  | nil =>
    cases h
    rfl
  | cons l ls ih =>
    obtain ⟨x,u,hread,h₁⟩ := bind_eq_some.mp h
    obtain ⟨-,hu⟩ := link_eq_some hread
    subst hu
    obtain ⟨rest,v,hrest,hend⟩ := bind_eq_some.mp h₁
    cases hend
    exact ih hrest

theorem tunnelDocs_state {ts : List Ref} {docs : List Doc}
    (h : tunnelDocs mp ts s=some (docs,t)) : t=s := by
  induction ts generalizing docs t with
  | nil =>
    cases h
    rfl
  | cons r ts ih =>
    obtain ⟨x,u,hread,h₁⟩ := bind_eq_some.mp h
    obtain ⟨-,hu⟩ := tunnel_eq_some hread
    subst hu
    obtain ⟨l,v,hread,h₂⟩ := bind_eq_some.mp h₁
    obtain ⟨-,hv⟩ := link_eq_some hread
    subst hv
    obtain ⟨rest,w,hrest,hend⟩ := bind_eq_some.mp h₂
    cases hend
    exact ih hrest

end Encode

end CalvinConstrained
