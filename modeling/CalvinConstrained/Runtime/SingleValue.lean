import CalvinConstrained.Framework.Run
import CalvinConstrained.Framework.Stateful
import CalvinConstrained.Runtime.ActorDoc

namespace CalvinConstrained

namespace Encode

variable {mp : Msgpuck} (hmp : mp.Lawful)

section Leaves

include hmp

theorem counted_text (b : Bytes) : (text mp b).Counted mp := by
  rw [text,Doc.counted_raw]
  exact hmp.isStored_str b

theorem counted_uint (x : UInt32) : (uint mp x).Counted mp := by
  rw [uint,Doc.counted_raw]
  exact fun _ => hmp.isValue_uint x

theorem counted_bool (x : Bool) : (bool mp x).Counted mp := by
  rw [bool,Doc.counted_raw]
  exact fun _ => hmp.isValue_bool x

theorem counted_nil : (nil mp).Counted mp := by
  rw [nil,Doc.counted_raw]
  exact fun _ => hmp.isValue_nil

theorem counted_textOrNil (b : Option Bytes) : (textOrNil mp b).Counted mp := by
  cases b with
  | none => exact counted_nil hmp
  | some b => exact counted_text hmp b

/-- A stored value, or nil. -/
theorem counted_stored {b : Option Bytes} :
    (Doc.raw (b.getD mp.encodeNil)).Counted mp ↔ ∀ c, b=some c → mp.IsStored c := by
  rw [Doc.counted_raw]
  cases b with
  | none => exact iff_of_true (fun _ => hmp.isValue_nil) (by simp)
  | some c => simp

theorem counted_tokenDoc {b : Option Bytes} :
    (Atom.tokenDoc mp b).Counted mp ↔ ∀ c, b=some c → mp.IsStored c := by
  have htype : (Doc.raw (mp.encodeStr (ascii "Token"))).Counted mp := counted_text hmp _
  rw [← counted_stored hmp]
  simp [Atom.tokenDoc,Doc.EntriesCounted,-Doc.counted_raw,htype]

/-- What a message in a tunnel adds to its value is counted. -/
theorem tunnelData_counted {nodes : (Bytes × Doc) × (Bytes × Doc)} {tunnelId : Bytes}
    {value : Doc} (hto : nodes.1.2.Counted mp) (hfrom : nodes.2.2.Counted mp) :
    (tunnelData mp nodes tunnelId value).Counted mp ↔ value.Counted mp := by
  simp [tunnelData,kvStr,Doc.EntriesCounted,counted_text hmp,hto,hfrom]

theorem counted_tunnelData {nodes : (Bytes × Doc) × (Bytes × Doc)} {tunnelId : Bytes}
    {value : Doc} (hto : nodes.1.2.Counted mp) (hfrom : nodes.2.2.Counted mp)
    (hvalue : value.Counted mp) : (tunnelData mp nodes tunnelId value).Counted mp :=
  (tunnelData_counted hmp hto hfrom).mpr hvalue

theorem counted_successList : (successList mp).2.Counted mp := by
  simp [successList,Doc.ItemsCounted,counted_uint hmp]

theorem counted_replyWith (nodeId uuid toRtUuid : Bytes) {value : List (Bytes × Doc)}
    (hlen : 3=value.length) (hvalue : Doc.EntriesCounted mp value) :
    (replyWith mp nodeId uuid toRtUuid value).Counted mp := by
  simp [replyWith,kvStr,Doc.EntriesCounted,counted_text hmp,hlen,hvalue]

theorem counted_replyData (nodeId uuid toRtUuid : Bytes) (status : UInt32) {data : Bytes × Doc}
    (hdata : data.2.Counted mp) :
    (replyWith mp nodeId uuid toRtUuid (replyData mp status data)).Counted mp := by
  apply counted_replyWith hmp
  · rfl
  · have hlist := counted_successList hmp
    simp [replyData,Doc.EntriesCounted,counted_uint hmp,hlist,hdata]

end Leaves

/-- Whatever is written is counted. -/
def Counts (mp : Msgpuck) (x : Atom (Option Doc)) : Prop :=
  Ensures (fun _ => True) x fun r _ => ∀ d ∈ r, d.Counted mp

/-- Whatever is written is counted exactly where `φ` holds. -/
def CountsIf (mp : Msgpuck) (φ : Prop) (x : Atom (Option Doc)) : Prop :=
  Ensures (fun _ => True) x fun r _ => ∀ d ∈ r, (d.Counted mp ↔ φ)

theorem countsIf_some {φ : Prop} {d : Doc} (hd : d.Counted mp ↔ φ) :
    CountsIf mp φ (pure (some d)) := by
  apply ensures_pure
  rintro _ - _ ⟨⟩
  exact hd

theorem counts_some {d : Doc} (hd : d.Counted mp) : Counts mp (pure (some d)) := by
  apply ensures_pure
  rintro _ - _ ⟨⟩
  exact hd

theorem counts_none : Counts mp (pure none) := by
  apply ensures_pure
  simp

theorem counts_ite {c : Prop} [Decidable c] {x y : Atom (Option Doc)} (hx : Counts mp x)
    (hy : Counts mp y) : Counts mp (if c then x else y) := by
  split_ifs
  · exact hx
  · exact hy

/-- One document for each object of a list. -/
def Lists (mp : Msgpuck) (n : Nat) (x : Atom (List Doc)) : Prop :=
  Ensures (fun _ => True) x fun ds _ => n=ds.length ∧ Doc.ItemsCounted mp ds

theorem lists_nil : Lists mp 0 (pure []) := by
  apply ensures_pure
  simp [Doc.ItemsCounted]

theorem lists_cons {n : Nat} {d : Doc} {x : Atom (List Doc)} (hd : d.Counted mp)
    (hx : Lists mp n x) : Lists mp (n+1) (do return d::(← x)) := by
  refine ensures_bind hx fun ds => ensures_pure ?_
  rintro _ ⟨rfl,hds⟩
  simp [Doc.ItemsCounted,hd,hds]

section Messages

include hmp

theorem counts_toProxy {value : Bytes → Doc} (hv : ∀ uuid, (value uuid).Counted mp) :
    Counts mp (do return some (← toProxy mp value)) := by
  simp only [toProxy,bind_assoc,pure_bind]
  refine ensures_seq fun _ => ensures_seq fun uuid => ensures_seq fun _ => ensures_seq fun _ => ?_
  exact counts_some (counted_tunnelData hmp (counted_text hmp _) (counted_text hmp _) (hv uuid))

theorem counts_toStorage {nodes : Bytes → Bytes → (Bytes × Doc) × (Bytes × Doc)}
    {value : Bytes → Doc} (hn : ∀ b c, (nodes b c).1.2.Counted mp ∧ (nodes b c).2.2.Counted mp)
    (hv : ∀ uuid, (value uuid).Counted mp) :
    Counts mp (do return some (← toStorage mp nodes value)) := by
  simp only [toStorage,bind_assoc,pure_bind]
  refine ensures_seq fun _ => ensures_seq fun uuid => ensures_seq fun h => ensures_seq fun node => ?_
  obtain ⟨hto,hfrom⟩ := hn h.1 node
  exact counts_some (counted_tunnelData hmp hto hfrom (hv uuid))

theorem toFrom_counted (b c : Bytes) :
    (toFrom mp b c).1.2.Counted mp ∧ (toFrom mp b c).2.2.Counted mp :=
  ⟨counted_text hmp _,counted_text hmp _⟩

theorem fromTo_counted (b c : Bytes) :
    (fromTo mp c b).1.2.Counted mp ∧ (fromTo mp c b).2.2.Counted mp :=
  ⟨counted_text hmp _,counted_text hmp _⟩

theorem counts_wakeSignal : Counts mp (wakeSignal mp) := by
  refine ensures_seq fun _ => counts_ite counts_none ?_
  apply counts_toProxy hmp
  simp [kvStr,Doc.EntriesCounted,counted_text hmp]

theorem counts_getActorModule (actorType : Bytes) : Counts mp (getActorModule mp actorType) := by
  apply counts_toProxy hmp
  simp [kvStr,Doc.EntriesCounted,counted_text hmp]

theorem countsIf_reqMatch (a : Ref) (requirements : Option Bytes) :
    CountsIf mp (∀ c, requirements=some c → mp.IsStored c) (reqMatch mp a requirements) := by
  simp only [reqMatch,toProxy,bind_assoc,pure_bind]
  refine ensures_seq fun _ => ensures_seq fun _ => ensures_seq fun _ => ensures_seq fun _ =>
    ensures_seq fun _ => countsIf_some ?_
  rw [toFrom,tunnelData_counted hmp (counted_text hmp _) (counted_text hmp _),← counted_stored hmp]
  simp [kvStr,Doc.EntriesCounted,-Doc.counted_raw,counted_text hmp,counted_uint hmp]

theorem counts_sleepRequest (timeToSleep : UInt32) : Counts mp (sleepRequest mp timeToSleep) := by
  apply counts_toProxy hmp
  simp [kvStr,Doc.EntriesCounted,counted_text hmp,counted_uint hmp]

theorem counts_tunnelRequest (t : Ref) : Counts mp (tunnelRequest mp t) := by
  refine ensures_seq fun t => ?_
  split
  · exact counts_none
  · refine ensures_seq fun _ => ensures_seq fun _ => ensures_seq fun _ => ensures_seq fun _ => ?_
    apply counts_some
    simp [kvStr,Doc.EntriesCounted,counted_text hmp]

theorem counts_tunnelDestroy (t : Ref) : Counts mp (tunnelDestroy mp t) := by
  refine ensures_seq fun _ => ensures_seq fun _ => ensures_seq fun _ => ensures_seq fun _ =>
    ensures_seq fun _ => ?_
  apply counts_some
  simp [kvStr,Doc.EntriesCounted,counted_text hmp]

theorem counts_reply (uuid toRtUuid : Bytes) (status : UInt32) :
    Counts mp (reply mp uuid toRtUuid status) := by
  refine ensures_seq fun _ => counts_ite counts_none (ensures_seq fun _ => ?_)
  apply counts_some
  apply counted_replyWith hmp
  · rfl
  · have hlist := counted_successList hmp
    simp [Doc.EntriesCounted,counted_uint hmp,counted_nil hmp,hlist]

theorem counts_tunnelNewReply (uuid toRtUuid : Bytes) (status : UInt32) (tunnelId : Bytes) :
    Counts mp (tunnelNewReply mp uuid toRtUuid status tunnelId) := by
  refine ensures_seq fun _ => counts_ite counts_none (ensures_seq fun _ => ?_)
  exact counts_some (counted_replyData hmp _ _ _ _ (counted_text hmp _))

theorem counts_routeRequestReply (uuid toRtUuid : Bytes) (status : UInt32) (destPeerId : Bytes) :
    Counts mp (routeRequestReply mp uuid toRtUuid status destPeerId) := by
  refine ensures_seq fun _ => counts_ite counts_none (ensures_seq fun _ => ?_)
  exact counts_some (counted_replyData hmp _ _ _ _ (counted_text hmp _))

theorem counts_portConnectReply (uuid toRtUuid : Bytes) (status : UInt32) (portId : Bytes) :
    Counts mp (portConnectReply mp uuid toRtUuid status portId) := by
  refine ensures_seq fun _ => ensures_seq fun _ => ?_
  exact counts_some (counted_replyData hmp _ _ _ _ (counted_text hmp _))

theorem counts_portDisconnectReply (uuid toRtUuid : Bytes) (status : UInt32) :
    Counts mp (portDisconnectReply mp uuid toRtUuid status) := by
  refine ensures_seq fun _ => ensures_seq fun _ => ?_
  apply counts_some
  apply counted_replyData hmp
  simp [Doc.EntriesCounted]

theorem countsIf_token (p : Ref) (data : Option Bytes) (sequencenbr : UInt32) :
    CountsIf mp (∀ c, data=some c → mp.IsStored c) (token mp p data sequencenbr) := by
  refine ensures_seq fun _ => ensures_seq fun _ => ensures_seq fun _ => ensures_seq fun _ => ?_
  apply countsIf_some
  rw [toFrom,tunnelData_counted hmp (counted_text hmp _) (counted_text hmp _),
    ← counted_tokenDoc hmp]
  simp [kvStr,tokenEntry,Doc.EntriesCounted,counted_text hmp,counted_uint hmp]

theorem counts_tokenReply (fromRtUuid tunnelId portId peerPortId : Bytes) (sequencenbr : UInt32)
    (ack : Bool) :
    Counts mp (tokenReply mp fromRtUuid tunnelId portId peerPortId sequencenbr ack) := by
  refine ensures_seq fun _ => ensures_seq fun _ => ?_
  apply counts_some
  apply counted_tunnelData hmp (counted_text hmp _) (counted_text hmp _)
  simp [kvStr,Doc.EntriesCounted,counted_text hmp,counted_uint hmp]

theorem counts_destroyReply (fromRtUuid tunnelId : Bytes) :
    Counts mp (destroyReply mp fromRtUuid tunnelId) := by
  refine ensures_seq fun _ => ensures_seq fun _ => ?_
  apply counts_some
  apply counted_tunnelData hmp (counted_text hmp _) (counted_text hmp _)
  simp [kvStr,Doc.EntriesCounted,counted_text hmp,counted_uint hmp]

theorem counts_portConnect (p : Ref) : Counts mp (portConnect mp p) := by
  refine ensures_seq fun _ => ensures_seq fun _ => ensures_seq fun _ => ensures_seq fun _ =>
    ensures_seq fun _ => ?_
  apply counts_some
  simp [kvStr,Doc.EntriesCounted,counted_text hmp,counted_uint hmp,counted_nil hmp]

theorem counts_portDisconnect (p : Ref) : Counts mp (portDisconnect mp p) := by
  refine ensures_seq fun _ => ensures_seq fun _ => ensures_seq fun _ => ensures_seq fun _ =>
    ensures_seq fun _ => ?_
  apply counts_some
  simp [kvStr,Doc.EntriesCounted,counted_text hmp,counted_nil hmp]

theorem lists_portEntries (ps : List Ref) : Lists mp ps.length (portEntries mp ps) := by
  induction ps with
  | nil => exact lists_nil
  | cons p ps ih =>
    refine ensures_seq fun x => lists_cons ?_ ih
    simp [portEntry,kvStr,Doc.EntriesCounted,counted_text hmp]

theorem lists_linkDocs (ls : List Ref) : Lists mp ls.length (linkDocs mp ls) := by
  induction ls with
  | nil => exact lists_nil
  | cons l ls ih =>
    refine ensures_seq fun x => lists_cons ?_ ih
    simp [linkDoc,kvStr,Doc.EntriesCounted,counted_text hmp,counted_bool hmp]

theorem lists_tunnelDocs (ts : List Ref) : Lists mp ts.length (tunnelDocs mp ts) := by
  induction ts with
  | nil => exact lists_nil
  | cons t ts ih =>
    refine ensures_seq fun x => ensures_seq fun l => lists_cons ?_ ih
    simp [tunnelDoc,kvStr,Doc.EntriesCounted,counted_text hmp,counted_uint hmp]

theorem counted_replicationText {data : Bytes} {key : String} {d : Doc}
    (h : replicationText mp data key=some d) : d.Counted mp := by
  obtain ⟨t,-,ht⟩ := Option.bind_eq_some_iff.mp h
  cases t with
  | none =>
    obtain rfl : nil mp=d := by simpa using ht
    exact counted_nil hmp
  | some t =>
    obtain ⟨b,-,hb⟩ := Option.bind_eq_some_iff.mp ht
    obtain rfl : text mp b=d := by simpa using hb
    exact counted_text hmp b

theorem counted_replicationEntries {ofFloat : Bytes → UInt32} {data : Bytes}
    {entries : List (Bytes × Doc)} (h : replicationEntries mp ofFloat data=some entries) :
    entries.length=3 ∧ Doc.EntriesCounted mp entries := by
  obtain ⟨id,hid,h⟩ := Option.bind_eq_some_iff.mp h
  obtain ⟨master,hmaster,h⟩ := Option.bind_eq_some_iff.mp h
  obtain ⟨index,-,h⟩ := Option.bind_eq_some_iff.mp h
  obtain rfl := Option.some.inj h
  simp [Doc.EntriesCounted,counted_replicationText hmp hid,counted_replicationText hmp hmaster,
    counted_uint hmp]

theorem counted_actorEntry (node name : Bytes) {x : Actor} {inPorts outPorts : List Doc}
    {replication : List (Bytes × Doc)}
    (hin : x.inPorts.length=inPorts.length ∧ Doc.ItemsCounted mp inPorts)
    (hout : x.outPorts.length=outPorts.length ∧ Doc.ItemsCounted mp outPorts)
    (hr : Doc.EntriesCounted mp replication) :
    (actorEntry mp node name x inPorts outPorts (6+replication.length) replication).Counted mp := by
  rw [Doc.entriesCounted_iff] at hr
  simp [actorEntry,kvStr,Doc.entriesCounted_iff,counted_text hmp,counted_bool hmp,hin,hout,or_imp,
    forall_and]
  exact ⟨by omega,fun b d h => hr (b,d) h⟩

theorem counts_setActor (ofFloat : Bytes → UInt32) (a : Ref) :
    Counts mp (setActor mp ofFloat a) := by
  refine ensures_seq fun _ => ensures_seq fun key => ensures_seq fun x => ensures_seq fun name => ?_
  refine ensures_bind (lists_portEntries hmp _) fun inPorts => ensures_fact fun hin => ?_
  refine ensures_bind (lists_portEntries hmp _) fun outPorts => ensures_fact fun hout => ?_
  refine ensures_seq fun node => ensures_seq fun data => ?_
  have hset : ∀ value : Doc, value.Counted mp → ∀ uuid, (Doc.map 4 [
      kvStr mp "msg_uuid" uuid,kvStr mp "cmd" (ascii "SET"),kvStr mp "key" key,
      (ascii "value",value)]).Counted mp := by
    intro value hvalue uuid
    simp [kvStr,Doc.EntriesCounted,counted_text hmp,hvalue]
  split
  · have hentry := counted_actorEntry hmp node name hin hout
      (show Doc.EntriesCounted mp [] from trivial)
    exact counts_toStorage hmp (fromTo_counted hmp) (hset _ hentry)
  · refine ensures_bind (Q := fun entries _ => entries.length=3 ∧ Doc.EntriesCounted mp entries)
      ?_ fun entries => ensures_fact fun ⟨hlen,hentries⟩ => ?_
    · intro s entries t h _
      obtain ⟨e,he,heq⟩ := Option.map_eq_some_iff.mp h
      obtain ⟨rfl,-⟩ := Prod.mk.inj heq
      exact counted_replicationEntries hmp he
    · have hentry := counted_actorEntry hmp node name hin hout hentries
      rw [hlen] at hentry
      exact counts_toStorage hmp (fromTo_counted hmp) (hset _ hentry)

theorem counts_deleteKey (nodes : Bytes → Bytes → (Bytes × Doc) × (Bytes × Doc))
    (hn : ∀ b c, (nodes b c).1.2.Counted mp ∧ (nodes b c).2.2.Counted mp) (key : Bytes) :
    Counts mp (do return some (← toStorage mp nodes (deleteKey mp key))) := by
  apply counts_toStorage hmp hn
  simp [deleteKey,kvStr,Doc.EntriesCounted,counted_text hmp]

theorem counts_removeActor (a : Ref) : Counts mp (removeActor mp a) :=
  ensures_seq fun _ => ensures_seq fun _ => counts_deleteKey hmp _ (fromTo_counted hmp) _

theorem counts_removeIndex (a : Ref) (index : String) (value : Bytes) :
    Counts mp (removeIndex mp a index value) := by
  refine ensures_seq fun data => ?_
  split
  · refine ensures_seq fun id => ?_
    split
    · refine ensures_seq fun _ => ?_
      apply counts_toStorage hmp (fromTo_counted hmp)
      simp [kvStr,Doc.EntriesCounted,Doc.ItemsCounted,counted_text hmp]
    · exact counts_none
  · exact counts_none

theorem counts_setPort (p : Ref) : Counts mp (setPort mp p) := by
  refine ensures_seq fun x => ensures_seq fun _ => ensures_seq fun _ => ensures_seq fun _ => ?_
  apply counts_toStorage hmp (toFrom_counted hmp)
  have hpeer : (if x.peerId.length=0 then nil mp else text mp x.peerId).Counted mp := by
    split
    · exact counted_nil hmp
    · exact counted_text hmp _
  simp only [kvStr,Doc.counted_map,Doc.counted_array,Doc.EntriesCounted,Doc.ItemsCounted,hpeer,
    counted_text hmp,counted_uint hmp]
  simp

theorem counts_getPort (portId : Bytes) : Counts mp (getPort mp portId) := by
  apply counts_toStorage hmp (toFrom_counted hmp)
  simp [kvStr,Doc.EntriesCounted,counted_text hmp]

theorem counts_removePort (p : Ref) : Counts mp (removePort mp p) :=
  ensures_seq fun _ => ensures_seq fun _ => counts_deleteKey hmp _ (toFrom_counted hmp) _

end Messages

end Encode

/-- The values an actor keeps in encoded form inside its state. -/
def InstanceState.stored : InstanceState → List Bytes
  | .button _ text => text.toList
  | .log loglevel => loglevel.toList
  | .temperature _ _ period => period.toList
  | .gyroscope _ period => period.toList
  | .accelerometer _ period => period.toList
  | .mpy attributes => attributes.filterMap Attribute.data
  | _ => []

def Attribute.IsStored (mp : Msgpuck) (i : Attribute) : Prop := ∀ b, i.data=some b → mp.IsStored b

/-- A queue has as many slots as its size says, with one value each. -/
def QueueStored (mp : Msgpuck) (f : Fifo Bytes) : Prop :=
  f.tokens.length=f.size.toNat ∧ ∀ b, some b ∈ f.tokens → mp.IsStored b

/-- What the node keeps of an actor in encoded form is one value each: its attributes, what the
serialize callbacks of its objects write, and the tokens of its queues. -/
structure Node.ActorStored (mp : Msgpuck) (s : Node) (a : Ref) (x : Actor) : Prop where
  instanceState : x.loaded=true → ∀ state, x.instanceState=some state →
    ∀ b ∈ state.stored, mp.IsStored b
  attributes : ∀ i ∈ x.privateAttributes, i.IsStored mp
  objects : ∀ o ∈ s.host.objects, o.actor=a → ∀ b, o.serialized=some (some b) → mp.IsStored b
  queues : ∀ r ∈ s.queuesOf x.ports, QueueStored mp r.2

namespace Encode

open Atom

variable {mp : Msgpuck} (hmp : mp.Lawful)

theorem not_isStored_nil (hmp : mp.Lawful) : ¬mp.IsStored [] := by
  intro h
  have hpos := hmp.isValue_pos (h (by simp))
  simp at hpos

theorem entriesCounted_map {γ : Type} {l : List γ} {g : γ → Bytes × Doc} :
    Doc.EntriesCounted mp (l.map g) ↔ ∀ v ∈ l, (g v).2.Counted mp := by
  simp [Doc.entriesCounted_iff]

include hmp in
/-- The attributes of a type are encoded from its state or kept there. -/
theorem encodedAttributes_stored (state : InstanceState) :
    (∀ v ∈ encodedAttributes mp state, mp.IsStored v.2) ↔ ∀ attributes, state=.mpy attributes →
      ∀ i ∈ attributes, i.IsStored mp := by
  have hstr := hmp.isStored_str
  have huint : ∀ x, mp.IsStored (mp.encodeUint x) := fun x _ => hmp.isValue_uint x
  have hbool : ∀ x, mp.IsStored (mp.encodeBool x) := fun x _ => hmp.isValue_bool x
  have hnil : mp.IsStored mp.encodeNil := fun _ => hmp.isValue_nil
  cases state with
  | mpy attributes =>
    have hvalue : ∀ i : Attribute, mp.IsStored (i.data.getD mp.encodeNil) ↔ i.IsStored mp :=
      fun i => (Doc.counted_raw _).symm.trans (counted_stored hmp)
    simp [encodedAttributes,hvalue]
  | _ => simp [encodedAttributes,hstr,huint,hbool,hnil]

include hmp in
/-- The managed attributes of an actor are values exactly when what its state keeps are. -/
theorem managed_stored (x : Actor) : (∀ i ∈ x.managed mp, i.IsStored mp) ↔
    (x.loaded=true → ∀ state, x.instanceState=some state → ∀ b ∈ state.stored, mp.IsStored b) := by
  cases hl : x.loaded with
  | false => simp [Actor.managed,hl]
  | true =>
    cases hi : x.instanceState with
    | none => simp [Actor.managed,hl,hi]
    | some state =>
      have hencoded : (∀ i ∈ appended [] (encodedAttributes mp state), i.IsStored mp) ↔
          ∀ v ∈ encodedAttributes mp state, mp.IsStored v.2 := by
        simp only [appended,List.nil_append,List.mem_map,forall_exists_index,and_imp,
          forall_apply_eq_imp_iff₂,Attribute.IsStored,Option.some.injEq,forall_eq']
      have hmanaged : x.managed mp=appended [] (encodedAttributes mp state)++
          (handedOver state).toList.map fun given => ⟨given.1,given.2.1⟩ := by
        simp [Actor.managed,hl,hi]
      rw [hmanaged]
      simp only [List.mem_append,or_imp,forall_and,hencoded,encodedAttributes_stored hmp]
      cases state with
      | mpy attributes =>
        simp only [handedOver,InstanceState.stored,Attribute.IsStored,Option.toList_none,List.map_nil,
          List.not_mem_nil,false_imp_iff,implies_true,and_true,InstanceState.mpy.injEq,forall_eq',
          Option.some.injEq,List.mem_filterMap,forall_exists_index,and_imp]
        exact ⟨fun h _ b i hi hb => h i hi b hb,fun h i hi b hb => h trivial b i hi hb⟩
      | _ => simp [handedOver,InstanceState.stored,Attribute.IsStored]

include hmp in
/-- An object is counted unless its serialize callback writes no value, or more than one. -/
theorem counted_calvinsysObject (o : CalvinsysObject) : (calvinsysObject mp o).2.Counted mp ↔
    ∀ b, o.serialized=some (some b) → mp.IsStored b := by
  have hname : (Doc.raw (mp.encodeStr o.capability)).Counted mp := counted_text hmp _
  have hempty := not_isStored_nil hmp
  rcases hs : o.serialized with _ | _ | bytes
  · simp [calvinsysObject,hs,Doc.EntriesCounted,-Doc.counted_raw,hname]
  · simp [calvinsysObject,hs,Doc.EntriesCounted,-Doc.counted_raw,hname]
  · by_cases hb : bytes=[]
    · simp [calvinsysObject,hs,hb,hempty]
    · rw [Doc.counted_raw] at hname
      simp [calvinsysObject,hs,hb,Doc.EntriesCounted,hname]

include hmp in
theorem counted_objectsDoc (s : Node) (a : Ref) : (s.objectsDoc mp a).Counted mp ↔
    ∀ o ∈ s.host.objects, o.actor=a → ∀ b, o.serialized=some (some b) → mp.IsStored b := by
  simp only [Node.objectsDoc,Doc.counted_map,List.length_map,true_and,entriesCounted_map,
    counted_calvinsysObject hmp,List.mem_filter,decide_eq_true_eq,and_imp]

include hmp in
theorem counted_prevConnections (x : Port) : (portSerializePrevConnections mp x).2.Counted mp := by
  have hport : (Doc.raw (mp.encodeStr x.peerPortId)).Counted mp := counted_text hmp _
  have hpeer : (Doc.raw (if x.peerId.length=0 then mp.encodeNil else mp.encodeStr x.peerId)).Counted
      mp := by
    split
    · exact counted_nil hmp
    · exact counted_text hmp _
  simp only [portSerializePrevConnections,Doc.counted_array,Doc.ItemsCounted,hport,hpeer]
  simp

include hmp in
theorem counted_serializePort (x : Port) (f : Fifo Bytes) (includeState : Bool) :
    (portSerializePort mp x f includeState).2.Counted mp ↔ QueueStored mp f := by
  have htext : ∀ b, (Doc.raw (mp.encodeStr b)).Counted mp := counted_text hmp
  have huint : ∀ x, (Doc.raw (mp.encodeUint x)).Counted mp := counted_uint hmp
  have htokens : Doc.ItemsCounted mp (f.tokens.map (tokenDoc mp)) ↔
      ∀ b, some b ∈ f.tokens → mp.IsStored b := by
    simp only [Doc.itemsCounted_iff,List.mem_map,forall_exists_index,and_imp,
      forall_apply_eq_imp_iff₂,counted_tokenDoc hmp]
    exact ⟨fun h b hb => h (some b) hb b rfl,fun h c hc b hb => h b (hb ▸ hc)⟩
  rw [QueueStored,← htokens,eq_comm (a := f.tokens.length)]
  cases includeState <;>
    simp [portSerializePort,Doc.EntriesCounted,Doc.ItemsCounted,-Doc.counted_raw,htext,huint]

include hmp in
theorem counted_portsDoc (includeState : Bool) (ports : List (Port × Fifo Bytes)) :
    (portsDoc mp includeState ports).Counted mp ↔ ∀ r ∈ ports, QueueStored mp r.2 := by
  simp only [portsDoc,Doc.counted_map,List.length_map,true_and,entriesCounted_map,
    counted_serializePort hmp]

include hmp in
theorem counted_attributes (items : List Attribute) :
    Doc.EntriesCounted mp (items.map (attributeEntry mp)) ↔ ∀ i ∈ items, i.IsStored mp := by
  simp only [entriesCounted_map,attributeEntry,counted_stored hmp,Attribute.IsStored]

include hmp in
/-- The document of an actor is counted exactly when the values in it are values. -/
theorem counted_actorDoc (includeState : Bool) (x : Actor) (managed : List Attribute)
    (inPorts outPorts : List (Port × Fifo Bytes)) :
    (actorDoc mp includeState x managed inPorts outPorts).Counted mp ↔
      (∀ i ∈ managed, i.IsStored mp) ∧ (∀ i ∈ x.privateAttributes, i.IsStored mp) ∧
        ∀ r ∈ inPorts++outPorts, QueueStored mp r.2 := by
  have htype : (Doc.raw (mp.encodeStr x.type)).Counted mp := counted_text hmp _
  have hnil : (Doc.raw mp.encodeNil).Counted mp := counted_nil hmp
  have hstate : Doc.EntriesCounted mp (stateEntry mp includeState x) := by
    cases includeState with
    | false => exact trivial
    | true => exact ⟨counted_uint hmp _,trivial⟩
  have hprev : ∀ ports : List (Port × Fifo Bytes), (prevDoc mp ports).Counted mp := by
    intro ports
    simp only [prevDoc,Doc.counted_map,List.length_map,true_and,entriesCounted_map]
    exact fun r _ => counted_prevConnections hmp r.1
  simp only [actorDoc,connectionsDoc,actorStateDoc,privateDoc,Doc.counted_map,
    Doc.entriesCounted_append,Doc.EntriesCounted,hstate,htype,hnil,hprev,counted_portsDoc hmp,
    counted_attributes hmp,List.length_append,List.length_cons,List.length_nil,List.length_map,
    List.mem_append,or_imp,forall_and,true_and,and_true]
  rw [Nat.add_comm 3]
  simp only [true_and]

variable {s t : Node} {a : Ref}

include hmp in
/-- A serialized actor is counted exactly when what the node keeps of it are values. -/
theorem actorSerialize_counted {includeState : Bool} {d : Doc}
    (h : actorSerialize mp a includeState s=some (some d,t))
    (ho : (s.objectsDoc mp a).Counted mp) :
    ∃ x, s.actorMem.get a=some x ∧ (d.Counted mp ↔ s.ActorStored mp a x) ∧
      ∃ n, t=(s.serialized mp a).dropAllocs n := by
  obtain ⟨x,hx,rfl,hnode⟩ := actorSerialize_gives h
  have hitem : (s.calvinsysItem mp a).IsStored mp := by
    rintro _ ⟨⟩
    exact ho.isStored hmp
  have hqueues : s.queuesOf x.ports=s.queuesOf x.inPorts++s.queuesOf x.outPorts :=
    List.filterMap_append
  refine ⟨x,hx,?_,hnode⟩
  rw [counted_actorDoc hmp,managed_stored hmp,← hqueues]
  simp only [List.mem_append,List.mem_singleton,or_imp,forall_and,forall_eq,hitem,and_true]
  exact ⟨fun ⟨h₁,h₂,h₃⟩ => ⟨h₁,h₂,(counted_objectsDoc hmp s a).mp ho,h₃⟩,
    fun h => ⟨h.instanceState,h.attributes,h.queues⟩⟩

/-- The actor exists, and the node keeps nothing of it that is not a value. -/
def Stores (mp : Msgpuck) (s : Node) (a : Ref) : Prop :=
  ∃ x, s.actorMem.get a=some x ∧ s.ActorStored mp a x

theorem stores_iff {x : Actor} (hx : s.actorMem.get a=some x) :
    Stores mp s a ↔ s.ActorStored mp a x := by
  constructor
  · rintro ⟨y,hy,h⟩
    obtain rfl : x=y := Option.some.inj (hx.symm.trans hy)
    exact h
  · exact fun h => ⟨x,hx,h⟩

theorem actorStored_congr (hports : t.portMem=s.portMem)
    (hobjects : t.host.objects=s.host.objects) (x : Actor) :
    t.ActorStored mp a x ↔ s.ActorStored mp a x := by
  have hqueues : t.queuesOf x.ports=s.queuesOf x.ports := by
    rw [Node.queuesOf,Node.queuesOf,hports]
  constructor
  · intro h
    exact ⟨h.instanceState,h.attributes,hobjects ▸ h.objects,hqueues ▸ h.queues⟩
  · intro h
    exact ⟨h.instanceState,h.attributes,hobjects.symm ▸ h.objects,hqueues.symm ▸ h.queues⟩

theorem stores_congr (hactors : t.actorMem=s.actorMem) (hports : t.portMem=s.portMem)
    (hobjects : t.host.objects=s.host.objects) : Stores mp t a ↔ Stores mp s a := by
  simp only [Stores,hactors,actorStored_congr hports hobjects]

/-- What an actor keeps after it has handed over an attribute it kept before. -/
theorem handOver_stored {x : Actor} (h : x.loaded=true → ∀ state, x.instanceState=some state →
      ∀ b ∈ state.stored, mp.IsStored b) :
    (handOver x).loaded=true → ∀ state, (handOver x).instanceState=some state →
      ∀ b ∈ state.stored, mp.IsStored b := by
  unfold handOver
  split
  · next state hl hi =>
    split
    · next id data rest ho =>
      rintro - _ ⟨⟩ b hb
      cases state <;> simp only [handedOver,Option.some.injEq,Prod.mk.injEq,reduceCtorEq] at ho
      all_goals
        obtain ⟨-,-,rfl⟩ := ho
        cases hb
    · exact h
  · exact h

include hmp in
/-- Serializing an actor leaves no value behind that is none. -/
theorem stores_serialized {x : Actor} (hx : s.actorMem.get a=some x)
    (hs : s.ActorStored mp a x) (n : Nat) (b : Ref) :
    Stores mp ((s.serialized mp a).dropAllocs n) b ↔ Stores mp s b := by
  have hitem : (s.calvinsysItem mp a).IsStored mp := by
    rintro _ ⟨⟩
    exact ((counted_objectsDoc hmp s a).mpr hs.objects).isStored hmp
  have hmem : ((s.serialized mp a).dropAllocs n).actorMem=s.actorMem.set a {handOver x with
      privateAttributes := x.privateAttributes++[s.calvinsysItem mp a]} := by
    simp only [Node.serialized,hx]
    rfl
  have hports : ((s.serialized mp a).dropAllocs n).portMem=s.portMem := by
    simp only [Node.serialized,hx]
    rfl
  have hobjects : ((s.serialized mp a).dropAllocs n).host.objects=s.host.objects := by
    simp only [Node.serialized,hx]
    rfl
  by_cases hb : b=a
  · subst hb
    refine iff_of_true ?_ ⟨x,hx,hs⟩
    refine ⟨_,by rw [hmem,Heap.get_set_self hx],?_⟩
    obtain ⟨-,-,hin,hout,-⟩ := handOver_fixed x
    refine ⟨handOver_stored hs.instanceState,fun i hi => ?_,hobjects ▸ hs.objects,?_⟩
    · rcases List.mem_append.mp hi with hi | hi
      · exact hs.attributes i hi
      · obtain rfl := List.mem_singleton.mp hi
        exact hitem
    · rw [Node.queuesOf,hports,Actor.ports,hin,hout]
      exact hs.queues
  · simp only [Stores,hmem,Heap.get_set hx,if_neg hb,actorStored_congr hports hobjects]

include hmp in
theorem actorNew_counted {toRtUuid : Bytes} {d : Doc}
    (h : actorNew mp a toRtUuid s=some (some d,t)) (ho : (s.objectsDoc mp a).Counted mp) :
    d.Counted mp ↔ Stores mp s a := by
  obtain ⟨uuid,u,huuid,h₁⟩ := bind_eq_some.mp h
  obtain ⟨-,fate,rfl⟩ := msgUuid_gives huuid
  obtain ⟨⟨⟩,u,htransport,h₂⟩ := bind_eq_some.mp h₁
  obtain ⟨-,-,he⟩ := Option.map_eq_some_iff.mp htransport
  cases he
  obtain ⟨state,v,hstate,hend⟩ := bind_eq_some.mp h₂
  obtain ⟨x,hx,hcounted,-⟩ := actorSerialize_counted hmp (actorState_gives hstate) ho
  have hstored : state.Counted mp ↔ Stores mp s a :=
    hcounted.trans ((stores_iff hx).symm.trans (stores_congr rfl rfl rfl))
  cases hend
  rw [← hstored]
  simp [kvStr,Doc.EntriesCounted,counted_text hmp]

include hmp in
theorem actorDocs_counted {as : List Ref} {docs : List Doc}
    (h : actorDocs mp as s=some (docs,t)) (ho : ∀ a ∈ as, (s.objectsDoc mp a).Counted mp) :
    as.length=docs.length ∧ (Doc.ItemsCounted mp docs ↔ ∀ a ∈ as, Stores mp s a) := by
  induction as generalizing s docs t with
  | nil =>
    cases h
    simp [Doc.ItemsCounted]
  | cons a as ih =>
    obtain ⟨state,u,hstate,h₁⟩ := bind_eq_some.mp h
    obtain ⟨x,hx,hcounted,n,hu⟩ := actorSerialize_counted hmp (actorState_gives hstate)
      (ho a List.mem_cons_self)
    obtain ⟨rest,v,hrest,hend⟩ := bind_eq_some.mp h₁
    have hobjects : ∀ b, u.objectsDoc mp b=s.objectsDoc mp b := by
      intro b
      rw [hu]
      simp only [Node.serialized,hx]
      rfl
    obtain ⟨hlen,hrests⟩ := ih hrest fun b hb => by
      rw [hobjects b]
      exact ho b (List.mem_cons_of_mem _ hb)
    cases hend
    have hstored : state.Counted mp ↔ Stores mp s a := hcounted.trans (stores_iff hx).symm
    refine ⟨by rw [List.length_cons,List.length_cons,hlen],?_⟩
    have hnext : s.ActorStored mp a x → ((∀ b ∈ as, Stores mp u b) ↔ ∀ b ∈ as, Stores mp s b) := by
      intro hs
      simp only [hu,stores_serialized hmp hx hs]
    rw [List.forall_mem_cons,← hstored]
    simp only [Doc.ItemsCounted,Doc.counted_map,Doc.EntriesCounted,List.length_cons,List.length_nil,
      true_and,and_true,Nat.zero_add,hrests]
    exact and_congr_right fun hs => hnext (hcounted.mp hs)

include hmp in
theorem counted_nodeEntries (id : Bytes) (attributes : Option Bytes) (proxyUris : List Bytes) :
    Doc.EntriesCounted mp (nodeEntries mp id attributes proxyUris) := by
  have huris : Doc.ItemsCounted mp (proxyUris.map (text mp)) := by
    rw [Doc.itemsCounted_iff]
    intro d hd
    obtain ⟨uri,-,rfl⟩ := List.mem_map.mp hd
    exact counted_text hmp uri
  simp [nodeEntries,kvStr,Doc.EntriesCounted,counted_text hmp,counted_textOrNil hmp,huris]

include hmp in
theorem nodeSetState_counted {attributes : Option Bytes} {proxyUris : List Bytes}
    {includeState : Bool} {d : Doc}
    (h : nodeSetState mp attributes proxyUris includeState s=some (some d,t))
    (ho : includeState=true → ∀ a ∈ s.actors, (s.objectsDoc mp a).Counted mp) :
    d.Counted mp ↔ (includeState=true → ∀ a ∈ s.actors, Stores mp s a) := by
  obtain ⟨s',u,hget,h₁⟩ := bind_eq_some.mp h
  cases hget
  obtain ⟨b,u,halloc,h₂⟩ := bind_eq_some.mp h₁
  rw [alloc_eq] at halloc
  obtain ⟨rfl,rfl⟩ := Prod.mk.inj (Option.some.inj halloc)
  split at h₂
  · cases h₂
  have hentries := counted_nodeEntries hmp s.host.id attributes proxyUris
  have hlen : (nodeEntries mp s.host.id attributes proxyUris).length=3 := rfl
  cases includeState with
  | false =>
    cases h₂
    exact iff_of_true ((Doc.counted_map _ _).mpr ⟨hlen.symm,hentries⟩) (by simp)
  | true =>
    rw [if_pos rfl] at h₂
    obtain ⟨links,v,hlinks,h₃⟩ := bind_eq_some.mp h₂
    obtain ⟨tunnels,w,htunnels,h₄⟩ := bind_eq_some.mp h₃
    obtain ⟨actors,w',hactors,hend⟩ := bind_eq_some.mp h₄
    have hlinkItems := lists_linkDocs hmp s.links _ _ _ hlinks trivial
    have htunnelItems := lists_tunnelDocs hmp s.tunnels _ _ _ htunnels trivial
    obtain rfl := linkDocs_state hlinks
    obtain rfl := tunnelDocs_state htunnels
    obtain ⟨hactorLen,hactorItems⟩ := actorDocs_counted hmp hactors (ho rfl)
    have hsame : ∀ a, Stores mp (s.dropAllocs 1) a ↔ Stores mp s a := fun a =>
      stores_congr rfl rfl rfl
    cases hend
    simp only [hsame] at hactorItems
    simp [Doc.EntriesCounted,hlen,hentries,hlinkItems,htunnelItems,hactorLen,hactorItems,
      counted_uint hmp]

theorem deployReqs_counted (hlocal : mp.Local) {reqs : Bytes} {is : List Nat} {items : List Doc}
    (h : deployReqs mp reqs is=some (some items)) :
    is.length=items.length ∧ Doc.ItemsCounted mp items := by
  induction is generalizing items with
  | nil =>
    cases h
    exact ⟨rfl,trivial⟩
  | cons i is ih =>
    obtain ⟨req,-,h₁⟩ := Option.bind_eq_some_iff.mp h
    cases req with
    | none => cases h₁
    | some req =>
      obtain ⟨size,hsize,h₂⟩ := Option.bind_eq_some_iff.mp h₁
      obtain ⟨rest,hrest,h₃⟩ := Option.bind_eq_some_iff.mp h₂
      cases rest with
      | none => cases h₃
      | some rest =>
        cases h₃
        obtain ⟨hlen,hitems⟩ := ih hrest
        obtain ⟨r,hr,hsize⟩ := Option.bind_eq_some_iff.mp hsize
        obtain rfl := Option.some.inj hsize
        obtain ⟨p,rfl,hp⟩ := hlocal.next_local hr
        have htake : (p++r).take ((p++r).length-r.length)=p := by simp
        refine ⟨by rw [List.length_cons,List.length_cons,hlen],?_,hitems⟩
        rw [Doc.counted_raw,htake]
        exact fun _ => hp

/-- The requirements that go to the proxy are counted. -/
theorem actorReqs_counted (hlocal : mp.Local) {reqs : Bytes} {requires : List Bytes} {d : Doc}
    (h : actorReqs mp reqs requires=some (some d)) : d.Counted mp := by
  have htext := counted_text hlocal.toLawful
  obtain ⟨n,-,h₁⟩ := Option.bind_eq_some_iff.mp h
  obtain ⟨items,hitems,h₂⟩ := Option.bind_eq_some_iff.mp h₁
  cases items with
  | none => cases h₂
  | some items =>
    cases h₂
    obtain ⟨hlen,hcounted⟩ := deployReqs_counted hlocal hitems
    rw [List.length_range] at hlen
    have hrequires : Doc.ItemsCounted mp (requires.map (text mp)) := by
      rw [Doc.itemsCounted_iff]
      intro d hd
      obtain ⟨b,-,rfl⟩ := List.mem_map.mp hd
      exact htext b
    rw [Doc.itemsCounted_iff] at hcounted
    rw [Doc.counted_array,List.length_append,hlen,Doc.itemsCounted_iff]
    refine ⟨rfl,fun d hd => ?_⟩
    rcases List.mem_append.mp hd with hd | hd
    · exact hcounted d hd
    · obtain rfl := List.mem_singleton.mp hd
      simp [kvStr,Doc.EntriesCounted,htext,hrequires]

theorem counts_reqMatchActor (hlocal : mp.Local) (a : Ref) (reqs : Bytes)
    (requires : List Bytes) : Counts mp (reqMatchActor mp a reqs requires) := by
  intro s r t h _ d hd
  obtain ⟨requirements,u,hread,h₁⟩ := bind_eq_some.mp h
  obtain ⟨o,ho,heq⟩ := Option.map_eq_some_iff.mp hread
  obtain ⟨rfl,rfl⟩ := Prod.mk.inj heq
  cases o with
  | none =>
    cases h₁
    cases hd
  | some doc =>
    dsimp only at h₁
    split_ifs at h₁
    · refine (countsIf_reqMatch hlocal.toLawful a _ _ _ _ h₁ trivial d hd).mpr ?_
      rintro _ ⟨⟩
      exact (actorReqs_counted hlocal ho).isStored hlocal.toLawful
    · cases h₁

section Exceptions

include hmp

/-- The value of a node setup declares five entries and has six. -/
theorem nodeSetup_surplus (attributes : Option Bytes) :
    Ensures (fun _ => True) (nodeSetup mp attributes) fun r _ => ∀ d ∈ r,
      (d.encode mp).length<2^32 →
      mp.next (d.encode mp)=some (Doc.encodeEntries mp [(ascii "redeploy",bool mp false)]) := by
  refine ensures_seq fun _ => ?_
  split
  · exact ensures_pure (by simp)
  simp only [toProxy,bind_assoc,pure_bind]
  refine ensures_seq fun s => ensures_seq fun _ => ensures_seq fun uuid => ensures_seq fun h =>
    ensures_seq fun node => ensures_pure ?_
  rintro _ - _ ⟨⟩ hlen
  have hcapabilities : Doc.ItemsCounted mp (s.host.capabilities.map fun c => text mp c.name) := by
    rw [Doc.itemsCounted_iff]
    intro d hd
    obtain ⟨c,-,rfl⟩ := List.mem_map.mp hd
    exact counted_text hmp c.name
  have hentries : Doc.EntriesCounted mp [
      kvStr mp "msg_uuid" uuid,
      kvStr mp "cmd" (ascii "CONFIG"),
      (ascii "attributes",textOrNil mp attributes),
      (ascii "capabilities",.array s.host.capabilities.length
        (s.host.capabilities.map fun c => text mp c.name)),
      kvStr mp "port_property_capability" (ascii "runtime.constrained.1")] := by
    simp [kvStr,Doc.EntriesCounted,counted_text hmp,counted_textOrNil hmp,hcapabilities]
  have hheader : Doc.EntriesCounted mp [
      (toFrom mp h.1 node).1,(toFrom mp h.1 node).2,
      kvStr mp "cmd" (ascii "TUNNEL_DATA"),
      kvStr mp "tunnel_id" h.2] := by
    simp [toFrom,kvStr,Doc.EntriesCounted,counted_text hmp]
  exact Doc.next_last hmp hheader hlen (Doc.next_surplus hmp [(ascii "redeploy",bool mp false)]
    hentries)

/-- The join request is read as the number of its opening brace. -/
theorem joinRequest_brace (serializer : Bytes) (prefixLen : Nat) :
    Ensures (fun _ => True) (joinRequest serializer prefixLen) fun r _ => ∀ d ∈ r,
      mp.next (d.encode mp) ≠ some [] := by
  refine ensures_seq fun uuid => ensures_seq fun node => ?_
  refine ensures_bind (Q := fun b _ => ∃ c r, b=0x7b::c::r) ?_ fun b => ensures_fact ?_
  · intro s b t h _
    obtain ⟨b',hb,heq⟩ := Option.map_eq_some_iff.mp h
    obtain ⟨rfl,-⟩ := Prod.mk.inj heq
    obtain ⟨r,hr⟩ : ∃ r, joinText node uuid serializer=0x7b::0x22::r := ⟨_,rfl⟩
    rw [hr] at hb
    unfold printed at hb
    split_ifs at hb with h1 h2
    · exact ⟨0x22,r,(Option.some.inj hb).symm⟩
    · obtain rfl := Option.some.inj hb
      rw [← h2]
      cases r with
      | nil => exact ⟨0,[],rfl⟩
      | cons c r => exact ⟨0x22,(c::r).take r.length++[0],by simp⟩
  · rintro ⟨c,r,rfl⟩
    refine ensures_pure ?_
    rintro _ - _ ⟨⟩
    have hbrace := hmp.next_uint 0x7b (c::r)
    rw [hmp.encode_fixint _ (by decide)] at hbrace
    intro heq
    have hnext : some (c::r)=some [] := hbrace.symm.trans heq
    simp at hnext

end Exceptions

end Encode

namespace Encoder

/-- All encoders but the one of the node setup, and but the join request, which is JSON. -/
def counted : Encoder → Bool
  | .joinRequest _ => false
  | .nodeSetup _ => false
  | _ => true

/-- The actors that a payload carries. -/
def actors (s : Node) : Encoder → List Ref
  | .actorNew a _ => [a]
  | .actorSerialize a _ => [a]
  | .nodeSetState _ _ includeState => if includeState then s.actors else []
  | _ => []

/-- The documents that are encoded into a buffer of their own before the payload takes them over:
the requirements of an actor, and the calvinsys objects of the actors. -/
def embedded (mp : Msgpuck) (s : Node) : Encoder → List Doc
  | .reqMatchActor _ deployReqs requires =>
    (Encode.actorReqs mp deployReqs requires).join.toList
  | e => (e.actors s).map (s.objectsDoc mp)

/-- What the payload takes over in encoded form is one value each. -/
def Encoded (mp : Msgpuck) (s : Node) : Encoder → Prop
  | .reqMatch _ requirements => ∀ b, requirements=some b → mp.IsStored b
  | .token _ data _ => ∀ b, data=some b → mp.IsStored b
  | e => ∀ a ∈ e.actors s, Encode.Stores mp s a

/-- The payload is one value and all of it, and every header in it declares what is written
under it. -/
structure Single (mp : Msgpuck) (ofFloat : Bytes → UInt32) (prefixLen : Nat) (e : Encoder)
    (s : Node) (b : Bytes) : Prop where
  value : mp.next b=some []
  counted : ∃ d t, e.doc mp ofFloat prefixLen s=some (some d,t) ∧ d.encode mp=b ∧ d.Counted mp
  embedded : ∀ d ∈ e.embedded mp s, d.Counted mp

variable {mp : Msgpuck}

open Encode

/-- A counted document in which the embedded ones are counted as well. -/
def Complete (mp : Msgpuck) (e : Encoder) (s : Node) (d : Doc) : Prop :=
  d.Counted mp ∧ ∀ c ∈ e.embedded mp s, c.Counted mp

theorem complete_of_counts {e : Encoder} {s t : Node} {d : Doc} {x : Atom (Option Doc)}
    (hx : Encode.Counts mp x) (h : x s=some (some d,t)) (he : e.embedded mp s=[])
    (hs : e.Encoded mp s) : e.Complete mp s d ↔ e.Encoded mp s :=
  iff_of_true ⟨hx s _ t h trivial d rfl,by simp [he]⟩ hs

theorem complete_of_countsIf {e : Encoder} {s t : Node} {d : Doc} {x : Atom (Option Doc)}
    (hx : CountsIf mp (e.Encoded mp s) x) (h : x s=some (some d,t)) (he : e.embedded mp s=[]) :
    e.Complete mp s d ↔ e.Encoded mp s := by
  simp [Complete,he,hx s _ t h trivial d rfl]

/-- For the encoders that are counted, the document is complete exactly when what it takes over
are values. -/
theorem complete_iff (hmp : mp.Local) (ofFloat : Bytes → UInt32) (prefixLen : Nat) {e : Encoder}
    (hc : e.counted=true) {s t : Node} {d : Doc}
    (h : e.doc mp ofFloat prefixLen s=some (some d,t)) :
    e.Complete mp s d ↔ e.Encoded mp s := by
  have hl := hmp.toLawful
  have hobjects : ∀ {a}, Stores mp s a → (s.objectsDoc mp a).Counted mp := by
    rintro a ⟨x,-,hs⟩
    exact (counted_objectsDoc hl s a).mpr hs.objects
  have hnone : ∀ a ∈ ([] : List Ref), Stores mp s a := by simp
  cases e with
  | joinRequest serializer => simp [Encoder.counted] at hc
  | nodeSetup attributes => simp [Encoder.counted] at hc
  | wakeSignal => exact complete_of_counts (counts_wakeSignal hl) h rfl hnone
  | getActorModule actorType =>
    exact complete_of_counts (counts_getActorModule hl actorType) h rfl hnone
  | reqMatch a requirements => exact complete_of_countsIf (countsIf_reqMatch hl a requirements) h rfl
  | reqMatchActor a deployReqs requires =>
    refine iff_of_true ⟨counts_reqMatchActor hmp a deployReqs requires s _ t h trivial d rfl,?_⟩ hnone
    intro c hc
    obtain ⟨r,hr,hrc⟩ := Option.mem_toList.mp hc |> Option.bind_eq_some_iff.mp
    obtain rfl : r=some c := hrc
    exact actorReqs_counted hmp hr
  | sleepRequest timeToSleep =>
    exact complete_of_counts (counts_sleepRequest hl timeToSleep) h rfl hnone
  | tunnelRequest tunnel => exact complete_of_counts (counts_tunnelRequest hl tunnel) h rfl hnone
  | tunnelDestroy tunnel => exact complete_of_counts (counts_tunnelDestroy hl tunnel) h rfl hnone
  | reply uuid toRtUuid status =>
    exact complete_of_counts (counts_reply hl uuid toRtUuid status) h rfl hnone
  | tunnelNewReply uuid toRtUuid status tunnelId =>
    exact complete_of_counts (counts_tunnelNewReply hl uuid toRtUuid status tunnelId) h rfl hnone
  | routeRequestReply uuid toRtUuid status destPeerId =>
    exact complete_of_counts (counts_routeRequestReply hl uuid toRtUuid status destPeerId) h rfl
      hnone
  | portConnectReply uuid toRtUuid status portId =>
    exact complete_of_counts (counts_portConnectReply hl uuid toRtUuid status portId) h rfl hnone
  | portDisconnectReply uuid toRtUuid status =>
    exact complete_of_counts (counts_portDisconnectReply hl uuid toRtUuid status) h rfl hnone
  | token p data sequencenbr => exact complete_of_countsIf (countsIf_token hl p data sequencenbr) h rfl
  | tokenReply fromRtUuid tunnelId portId peerPortId sequencenbr ack =>
    exact complete_of_counts (counts_tokenReply hl fromRtUuid tunnelId portId peerPortId
      sequencenbr ack) h rfl hnone
  | destroyReply fromRtUuid tunnelId =>
    exact complete_of_counts (counts_destroyReply hl fromRtUuid tunnelId) h rfl hnone
  | portConnect p => exact complete_of_counts (counts_portConnect hl p) h rfl hnone
  | portDisconnect p => exact complete_of_counts (counts_portDisconnect hl p) h rfl hnone
  | setActor a => exact complete_of_counts (counts_setActor hl ofFloat a) h rfl hnone
  | removeActor a => exact complete_of_counts (counts_removeActor hl a) h rfl hnone
  | removeReplica a =>
    exact complete_of_counts (ensures_seq fun _ => counts_removeIndex hl _ _ _) h rfl hnone
  | removeReplicaNode a =>
    exact complete_of_counts (ensures_seq fun _ => counts_removeIndex hl _ _ _) h rfl hnone
  | setPort p => exact complete_of_counts (counts_setPort hl p) h rfl hnone
  | getPort portId => exact complete_of_counts (counts_getPort hl portId) h rfl hnone
  | removePort p => exact complete_of_counts (counts_removePort hl p) h rfl hnone
  | actorNew a toRtUuid =>
    simp only [Complete,Encoded,embedded,actors,List.map_cons,List.map_nil,List.mem_singleton,
      forall_eq]
    exact ⟨fun hall => (actorNew_counted hl h hall.2).mp hall.1,
      fun hs => ⟨(actorNew_counted hl h (hobjects hs)).mpr hs,hobjects hs⟩⟩
  | actorSerialize a includeState =>
    obtain ⟨d',u,hstate,hend⟩ := Atom.bind_eq_some.mp h
    cases hend
    have hcounted : (s.objectsDoc mp a).Counted mp → (d.Counted mp ↔ Stores mp s a) := by
      intro ho
      obtain ⟨x,hx,hd,-⟩ := actorSerialize_counted hl (actorState_gives hstate) ho
      exact hd.trans (stores_iff hx).symm
    simp only [Complete,Encoded,embedded,actors,List.map_cons,List.map_nil,List.mem_singleton,
      forall_eq]
    exact ⟨fun hall => (hcounted hall.2).mp hall.1,
      fun hs => ⟨(hcounted (hobjects hs)).mpr hs,hobjects hs⟩⟩
  | nodeSetState attributes proxyUris includeState =>
    cases includeState with
    | false =>
      exact iff_of_true ⟨(nodeSetState_counted hl h (by simp)).mpr (by simp),by simp [embedded,actors]⟩
        hnone
    | true =>
      simp only [Complete,Encoded,embedded,actors,if_true,List.mem_map,forall_exists_index,and_imp,
        forall_apply_eq_imp_iff₂]
      have hcounted : (∀ a ∈ s.actors, (s.objectsDoc mp a).Counted mp) →
          (d.Counted mp ↔ ∀ a ∈ s.actors, Stores mp s a) := by
        intro ho
        rw [nodeSetState_counted hl h fun _ => ho]
        simp
      exact ⟨fun hall => (hcounted hall.2).mp hall.1,fun hs =>
        ⟨(hcounted fun a ha => hobjects (hs a ha)).mpr hs,fun a ha => hobjects (hs a ha)⟩⟩

theorem bufferSize_lt (s : Node) (e : Encoder) : e.bufferSize s<2^32 := by
  cases e with
  | nodeSetState attributes proxyUris includeState => exact Nat.mod_lt _ (by decide)
  | _ => simp [bufferSize]

/-- A node with a proxy and without actors. -/
def proxyNode : Node where
  host := {Atom.quietHost with transport := some ⟨.enabled,ascii "n2"⟩,objects := []}
  portMem := .empty
  actorMem := .empty
  tunnelMem := ⟨[some ⟨ascii "t1",0,.enabled,1,.proxy⟩]⟩
  linkMem := ⟨[some ⟨ascii "n2",1,true⟩]⟩
  actors := []
  tunnels := [0]
  links := [0]
  storageTunnel := none
  proxyTunnel := some 0
  proxyLink := some 0

end Encoder

end CalvinConstrained
