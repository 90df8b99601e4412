import CalvinConstrained.Runtime.Create
import CalvinConstrained.Runtime.Lookup

namespace CalvinConstrained

section Places

variable {α β : Type} {test : α → List α → Bool} {own : α → Bool} {place : α → List α → β}

/-- The first item that passes a test, which also sees the items behind it. -/
def foundAt (test : α → List α → Bool) (place : α → List α → β) : List α → Option β
  | [] => none
  | a::as => if test a as then some (place a as) else foundAt test place as

/-- In front of the first own item nothing passes the test. -/
def ClearOf (test : α → List α → Bool) (own : α → Bool) : List α → Prop
  | [] => True
  | a::as => own a=true ∨ test a as=false ∧ ClearOf test own as

theorem foundAt_suffix {as : List α} {b : β} (h : foundAt test place as=some b) :
    ∃ a rest, a::rest <:+ as ∧ place a rest=b := by
  induction as with
  | nil => cases h
  | cons a as ih =>
    rw [foundAt] at h
    split at h
    · cases h
      exact ⟨a,as,List.suffix_rfl,rfl⟩
    · obtain ⟨c,rest,hsuffix,hplace⟩ := ih h
      exact ⟨c,rest,hsuffix.trans (List.suffix_cons a as),hplace⟩

theorem foundAt_eq_map (as : List α) :
    foundAt test place as=(foundAt test Prod.mk as).map fun a => place a.1 a.2 := by
  induction as with
  | nil => rfl
  | cons a as ih =>
    rw [foundAt,foundAt]
    split
    · rfl
    · exact ih

theorem foundAt_find? {γ : Type} (own : α → Bool) (place : α → List α → β) (f : β → γ) (g : α → γ) (hf : ∀ a as, f (place a as)=g a)
    (as : List α) : (foundAt (fun a _ => own a) place as).map f=(as.find? own).map g := by
  induction as with
  | nil => rfl
  | cons a as ih =>
    rw [foundAt]
    cases hown : own a with
    | true => simp [hown,hf]
    | false => simpa [hown] using ih

/-- A test that every own item passes finds the first own item when nothing else passes it before. -/
theorem foundAt_eq_iff (hown : ∀ a as, own a=true → test a as=true) {as : List α}
    (hplace : ∀ a rest b bs, a::rest <:+ as → b::bs <:+ rest → place a rest ≠ place b bs) :
    foundAt test place as=foundAt (fun a _ => own a) place as ↔ ClearOf test own as := by
  induction as with
  | nil => exact iff_of_true rfl trivial
  | cons a as ih =>
    have hrest := ih fun b rest c cs hb => hplace b rest c cs (hb.trans (List.suffix_cons a as))
    rw [foundAt,foundAt,ClearOf]
    cases ha : own a with
    | true => simp [hown a as ha]
    | false =>
      cases htest : test a as with
      | false => simpa using hrest
      | true =>
        refine iff_of_false (fun h => ?_) (by simp)
        obtain ⟨b,bs,hsuffix,hb⟩ := foundAt_suffix h.symm
        exact hplace a as b bs List.suffix_rfl hsuffix hb.symm

end Places

/-- The other end of a connection. -/
structure PortPeer where
  peerId : Option Bytes
  peerPortId : Bytes
  deriving DecidableEq

/-- An entry of a connection list, and the direction of its port, which is not in the entry. -/
structure Connection where
  nodeId : Bytes
  portId : Bytes
  peer : PortPeer
  direction : PortDirection

/-- The ports of an actor with their peers. -/
structure PrevConnections where
  inPorts : List (Bytes × PortPeer)
  outPorts : List (Bytes × PortPeer)

namespace PortPeer

variable (mp : Msgpuck) (y : PortPeer)

def items : List Doc := [.raw (y.peerId.elim mp.encodeNil mp.encodeStr),.raw (mp.encodeStr y.peerPortId)]

/-- The texts of a peer inside a message that goes on with `r`. -/
def texts (r : Bytes) : Option Text × Text :=
  (y.peerId.map fun b => ⟨b++(mp.encodeStr y.peerPortId++r),b.length⟩,
    ⟨y.peerPortId++r,y.peerPortId.length⟩)

structure Short : Prop where
  peerId : ∀ b ∈ y.peerId, b.length<2^32
  peerPortId : y.peerPortId.length<2^32

end PortPeer

/-- A decoded peer without the message around it. -/
def peerOfTexts (x : Option Text × Text) : PortPeer := ⟨x.1.map Text.content,x.2.content⟩

namespace Connection

variable (mp : Msgpuck)

def owned (direction : PortDirection) (id : Bytes) (c : Connection) : Bool :=
  decide (c.direction=direction) && decide (c.portId=id)

/-- The comparison of `cc_port_create` takes the entry for the one of the port; `q` is what
follows the id of the port in its message. -/
def taken (id q : Bytes) (c : Connection) : Bool := strncmpEq (id++q) c.portId c.portId.length

def doc (c : Connection) : Doc :=
  .array 4 (.raw (mp.encodeStr c.nodeId)::.raw (mp.encodeStr c.portId)::c.peer.items mp)

def listDoc (cs : List Connection) : Doc := .array cs.length (cs.map (doc mp))

structure Short (c : Connection) : Prop where
  nodeId : c.nodeId.length<2^32
  portId : c.portId.length<2^32
  peer : c.peer.Short

/-- The peer in the entry of the port, at its place in the list. -/
def own (direction : PortDirection) (id r : Bytes) (cs : List Connection) :
    Option (Option Text × Text) :=
  foundAt (fun c _ => c.owned direction id)
    (fun c rest => c.peer.texts mp (Doc.encodeItems mp (rest.map (doc mp))++r)) cs

end Connection

namespace PrevConnections

variable (mp : Msgpuck)

def directionKey : PortDirection → Bytes
  | .dirIn => ascii "inports"
  | .dirOut => ascii "outports"

def ports (x : PrevConnections) : PortDirection → List (Bytes × PortPeer)
  | .dirIn => x.inPorts
  | .dirOut => x.outPorts

def entry (e : Bytes × PortPeer) : Bytes × Doc := (e.1,.array 1 [.array 2 (e.2.items mp)])

def portsDoc (es : List (Bytes × PortPeer)) : Doc := .map es.length (es.map (entry mp))

def doc (x : PrevConnections) : Doc :=
  .map 2 [(ascii "inports",portsDoc mp x.inPorts),(ascii "outports",portsDoc mp x.outPorts)]

/-- What follows the ports of a direction. -/
def behind (x : PrevConnections) (r : Bytes) : PortDirection → Bytes
  | .dirIn => Doc.encodeEntries mp [(ascii "outports",portsDoc mp x.outPorts)]++r
  | .dirOut => r

/-- The lookup takes the entry for the one of the port: it starts with the id of the port, read on
over the end of its own id. -/
def taken (id r : Bytes) (e : Bytes × PortPeer) (rest : List (Bytes × PortPeer)) : Bool :=
  strncmpEq id (e.1++(Doc.encode mp (entry mp e).2++
    (Doc.encodeEntries mp (rest.map (entry mp))++r))) id.length

structure Short (x : PrevConnections) : Prop where
  count : ∀ direction, (x.ports direction).length<2^32
  ids : ∀ direction, ∀ e ∈ x.ports direction, e.1.length<2^32
  peers : ∀ direction, ∀ e ∈ x.ports direction, e.2.Short

/-- The peer in the entry of the port, at its place in the map. -/
def own (x : PrevConnections) (direction : PortDirection) (id r : Bytes) :
    Option (Option Text × Text) :=
  foundAt (fun e _ => decide (e.1=id))
    (fun e rest => e.2.texts mp (Doc.encodeEntries mp (rest.map (entry mp))++x.behind mp r direction))
    (x.ports direction)

/-- The map and the list describe the same connections. -/
def Describes (x : PrevConnections) (cs : List Connection) : Prop :=
  ∀ direction id, ((x.ports direction).find? fun e => decide (e.1=id)).map Prod.snd=
    (cs.find? (Connection.owned direction id)).map Connection.peer

end PrevConnections

section Decoding

open Coder

variable {mp : Msgpuck}

/-- Documents behind a suffix are at least as long as the suffix. -/
theorem encodeItems_suffix (mp : Msgpuck) {ds es : List Doc} (h : ds <:+ es) :
    (Doc.encodeItems mp ds).length ≤ (Doc.encodeItems mp es).length := by
  obtain ⟨front,rfl⟩ := h
  induction front with
  | nil => exact Nat.le_refl _
  | cons d front ih =>
    rw [List.cons_append,Doc.encodeItems,List.length_append]
    omega

theorem encodeEntries_suffix (mp : Msgpuck) {ds es : List (Bytes × Doc)} (h : ds <:+ es) :
    (Doc.encodeEntries mp ds).length ≤ (Doc.encodeEntries mp es).length := by
  obtain ⟨front,rfl⟩ := h
  induction front with
  | nil => exact Nat.le_refl _
  | cons d front ih =>
    obtain ⟨key,value⟩ := d
    rw [List.cons_append,Doc.encodeEntries,List.length_append,List.length_append]
    omega

variable (hmp : mp.Lawful)

include hmp

namespace PortPeer

variable {y : PortPeer} (hy : y.Short)

include hy

theorem items_valid : Doc.ItemsValid mp (y.items mp) := by
  have hid : mp.IsValue (y.peerId.elim mp.encodeNil mp.encodeStr) := by
    cases hpeer : y.peerId with
    | none => exact hmp.isValue_nil
    | some b => exact hmp.isValue_str (hy.peerId b hpeer)
  simp only [items,Doc.itemsValid_cons,Doc.valid_raw]
  exact ⟨hid,hmp.isValue_str hy.peerPortId,Doc.itemsValid_nil⟩

theorem pair_valid : Doc.Valid mp (.array 2 (y.items mp)) := by
  rw [Doc.valid_array]
  exact ⟨rfl,by decide,items_valid hmp hy⟩

/-- The first text of a peer, where a nil stands for no text. -/
theorem decode_peerId (r : Bytes) :
    decodeStr mp (y.peerId.elim mp.encodeNil mp.encodeStr++(mp.encodeStr y.peerPortId++r))=
      some (y.texts mp r).1 := by
  cases hpeer : y.peerId with
  | none => simp [decodeStr,texts,hpeer,hmp.type_nil]
  | some b =>
    have hlen := hy.peerId b hpeer
    simp [decodeStr_encode hmp hlen,texts,hpeer]

end PortPeer

namespace PrevConnections

variable {x : PrevConnections}

omit hmp in
theorem entriesValid_entries {es : List (Bytes × PortPeer)} (hids : ∀ e ∈ es, e.1.length<2^32)
    (hpeers : ∀ e ∈ es, Doc.Valid mp (entry mp e).2) :
    Doc.EntriesValid mp (es.map (entry mp)) := by
  rw [Doc.entriesValid_iff]
  intro d hd
  obtain ⟨e,he,rfl⟩ := List.mem_map.mp hd
  exact ⟨hids e he,hpeers e he⟩

theorem entry_valid {e : Bytes × PortPeer} (he : e.2.Short) : Doc.Valid mp (entry mp e).2 := by
  have hpair := PortPeer.pair_valid hmp he
  change Doc.Valid mp (.array 1 [.array 2 (e.2.items mp)])
  rw [Doc.valid_array,Doc.itemsValid_cons]
  exact ⟨rfl,by decide,hpair,Doc.itemsValid_nil⟩

variable (hx : x.Short)

include hx

theorem portsDoc_valid (direction : PortDirection) : Doc.Valid mp (portsDoc mp (x.ports direction)) := by
  rw [portsDoc,Doc.valid_map]
  refine ⟨by simp,hx.count direction,?_⟩
  exact entriesValid_entries (hx.ids direction) fun e he => entry_valid hmp (hx.peers direction e he)

theorem doc_valid : Doc.Valid mp (x.doc mp) := by
  have hin : Doc.Valid mp (portsDoc mp x.inPorts) := portsDoc_valid hmp hx .dirIn
  have hout : Doc.Valid mp (portsDoc mp x.outPorts) := portsDoc_valid hmp hx .dirOut
  rw [doc,Doc.valid_map,Doc.entriesValid_cons,Doc.entriesValid_cons]
  have hinports : (ascii "inports").length<2^32 := by decide
  have houtports : (ascii "outports").length<2^32 := by decide
  exact ⟨rfl,by decide,hinports,hin,houtports,hout,Doc.entriesValid_nil⟩

/-- The ports of a direction are found under its name. -/
theorem getValueFromMap_ports (direction : PortDirection) (r : Bytes) :
    getValueFromMap mp (Doc.encode mp (x.doc mp)++r) (directionKey direction)=
      some (some (Doc.encode mp (portsDoc mp (x.ports direction))++x.behind mp r direction)) := by
  have hd := doc_valid hmp hx
  cases direction with
  | dirIn => exact getValueFromMap_at hmp 0 hd rfl rfl r (by simp)
  | dirOut =>
    have hmiss : ∀ k ∈ [ascii "inports"],
        strncmpEq (ascii "outports") k (min (ascii "outports").length k.length)=false := by decide
    have hvalue : getValueFromMap mp (Doc.encode mp (x.doc mp)++r) (ascii "outports")=_ :=
      getValueFromMap_at hmp 1 hd rfl rfl r hmiss
    rwa [List.drop_eq_nil_of_le (by simp),Doc.encodeEntries,List.nil_append] at hvalue

omit hx in
theorem getValueFromMapLoop_ports {es : List (Bytes × PortPeer)} (hids : ∀ e ∈ es, e.1.length<2^32)
    (hpeers : ∀ e ∈ es, e.2.Short) (id q r : Bytes) :
    getValueFromMapLoop mp ⟨id++q,id.length⟩ es.length (Doc.encodeEntries mp (es.map (entry mp))++r)=
      some (foundAt (taken mp id r) (fun e rest => Doc.encode mp (entry mp e).2++
        (Doc.encodeEntries mp (rest.map (entry mp))++r)) es) := by
  induction es with
  | nil => rfl
  | cons e es ih =>
    have hlen : (entry mp e).1.length<2^32 := hids e List.mem_cons_self
    have hvalid := entry_valid hmp (hpeers e List.mem_cons_self)
    have hrest := ih (fun e he => hids e (List.mem_cons_of_mem _ he))
      fun e he => hpeers e (List.mem_cons_of_mem _ he)
    have htest : strncmpEq (id++q) ((entry mp e).1++(Doc.encode mp (entry mp e).2++
        (Doc.encodeEntries mp (es.map (entry mp))++r))) id.length=taken mp id r e es :=
      strncmpEq_append_left _ _ _ (Nat.le_refl id.length)
    rw [List.length_cons,List.map_cons,foundAt]
    cases htaken : taken mp id r e es with
    | true => exact getValueFromMapLoop_hit hmp hlen (htest.trans htaken)
    | false => exact (getValueFromMapLoop_miss hmp hlen hvalid (htest.trans htaken)).trans hrest

omit hx in
/-- The peer of an entry is decoded. -/
theorem decode_entry {e : Bytes × PortPeer} (he : e.2.Short) (r : Bytes) :
    ∃ objPeer tmpValue type, getValueFromArray mp (Doc.encode mp (entry mp e).2++r) 0=
        some (some objPeer) ∧ getValueFromArray mp objPeer 0=some (some tmpValue) ∧
      mp.typeOf tmpValue=some type ∧
      (if type=.str then decodeStr mp tmpValue else some none)=some (e.2.texts mp r).1 ∧
      decodeStringFromArray mp objPeer 1=some (some (e.2.texts mp r).2) := by
  have hpeer : getValueFromArray mp (Doc.encode mp (entry mp e).2++r) 0=
      some (some (Doc.encode mp (.array 2 (e.2.items mp))++r)) := by
    have hvalue := getValueFromArray_at hmp (entry_valid hmp he) r (i := 0) rfl
    rwa [List.drop_eq_nil_of_le (by simp),Doc.encodeItems,List.nil_append] at hvalue
  have hpair := PortPeer.pair_valid hmp he
  have hvalue : getValueFromArray mp (Doc.encode mp (.array 2 (e.2.items mp))++r) 0=
      some (some (e.2.peerId.elim mp.encodeNil mp.encodeStr++(mp.encodeStr e.2.peerPortId++r))) := by
    have hfirst := getValueFromArray_at hmp hpair r (i := 0) rfl
    simpa [PortPeer.items,Doc.encodeItems,Doc.encode] using hfirst
  have hport := decodeStringFromArray_at hmp hpair r (i := 1) (b := e.2.peerPortId) rfl he.peerPortId
  have htext := PortPeer.decode_peerId hmp he r
  cases hid : e.2.peerId with
  | none =>
    rw [hid] at hvalue
    refine ⟨_,_,.nil,hpeer,hvalue,hmp.type_nil _,?_,hport⟩
    simp [PortPeer.texts,hid]
  | some b =>
    rw [hid] at hvalue htext
    exact ⟨_,_,.str,hpeer,hvalue,hmp.type_str (he.peerId b hid) _,htext,hport⟩

/-- What `cc_port_create` finds in the previous connections. -/
theorem prevConnection_eq (direction : PortDirection) (id q r : Bytes) :
    Decode.prevConnection mp ⟨id++q,id.length⟩ direction (Doc.encode mp (x.doc mp)++r)=
      some (foundAt (taken mp id (x.behind mp r direction)) (fun e rest => e.2.texts mp
        (Doc.encodeEntries mp (rest.map (entry mp))++x.behind mp r direction))
        (x.ports direction)) := by
  have hports := getValueFromMap_ports hmp hx direction r
  have hmap := getValueFromMapN_map hmp (portsDoc_valid hmp hx direction)
    (x.behind mp r direction) ⟨id++q,id.length⟩
  rw [List.length_map,getValueFromMapLoop_ports hmp (hx.ids direction) (hx.peers direction),
    foundAt_eq_map] at hmap
  rw [foundAt_eq_map]
  unfold Decode.prevConnection
  change (getValueFromMap mp _ (directionKey direction)).bind _=_
  rw [hports,Option.bind_some]
  dsimp only
  rw [show getValueFromMapN mp (Doc.encode mp (portsDoc mp (x.ports direction))++
    x.behind mp r direction) ⟨id++q,id.length⟩=_ from hmap]
  cases hfound : foundAt (taken mp id (x.behind mp r direction)) Prod.mk (x.ports direction) with
  | none => rfl
  | some a =>
    obtain ⟨e,rest,hsuffix,rfl⟩ := foundAt_suffix hfound
    have he : e ∈ x.ports direction := hsuffix.subset List.mem_cons_self
    obtain ⟨objPeer,tmpValue,type,hpeer,hvalue,htype,htext,hport⟩ := decode_entry hmp (hx.peers direction e he)
      (Doc.encodeEntries mp (rest.map (entry mp))++x.behind mp r direction)
    simp only [Option.map_some,Option.bind_eq_bind,Option.bind_some,hpeer,hvalue,htype]
    split at htext
    · next hstr =>
      rw [if_pos hstr,htext,Option.bind_some,hport]
      rfl
    · next hstr =>
      rw [if_neg hstr,Option.pure_def,htext,Option.bind_some,hport]
      rfl

end PrevConnections

namespace Connection

theorem doc_valid {c : Connection} (hc : c.Short) : Doc.Valid mp (c.doc mp) := by
  have hitems := PortPeer.items_valid hmp hc.peer
  rw [doc,Doc.valid_array]
  refine ⟨rfl,by decide,?_⟩
  simp only [Doc.itemsValid_cons,Doc.valid_raw]
  exact ⟨hmp.isValue_str hc.nodeId,hmp.isValue_str hc.portId,hitems⟩

theorem decode_doc {c : Connection} (hc : c.Short) (r : Bytes) :
    (∃ u, decodeStringFromArray mp (Doc.encode mp (c.doc mp)++r) 1=
      some (some ⟨c.portId++u,c.portId.length⟩)) ∧
    decodeStringFromArray mp (Doc.encode mp (c.doc mp)++r) 2=some (c.peer.texts mp r).1 ∧
    decodeStringFromArray mp (Doc.encode mp (c.doc mp)++r) 3=some (some (c.peer.texts mp r).2) := by
  have hvalid := doc_valid hmp hc
  have hport := decodeStringFromArray_at hmp hvalid r (i := 1) (b := c.portId) rfl hc.portId
  have hpeerPort := decodeStringFromArray_at hmp hvalid r (i := 3) (b := c.peer.peerPortId) rfl
    hc.peer.peerPortId
  refine ⟨⟨_,hport⟩,?_,hpeerPort⟩
  have htext := PortPeer.decode_peerId hmp hc.peer r
  have hskip : skip mp 2 (Doc.encodeItems mp (.raw (mp.encodeStr c.nodeId)::
      .raw (mp.encodeStr c.portId)::c.peer.items mp)++r)=
      some (c.peer.peerId.elim mp.encodeNil mp.encodeStr++(mp.encodeStr c.peer.peerPortId++r)) := by
    have hitem := skip_items hmp hvalid r (i := 2) rfl
    simpa [PortPeer.items,Doc.encodeItems,Doc.encode] using hitem
  simp only [decodeStringFromArray,doc,Doc.encode,List.append_assoc,
    hmp.decode_array (show 4<2^32 by decide),Option.bind_eq_bind,Option.bind_some,hskip,htext]
  rfl

theorem connectionLoop_eq {cs : List Connection} (hcs : ∀ c ∈ cs, c.Short) (id q r : Bytes) :
    Decode.connectionLoop mp ⟨id++q,id.length⟩ cs.length
      (Doc.encodeItems mp (cs.map (doc mp))++r)=
        some (foundAt (fun c _ => c.taken id q) (fun c rest => c.peer.texts mp
          (Doc.encodeItems mp (rest.map (doc mp))++r)) cs) := by
  induction cs with
  | nil => rfl
  | cons c cs ih =>
    have hc := hcs c List.mem_cons_self
    have hrest := ih fun c hc => hcs c (List.mem_cons_of_mem _ hc)
    obtain ⟨⟨u,hport⟩,hpeer,hpeerPort⟩ := decode_doc hmp hc
      (Doc.encodeItems mp (cs.map (doc mp))++r)
    have htaken : strncmpEq (id++q) (c.portId++u) c.portId.length=c.taken id q :=
      strncmpEq_append_right _ _ _ (Nat.le_refl _)
    have hnext : mp.next (Doc.encode mp (c.doc mp)++(Doc.encodeItems mp (cs.map (doc mp))++r))=
        some (Doc.encodeItems mp (cs.map (doc mp))++r) := (doc_valid hmp hc).isValue hmp _
    rw [List.length_cons,List.map_cons,foundAt,Doc.encodeItems,List.append_assoc]
    cases htest : c.taken id q with
    | true => simp [Decode.connectionLoop,hport,htaken,htest,hpeer,hpeerPort]
    | false => simp [Decode.connectionLoop,hport,htaken,htest,hnext,hrest]

/-- What `cc_port_create` finds in the connection list. -/
theorem connection_eq {cs : List Connection} (hlen : cs.length<2^32) (hcs : ∀ c ∈ cs, c.Short)
    (id q r : Bytes) :
    Decode.connection mp ⟨id++q,id.length⟩ (Doc.encode mp (listDoc mp cs)++r)=
      some ((foundAt (fun c _ => c.taken id q) (fun c rest => c.peer.texts mp
        (Doc.encodeItems mp (rest.map (doc mp))++r)) cs).filter fun y => y.1.isSome) := by
  simp only [Decode.connection,listDoc,Doc.encode,List.append_assoc,hmp.decode_array hlen,
    connectionLoop_eq hmp hcs,Option.bind_eq_bind,Option.bind_some]
  cases foundAt (fun c _ => taken id q c) (fun c rest => c.peer.texts mp
      (Doc.encodeItems mp (rest.map (doc mp))++r)) cs with
  | none => rfl
  | some y =>
    obtain ⟨peerId,peerPortId⟩ := y
    cases peerId <;> rfl

end Connection

/-- The text of a peer starts inside its entry. -/
theorem texts_ne {y z : PortPeer} {u v : Bytes}
    (h : (Doc.encodeItems mp (z.items mp)).length+v.length ≤ u.length) :
    y.texts mp u ≠ z.texts mp v := by
  intro heq
  have hptr := congrArg (fun t => t.2.ptr.length) heq
  have hstr := hmp.length_str z.peerPortId
  simp only [PortPeer.texts,PortPeer.items,Doc.encodeItems,Doc.encode,List.length_append] at h hptr
  omega

theorem PrevConnections.places_ne {x : PrevConnections} {direction : PortDirection} (r : Bytes)
    (a : Bytes × PortPeer) (rest : List (Bytes × PortPeer)) (b : Bytes × PortPeer)
    (bs : List (Bytes × PortPeer)) (hb : b::bs <:+ rest) :
    a.2.texts mp (Doc.encodeEntries mp (rest.map (entry mp))++x.behind mp r direction) ≠
      b.2.texts mp (Doc.encodeEntries mp (bs.map (entry mp))++x.behind mp r direction) := by
  apply texts_ne hmp
  have hlen := encodeEntries_suffix mp (hb.map (entry mp))
  simp only [List.map_cons,Doc.encodeEntries,entry,Doc.encode,Doc.encodeItems,
    List.length_append] at hlen ⊢
  omega

theorem Connection.places_ne (r : Bytes) (a : Connection) (rest : List Connection)
    (b : Connection) (bs : List Connection) (hb : b::bs <:+ rest) :
    a.peer.texts mp (Doc.encodeItems mp (rest.map (doc mp))++r) ≠
      b.peer.texts mp (Doc.encodeItems mp (bs.map (doc mp))++r) := by
  apply texts_ne hmp
  have hlen := encodeItems_suffix mp (hb.map (doc mp))
  simp only [List.map_cons,doc,Doc.encode,Doc.encodeItems,List.length_append] at hlen ⊢
  omega

end Decoding

namespace Decode

variable (mp : Msgpuck)

/-- The peer id and the peer port id that `cc_port_create` reads. -/
def peerOf (objPort objPrevConnections : Bytes) (direction : PortDirection)
    (objConnectionList : Option Bytes) : Option (Option (Option Text × Text)) :=
  (portDescription mp objPort objPrevConnections direction objConnectionList).map
    (Option.map fun d => (d.peerId,d.peerPortId))

/-- What `cc_port_create` reads of the port itself is accepted. -/
structure AcceptsPort (objPort : Bytes) (id : Text) : Prop where
  id : Coder.decodeStringFromMap mp objPort (ascii "id")=some (some id)
  name : ∃ name, Coder.decodeStringFromMap mp objPort (ascii "name")=some (some name)
  properties : ∃ properties routing,
    Coder.getValueFromMap mp objPort (ascii "properties")=some (some properties) ∧
    Coder.decodeStringFromMap mp properties (ascii "routing")=some (some routing) ∧
    (strncmpEq (ascii "default") routing.ptr routing.len ||
      strncmpEq (ascii "fanout") routing.ptr routing.len)=true ∧
    Coder.decodeUintFromMap mp properties (ascii "nbr_peers")=some (some 1)
  queue : ∃ queue, Coder.getValueFromMap mp objPort (ascii "queue")=some queue

variable {mp} {objPort objPrevConnections : Bytes} {id : Text} {direction : PortDirection}
  {objConnectionList : Option Bytes} {type : CoderType} (h : AcceptsPort mp objPort id)
  (htype : mp.typeOf objPrevConnections=some type)

include h htype

theorem peerOf_eq : peerOf mp objPort objPrevConnections direction objConnectionList=
    if type ≠ .nil then prevConnection mp id direction objPrevConnections
    else objConnectionList.elim none (connection mp id) := by
  obtain ⟨name,hname⟩ := h.name
  obtain ⟨properties,routing,hproperties,hrouting,hkind,hpeers⟩ := h.properties
  obtain ⟨queue,hqueue⟩ := h.queue
  have hnot : (!strncmpEq (ascii "default") routing.ptr routing.len &&
      !strncmpEq (ascii "fanout") routing.ptr routing.len)=false := by
    rw [← Bool.not_or,hkind]
    rfl
  simp only [peerOf,portDescription,h.id,hname,hproperties,hrouting,hnot,hpeers,hqueue,htype,
    Option.bind_eq_bind,Option.bind_some,ne_eq,not_true_eq_false,if_false,Bool.false_eq_true]
  by_cases hnil : type=.nil
  · rw [if_neg (not_not_intro hnil),if_neg (not_not_intro hnil)]
    cases objConnectionList with
    | none => rfl
    | some list =>
      simp only [Option.elim_some]
      cases connection mp id list with
      | none => rfl
      | some peer => cases peer <;> rfl
  · rw [if_pos hnil,if_pos hnil]
    cases prevConnection mp id direction objPrevConnections with
    | none => rfl
    | some peer => cases peer <;> rfl

end Decode

/-- In front of the entry of the port the comparison takes none, and the entry has a peer id; without
an entry of the port, the first that is taken has no peer id. -/
def Connection.Clear (direction : PortDirection) (id q : Bytes) (cs : List Connection) : Prop :=
  (cs.find? (owned direction id)=none ∧ ∀ c ∈ cs.find? (taken id q), c.peer.peerId=none) ∨
  (∃ c ∈ cs.find? (owned direction id), c.peer.peerId.isSome=true) ∧
    ClearOf (fun c _ => c.taken id q) (owned direction id) cs

/-- From both descriptions, `cc_port_create` takes the peer from the entry of the port, which is the
same peer, or fails because there is none. -/
structure SamePeer (mp : Msgpuck) (objPort : Bytes) (direction : PortDirection) (id : Bytes)
    (x : PrevConnections) (cs : List Connection) (list : Option Bytes) (r r' : Bytes) : Prop where
  prevConnections : Decode.peerOf mp objPort (Doc.encode mp (x.doc mp)++r) direction list=
    some (x.own mp direction id r)
  connectionList : Decode.peerOf mp objPort (mp.encodeNil++r) direction
      (some (Doc.encode mp (Connection.listDoc mp cs)++r'))=some (Connection.own mp direction id r' cs)
  same : (x.own mp direction id r).map peerOfTexts=
    (Connection.own mp direction id r' cs).map peerOfTexts

section Agreement

variable {mp : Msgpuck} {x : PrevConnections} {cs : List Connection} {direction : PortDirection}
  {id : Bytes}

@[simp] theorem peerOfTexts_texts (y : PortPeer) (r : Bytes) : peerOfTexts (y.texts mp r)=y := by
  obtain ⟨peerId,peerPortId⟩ := y
  cases peerId with
  | none => simp [peerOfTexts,PortPeer.texts,Text.content]
  | some b => simp [peerOfTexts,PortPeer.texts,Text.content]

theorem own_same (hsame : x.Describes cs) (r r' : Bytes) :
    (x.own mp direction id r).map peerOfTexts=
      (Connection.own mp direction id r' cs).map peerOfTexts := by
  have hprev := foundAt_find? (fun e : Bytes × PortPeer => decide (e.1=id))
    (fun e rest => e.2.texts mp (Doc.encodeEntries mp
      (rest.map (PrevConnections.entry mp))++x.behind mp r direction))
    peerOfTexts Prod.snd (fun e rest => peerOfTexts_texts e.2 _) (x.ports direction)
  have hlist := foundAt_find? (Connection.owned direction id)
    (fun c rest => c.peer.texts mp (Doc.encodeItems mp (rest.map (Connection.doc mp))++r'))
    peerOfTexts Connection.peer (fun c rest => peerOfTexts_texts c.peer _) cs
  exact hprev.trans ((hsame direction id).trans hlist.symm)

theorem texts_isSome (y : PortPeer) (r : Bytes) : (y.texts mp r).1.isSome=y.peerId.isSome := by
  cases hid : y.peerId <;> simp [PortPeer.texts,hid]

/-- The entry of a connection list that is taken is the one of the port. -/
theorem connection_own_iff (hmp : mp.Lawful) (q r' : Bytes) :
    (foundAt (fun c _ => c.taken id q) (fun c rest => c.peer.texts mp
      (Doc.encodeItems mp (rest.map (Connection.doc mp))++r')) cs).filter (fun y => y.1.isSome)=
        Connection.own mp direction id r' cs ↔ Connection.Clear direction id q cs := by
  have howned : ∀ c : Connection, ∀ rest : List Connection, c.owned direction id=true →
      c.taken id q=true := by
    intro c _ hown
    rw [Connection.owned,Bool.and_eq_true,decide_eq_true_eq,decide_eq_true_eq] at hown
    rw [Connection.taken,hown.2,strncmpEq_append_left _ _ _ (Nat.le_refl _)]
    exact strncmpEq_self _ _
  have hown : _ ↔ ClearOf _ (Connection.owned direction id) cs := foundAt_eq_iff howned
    fun a rest b bs _ hb => Connection.places_ne hmp r' a rest b bs hb
  have hsome : ∀ test : Connection → Bool,
      (foundAt (fun c _ => test c) (fun c rest => c.peer.texts mp
        (Doc.encodeItems mp (rest.map (Connection.doc mp))++r')) cs).map (fun y => y.1.isSome)=
          (cs.find? test).map fun c => c.peer.peerId.isSome :=
    fun test => foundAt_find? test _ (fun y : Option Text × Text => y.1.isSome) _
      (fun c rest => texts_isSome c.peer _) cs
  have htaken := hsome fun c => c.taken id q
  have hfound := hsome (Connection.owned direction id)
  rw [Connection.Clear,← hown]
  unfold Connection.own
  generalize foundAt (fun c _ => c.taken id q) _ cs=found at htaken ⊢
  generalize foundAt (fun c _ => c.owned direction id) _ cs=own at hfound ⊢
  cases hc : cs.find? (Connection.owned direction id) with
  | none =>
    rw [hc,Option.map_none,Option.map_eq_none_iff] at hfound
    rw [hfound]
    cases found with
    | none =>
      have hnone : cs.find? (Connection.taken id q)=none := by simpa using htaken.symm
      simp [hnone]
    | some y =>
      obtain ⟨c,hc',hy⟩ := Option.map_eq_some_iff.mp htaken.symm
      simp [hc',← hy,Option.filter_some]
  | some c =>
    rw [hc] at hfound
    obtain ⟨z,rfl,hz⟩ := Option.map_eq_some_iff.mp hfound
    rw [Option.filter_eq_some_iff,hz]
    simp [and_comm]

/-- The two descriptions of the connections lead to the same peer of a port, read from the entry of
the port, exactly when no other entry is taken for it and the peer is no nil. -/
theorem connections_agree_iff (hmp : mp.Lawful) {objPort q : Bytes}
    (hport : Decode.AcceptsPort mp objPort ⟨id++q,id.length⟩) (hx : x.Short)
    (hlen : cs.length<2^32) (hcs : ∀ c ∈ cs, c.Short) (hsame : x.Describes cs)
    (direction : PortDirection) (list : Option Bytes) (r r' : Bytes) :
    SamePeer mp objPort direction id x cs list r r' ↔
      ClearOf (PrevConnections.taken mp id (x.behind mp r direction)) (fun e => decide (e.1=id))
        (x.ports direction) ∧ Connection.Clear direction id q cs := by
  have hmap : mp.typeOf (Doc.encode mp (x.doc mp)++r)=some .map := by
    rw [PrevConnections.doc,Doc.encode,List.append_assoc]
    exact hmp.type_map (by decide) _
  have hprev : Decode.peerOf mp objPort (Doc.encode mp (x.doc mp)++r) direction list=_ :=
    (Decode.peerOf_eq hport hmap).trans (PrevConnections.prevConnection_eq hmp hx direction id q r)
  have hlist : Decode.peerOf mp objPort (mp.encodeNil++r) direction
      (some (Doc.encode mp (Connection.listDoc mp cs)++r'))=_ :=
    (Decode.peerOf_eq hport (hmp.type_nil r)).trans (Connection.connection_eq hmp hlen hcs id q r')
  have howned : ∀ (e : Bytes × PortPeer) rest, decide (e.1=id)=true →
      PrevConnections.taken mp id (x.behind mp r direction) e rest=true := by
    intro e rest hown
    rw [PrevConnections.taken,of_decide_eq_true hown,strncmpEq_append_right _ _ _ (Nat.le_refl _)]
    exact strncmpEq_self _ _
  rw [← connection_own_iff hmp q r',← foundAt_eq_iff howned
    fun a rest b bs _ hb => PrevConnections.places_ne hmp r a rest b bs hb]
  constructor
  · intro h
    have hfirst := hprev.symm.trans h.prevConnections
    have hsecond := hlist.symm.trans h.connectionList
    exact ⟨Option.some.inj hfirst,Option.some.inj hsecond⟩
  · intro h
    exact ⟨hprev.trans (congrArg some h.1),hlist.trans (congrArg some h.2),own_same hsame r r'⟩

end Agreement

section Examples

/-- The map of the connections of a list. -/
def PrevConnections.ofList (cs : List Connection) : PrevConnections where
  inPorts := (cs.filter fun c => decide (c.direction=.dirIn)).map fun c => (c.portId,c.peer)
  outPorts := (cs.filter fun c => decide (c.direction=.dirOut)).map fun c => (c.portId,c.peer)

theorem PrevConnections.ofList_describes (cs : List Connection) : (ofList cs).Describes cs := by
  have hports : ∀ direction, (ofList cs).ports direction=
      (cs.filter fun c => decide (c.direction=direction)).map fun c => (c.portId,c.peer) := by
    intro direction
    cases direction <;> rfl
  intro direction id
  have htest : (fun c : Connection => decide (decide (c.direction=direction)=true ∧
      ((fun e : Bytes × PortPeer => decide (e.1=id)) ∘ fun c => (c.portId,c.peer)) c=true))=
        Connection.owned direction id := by
    funext c
    simp [Connection.owned]
  rw [hports,List.find?_map,List.find?_filter,Option.map_map,htest]
  rfl

/-- The in-port `p1` with the peer port `q1` on the node `n`, if there is one. -/
def connectionOf (id : Bytes) (peerId : Option Bytes) (peerPortId : Bytes) : Connection :=
  ⟨ascii "m",id,⟨peerId,peerPortId⟩,.dirIn⟩

theorem connectionOf_short {id peerPortId : Bytes} {peerId : Option Bytes} (hid : id.length<10)
    (hpeer : ∀ b ∈ peerId, b.length<10) (hport : peerPortId.length<10) :
    (connectionOf id peerId peerPortId).Short :=
  ⟨show (ascii "m").length<2^32 by decide,show id.length<2^32 by omega,
    fun b hb => by have hlt := hpeer b hb; omega,show peerPortId.length<2^32 by omega⟩

theorem ofList_short {cs : List Connection} (hlen : cs.length<2^32) (hcs : ∀ c ∈ cs, c.Short) :
    (PrevConnections.ofList cs).Short := by
  have hmem : ∀ direction, ∀ e ∈ (PrevConnections.ofList cs).ports direction,
      ∃ c ∈ cs, e=(c.portId,c.peer) := by
    intro direction e he
    cases direction <;>
    · obtain ⟨c,hc,rfl⟩ := List.mem_map.mp he
      exact ⟨c,(List.mem_filter.mp hc).1,rfl⟩
  constructor
  · intro direction
    have hle : ((PrevConnections.ofList cs).ports direction).length ≤ cs.length := by
      cases direction <;> exact (List.length_map _).trans_le (List.length_filter_le _ _)
    omega
  · intro direction e he
    obtain ⟨c,hc,rfl⟩ := hmem direction e he
    exact (hcs c hc).portId
  · intro direction e he
    obtain ⟨c,hc,rfl⟩ := hmem direction e he
    exact (hcs c hc).peer

/-- What a message says of the port `p1` behind its id. -/
def behindId : Bytes :=
  0xa4::ascii "name"++0xa2::ascii "in"++0xaa::ascii "properties"++0x82::0xa7::ascii "routing"++
    0xa7::ascii "default"++0xa9::ascii "nbr_peers"++[1]

def portMessage : Bytes := 0x83::0xa2::ascii "id"++0xa2::ascii "p1"++behindId

theorem portMessage_accepted : Decode.AcceptsPort msgpack portMessage
    ⟨ascii "p1"++behindId,(ascii "p1").length⟩ where
  id := by decide
  name := ⟨⟨ascii "in"++0xaa::ascii "properties"++0x82::0xa7::ascii "routing"++
    0xa7::ascii "default"++0xa9::ascii "nbr_peers"++[1],2⟩,by decide⟩
  properties := ⟨0x82::0xa7::ascii "routing"++0xa7::ascii "default"++0xa9::ascii "nbr_peers"++[1],
    ⟨ascii "default"++0xa9::ascii "nbr_peers"++[1],7⟩,by decide,by decide,by decide,by decide⟩
  queue := ⟨none,by decide⟩

/-- The port `p1` among others, where `p12` starts with its id and `p` is a start of it. -/
def connections : List Connection :=
  [connectionOf (ascii "p2") (some (ascii "n")) (ascii "q2"),
    {connectionOf (ascii "o1") (some (ascii "n")) (ascii "r1") with direction := .dirOut},
    connectionOf (ascii "p1") (some (ascii "n")) (ascii "q1"),
    connectionOf (ascii "p12") (some (ascii "n")) (ascii "q12"),connectionOf (ascii "p") none (ascii "q")]

theorem connections_agree_third :
    SamePeer msgpack portMessage .dirIn (ascii "p1") (.ofList connections) connections none [] [] := by
  have hshort : ∀ c ∈ connections, c.Short := by
    have hn : ∀ b ∈ some (ascii "n"), b.length<10 := by decide
    simp only [connections,List.forall_mem_cons]
    exact ⟨connectionOf_short (by decide) hn (by decide),
      ⟨by decide,by decide,fun b hb => by cases hb; decide,by decide⟩,
      connectionOf_short (by decide) hn (by decide),connectionOf_short (by decide) hn (by decide),
      connectionOf_short (by decide) (by decide) (by decide),by simp⟩
  refine (connections_agree_iff msgpack_lawful portMessage_accepted (ofList_short (by decide) hshort)
    (by decide) hshort (PrevConnections.ofList_describes _) _ _ _ _).mpr ⟨?_,.inr ⟨?_,?_⟩⟩
  · exact .inr ⟨by decide,.inl rfl⟩
  · exact ⟨connections[2],rfl,rfl⟩
  · exact .inr ⟨by decide,.inr ⟨by decide,.inl rfl⟩⟩

/-- The peer that `cc_port_create` reads for `p1` from the map of some connections. -/
def fromMap (cs : List Connection) : Option (Option PortPeer) :=
  (Decode.peerOf msgpack portMessage (Doc.encode msgpack ((PrevConnections.ofList cs).doc msgpack))
    .dirIn none).map (Option.map peerOfTexts)

def fromList (cs : List Connection) : Option (Option PortPeer) :=
  (Decode.peerOf msgpack portMessage msgpack.encodeNil .dirIn
    (some (Doc.encode msgpack (Connection.listDoc msgpack cs)))).map (Option.map peerOfTexts)

/-- In the list, the port `p1` gets the peer of `p`, and one without a peer id is not accepted. -/
theorem connections_disagree :
    (∀ cs, (PrevConnections.ofList cs).Describes cs) ∧
    fromMap [connectionOf (ascii "p") (some (ascii "n")) (ascii "q"),
      connectionOf (ascii "p1") (some (ascii "n")) (ascii "q1")]=
        some (some ⟨some (ascii "n"),ascii "q1"⟩) ∧
    fromList [connectionOf (ascii "p") (some (ascii "n")) (ascii "q"),
      connectionOf (ascii "p1") (some (ascii "n")) (ascii "q1")]=
        some (some ⟨some (ascii "n"),ascii "q"⟩) ∧
    fromMap [connectionOf (ascii "p1") none (ascii "q1")]=some (some ⟨none,ascii "q1"⟩) ∧
    fromList [connectionOf (ascii "p1") none (ascii "q1")]=some none := by
  exact ⟨PrevConnections.ofList_describes,by decide,by decide,by decide,by decide⟩

end Examples

end CalvinConstrained
