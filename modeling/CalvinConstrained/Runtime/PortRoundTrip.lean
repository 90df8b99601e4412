import CalvinConstrained.Runtime.Build
import CalvinConstrained.Runtime.Lookup

namespace CalvinConstrained

/-- A C string that fits a buffer of `size` bytes. -/
def CText (size : Nat) (b : Bytes) : Prop := b.length<size ∧ 0 ∉ b

instance (size : Nat) (b : Bytes) : Decidable (CText size b) :=
  inferInstanceAs (Decidable (b.length<size ∧ 0 ∉ b))

/-- The texts of a port are C strings in their buffers. -/
structure Port.Fits (x : Port) : Prop where
  id : CText uuidBufferSize x.id
  name : CText maxPortNameLength x.name
  peerId : CText uuidBufferSize x.peerId
  peerPortId : CText uuidBufferSize x.peerPortId

/-- A queue between two firings, as it is serialized. -/
structure Fifo.Settled (mp : Msgpuck) (direction : PortDirection) (f : Fifo Bytes) : Prop where
  size_pos : 1 ≤ f.size
  read_le : f.readPos ≤ f.tentativeReadPos
  tentative_le : f.tentativeReadPos ≤ f.writePos
  room : f.writePos-f.readPos<f.size
  between : direction=.dirIn → f.tentativeReadPos=f.readPos
  slots : f.tokens.length=f.size.toNat
  allocated : Atom.sizeofToken*f.size.toNat<2^32
  values : ∀ b, some b ∈ f.tokens → mp.IsValue b
  held : ∀ pos, f.readPos ≤ pos → pos<f.writePos → (f.slot pos).isSome=true

/-- What has to come back of a queue: size, positions, and the tokens between read and write
position. -/
structure Fifo.Same (f g : Fifo Bytes) : Prop where
  size : g.size=f.size
  writePos : g.writePos=f.writePos
  readPos : g.readPos=f.readPos
  tentativeReadPos : g.tentativeReadPos=f.tentativeReadPos
  tokens : ∀ pos, f.readPos ≤ pos → pos<f.writePos → g.slot pos=f.slot pos

theorem CText.lt {size : Nat} {b : Bytes} (h : CText size b) (hs : size ≤ 50) :
    b.length<2^32 := by
  have hl := h.1
  omega

theorem Text.copy_ctext {size : Nat} {b : Bytes} (h : CText size b) (r : Bytes) :
    (⟨b++r,b.length⟩ : Text).copy size=some b := by
  simp [Text.copy,h.1,cstr_of_not_mem h.2]

namespace PortDoc

variable (mp : Msgpuck)

/-- The name of the reader of a queue: the port itself, or the peer port of an out-port. -/
def reader (x : Port) : Bytes :=
  match x.direction with
  | .dirIn => x.id
  | .dirOut => x.peerPortId

def readPos (x : Port) (f : Fifo Bytes) : UInt32 :=
  match x.direction with
  | .dirIn => f.tentativeReadPos
  | .dirOut => f.readPos

def directionText (x : Port) : Bytes :=
  match x.direction with
  | .dirIn => ascii "in"
  | .dirOut => ascii "out"

def queueEntries (x : Port) (f : Fifo Bytes) : List (Bytes × Doc) :=
  [(ascii "queuetype",.raw (mp.encodeStr (ascii "fanout_fifo"))),
    (ascii "write_pos",.raw (mp.encodeUint f.writePos)),
    (ascii "readers",.array 1 [.raw (mp.encodeStr (reader x))]),
    (ascii "N",.raw (mp.encodeUint f.size)),
    (ascii "tentative_read_pos",.map 1 [(reader x,.raw (mp.encodeUint f.tentativeReadPos))]),
    (ascii "read_pos",.map 1 [(reader x,.raw (mp.encodeUint (readPos x f)))]),
    (ascii "fifo",.array f.size.toNat (f.tokens.map (Atom.tokenDoc mp)))]

theorem queue_keys (x : Port) (f : Fifo Bytes) : (queueEntries mp x f).map Prod.fst=
    [ascii "queuetype",ascii "write_pos",ascii "readers",ascii "N",ascii "tentative_read_pos",
      ascii "read_pos",ascii "fifo"] := rfl

def propertyEntries (x : Port) : List (Bytes × Doc) :=
  [(ascii "nbr_peers",.raw (mp.encodeUint 1)),
    (ascii "direction",.raw (mp.encodeStr (directionText x))),
    (ascii "routing",.raw (mp.encodeStr (ascii "default")))]

def stateEntries (x : Port) (includeState : Bool) : List (Bytes × Doc) :=
  if includeState then [(ascii "constrained_state",.raw (mp.encodeUint x.state.toUInt32))] else []

def portEntries (x : Port) (f : Fifo Bytes) (includeState : Bool) : List (Bytes × Doc) :=
  stateEntries mp x includeState++
    [(ascii "id",.raw (mp.encodeStr x.id)),
      (ascii "name",.raw (mp.encodeStr x.name)),
      (ascii "queue",.map 7 (queueEntries mp x f)),
      (ascii "properties",.map 3 (propertyEntries mp x))]

section Valid

variable {mp} (hmp : mp.Lawful) {x : Port} {f : Fifo Bytes}

include hmp

theorem valid_str {b : Bytes} (hb : b.length<2^32) : Doc.Valid mp (.raw (mp.encodeStr b)) :=
  (Doc.valid_raw _).mpr (hmp.isValue_str hb)

theorem valid_uint (n : UInt32) : Doc.Valid mp (.raw (mp.encodeUint n)) :=
  (Doc.valid_raw _).mpr (hmp.isValue_uint n)

theorem valid_nil : Doc.Valid mp (.raw mp.encodeNil) := (Doc.valid_raw _).mpr hmp.isValue_nil

omit hmp in
theorem reader_lt (hx : x.Fits) : (reader x).length<2^32 := by
  unfold reader
  split
  · exact hx.id.lt (Nat.le_refl 50)
  · exact hx.peerPortId.lt (Nat.le_refl 50)

theorem valid_token {t : Option Bytes} (ht : ∀ b, t=some b → mp.IsValue b) :
    Doc.Valid mp (Atom.tokenDoc mp t) := by
  have hdata : Doc.Valid mp (.raw (t.getD mp.encodeNil)) := by
    cases t with
    | none => exact valid_nil hmp
    | some b => exact (Doc.valid_raw b).mpr (ht b rfl)
  rw [Atom.tokenDoc,Doc.valid_map]
  refine ⟨rfl,by decide,?_⟩
  simp only [Doc.entriesValid_cons]
  exact ⟨by decide,valid_str hmp (by decide),by decide,hdata,Doc.entriesValid_nil⟩

theorem valid_tokens {direction : PortDirection} (hf : f.Settled mp direction) :
    Doc.Valid mp (.array f.size.toNat (f.tokens.map (Atom.tokenDoc mp))) := by
  rw [Doc.valid_array]
  refine ⟨by simp [hf.slots],f.size.toNat_lt,?_⟩
  rw [Doc.itemsValid_iff]
  intro d hd
  obtain ⟨t,ht,rfl⟩ := List.mem_map.mp hd
  apply valid_token hmp
  rintro b rfl
  exact hf.values b ht

theorem valid_reader (hx : x.Fits) (n : UInt32) :
    Doc.Valid mp (.map 1 [(reader x,.raw (mp.encodeUint n))]) := by
  rw [Doc.valid_map]
  refine ⟨rfl,by decide,?_⟩
  simp only [Doc.entriesValid_cons]
  exact ⟨reader_lt hx,valid_uint hmp n,Doc.entriesValid_nil⟩

theorem valid_readers (hx : x.Fits) :
    Doc.Valid mp (.array 1 [.raw (mp.encodeStr (reader x))]) := by
  rw [Doc.valid_array]
  exact ⟨rfl,by decide,by simpa only [Doc.itemsValid_cons] using
    ⟨valid_str hmp (reader_lt hx),Doc.itemsValid_nil⟩⟩

theorem valid_queue (hx : x.Fits) {direction : PortDirection} (hf : f.Settled mp direction) :
    Doc.Valid mp (.map 7 (queueEntries mp x f)) := by
  rw [Doc.valid_map]
  refine ⟨rfl,by decide,?_⟩
  simp only [queueEntries,Doc.entriesValid_cons]
  exact ⟨by decide,valid_str hmp (by decide),by decide,valid_uint hmp _,by decide,
    valid_readers hmp hx,by decide,valid_uint hmp _,by decide,valid_reader hmp hx _,by decide,
    valid_reader hmp hx _,by decide,valid_tokens hmp hf,Doc.entriesValid_nil⟩

theorem valid_properties (x : Port) : Doc.Valid mp (.map 3 (propertyEntries mp x)) := by
  have hdirection : (directionText x).length<2^32 := by
    unfold directionText
    split <;> decide
  rw [Doc.valid_map]
  refine ⟨rfl,by decide,?_⟩
  simp only [propertyEntries,Doc.entriesValid_cons]
  exact ⟨by decide,valid_uint hmp _,by decide,valid_str hmp hdirection,by decide,
    valid_str hmp (by decide),Doc.entriesValid_nil⟩

theorem valid_port (hx : x.Fits) {direction : PortDirection} (hf : f.Settled mp direction)
    (includeState : Bool) : Doc.Valid mp (.map (4+(stateEntries mp x includeState).length)
      (portEntries mp x f includeState)) := by
  have hbody : Doc.EntriesValid mp [
      (ascii "id",.raw (mp.encodeStr x.id)),
      (ascii "name",.raw (mp.encodeStr x.name)),
      (ascii "queue",.map 7 (queueEntries mp x f)),
      (ascii "properties",.map 3 (propertyEntries mp x))] := by
    simp only [Doc.entriesValid_cons]
    exact ⟨by decide,valid_str hmp (hx.id.lt (Nat.le_refl 50)),by decide,
      valid_str hmp (hx.name.lt (by decide)),by decide,valid_queue hmp hx hf,by decide,
      valid_properties hmp x,Doc.entriesValid_nil⟩
  rw [Doc.valid_map]
  cases includeState with
  | false => exact ⟨rfl,by simp [stateEntries],hbody⟩
  | true =>
    refine ⟨rfl,by simp [stateEntries],?_⟩
    have hkey : (ascii "constrained_state").length<2^32 := by decide
    exact (Doc.entriesValid_cons _ _).mpr ⟨hkey,valid_uint hmp _,hbody⟩

end Valid

section Queue

variable {mp} (hmp : mp.Lawful) {x : Port} {f : Fifo Bytes} {s : Node}
  (hs : s.host.fate.allocs=[])

omit mp in
theorem alloc_calm {s : Node} (hs : s.host.fate.allocs=[]) : Atom.alloc s=some (true,s) := by
  simp [Atom.alloc,hs]

omit mp in
theorem ofOption_some {α : Type} (a : α) (s : Node) : Atom.ofOption (some a) s=some (a,s) := rfl

/-- An empty slot comes back as nil. -/
def restoredSlot (mp : Msgpuck) (t : Option Bytes) : Option Bytes := some (t.getD mp.encodeNil)

/-- The queue moves, so its tokens are taken over. -/
def Moving (g : Fifo Bytes) : Prop := g.readPos ≠ g.tentativeReadPos ∨ g.writePos ≠ g.readPos

instance (g : Fifo Bytes) : Decidable (Moving g) := by
  unfold Moving
  infer_instance

include hmp in
theorem token_data {tokens : List (Option Bytes)} {i : Nat} {t : Option Bytes} {r : Bytes}
    (hd : Doc.Valid mp (.array tokens.length (tokens.map (Atom.tokenDoc mp))))
    (hi : tokens[i]?=some t) :
    ∃ objToken r', Coder.getValueFromArray mp
        (Doc.encode mp (.array tokens.length (tokens.map (Atom.tokenDoc mp)))++r) i=
          some (some objToken) ∧
      Coder.getValueFromMap mp objToken (ascii "data")=some (some (t.getD mp.encodeNil++r')) ∧
      mp.IsValue (t.getD mp.encodeNil) := by
  have hget : (tokens.map (Atom.tokenDoc mp))[i]?=some (Atom.tokenDoc mp t) := by
    rw [List.getElem?_map,hi]
    rfl
  have hvalid : Doc.Valid mp (Atom.tokenDoc mp t) := by
    have hitems := (Doc.itemsValid_iff _).mp ((Doc.valid_array _ _).mp hd).2.2
    exact hitems _ (List.mem_of_getElem? hget)
  have hdata : Doc.Valid mp (.raw (t.getD mp.encodeNil)) := by
    rw [Atom.tokenDoc,Doc.valid_map] at hvalid
    exact ((Doc.entriesValid_cons _ _).mp ((Doc.entriesValid_cons _ _).mp hvalid.2.2).2.2).2.1
  have harray := Coder.getValueFromArray_at hmp hd r hget
  have hkeys : ∀ type data : Doc, [(ascii "type",type),(ascii "data",data)].map Prod.fst=
      [ascii "type",ascii "data"] := fun _ _ => rfl
  have hmap := Coder.getValueFromMap_at hmp 1 hvalid (hkeys _ _) rfl
    (Doc.encodeItems mp ((tokens.map (Atom.tokenDoc mp)).drop (i+1))++r) (by decide)
  exact ⟨_,_,harray,hmap,(Doc.valid_raw _).mp hdata⟩

include hmp hs in
theorem fifoTokens_eq {tokens : List (Option Bytes)} {r : Bytes}
    (hd : Doc.Valid mp (.array tokens.length (tokens.map (Atom.tokenDoc mp)))) (n i : Nat)
    (hn : i+n=tokens.length) (g : Fifo Bytes) (hg : g.tokens.length=tokens.length) :
    Atom.fifoTokens mp (Doc.encode mp (.array tokens.length (tokens.map (Atom.tokenDoc mp)))++r)
      g n i s=some (some (if Moving g then
        {g with tokens := g.tokens.take i++(tokens.drop i).map (restoredSlot mp)} else g),s) := by
  induction n generalizing i g with
  | zero =>
    have hi : i=tokens.length := by omega
    have htake : g.tokens.take i=g.tokens := by rw [hi,← hg,List.take_length]
    have hdrop : tokens.drop i=[] := by rw [hi,List.drop_length]
    simp [Atom.fifoTokens,htake,hdrop]
  | succ n ih =>
    have hlt : i<tokens.length := by omega
    have hi : tokens[i]?=some tokens[i] := List.getElem?_eq_getElem hlt
    obtain ⟨objToken,r',harray,hmap,hvalue⟩ := token_data hmp (r := r) hd hi
    rw [Atom.fifoTokens]
    simp only [Atom.bind_apply,Atom.ofOption,harray,hmap,Option.map_some,Option.bind_some]
    by_cases hm : Moving g
    · let g' : Fifo Bytes := {g with tokens := g.tokens.set i (some (tokens[i].getD mp.encodeNil))}
      have hm' : Moving g' := hm
      have hset : g'.tokens.length=tokens.length := by simp [g',hg]
      have hrest : g'.tokens.take (i+1)++(tokens.drop (i+1)).map (restoredSlot mp)=
          g.tokens.take i++(tokens.drop i).map (restoredSlot mp) := by
        have hlen : i<g.tokens.length := by omega
        rw [List.drop_eq_getElem_cons hlt,List.map_cons]
        simp [g',List.take_add_one,hlen,restoredSlot,List.take_set_of_le]
      have hslot : ¬g.tokens.length ≤ i := by omega
      have hi' := ih (i+1) (by omega) g' hset
      rw [if_pos hm',hrest] at hi'
      rw [if_pos hm]
      unfold Moving at hm
      rw [if_pos hm]
      simpa [Atom.bind_apply,Coder.getSizeOfValue_eq hvalue,ofOption_some,alloc_calm hs,hslot]
        using hi'
    · have hi' := ih (i+1) (by omega) g hg
      rw [if_neg hm] at hi'
      rw [if_neg hm]
      unfold Moving at hm
      rw [if_neg hm]
      exact hi'

/-- The queue that comes back. -/
def restoredFifo (mp : Msgpuck) (f : Fifo Bytes) : Fifo Bytes :=
  {f with tokens := if Moving f then f.tokens.map (restoredSlot mp)
    else List.replicate f.size.toNat none}

omit mp in
theorem reader_ctext (hx : x.Fits) : 0 ∉ reader x := by
  unfold reader
  split
  · exact hx.id.2
  · exact hx.peerPortId.2

include hmp in
theorem decode_reader (hx : x.Fits) (n : UInt32) (r : Bytes) :
    Coder.decodeUintFromMap mp (Doc.encode mp (.map 1 [(reader x,.raw (mp.encodeUint n))])++r)
      (reader x)=some (some n) :=
  Coder.decodeUintFromMap_at hmp 0 (valid_reader hmp hx n) rfl rfl r rfl (by simp)

include hmp hs in
theorem fifoRestore_eq (hx : x.Fits) (hf : f.Settled mp x.direction) (r : Bytes) :
    Atom.fifoRestore mp (Doc.encode mp (.map 7 (queueEntries mp x f))++r) (.init f.size) s=
      some (some (restoredFifo mp f),s) := by
  have hq := valid_queue hmp hx hf
  have hread : readPos x f=f.readPos := by
    unfold readPos
    split
    · next hdir => exact hf.between hdir
    · rfl
  have hkeys := queue_keys mp x f
  have hwrite := Coder.decodeUintFromMap_at hmp 1 hq hkeys rfl r rfl (by decide)
  have htentative := Coder.getValueFromMap_at hmp 4 hq hkeys rfl r (by decide)
  have hreaders := Coder.getValueFromMap_at hmp 2 hq hkeys rfl r (by decide)
  have hreadPos := Coder.getValueFromMap_at hmp 5 hq hkeys rfl r (by decide)
  have hfifo := Coder.getValueFromMap_at hmp 6 hq hkeys rfl r (by decide)
  have hreader := fun r => Coder.decodeStringFromArray_at hmp (valid_readers hmp hx) r
    (show [Doc.raw (mp.encodeStr (reader x))][0]?=some (.raw (mp.encodeStr (reader x))) from rfl)
    (reader_lt hx)
  have hname : (reader x).length+1<2^32 := by
    have hid := hx.id.1
    have hpeer := hx.peerPortId.1
    have hbuffer : uuidBufferSize=50 := rfl
    unfold reader
    split <;> omega
  have hslots := hf.slots
  have hsize := fun r => Coder.getSizeOfArray_eq hmp (valid_tokens hmp hf) r
  have hvalid : Doc.Valid mp (.array f.tokens.length (f.tokens.map (Atom.tokenDoc mp))) := by
    rw [hf.slots]
    exact valid_tokens hmp hf
  have htokens := fun r => fifoTokens_eq hmp hs (r := r) hvalid f.tokens.length 0 (by omega)
  rw [hf.slots] at htokens
  simp only [Atom.fifoRestore,Atom.bind_apply,hwrite,htentative,hreaders,hreader,ofOption_some,
    Option.bind_some,alloc_calm hs,List.take_left',cstr_of_not_mem (reader_ctext hx),
    decode_reader hmp hx,hreadPos,hread,Atom.fifoReadPos,Option.isSome_some,if_true,hfifo,
    Atom.fifoTokensFrom,hsize,Bool.not_true,Bool.false_eq_true,if_false,Option.getD_some,
    if_neg (Nat.not_le.mpr hname)]
  rw [htokens _ _ (by simp [Fifo.init])]
  by_cases hm : Moving f
  · have hm' : Moving {Fifo.init f.size with
        writePos := f.writePos
        readPos := f.readPos
        tentativeReadPos := f.tentativeReadPos} := hm
    rw [if_pos hm']
    simp [restoredFifo,hm,Fifo.init]
  · have hm' : ¬Moving {Fifo.init f.size with
        writePos := f.writePos
        readPos := f.readPos
        tentativeReadPos := f.tentativeReadPos} := hm
    rw [if_neg hm']
    simp [restoredFifo,hm,Fifo.init]

include hmp hs in
theorem fifoInit_eq (hx : x.Fits) (hf : f.Settled mp x.direction) (properties r : Bytes) :
    Atom.fifoInit mp Atom.sizeofToken (some (Doc.encode mp (.map 7 (queueEntries mp x f))++r))
      properties s=some (some (restoredFifo mp f),s) := by
  have hq := valid_queue hmp hx hf
  have hkeys := queue_keys mp x f
  have halloc : Atom.fifoAlloc Atom.sizeofToken f.size s=some (some (Fifo.init f.size),s) := by
    have hwhole := Nat.mod_eq_of_lt hf.allocated
    simp only [Atom.fifoAlloc,Atom.bind_apply,alloc_calm hs,Option.bind_some,hwhole,Nat.lt_irrefl,
      Bool.not_true,Bool.false_eq_true,if_false]
    rfl
  have htype := Coder.decodeStringFromMap_at hmp 0 hq hkeys rfl r rfl (by decide) (by decide)
  have hsize := Coder.decodeUintFromMap_at hmp 3 hq hkeys rfl r rfl (by decide)
  have hfanout : ∀ r, strncmpEq (ascii "fanout_fifo") (ascii "fanout_fifo"++r)
      (ascii "fanout_fifo").length=true := by
    intro r
    rw [strncmpEq_append_right _ _ _ (Nat.le_refl _)]
    exact strncmpEq_self _ _
  simp only [Atom.fifoInit,Atom.bind_apply,alloc_calm hs,htype,hsize,ofOption_some,Option.bind_some,
    hfanout,halloc,Bool.not_true,Bool.false_eq_true,if_false]
  exact fifoRestore_eq hmp hs hx hf r

/-- The queue that comes back is the one that was written. -/
theorem restoredFifo_same {direction : PortDirection} (hf : f.Settled mp direction) :
    f.Same (restoredFifo mp f) where
  size := rfl
  writePos := rfl
  readPos := rfl
  tentativeReadPos := rfl
  tokens := by
    intro pos hread hwrite
    have hm : Moving f := by
      right
      intro heq
      rw [heq] at hwrite
      exact absurd hread (UInt32.not_le.mpr hwrite)
    obtain ⟨b,hb⟩ := Option.isSome_iff_exists.mp (hf.held pos hread hwrite)
    have hslot : f.tokens[f.index pos]?=some (some b) := Option.join_eq_some_iff.mp hb
    have hindex : (restoredFifo mp f).index pos=f.index pos := rfl
    rw [hb,Fifo.slot,hindex]
    simp [restoredFifo,hm,hslot,restoredSlot]

end Queue

section Previous

/-- What `cc_actor_serialize` writes under `prev_connections`. -/
def prevDoc (inPorts outPorts : List Port) : Doc :=
  .map 2 [
    (ascii "inports",.map inPorts.length (inPorts.map (Atom.portSerializePrevConnections mp))),
    (ascii "outports",.map outPorts.length (outPorts.map (Atom.portSerializePrevConnections mp)))]

/-- The first port whose entry starts with an id, read on over the end of its own id; `r` is
what follows the entries. -/
def firstEntry (id r : Bytes) : List Port → Option Port
  | [] => none
  | y::ys =>
    let entry := Atom.portSerializePrevConnections mp y
    if strncmpEq id (entry.1++(Doc.encode mp entry.2++
        (Doc.encodeEntries mp (ys.map (Atom.portSerializePrevConnections mp))++r))) id.length then
      some y
    else firstEntry id r ys

theorem firstEntry_isSome {x : Port} {ports : List Port} (hx : x ∈ ports) (r : Bytes) :
    (firstEntry mp x.id r ports).isSome=true := by
  induction ports with
  | nil => cases hx
  | cons y ys ih =>
    rw [firstEntry]
    split_ifs with hmatch
    · rfl
    · rcases List.mem_cons.mp hx with rfl | hx
      · exfalso
        apply hmatch
        change strncmpEq x.id (x.id++_) x.id.length=true
        rw [strncmpEq_append_right _ _ _ (Nat.le_refl _)]
        exact strncmpEq_self _ _
      · exact ih hx

variable {mp} (hmp : mp.Lawful)

/-- The peer of a port as it is decoded: the copies of the two texts. -/
def Names (peer : Option Text × Text) (y : Port) : Prop :=
  (∀ s, Atom.textCopy peer.1 s=some (y.peerId,s)) ∧
  peer.2.copy uuidBufferSize=some y.peerPortId ∧
  peer.1.elim 0 Text.len=y.peerId.length

include hmp

theorem valid_prev {y : Port} (hy : y.Fits) :
    Doc.Valid mp (Atom.portSerializePrevConnections mp y).2 := by
  have hpeer : Doc.Valid mp
      (.raw (if y.peerId.length=0 then mp.encodeNil else mp.encodeStr y.peerId)) := by
    split
    · exact valid_nil hmp
    · exact valid_str hmp (hy.peerId.lt (Nat.le_refl 50))
  have hport := valid_str hmp (hy.peerPortId.lt (Nat.le_refl 50))
  simp only [Atom.portSerializePrevConnections,Doc.valid_array,Doc.itemsValid_cons]
  exact ⟨rfl,by decide,⟨rfl,by decide,hpeer,hport,Doc.itemsValid_nil⟩,Doc.itemsValid_nil⟩

theorem valid_prevs {ports : List Port} (hports : ∀ y ∈ ports, y.Fits)
    (hlen : ports.length<2^32) :
    Doc.Valid mp (.map ports.length (ports.map (Atom.portSerializePrevConnections mp))) := by
  rw [Doc.valid_map,Doc.entriesValid_iff]
  refine ⟨by simp,hlen,?_⟩
  intro e he
  obtain ⟨y,hy,rfl⟩ := List.mem_map.mp he
  exact ⟨(hports y hy).id.lt (Nat.le_refl 50),valid_prev hmp (hports y hy)⟩

/-- The lookup by port id finds the first entry that starts with it. -/
theorem getValueFromMapLoop_prev {id r : Bytes} {ports : List Port}
    (hports : ∀ y ∈ ports, y.Fits) {y : Port} (hy : firstEntry mp id r ports=some y) (rest : Bytes) :
    ∃ r', Coder.getValueFromMapLoop mp ⟨id++rest,id.length⟩ ports.length
      (Doc.encodeEntries mp (ports.map (Atom.portSerializePrevConnections mp))++r)=
        some (some (Doc.encode mp (Atom.portSerializePrevConnections mp y).2++r')) := by
  induction ports with
  | nil => simp [firstEntry] at hy
  | cons z zs ih =>
    have hz := hports z (by simp)
    have hcompare : ∀ b, strncmpEq (id++rest) b id.length=strncmpEq id b id.length :=
      fun b => strncmpEq_append_left _ _ _ (Nat.le_refl _)
    rw [firstEntry] at hy
    split_ifs at hy with hmatch
    · obtain rfl := Option.some.inj hy
      exact ⟨_,Coder.getValueFromMapLoop_hit hmp (hz.id.lt (Nat.le_refl 50))
        ((hcompare _).trans hmatch)⟩
    · rw [Bool.not_eq_true] at hmatch
      obtain ⟨r',hr⟩ := ih (fun y hy => hports y (by simp [hy])) hy
      exact ⟨r',(Coder.getValueFromMapLoop_miss hmp (hz.id.lt (Nat.le_refl 50))
        (valid_prev hmp hz) ((hcompare _).trans hmatch)).trans hr⟩

/-- The peer id of an entry, which is nil where the port has none. -/
theorem decode_peerId {y : Port} (hy : y.Fits) (r : Bytes) :
    ∃ type peerId,
      mp.typeOf ((if y.peerId.length=0 then mp.encodeNil else mp.encodeStr y.peerId)++r)=
        some type ∧
      (if type=.str then
        Coder.decodeStr mp ((if y.peerId.length=0 then mp.encodeNil else mp.encodeStr y.peerId)++r)
      else pure none)=some peerId ∧
      (∀ s, Atom.textCopy peerId s=some (y.peerId,s)) ∧
      peerId.elim 0 Text.len=y.peerId.length := by
  by_cases hempty : y.peerId.length=0
  · have hnil : y.peerId=[] := List.eq_nil_of_length_eq_zero hempty
    refine ⟨.nil,none,?_,rfl,?_,?_⟩
    · simp [hnil,hmp.type_nil]
    · simp [Atom.textCopy,hnil]
    · simp [hnil]
  · have hlt := hy.peerId.lt (Nat.le_refl 50)
    rw [if_neg hempty]
    refine ⟨.str,some ⟨y.peerId++r,y.peerId.length⟩,hmp.type_str hlt r,?_,?_,rfl⟩
    · simp [Coder.decodeStr_encode hmp hlt]
    · intro s
      simp [Atom.textCopy,Text.copy_ctext hy.peerId,ofOption_some]

/-- The two texts of an entry are decoded as they were written. -/
theorem decode_entry {y : Port} (hy : y.Fits) (r : Bytes) :
    ∃ objPeer tmpValue type peer,
      Coder.getValueFromArray mp (Doc.encode mp (Atom.portSerializePrevConnections mp y).2++r) 0=
        some (some objPeer) ∧
      Coder.getValueFromArray mp objPeer 0=some (some tmpValue) ∧
      mp.typeOf tmpValue=some type ∧
      (if type=.str then Coder.decodeStr mp tmpValue else pure none)=some peer.1 ∧
      Coder.decodeStringFromArray mp objPeer 1=some (some peer.2) ∧ Names peer y := by
  have hlt := hy.peerPortId.lt (Nat.le_refl 50)
  have hvalid := valid_prev hmp hy
  simp only [Atom.portSerializePrevConnections] at hvalid ⊢
  have hinner := ((Doc.itemsValid_cons _ _).mp ((Doc.valid_array _ _).mp hvalid).2.2).1
  have hpeer := Coder.getValueFromArray_at hmp hvalid r (i := 0) rfl
  have hvalue := fun r => Coder.getValueFromArray_at hmp hinner r (i := 0) rfl
  have hport := fun r => Coder.decodeStringFromArray_at hmp hinner r (i := 1) rfl hlt
  obtain ⟨type,peerId,htype,hid,hcopy,hlen⟩ := decode_peerId hmp hy
    (Doc.encodeItems mp [.raw (mp.encodeStr y.peerPortId)]++(Doc.encodeItems mp []++r))
  exact ⟨_,_,type,(peerId,⟨y.peerPortId++_,y.peerPortId.length⟩),hpeer,hvalue _,htype,hid,hport _,
    hcopy,Text.copy_ctext hy.peerPortId _,hlen⟩

/-- The port whose entry is taken for a port with this id. -/
def prevEntry (mp : Msgpuck) (direction : PortDirection) (inPorts outPorts : List Port)
    (id r : Bytes) : Option Port :=
  match direction with
  | .dirIn => firstEntry mp id (Doc.encodeEntries mp [(ascii "outports",.map outPorts.length
      (outPorts.map (Atom.portSerializePrevConnections mp)))]++r) inPorts
  | .dirOut => firstEntry mp id r outPorts

theorem valid_prevDoc {inPorts outPorts : List Port} (hin : ∀ y ∈ inPorts, y.Fits)
    (hout : ∀ y ∈ outPorts, y.Fits) (hlen : inPorts.length<2^32 ∧ outPorts.length<2^32) :
    Doc.Valid mp (prevDoc mp inPorts outPorts) := by
  rw [prevDoc,Doc.valid_map]
  refine ⟨rfl,by decide,?_⟩
  simp only [Doc.entriesValid_cons]
  exact ⟨by decide,valid_prevs hmp hin hlen.1,by decide,valid_prevs hmp hout hlen.2,
    Doc.entriesValid_nil⟩

theorem prevConnection_eq {direction : PortDirection} {inPorts outPorts : List Port}
    (hin : ∀ y ∈ inPorts, y.Fits) (hout : ∀ y ∈ outPorts, y.Fits)
    (hlen : inPorts.length<2^32 ∧ outPorts.length<2^32) {id r : Bytes} {y : Port}
    (hy : prevEntry mp direction inPorts outPorts id r=some y) (hfits : y.Fits) (rest : Bytes) :
    ∃ peer, Decode.prevConnection mp ⟨id++rest,id.length⟩ direction
      (Doc.encode mp (prevDoc mp inPorts outPorts)++r)=some (some peer) ∧ Names peer y := by
  have hvalid := valid_prevDoc hmp hin hout hlen
  have hkeys : ∀ inDoc outDoc : Doc, [(ascii "inports",inDoc),(ascii "outports",outDoc)].map
      Prod.fst=[ascii "inports",ascii "outports"] := fun _ _ => rfl
  cases direction with
  | dirIn =>
    have hmap := Coder.getValueFromMap_at hmp 0 hvalid (hkeys _ _) rfl r (by decide)
    have hentries := Coder.getValueFromMapN_map hmp (valid_prevs hmp hin hlen.1)
    obtain ⟨r',hentry⟩ := getValueFromMapLoop_prev hmp hin hy rest
    obtain ⟨objPeer,tmpValue,type,peer,h1,h2,h3,h4,h5,hnames⟩ := decode_entry hmp hfits r'
    refine ⟨peer,?_,hnames⟩
    rw [List.drop_one,List.tail_cons] at hmap
    by_cases hstr : type=.str
    · rw [if_pos hstr] at h4
      simp [Decode.prevConnection,prevDoc,hmap,hentries,hentry,h1,h2,h3,h4,h5,hstr]
    · rw [if_neg hstr] at h4
      have hnone : none=peer.1 := Option.some.inj h4
      simp [Decode.prevConnection,prevDoc,hmap,hentries,hentry,h1,h2,h3,hnone,h5,hstr]
  | dirOut =>
    have hmap := Coder.getValueFromMap_at hmp 1 hvalid (hkeys _ _) rfl r (by decide)
    have hentries := Coder.getValueFromMapN_map hmp (valid_prevs hmp hout hlen.2)
    obtain ⟨r',hentry⟩ := getValueFromMapLoop_prev hmp hout hy rest
    obtain ⟨objPeer,tmpValue,type,peer,h1,h2,h3,h4,h5,hnames⟩ := decode_entry hmp hfits r'
    refine ⟨peer,?_,hnames⟩
    simp only [List.drop_succ_cons,List.drop_nil,Doc.encodeEntries,List.nil_append] at hmap
    by_cases hstr : type=.str
    · rw [if_pos hstr] at h4
      simp [Decode.prevConnection,prevDoc,hmap,hentries,hentry,h1,h2,h3,h4,h5,hstr]
    · rw [if_neg hstr] at h4
      have hnone : none=peer.1 := Option.some.inj h4
      simp [Decode.prevConnection,prevDoc,hmap,hentries,hentry,h1,h2,h3,hnone,h5,hstr]

end Previous

section Description

variable {mp} (hmp : mp.Lawful) {x y : Port} {f : Fifo Bytes}

/-- What `cc_port_create` reads of a port that was written: its own texts, its queue and the
peer of `y`. -/
structure Describes (mp : Msgpuck) (x y : Port) (f : Fifo Bytes) (d : PortDescription) : Prop where
  id : d.id.copy uuidBufferSize=some x.id
  name : d.name.copy maxPortNameLength=some x.name
  peer : Names (d.peerId,d.peerPortId) y
  queue : ∃ r, d.queue=some (Doc.encode mp (.map 7 (queueEntries mp x f))++r)

/-- A port as it is written. -/
def portDoc (mp : Msgpuck) (x : Port) (f : Fifo Bytes) (includeState : Bool) : Doc :=
  .map (4+(stateEntries mp x includeState).length) (portEntries mp x f includeState)

def stateKeys (includeState : Bool) : List Bytes :=
  if includeState then [ascii "constrained_state"] else []

theorem port_keys (x : Port) (f : Fifo Bytes) (includeState : Bool) :
    (portEntries mp x f includeState).map Prod.fst=
      stateKeys includeState++[ascii "id",ascii "name",ascii "queue",ascii "properties"] := by
  cases includeState <;> rfl

include hmp

theorem port_fields (hx : x.Fits) (hf : f.Settled mp x.direction) (includeState : Bool)
    (r : Bytes) :
    ∃ rid rname rqueue rproperties,
      Coder.decodeStringFromMap mp (Doc.encode mp (portDoc mp x f includeState)++r) (ascii "id")=
        some (some ⟨x.id++rid,x.id.length⟩) ∧
      Coder.decodeStringFromMap mp (Doc.encode mp (portDoc mp x f includeState)++r)
        (ascii "name")=some (some ⟨x.name++rname,x.name.length⟩) ∧
      Coder.getValueFromMap mp (Doc.encode mp (portDoc mp x f includeState)++r) (ascii "queue")=
        some (some (Doc.encode mp (.map 7 (queueEntries mp x f))++rqueue)) ∧
      Coder.getValueFromMap mp (Doc.encode mp (portDoc mp x f includeState)++r)
        (ascii "properties")=
          some (some (Doc.encode mp (.map 3 (propertyEntries mp x))++rproperties)) := by
  have hd := valid_port hmp hx hf includeState
  have hkeys := @port_keys mp x f includeState
  have hid := hx.id.lt (Nat.le_refl 50)
  have hname := hx.name.lt (by decide)
  cases includeState with
  | false =>
    exact ⟨_,_,_,_,Coder.decodeStringFromMap_at hmp 0 hd hkeys rfl r rfl hid (by decide),
      Coder.decodeStringFromMap_at hmp 1 hd hkeys rfl r rfl hname (by decide),
      Coder.getValueFromMap_at hmp 2 hd hkeys rfl r (by decide),
      Coder.getValueFromMap_at hmp 3 hd hkeys rfl r (by decide)⟩
  | true =>
    exact ⟨_,_,_,_,Coder.decodeStringFromMap_at hmp 1 hd hkeys rfl r rfl hid (by decide),
      Coder.decodeStringFromMap_at hmp 2 hd hkeys rfl r rfl hname (by decide),
      Coder.getValueFromMap_at hmp 3 hd hkeys rfl r (by decide),
      Coder.getValueFromMap_at hmp 4 hd hkeys rfl r (by decide)⟩

theorem portDescription_eq (hx : x.Fits) (hf : f.Settled mp x.direction)
    {inPorts outPorts : List Port} (hin : ∀ y ∈ inPorts, y.Fits) (hout : ∀ y ∈ outPorts, y.Fits)
    (hlen : inPorts.length<2^32 ∧ outPorts.length<2^32) {r : Bytes}
    (hy : prevEntry mp x.direction inPorts outPorts x.id r=some y) (hfits : y.Fits)
    (includeState : Bool) (r' : Bytes) :
    ∃ d, Decode.portDescription mp (Doc.encode mp (portDoc mp x f includeState)++r')
        (Doc.encode mp (prevDoc mp inPorts outPorts)++r) x.direction none=some (some d) ∧
      Describes mp x y f d := by
  obtain ⟨rid,rname,rqueue,rproperties,hid,hname,hqueue,hproperties⟩ :=
    port_fields hmp hx hf includeState r'
  obtain ⟨peer,hpeer,hnames⟩ := prevConnection_eq hmp hin hout hlen hy hfits rid
  have hp := valid_properties hmp x
  have hkeys : (propertyEntries mp x).map Prod.fst=
      [ascii "nbr_peers",ascii "direction",ascii "routing"] := rfl
  have hrouting := Coder.decodeStringFromMap_at hmp 2 hp hkeys rfl rproperties rfl (by decide)
    (by decide)
  have hpeers := Coder.decodeUintFromMap_at hmp 0 hp hkeys rfl rproperties rfl (by decide)
  have hdefault : ∀ r, strncmpEq (ascii "default") (ascii "default"++r)
      (ascii "default").length=true := by
    intro r
    rw [strncmpEq_append_right _ _ _ (Nat.le_refl _)]
    exact strncmpEq_self _ _
  have htype : mp.typeOf (Doc.encode mp (prevDoc mp inPorts outPorts)++r)=some .map := by
    simp [prevDoc,Doc.encode,hmp.type_map]
  refine ⟨⟨_,_,peer.1,peer.2,_,Doc.encode mp (.map 3 (propertyEntries mp x))++rproperties⟩,?_,
    Text.copy_ctext hx.id rid,Text.copy_ctext hx.name rname,hnames,rqueue,rfl⟩
  simp [Decode.portDescription,hid,hname,hproperties,hrouting,hdefault,hpeers,hqueue,htype,hpeer]

end Description

end PortDoc

end CalvinConstrained
