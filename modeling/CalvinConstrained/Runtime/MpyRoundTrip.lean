import CalvinConstrained.Runtime.MpyCommon

namespace CalvinConstrained

namespace PyObj

mutual

/-- `p` holds of the object and of all objects in it. -/
def Every (p : PyObj → Prop) : PyObj → Prop
  | .list items => p (.list items) ∧ EveryItem p items
  | .dict entries => p (.dict entries) ∧ EveryEntry p entries
  | v => p v

def EveryItem (p : PyObj → Prop) : List PyObj → Prop
  | [] => True
  | item::items => Every p item ∧ EveryItem p items

def EveryEntry (p : PyObj → Prop) : List (PyObj × PyObj) → Prop
  | [] => True
  | (key,value)::entries => Every p key ∧ Every p value ∧ EveryEntry p entries

end

mutual

def depth : PyObj → Nat
  | .list items => depthItems items+1
  | .dict entries => depthEntries entries+1
  | _ => 1

def depthItems : List PyObj → Nat
  | [] => 0
  | item::items => max (depth item) (depthItems items)

def depthEntries : List (PyObj × PyObj) → Nat
  | [] => 0
  | (key,value)::entries => max (max (depth key) (depth value)) (depthEntries entries)

end

mutual

/-- The object as one MessagePack value, with integers taken as unsigned. -/
def encoding (mp : MsgpuckScalars) : PyObj → Bytes
  | .none => mp.encodeNil
  | .bool b => mp.encodeBool b
  | .int i => mp.encodeUint (UInt32.ofInt i)
  | .str s => mp.encodeStr s
  | .bytes b => mp.encodeBin b
  | .list items => mp.encodeArray items.length++encodingItems mp items
  | .dict entries => mp.encodeMap entries.length++encodingEntries mp entries
  | .float _ => []
  | .other => []

def encodingItems (mp : MsgpuckScalars) : List PyObj → Bytes
  | [] => []
  | item::items => encoding mp item++encodingItems mp items

def encodingEntries (mp : MsgpuckScalars) : List (PyObj × PyObj) → Bytes
  | [] => []
  | (key,value)::entries =>
    encoding mp key++(encoding mp value++encodingEntries mp entries)

end

mutual

/-- Bytes come only behind a value that takes as much room; `last` is the size reported last. -/
def SizesKnown (mp : MsgpuckScalars) : Option Nat → PyObj → Prop
  | last,.bytes b => last=some (mp.encodeBin b).length
  | last,.list items => SizesKnownItems mp last items
  | last,.dict entries => SizesKnownEntries mp last entries
  | _,_ => True

def SizesKnownItems (mp : MsgpuckScalars) : Option Nat → List PyObj → Prop
  | _,[] => True
  | last,item::items =>
    SizesKnown mp last item ∧ SizesKnownItems mp (some (encoding mp item).length) items

def SizesKnownEntries (mp : MsgpuckScalars) : Option Nat → List (PyObj × PyObj) → Prop
  | _,[] => True
  | last,(key,value)::entries =>
    SizesKnown mp last key ∧ SizesKnown mp (some (encoding mp key).length) value ∧
      SizesKnownEntries mp (some (encoding mp value).length) entries

end

/-- None, a boolean, a 32 bit integer, a string without NUL, bytes, a list or a dict, whose keys can
be hashed and differ; a length is a 32 bit number, as in MessagePack. -/
def IsPlain (py : MicroPython) : PyObj → Prop
  | .int i => -2^31 ≤ i ∧ i<2^31
  | .str s => 0 ∉ s ∧ s.length<2^32
  | .bytes b => b.length<2^32
  | .list items => items.length<2^32
  | .dict entries => entries.length<2^32 ∧ (∀ e ∈ entries, e.1.hashable=true) ∧
      entries.Pairwise fun e f => py.equal e.1 f.1=false
  | .float _ => False
  | .other => False
  | _ => True

/-- No integer that is not a small one. -/
def IsSmall (py : MicroPython) : PyObj → Prop
  | .int i => py.isSmallInt i=true
  | _ => True

/-- No negative integer. -/
def IsNatural : PyObj → Prop
  | .int i => 0 ≤ i
  | _ => True

theorem everyItem_append {p : PyObj → Prop} {items rest : List PyObj} :
    EveryItem p (items++rest) ↔ EveryItem p items ∧ EveryItem p rest := by
  induction items with
  | nil => simp [EveryItem]
  | cons item items ih => simp [EveryItem,ih,and_assoc]

theorem everyEntry_iff {p : PyObj → Prop} {entries : List (PyObj × PyObj)} :
    EveryEntry p entries ↔ ∀ e ∈ entries, Every p e.1 ∧ Every p e.2 := by
  induction entries with
  | nil => simp [EveryEntry]
  | cons e entries ih => simp [EveryEntry,ih,and_assoc]

end PyObj

namespace Memory

theorem write_nil (mem : Memory) (pos : Nat) : mem.write pos []=mem := by
  funext i
  have hout : ¬(pos ≤ i ∧ i<pos+0) := by omega
  exact if_neg hout

/-- A write behind another one. -/
theorem write_append (mem : Memory) (pos : Nat) (a b : Bytes) :
    (mem.write pos a).write (pos+a.length) b=mem.write pos (a++b) := by
  funext i
  simp only [write,List.length_append]
  by_cases hlow : pos ≤ i ∧ i<pos+a.length
  · rw [if_neg (by omega),if_pos hlow,if_pos (by omega),List.getD_append _ _ _ _ (by omega)]
  · by_cases hhigh : pos+a.length ≤ i ∧ i<pos+a.length+b.length
    · rw [if_pos hhigh,if_pos (by omega),List.getD_append_right _ _ _ _ (by omega)]
      congr 1
      omega
    · rw [if_neg hhigh,if_neg hlow,if_neg (by omega)]

/-- What was written can be read back. -/
theorem write_inj {mem : Memory} {pos : Nat} {a b : Bytes} (hlen : a.length=b.length)
    (h : mem.write pos a=mem.write pos b) : a=b := by
  apply List.ext_getElem hlen
  intro i ha hb
  have hi := congrFun h (pos+i)
  simp only [write] at hi
  rw [if_pos (by omega),if_pos (by omega),Nat.add_sub_cancel_left] at hi
  rwa [List.getD_eq_getElem _ _ ha,List.getD_eq_getElem _ _ hb] at hi

@[simp] theorem writeIn_none (mem : Memory) (pos : Nat) (b : Bytes) :
    mem.writeIn none pos b=some (mem.write pos b) := if_pos (by simp)

end Memory

theorem clip_eq {b : Bytes} (hb : b.length<2^32) : clip b=b := by
  rw [clip,Nat.mod_eq_of_lt hb,List.take_length]

namespace MicroPython

open PyObj

variable {py : MicroPython} {mp : MsgpuckScalars}

/-- The size reported last is what the next call finds. -/
theorem last_size {m : Nat} : ∀ n ∈ some m, n=m := fun _ h => (Option.mem_some_iff.mp h).symm

mutual

/-- What is written for an object whose integers are small and whose sizes are known. -/
theorem encodeFromMpyObj_eq : ∀ (v : PyObj) {last : Option Nat} {size : Nat},
    Every (IsPlain py) v → Every (IsSmall py) v → SizesKnown mp last v → (∀ n ∈ last, n=size) →
    ∀ (pos : Nat) (mem : Memory), encodeFromMpyObj py mp none v pos size mem=
      some (.ok ((encoding mp v).length,mem.write pos (encoding mp v)))
  | .none,_,_,_,_,_,_,_,_ => rfl
  | .bool _,_,_,_,_,_,_,_,_ => rfl
  | .int i,_,_,_,hs,_,_,pos,mem => by
    have hsmall : py.isSmallInt i=true := hs
    simp [encodeFromMpyObj,hsmall,put,encoding]
  | .str s,_,_,hp,_,_,_,pos,mem => by
    obtain ⟨hnul,hlen⟩ : 0 ∉ s ∧ s.length<2^32 := hp
    have hstr : cstr s=s := List.takeWhile_eq_self_iff.mpr fun c hc => by
      have hne : c ≠ 0 := fun h0 => hnul (h0 ▸ hc)
      simpa using hne
    simp [encodeFromMpyObj,put,encoding,hstr,clip_eq hlen]
  | .bytes b,last,size,hp,_,hk,hl,pos,mem => by
    have hlen : b.length<2^32 := hp
    have hlast : last=some (mp.encodeBin b).length := hk
    have hsize := hl (mp.encodeBin b).length hlast
    simp [encodeFromMpyObj,encoding,clip_eq hlen,hsize]
  | .list items,last,size,hp,hs,hk,hl,pos,mem => by
    obtain ⟨hlen,hp⟩ : items.length<2^32 ∧ EveryItem (IsPlain py) items := hp
    have hitems := encodeItems_eq items hp hs.2 hk hl (pos+(mp.encodeArray items.length).length)
      (mem.write pos (mp.encodeArray items.length))
    rw [Memory.write_append] at hitems
    simp only [encodeFromMpyObj,Nat.mod_eq_of_lt hlen,Memory.writeIn_none,Option.bind_eq_bind,
      Option.bind_some,hitems,encoding,List.length_append]
    simp only [Option.pure_def,Option.some.injEq,Except.ok.injEq,Prod.mk.injEq,and_true]
    omega
  | .dict entries,last,size,hp,hs,hk,hl,pos,mem => by
    obtain ⟨⟨hlen,-⟩,hp⟩ : IsPlain py (.dict entries) ∧ EveryEntry (IsPlain py) entries := hp
    have hentries := encodeEntries_eq entries hp hs.2 hk hl
      (pos+(mp.encodeMap entries.length).length) (mem.write pos (mp.encodeMap entries.length))
    rw [Memory.write_append] at hentries
    simp only [encodeFromMpyObj,Nat.mod_eq_of_lt hlen,Memory.writeIn_none,Option.bind_eq_bind,
      Option.bind_some,hentries,encoding,List.length_append]
    simp only [Option.pure_def,Option.some.injEq,Except.ok.injEq,Prod.mk.injEq,and_true]
    omega
  | .float _,_,_,hp,_,_,_,_,_ => False.elim hp
  | .other,_,_,hp,_,_,_,_,_ => False.elim hp

theorem encodeItems_eq : ∀ (items : List PyObj) {last : Option Nat} {size : Nat},
    EveryItem (IsPlain py) items → EveryItem (IsSmall py) items →
    SizesKnownItems mp last items → (∀ n ∈ last, n=size) →
    ∀ (pos : Nat) (mem : Memory), encodeItems py mp none items pos size mem=
      some (.ok (pos+(encodingItems mp items).length,mem.write pos (encodingItems mp items)))
  | [],_,_,_,_,_,_,pos,mem => by
    simp [encodeItems,encodingItems,Memory.write_nil]
  | item::items,last,size,hp,hs,hk,hl,pos,mem => by
    have hitem := encodeFromMpyObj_eq item hp.1 hs.1 hk.1 hl pos mem
    have hitems := encodeItems_eq items hp.2 hs.2 hk.2 last_size
      (pos+(encoding mp item).length) (mem.write pos (encoding mp item))
    rw [Memory.write_append] at hitems
    simp only [encodeItems,hitem,Option.bind_eq_bind,Option.bind_some,hitems,encodingItems,
      List.length_append,Nat.add_assoc]

theorem encodeEntries_eq : ∀ (entries : List (PyObj × PyObj)) {last : Option Nat} {size : Nat},
    EveryEntry (IsPlain py) entries → EveryEntry (IsSmall py) entries →
    SizesKnownEntries mp last entries → (∀ n ∈ last, n=size) →
    ∀ (pos : Nat) (mem : Memory), encodeEntries py mp none entries pos size mem=
      some (.ok (pos+(encodingEntries mp entries).length,mem.write pos (encodingEntries mp entries)))
  | [],_,_,_,_,_,_,pos,mem => by
    simp [encodeEntries,encodingEntries,Memory.write_nil]
  | (key,value)::entries,last,size,hp,hs,hk,hl,pos,mem => by
    have hkey := encodeFromMpyObj_eq key hp.1 hs.1 hk.1 hl pos mem
    have hvalue := encodeFromMpyObj_eq value hp.2.1 hs.2.1 hk.2.1 last_size
      (pos+(encoding mp key).length) (mem.write pos (encoding mp key))
    have hentries := encodeEntries_eq entries hp.2.2 hs.2.2 hk.2.2 last_size
      (pos+(encoding mp key).length+(encoding mp value).length)
      (mem.write pos (encoding mp key++encoding mp value))
    rw [Memory.write_append] at hvalue
    rw [show pos+(encoding mp key).length+(encoding mp value).length=
      pos+(encoding mp key++encoding mp value).length by rw [List.length_append]; omega,
      Memory.write_append] at hentries
    simp only [encodeEntries,hkey,hvalue,Option.bind_eq_bind,Option.bind_some]
    rw [show pos+(encoding mp key).length+(encoding mp value).length=
      pos+(encoding mp key++encoding mp value).length by rw [List.length_append]; omega,hentries]
    simp only [encodingEntries,List.length_append,List.append_assoc,Nat.add_assoc]

end

mutual

/-- Nothing is written for an integer that is not a small one. -/
theorem small_of_encode (hmp : mp.Lawful) : ∀ (v : PyObj) {pos size : Nat} {mem : Memory}
    {r : Nat × Memory},
    encodeFromMpyObj py mp none v pos size mem=some (.ok r) → Every (IsSmall py) v
  | .none,_,_,_,_,_ => trivial
  | .bool _,_,_,_,_,_ => trivial
  | .int i,_,_,_,_,h => by
    change py.isSmallInt i=true
    by_contra hs
    have hundef := hmp.encode_int (UInt32.ofInt i).toNat (Int.natCast_nonneg _)
    cases hword : py.isMachineInt i <;> simp [encodeFromMpyObj,hs,hword,hundef] at h
  | .str _,_,_,_,_,_ => trivial
  | .bytes _,_,_,_,_,_ => trivial
  | .list items,pos,size,mem,r,h => by
    rw [encodeFromMpyObj] at h
    simp only [Memory.writeIn_none,Option.bind_eq_bind,Option.bind_some] at h
    obtain ⟨x,hx,h⟩ := Option.bind_eq_some_iff.mp h
    cases x with
    | error e => cases h
    | ok x => exact ⟨trivial,small_of_encodeItems hmp items hx⟩
  | .dict entries,pos,size,mem,r,h => by
    rw [encodeFromMpyObj] at h
    simp only [Memory.writeIn_none,Option.bind_eq_bind,Option.bind_some] at h
    obtain ⟨x,hx,h⟩ := Option.bind_eq_some_iff.mp h
    cases x with
    | error e => cases h
    | ok x => exact ⟨trivial,small_of_encodeEntries hmp entries hx⟩
  | .float _,_,_,_,_,_ => trivial
  | .other,_,_,_,_,_ => trivial

theorem small_of_encodeItems (hmp : mp.Lawful) : ∀ (items : List PyObj) {pos size : Nat}
    {mem : Memory} {r : Nat × Memory},
    encodeItems py mp none items pos size mem=some (.ok r) → EveryItem (IsSmall py) items
  | [],_,_,_,_,_ => trivial
  | item::items,pos,size,mem,r,h => by
    rw [encodeItems] at h
    obtain ⟨x,hx,h⟩ := Option.bind_eq_some_iff.mp h
    cases x with
    | error e => cases h
    | ok x => exact ⟨small_of_encode hmp item hx,small_of_encodeItems hmp items h⟩

theorem small_of_encodeEntries (hmp : mp.Lawful) : ∀ (entries : List (PyObj × PyObj))
    {pos size : Nat} {mem : Memory} {r : Nat × Memory},
    encodeEntries py mp none entries pos size mem=some (.ok r) → EveryEntry (IsSmall py) entries
  | [],_,_,_,_,_ => trivial
  | (key,value)::entries,pos,size,mem,r,h => by
    rw [encodeEntries] at h
    obtain ⟨x,hx,h⟩ := Option.bind_eq_some_iff.mp h
    cases x with
    | error e => cases h
    | ok x =>
      obtain ⟨y,hy,h⟩ := Option.bind_eq_some_iff.mp h
      cases y with
      | error e => cases h
      | ok y =>
        exact ⟨small_of_encode hmp key hx,small_of_encode hmp value hy,
          small_of_encodeEntries hmp entries h⟩

end

mutual

theorem encoding_isValue (hmp : mp.Lawful) : ∀ {v : PyObj}, Every (IsPlain py) v →
    mp.toMsgpuck.IsValue (encoding mp v)
  | .none,_ => fun r => hmp.next_nil r
  | .bool b,_ => fun r => hmp.next_bool b r
  | .int i,_ => fun r => hmp.next_uint _ r
  | .str s,h => fun r => hmp.next_str h.2 r
  | .bytes b,h => fun r => hmp.next_bin h r
  | .list items,h => fun r => by
    have hlen : items.length<2^32 := h.1
    rw [encoding,List.append_assoc,hmp.next_array hlen]
    exact encodingItems_skip hmp h.2 r
  | .dict entries,h => fun r => by
    have hlen : entries.length<2^32 := h.1.1
    rw [encoding,List.append_assoc,hmp.next_map hlen]
    exact encodingEntries_skip hmp h.2 r
  | .float _,h => False.elim h
  | .other,h => False.elim h

theorem encodingItems_skip (hmp : mp.Lawful) : ∀ {items : List PyObj},
    EveryItem (IsPlain py) items → ∀ r,
    Coder.skip mp.toMsgpuck items.length (encodingItems mp items++r)=some r
  | [],_,r => rfl
  | item::items,h,r => by
    rw [List.length_cons,Coder.skip,encodingItems,List.append_assoc,encoding_isValue hmp h.1]
    exact encodingItems_skip hmp h.2 r

theorem encodingEntries_skip (hmp : mp.Lawful) : ∀ {entries : List (PyObj × PyObj)},
    EveryEntry (IsPlain py) entries → ∀ r, Coder.skip mp.toMsgpuck (2*entries.length) (encodingEntries mp entries++r)=some r
  | [],_,r => rfl
  | (key,value)::entries,h,r => by
    rw [List.length_cons,show 2*(entries.length+1)=2*entries.length+1+1 by omega,Coder.skip,
      encodingEntries,List.append_assoc,encoding_isValue hmp h.1]
    simp only [Option.bind_eq_bind,Option.bind_some]
    rw [Coder.skip,List.append_assoc,encoding_isValue hmp h.2.1]
    exact encodingEntries_skip hmp h.2.2 r

end

/-- With this depth the encoding of `v` is read as `w`, whatever follows. -/
def Reads (py : MicroPython) (mp : MsgpuckScalars) (fuel : Nat) (v w : PyObj) : Prop :=
  ∀ rest, decodeToMpyObj py mp fuel (encoding mp v++rest)=some (.ok w)

/-- The same for an entry of a dict, whose key can be hashed. -/
structure ReadsEntry (py : MicroPython) (mp : MsgpuckScalars) (fuel : Nat) (e f : PyObj × PyObj) :
    Prop where
  key : Reads py mp fuel e.1 f.1
  hashed : f.1.hashable=true
  value : Reads py mp fuel e.2 f.2

theorem encodingItems_append (pre items : List PyObj) :
    encodingItems mp (pre++items)=encodingItems mp pre++encodingItems mp items := by
  induction pre with
  | nil => rfl
  | cons item pre ih => simp [encodingItems,ih]

/-- The items of an array, each looked up from the start. -/
theorem decodeArray_eq (hmp : mp.Lawful) {fuel : Nat} {items values : List PyObj}
    (h : List.Forall₂ (Reads py mp fuel) items values) (pre : List PyObj) (rest : Bytes)
    (hpre : EveryItem (IsPlain py) pre) (hitems : EveryItem (IsPlain py) items)
    (hlen : (pre++items).length<2^32) :
    decodeArray mp (decodeToMpyObj py mp fuel)
      (mp.encodeArray (pre++items).length++(encodingItems mp (pre++items)++rest))
      items.length pre.length=some (.ok values) := by
  induction h generalizing pre with
  | nil => rfl
  | @cons item value items values hread _ ih =>
    have hget : Coder.getValueFromArray mp.toMsgpuck
        (mp.encodeArray (pre++item::items).length++(encodingItems mp (pre++item::items)++rest))
        pre.length=some (some (encoding mp item++(encodingItems mp items++rest))) := by
      have hlt : pre.length<(pre++item::items).length := by simp
      have hskip := encodingItems_skip hmp hpre (encodingItems mp (item::items)++rest)
      simp only [Coder.getValueFromArray,hmp.decode_array hlen,Option.bind_eq_bind,Option.bind_some,
        if_pos hlt,encodingItems_append,List.append_assoc,hskip]
      simp [encodingItems]
    have hfront : EveryItem (IsPlain py) (pre++[item]) :=
      everyItem_append.mpr ⟨hpre,hitems.1,trivial⟩
    have hnext := ih (pre++[item]) hfront hitems.2 (by simpa using hlen)
    rw [List.append_assoc,List.singleton_append,show (pre++[item]).length=pre.length+1 by simp]
      at hnext
    simp only [List.length_cons,decodeArray,hget,hread (encodingItems mp items++rest),hnext,
      Option.bind_eq_bind,Option.bind_some]
    rfl

section Dicts

theorem dictStore_new {entries : List (PyObj × PyObj)} {key value : PyObj}
    (h : ∀ e ∈ entries, py.equal e.1 key=false) :
    py.dictStore entries key value=entries++[(key,value)] := by
  rw [dictStore,if_neg]
  simpa using h

/-- Entries with different keys are all kept. -/
theorem dictStore_foldl {acc entries : List (PyObj × PyObj)}
    (h : (acc++entries).Pairwise fun e f => py.equal e.1 f.1=false) :
    entries.foldl (fun acc e => py.dictStore acc e.1 e.2) acc=acc++entries := by
  induction entries generalizing acc with
  | nil => simp
  | cons e entries ih =>
    have hsplit := List.pairwise_append.mp h
    have hnew : py.dictStore acc e.1 e.2=acc++[(e.1,e.2)] :=
      dictStore_new fun f hf => hsplit.2.2 f hf e List.mem_cons_self
    rw [List.foldl_cons,hnew,ih (by simpa using h),List.append_assoc]
    rfl

theorem everyEntry_dictStore {p : PyObj → Prop} {entries : List (PyObj × PyObj)} {key value : PyObj}
    (h : EveryEntry p entries) (hk : Every p key) (hv : Every p value) :
    EveryEntry p (py.dictStore entries key value) := by
  rw [everyEntry_iff] at h ⊢
  unfold dictStore
  split
  · intro e he
    obtain ⟨f,hf,rfl⟩ := List.mem_map.mp he
    split
    · exact ⟨(h f hf).1,hv⟩
    · exact h f hf
  · intro e he
    obtain he | he := List.mem_append.mp he
    · exact h e he
    · obtain rfl := List.mem_singleton.mp he
      exact ⟨hk,hv⟩

theorem everyEntry_foldl {p : PyObj → Prop} {acc entries : List (PyObj × PyObj)}
    (h : EveryEntry p acc) (he : EveryEntry p entries) :
    EveryEntry p (entries.foldl (fun acc e => py.dictStore acc e.1 e.2) acc) := by
  induction entries generalizing acc with
  | nil => exact h
  | cons e entries ih => exact ih (everyEntry_dictStore h he.1 he.2.1) he.2.2

end Dicts

/-- The entries of a map, stored one after the other. -/
theorem decodeMap_eq (hmp : mp.Lawful) {fuel : Nat} {entries values : List (PyObj × PyObj)}
    (h : List.Forall₂ (ReadsEntry py mp fuel) entries values)
    (hplain : EveryEntry (IsPlain py) entries) (acc : List (PyObj × PyObj)) (rest : Bytes) :
    decodeMap py mp (decodeToMpyObj py mp fuel) entries.length (encodingEntries mp entries++rest) acc=
      some (.ok (values.foldl (fun acc e => py.dictStore acc e.1 e.2) acc)) := by
  induction h generalizing acc with
  | nil => rfl
  | @cons e f entries values hread _ ih =>
    obtain ⟨key,value⟩ := e
    have hkey := encoding_isValue hmp hplain.1
    have hvalue := encoding_isValue hmp hplain.2.1
    simp only [List.length_cons,decodeMap,encodingEntries,List.append_assoc,hread.key _,hkey _,
      hread.value _,hvalue _,hread.hashed,if_true,Option.bind_eq_bind,Option.bind_some,
      List.foldl_cons]
    exact ih hplain.2.2 _

mutual

/-- The encoding of an object is read back as an object without negative integers, and as the
object itself when it has none. -/
theorem decodeToMpyObj_encoding (hmp : mp.Lawful) : ∀ {v : PyObj}, Every (IsPlain py) v →
    ∀ {fuel : Nat}, depth v ≤ fuel → ∃ w, Every IsNatural w ∧ (Every IsNatural v → w=v) ∧
      w.hashable=v.hashable ∧ Reads py mp fuel v w
  | .none,_,fuel+1,_ =>
    ⟨.none,trivial,fun _ => rfl,rfl,fun r => by
      simp [decodeToMpyObj,encoding,hmp.type_nil r]⟩
  | .bool b,_,fuel+1,_ =>
    ⟨.bool b,trivial,fun _ => rfl,rfl,fun r => by
      simp [decodeToMpyObj,decoded,encoding,Coder.decodeBool,hmp.type_bool b r,hmp.decode_bool b r]⟩
  | .int i,h,fuel+1,_ => by
    have hrange : -2^31 ≤ i ∧ i<2^31 := h
    refine ⟨.int (UInt32.ofInt i).toNat,Int.natCast_nonneg _,fun hi => ?_,rfl,fun r => ?_⟩
    · have hnat : 0 ≤ i := hi
      have hval : (UInt32.ofInt i).toNat=i.toNat := by
        rw [UInt32.ofInt,UInt32.toNat_ofNat']
        omega
      rw [hval,Int.toNat_of_nonneg hnat]
    · simp [decodeToMpyObj,encoding,hmp.type_uint,hmp.decode_uint]
  | .str s,h,fuel+1,_ =>
    ⟨.str s,trivial,fun _ => rfl,rfl,fun r => by
      simp [decodeToMpyObj,decoded,encoding,Coder.decodeStr,hmp.type_str h.2 r,hmp.decode_str h.2 r]⟩
  | .bytes b,h,fuel+1,_ =>
    ⟨.bytes b,trivial,fun _ => rfl,rfl,fun r => by
      simp [decodeToMpyObj,decoded,encoding,Coder.decodeBin,Coder.decodeTyped,hmp.type_bin h r,
        hmp.decode_bin h r]⟩
  | .list items,h,fuel+1,hd => by
    have hlen : items.length<2^32 := h.1
    obtain ⟨values,hread,hnat,heq⟩ := decodeItems_encoding hmp h.2 (Nat.le_of_succ_le_succ hd)
    refine ⟨.list values,⟨trivial,hnat⟩,fun hv => by rw [heq hv.2],rfl,fun r => ?_⟩
    have harray := decodeArray_eq hmp hread [] r trivial h.2 hlen
    simp only [List.nil_append,List.length_nil] at harray
    simp only [decodeToMpyObj,encoding,List.append_assoc,hmp.type_array hlen,Coder.getSizeOfArray,
      hmp.decode_array hlen,Option.bind_eq_bind,Option.bind_some,Option.pure_def,harray]
    rfl
  | .dict entries,h,fuel+1,hd => by
    obtain ⟨hlen,hhash,hkeys⟩ : IsPlain py (.dict entries) := h.1
    obtain ⟨values,hread,hnat,heq⟩ := decodeEntries_encoding hmp hhash h.2
      (Nat.le_of_succ_le_succ hd)
    refine ⟨.dict (values.foldl (fun acc e => py.dictStore acc e.1 e.2) []),
      ⟨trivial,?_⟩,fun hv => ?_,rfl,fun r => ?_⟩
    · exact everyEntry_foldl (everyEntry_iff.mpr (by simp)) hnat
    · rw [heq hv.2,dictStore_foldl hkeys]
      rfl
    · have hmap := decodeMap_eq hmp hread h.2 [] r
      simp only [decodeToMpyObj,encoding,List.append_assoc,hmp.type_map hlen,hmp.decode_map hlen,hmap,
        Option.bind_eq_bind,Option.bind_some]
      rfl
  | .float _,h,_,_ => False.elim h
  | .other,h,_,_ => False.elim h

theorem decodeItems_encoding (hmp : mp.Lawful) : ∀ {items : List PyObj},
    EveryItem (IsPlain py) items → ∀ {fuel : Nat}, depthItems items ≤ fuel → ∃ values,
      List.Forall₂ (Reads py mp fuel) items values ∧ EveryItem IsNatural values ∧
      (EveryItem IsNatural items → values=items)
  | [],_,_,_ => ⟨[],.nil,trivial,fun _ => rfl⟩
  | item::items,h,fuel,hd => by
    rw [depthItems,Nat.max_le] at hd
    obtain ⟨w,hnat,heq,-,hread⟩ := decodeToMpyObj_encoding hmp h.1 hd.1
    obtain ⟨values,hreads,hnats,heqs⟩ := decodeItems_encoding hmp h.2 hd.2
    exact ⟨w::values,.cons hread hreads,⟨hnat,hnats⟩,fun hv => by rw [heq hv.1,heqs hv.2]⟩

theorem decodeEntries_encoding (hmp : mp.Lawful) : ∀ {entries : List (PyObj × PyObj)},
    (∀ e ∈ entries, e.1.hashable=true) → EveryEntry (IsPlain py) entries → ∀ {fuel : Nat},
    depthEntries entries ≤ fuel → ∃ values,
      List.Forall₂ (ReadsEntry py mp fuel) entries values ∧
      EveryEntry IsNatural values ∧ (EveryEntry IsNatural entries → values=entries)
  | [],_,_,_,_ => ⟨[],.nil,trivial,fun _ => rfl⟩
  | (key,value)::entries,hhash,h,fuel,hd => by
    rw [depthEntries,Nat.max_le,Nat.max_le] at hd
    obtain ⟨hkey,hhash⟩ := List.forall_mem_cons.mp hhash
    obtain ⟨k,hknat,hkeq,hkhash,hkread⟩ := decodeToMpyObj_encoding hmp h.1 hd.1.1
    obtain ⟨w,hnat,heq,-,hread⟩ := decodeToMpyObj_encoding hmp h.2.1 hd.1.2
    obtain ⟨values,hreads,hnats,heqs⟩ := decodeEntries_encoding hmp hhash h.2.2 hd.2
    exact ⟨(k,w)::values,.cons ⟨hkread,hkhash.trans hkey,hread⟩ hreads,⟨hknat,hnat,hnats⟩,
      fun hv => by rw [hkeq hv.1,heq hv.2.1,heqs hv.2.2]⟩

end

/-- The object is written as many bytes as are reported, and they are read back as it, whatever
`*size` and the buffer held before. -/
def Survives (py : MicroPython) (mp : MsgpuckScalars) (v : PyObj) : Prop :=
  ∃ b : Bytes, (∀ pos size mem,
    encodeFromMpyObj py mp none v pos size mem=some (.ok (b.length,mem.write pos b))) ∧
    ∃ n, ∀ fuel, n ≤ fuel → ∀ rest, decodeToMpyObj py mp fuel (b++rest)=some (.ok v)

section Survives

variable (hmp : mp.Lawful) {v : PyObj}

include hmp

theorem Survives.small (h : Survives py mp v) : Every (IsSmall py) v := by
  obtain ⟨b,hb,-⟩ := h
  exact small_of_encode hmp v (hb 0 0 fun _ => 0)

variable (hv : Every (IsPlain py) v) (hk : SizesKnown mp none v)

include hv hk

omit hmp in
theorem encodeFromMpyObj_known (hs : Every (IsSmall py) v) (pos size : Nat) (mem : Memory) :
    encodeFromMpyObj py mp none v pos size mem=
      some (.ok ((encoding mp v).length,mem.write pos (encoding mp v))) :=
  encodeFromMpyObj_eq v hv hs hk (fun _ hn => nomatch hn) pos mem

theorem survives_of_natural (hs : Every (IsSmall py) v) (hn : Every IsNatural v) :
    Survives py mp v := by
  refine ⟨encoding mp v,encodeFromMpyObj_known hv hk hs,depth v,fun fuel hfuel => ?_⟩
  obtain ⟨w,-,heq,-,hread⟩ := decodeToMpyObj_encoding hmp hv hfuel
  obtain rfl := heq hn
  exact hread

/-- A negative integer comes back as another one. -/
theorem Survives.natural (h : Survives py mp v) : Every IsNatural v := by
  have hs := h.small hmp
  obtain ⟨b,hb,n,hread⟩ := h
  have hwrite := (encodeFromMpyObj_known hv hk hs 0 0 fun _ => 0).symm.trans (hb 0 0 fun _ => 0)
  obtain ⟨hlen,hmem⟩ := Prod.mk.inj (Except.ok.inj (Option.some.inj hwrite))
  obtain rfl := Memory.write_inj hlen hmem
  obtain ⟨w,hnat,-,-,hw⟩ := decodeToMpyObj_encoding hmp hv (Nat.le_max_left (depth v) n)
  have heq := (hw []).symm.trans (hread _ (Nat.le_max_right _ _) [])
  cases heq
  exact hnat

end Survives

/-- Bytes report whatever was reported before them. -/
theorem bytes_not_survive (b : Bytes) : ¬Survives py mp (.bytes b) := by
  rintro ⟨written,hb,-⟩
  have hzero := hb 0 0 fun _ => 0
  have hone := hb 0 1 fun _ => 0
  simp [encodeFromMpyObj] at hzero hone
  omega

/-- An object whose sizes are known survives exactly when its integers are small ones and not
negative. Other integers never survive, and neither do bytes alone. -/
theorem python_value_survives_iff (hmp : mp.Lawful) {v : PyObj} (hv : Every (IsPlain py) v) :
    (SizesKnown mp none v ∧ Every (IsSmall py) v ∧ Every IsNatural v → Survives py mp v) ∧
    (Survives py mp v → Every (IsSmall py) v ∧ ∀ b, v ≠ .bytes b) ∧
    (SizesKnown mp none v → (Survives py mp v ↔ Every (IsSmall py) v ∧ Every IsNatural v)) := by
  refine ⟨fun h => survives_of_natural hmp hv h.1 h.2.1 h.2.2,fun h => ⟨h.small hmp,?_⟩,
    fun hk => ⟨fun h => ⟨h.small hmp,h.natural hmp hv hk⟩,fun h => ?_⟩⟩
  · rintro b rfl
    exact bytes_not_survive b h
  · exact survives_of_natural hmp hv hk h.1 h.2

/-- A build with 31 bit small integers, 32 bit machine words and no floating point numbers. -/
def smallBuild : MicroPython where
  isSmallInt i := decide (-2^30 ≤ i ∧ i<2^30)
  isMachineInt i := decide (-2^31 ≤ i ∧ i<2^31)
  equal
    | .str a,.str b => decide (a=b)
    | .int a,.int b => decide (a=b)
    | _,_ => false
  newFloat _ := .none
  newDouble _ := .none
  encodeFloat _ := []

theorem python_value_survives_nested :
    Survives smallBuild msgpackScalars
      (.dict [(.str (ascii "a"),.list [.int 7,.bool true,.none,.str (ascii "x"),.bytes []])]) := by
  refine (python_value_survives_iff msgpackScalars_lawful ?_).1 ⟨?_,?_,?_⟩
  all_goals
    simp [Every,EveryEntry,EveryItem,IsPlain,IsSmall,IsNatural,SizesKnown,SizesKnownEntries,
      SizesKnownItems,smallBuild]
  all_goals decide

/-- A negative small integer comes back as another number, any larger integer is written as
undefined bytes, and bytes do not report their size. -/
theorem python_value_lost :
    ¬Survives smallBuild msgpackScalars (.int (-1)) ∧
    ¬Survives smallBuild msgpackScalars (.int (2^30)) ∧
    ¬Survives smallBuild msgpackScalars (.bytes [1]) ∧
    decodeToMpyObj smallBuild msgpackScalars 1 (encoding msgpackScalars (.int (-1)))=
      some (.ok (.int (2^32-1))) := by
  refine ⟨fun h => ?_,fun h => ?_,bytes_not_survive _,?_⟩
  · have hplain : Every (IsPlain smallBuild) (.int (-1)) := ⟨by decide,by decide⟩
    have hnat : (0 : Int) ≤ -1 := h.natural msgpackScalars_lawful hplain trivial
    omega
  · have hsmall : smallBuild.isSmallInt (2^30)=true := h.small msgpackScalars_lawful
    exact absurd hsmall (by decide)
  · rfl

end MicroPython

end CalvinConstrained
