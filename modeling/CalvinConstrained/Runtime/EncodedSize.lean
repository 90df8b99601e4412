import CalvinConstrained.Runtime.MsgpackLaws
import CalvinConstrained.Runtime.Serialize

namespace CalvinConstrained

namespace Size

/-- The bytes of a text of `n` bytes with its header. -/
def text (n : Nat) : Nat := n+if n<32 then 1 else if n<256 then 2 else if n<65536 then 3 else 5

def number (x : UInt32) : Nat := if x<128 then 1 else if x<256 then 2 else if x<65536 then 3 else 5

/-- The header of a map or an array that declares `n` entries. -/
def header (n : Nat) : Nat := if n<16 then 1 else if n<65536 then 3 else 5

end Size

/-- The lengths of the encodings of the MessagePack library. -/
structure Msgpuck.Sized (mp : Msgpuck) : Prop where
  length_str : ∀ b : Bytes, (mp.encodeStr b).length=Size.text b.length
  length_uint : ∀ x, (mp.encodeUint x).length=Size.number x
  length_map : ∀ n, (mp.encodeMap n).length=Size.header n
  length_array : ∀ n, (mp.encodeArray n).length=Size.header n
  length_bool : ∀ x, (mp.encodeBool x).length=1
  length_nil : mp.encodeNil.length=1

open Msgpack in
theorem msgpack_sized : msgpack.Sized where
  length_str b := by
    simp only [msgpack,Size.text]
    split_ifs <;> simp [toBigEndian_length] <;> omega
  length_uint x := by
    simp only [msgpack,Size.number]
    split_ifs <;> simp [toBigEndian_length]
  length_map n := by
    simp only [msgpack,Size.header]
    split_ifs <;> simp [toBigEndian_length]
  length_array n := by
    simp only [msgpack,Size.header]
    split_ifs <;> simp [toBigEndian_length]
  length_bool _ := rfl
  length_nil := rfl

namespace Doc

mutual

/-- The number of bytes of an encoding. -/
def size : Doc → Nat
  | .raw bytes => bytes.length
  | .map n entries => Size.header n+sizeEntries entries
  | .array n items => Size.header n+sizeItems items

def sizeEntries : List (Bytes × Doc) → Nat
  | [] => 0
  | (key,value)::entries => Size.text key.length+size value+sizeEntries entries

def sizeItems : List Doc → Nat
  | [] => 0
  | item::items => size item+sizeItems items

end

section Length

variable {mp : Msgpuck}

mutual

theorem length_encode (hmp : mp.Sized) : ∀ d : Doc, (d.encode mp).length=d.size
  | .raw bytes => by rw [encode,size]
  | .map n entries => by
    rw [encode,size,List.length_append,hmp.length_map,length_encodeEntries hmp entries]
  | .array n items => by
    rw [encode,size,List.length_append,hmp.length_array,length_encodeItems hmp items]

theorem length_encodeEntries (hmp : mp.Sized) : ∀ entries,
    (encodeEntries mp entries).length=sizeEntries entries
  | [] => by rw [encodeEntries,sizeEntries,List.length_nil]
  | (key,value)::entries => by
    rw [encodeEntries,sizeEntries,List.length_append,List.length_append,hmp.length_str,
      length_encode hmp value,length_encodeEntries hmp entries]

theorem length_encodeItems (hmp : mp.Sized) : ∀ items,
    (encodeItems mp items).length=sizeItems items
  | [] => by rw [encodeItems,sizeItems,List.length_nil]
  | item::items => by
    rw [encodeItems,sizeItems,List.length_append,length_encode hmp item,length_encodeItems hmp items]

end

end Length

@[simp] theorem size_raw (b : Bytes) : (Doc.raw b).size=b.length := by rw [size]

@[simp] theorem size_map (n : Nat) (entries : List (Bytes × Doc)) :
    (Doc.map n entries).size=Size.header n+sizeEntries entries := by rw [size]

@[simp] theorem size_array (n : Nat) (items : List Doc) :
    (Doc.array n items).size=Size.header n+sizeItems items := by rw [size]

@[simp] theorem sizeEntries_nil : sizeEntries []=0 := by rw [sizeEntries]

@[simp] theorem sizeEntries_cons (e : Bytes × Doc) (entries : List (Bytes × Doc)) :
    sizeEntries (e::entries)=Size.text e.1.length+e.2.size+sizeEntries entries := by
  rw [sizeEntries]

@[simp] theorem sizeItems_nil : sizeItems []=0 := by rw [sizeItems]

@[simp] theorem sizeItems_cons (d : Doc) (items : List Doc) :
    sizeItems (d::items)=d.size+sizeItems items := by rw [sizeItems]

@[simp] theorem sizeEntries_append (entries rest : List (Bytes × Doc)) :
    sizeEntries (entries++rest)=sizeEntries entries+sizeEntries rest := by
  induction entries with
  | nil => simp
  | cons e entries ih =>
    simp only [List.cons_append,sizeEntries_cons,ih]
    omega

theorem sizeEntries_map {α : Type*} (f : α → Bytes × Doc) (l : List α) :
    sizeEntries (l.map f)=(l.map fun x => Size.text (f x).1.length+(f x).2.size).sum := by
  induction l with
  | nil => simp
  | cons x l ih => simp [ih]

theorem sizeItems_map {α : Type*} (f : α → Doc) (l : List α) :
    sizeItems (l.map f)=(l.map fun x => (f x).size).sum := by
  induction l with
  | nil => simp
  | cons x l ih => simp [ih]

end Doc

end CalvinConstrained
