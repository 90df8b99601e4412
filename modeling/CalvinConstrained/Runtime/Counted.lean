import CalvinConstrained.Runtime.MsgpackLaws
import CalvinConstrained.Runtime.SerializeTwice

namespace CalvinConstrained

namespace Doc

mutual

/-- Every header declares what is written under it, and every value in between is one. -/
def Counted (mp : Msgpuck) : Doc → Prop
  | .raw bytes => mp.IsStored bytes
  | .map size entries => size=entries.length ∧ EntriesCounted mp entries
  | .array size items => size=items.length ∧ ItemsCounted mp items

def EntriesCounted (mp : Msgpuck) : List (Bytes × Doc) → Prop
  | [] => True
  | (_,value)::entries => Counted mp value ∧ EntriesCounted mp entries

def ItemsCounted (mp : Msgpuck) : List Doc → Prop
  | [] => True
  | item::items => Counted mp item ∧ ItemsCounted mp items

end

variable {mp : Msgpuck}

@[simp] theorem counted_raw (b : Bytes) :
    Counted mp (.raw b) ↔ mp.IsStored b := by
  simp [Counted]

@[simp] theorem counted_map (n : Nat) (entries : List (Bytes × Doc)) :
    Counted mp (.map n entries) ↔ n=entries.length ∧ EntriesCounted mp entries := by
  simp [Counted]

@[simp] theorem counted_array (n : Nat) (items : List Doc) :
    Counted mp (.array n items) ↔ n=items.length ∧ ItemsCounted mp items := by
  simp [Counted]

theorem entriesCounted_iff (entries : List (Bytes × Doc)) :
    EntriesCounted mp entries ↔ ∀ e ∈ entries, Counted mp e.2 := by
  induction entries with
  | nil => simp [EntriesCounted]
  | cons e entries ih => simp [EntriesCounted,ih]

@[simp] theorem entriesCounted_append (entries rest : List (Bytes × Doc)) :
    EntriesCounted mp (entries++rest) ↔ EntriesCounted mp entries ∧ EntriesCounted mp rest := by
  simp only [entriesCounted_iff,List.mem_append,or_imp,forall_and]

theorem itemsCounted_iff (items : List Doc) :
    ItemsCounted mp items ↔ ∀ d ∈ items, Counted mp d := by
  induction items with
  | nil => simp [ItemsCounted]
  | cons d items ih => simp [ItemsCounted,ih]

mutual

/-- A counted document whose sizes and lengths are 32 bit numbers. -/
def Valid (mp : Msgpuck) : Doc → Prop
  | .raw bytes => mp.IsValue bytes
  | .map size entries => size=entries.length ∧ size<2^32 ∧ EntriesValid mp entries
  | .array size items => size=items.length ∧ size<2^32 ∧ ItemsValid mp items

def EntriesValid (mp : Msgpuck) : List (Bytes × Doc) → Prop
  | [] => True
  | (key,value)::entries => key.length<2^32 ∧ Valid mp value ∧ EntriesValid mp entries

def ItemsValid (mp : Msgpuck) : List Doc → Prop
  | [] => True
  | item::items => Valid mp item ∧ ItemsValid mp items

end

@[simp] theorem valid_raw (b : Bytes) : Valid mp (.raw b) ↔ mp.IsValue b := by simp [Valid]

@[simp] theorem valid_map (n : Nat) (entries : List (Bytes × Doc)) :
    Valid mp (.map n entries) ↔ n=entries.length ∧ n<2^32 ∧ EntriesValid mp entries := by
  simp [Valid]

@[simp] theorem valid_array (n : Nat) (items : List Doc) :
    Valid mp (.array n items) ↔ n=items.length ∧ n<2^32 ∧ ItemsValid mp items := by
  simp [Valid]

@[simp] theorem entriesValid_nil : EntriesValid mp [] := by simp [EntriesValid]

@[simp] theorem itemsValid_nil : ItemsValid mp [] := by simp [ItemsValid]

@[simp] theorem entriesValid_cons (e : Bytes × Doc) (entries : List (Bytes × Doc)) :
    EntriesValid mp (e::entries) ↔
      e.1.length<2^32 ∧ Valid mp e.2 ∧ EntriesValid mp entries := by
  simp [EntriesValid]

@[simp] theorem itemsValid_cons (d : Doc) (items : List Doc) :
    ItemsValid mp (d::items) ↔ Valid mp d ∧ ItemsValid mp items := by
  simp [ItemsValid]

theorem entriesValid_iff (entries : List (Bytes × Doc)) :
    EntriesValid mp entries ↔ ∀ e ∈ entries, e.1.length<2^32 ∧ Valid mp e.2 := by
  induction entries with
  | nil => simp [EntriesValid]
  | cons e entries ih => simp [ih,and_assoc]

theorem itemsValid_iff (items : List Doc) : ItemsValid mp items ↔ ∀ d ∈ items, Valid mp d := by
  induction items with
  | nil => simp [ItemsValid]
  | cons d items ih => simp [ih]

mutual

/-- A valid document is encoded as one value. -/
theorem Valid.isValue (hmp : mp.Lawful) : ∀ {d : Doc}, Valid mp d → mp.IsValue (encode mp d)
  | .raw bytes,h => (valid_raw bytes).mp h
  | .map size entries,h => by
    obtain ⟨rfl,hn,hentries⟩ := (valid_map _ _).mp h
    intro r
    rw [encode,List.append_assoc,hmp.next_map hn]
    exact EntriesValid.skip hmp hentries r
  | .array size items,h => by
    obtain ⟨rfl,hn,hitems⟩ := (valid_array _ _).mp h
    intro r
    rw [encode,List.append_assoc,hmp.next_array hn]
    exact ItemsValid.skip hmp hitems r

theorem EntriesValid.skip (hmp : mp.Lawful) : ∀ {entries : List (Bytes × Doc)},
    EntriesValid mp entries → ∀ r,
      Coder.skip mp (2*entries.length) (encodeEntries mp entries++r)=some r
  | [],_,_ => rfl
  | (key,value)::entries,h,r => by
    obtain ⟨hkey,hvalue,hentries⟩ := (entriesValid_cons _ _).mp h
    have hv := Valid.isValue hmp hvalue
    rw [show 2*((key,value)::entries).length=2*entries.length+1+1 by simp; omega]
    simp only [encodeEntries,List.append_assoc,Coder.skip,Option.bind_eq_bind,
      hmp.next_str hkey,Option.bind_some,hv _]
    exact EntriesValid.skip hmp hentries r

theorem ItemsValid.skip (hmp : mp.Lawful) : ∀ {items : List Doc},
    ItemsValid mp items → ∀ r, Coder.skip mp items.length (encodeItems mp items++r)=some r
  | [],_,_ => rfl
  | item::items,h,r => by
    obtain ⟨hitem,hitems⟩ := (itemsValid_cons _ _).mp h
    have hv := Valid.isValue hmp hitem
    simp only [encodeItems,List.append_assoc,List.length_cons,Coder.skip,Option.bind_eq_bind,
      hv _,Option.bind_some]
    exact ItemsValid.skip hmp hitems r

end

mutual

/-- A counted document is valid unless its encoding is too long for a 32 bit length. -/
theorem Counted.valid (hmp : mp.Lawful) : ∀ {d : Doc}, Counted mp d →
    (encode mp d).length<2^32 → Valid mp d
  | .raw bytes,h,hlen => (valid_raw bytes).mpr ((counted_raw bytes).mp h hlen)
  | .map size entries,h,hlen => by
    obtain ⟨rfl,hentries⟩ := (counted_map _ _).mp h
    simp only [encode,List.length_append] at hlen
    obtain ⟨hn,hvalid⟩ := EntriesCounted.valid hmp hentries (by omega)
    exact (valid_map _ _).mpr ⟨rfl,by omega,hvalid⟩
  | .array size items,h,hlen => by
    obtain ⟨rfl,hitems⟩ := (counted_array _ _).mp h
    simp only [encode,List.length_append] at hlen
    obtain ⟨hn,hvalid⟩ := ItemsCounted.valid hmp hitems (by omega)
    exact (valid_array _ _).mpr ⟨rfl,by omega,hvalid⟩

theorem EntriesCounted.valid (hmp : mp.Lawful) : ∀ {entries : List (Bytes × Doc)},
    EntriesCounted mp entries → (encodeEntries mp entries).length<2^32 →
    entries.length ≤ (encodeEntries mp entries).length ∧ EntriesValid mp entries
  | [],_,_ => ⟨by simp,by simp [EntriesValid]⟩
  | (key,value)::entries,h,hlen => by
    obtain ⟨hvalue,hentries⟩ : Counted mp value ∧ EntriesCounted mp entries := by
      simpa [EntriesCounted] using h
    simp only [encodeEntries,List.length_append] at hlen
    have hkey := hmp.length_str key
    have hv := Counted.valid hmp hvalue (by omega)
    obtain ⟨hn,hvalid⟩ := EntriesCounted.valid hmp hentries (by omega)
    constructor
    · simp only [encodeEntries,List.length_append,List.length_cons]
      omega
    · exact (entriesValid_cons _ _).mpr ⟨by dsimp only; omega,hv,hvalid⟩

theorem ItemsCounted.valid (hmp : mp.Lawful) : ∀ {items : List Doc},
    ItemsCounted mp items → (encodeItems mp items).length<2^32 →
    items.length ≤ (encodeItems mp items).length ∧ ItemsValid mp items
  | [],_,_ => ⟨by simp,by simp [ItemsValid]⟩
  | item::items,h,hlen => by
    obtain ⟨hitem,hitems⟩ : Counted mp item ∧ ItemsCounted mp items := by
      simpa [ItemsCounted] using h
    simp only [encodeItems,List.length_append] at hlen
    have hv := Counted.valid hmp hitem (by omega)
    have hpos := hmp.isValue_pos (hv.isValue hmp)
    obtain ⟨hn,hvalid⟩ := ItemsCounted.valid hmp hitems (by omega)
    constructor
    · simp only [encodeItems,List.length_append,List.length_cons]
      omega
    · exact (itemsValid_cons _ _).mpr ⟨hv,hvalid⟩

end

theorem Counted.isStored (hmp : mp.Lawful) {d : Doc} (h : Counted mp d) :
    mp.IsStored (encode mp d) := fun hlen => (h.valid hmp hlen).isValue hmp

theorem encodeEntries_append (entries rest : List (Bytes × Doc)) :
    encodeEntries mp (entries++rest)=encodeEntries mp entries++encodeEntries mp rest := by
  induction entries with
  | nil => simp [encodeEntries]
  | cons e entries ih =>
    obtain ⟨key,value⟩ := e
    simp [encodeEntries,ih]

/-- What is written under a map beyond its declared size follows the map. -/
theorem next_surplus (hmp : mp.Lawful) {entries : List (Bytes × Doc)} (rest : List (Bytes × Doc))
    (h : EntriesCounted mp entries)
    (hlen : (encode mp (.map entries.length (entries++rest))).length<2^32) :
    mp.next (encode mp (.map entries.length (entries++rest)))=some (encodeEntries mp rest) := by
  simp only [encode,encodeEntries_append,List.length_append] at hlen
  obtain ⟨hn,hvalid⟩ := h.valid hmp (by omega)
  rw [encode,encodeEntries_append,hmp.next_map (by omega)]
  exact hvalid.skip hmp _

/-- A map whose last value leaves bytes behind leaves them behind as well. -/
theorem next_last (hmp : mp.Lawful) {entries : List (Bytes × Doc)} {key : Bytes} {value : Doc}
    {rest : Bytes} (h : EntriesCounted mp entries)
    (hlen : (encode mp (.map (entries.length+1) (entries++[(key,value)]))).length<2^32)
    (hv : (encode mp value).length<2^32 → mp.next (encode mp value)=some rest) :
    mp.next (encode mp (.map (entries.length+1) (entries++[(key,value)])))=some rest := by
  have hkey := hmp.length_str key
  simp only [encode,encodeEntries_append,encodeEntries,List.length_append] at hlen
  obtain ⟨hn,hvalid⟩ := h.valid hmp (by omega)
  rw [encode,encodeEntries_append,hmp.next_map (by omega),
    show 2*(entries.length+1)=2*entries.length+2 by omega,Coder.skip_add,hvalid.skip hmp]
  simp only [Option.bind_some,encodeEntries,List.append_nil,Coder.skip,
    hmp.next_str (show key.length<2^32 by omega),Option.bind_eq_bind,hv (by omega)]

end Doc

end CalvinConstrained
