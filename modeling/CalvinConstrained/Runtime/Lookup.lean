import CalvinConstrained.Runtime.Counted

namespace CalvinConstrained

section Strings

theorem cstr_of_not_mem {b : Bytes} (h : 0 ∉ b) : cstr b=b := by
  apply List.takeWhile_eq_self_iff.mpr
  intro c hc
  have hne : c ≠ 0 := fun h0 => h (h0 ▸ hc)
  simpa using hne

theorem not_mem_take {b : Bytes} (h : 0 ∉ b) (n : Nat) : 0 ∉ b.take n :=
  fun hm => h (List.mem_of_mem_take hm)

theorem cstr_take (b : Bytes) (n : Nat) : cstr (b.take n)=(cstr b).take n := by
  induction b generalizing n with
  | nil => simp [cstr]
  | cons c b ih =>
    cases n with
    | zero => simp [cstr]
    | succ n =>
      by_cases hc : c=0
      · simp [cstr,hc]
      · simpa [cstr,hc] using ih n

/-- A comparison of more bytes finds at least as many differences. -/
theorem strncmpEq_mono {a b : Bytes} {m n : Nat} (hmn : m ≤ n) (h : strncmpEq a b n=true) :
    strncmpEq a b m=true := by
  simp only [strncmpEq,decide_eq_true_eq,cstr_take] at h ⊢
  have hm := congrArg (List.take m) h
  simpa [List.take_take,Nat.min_eq_left hmn] using hm

theorem strncmpEq_append_right (a b r : Bytes) {n : Nat} (hn : n ≤ b.length) :
    strncmpEq a (b++r) n=strncmpEq a b n := by
  simp [strncmpEq,List.take_append_of_le_length hn]

theorem strncmpEq_append_left (a b r : Bytes) {n : Nat} (hn : n ≤ a.length) :
    strncmpEq (a++r) b n=strncmpEq a b n := by
  simp [strncmpEq,List.take_append_of_le_length hn]

theorem strncmpEq_self (a : Bytes) (n : Nat) : strncmpEq a a n=true := by
  simp [strncmpEq]

/-- A key differs from what follows a shorter one, too. -/
theorem strncmpEq_miss {key k : Bytes} (h : strncmpEq key k (min key.length k.length)=false)
    (r : Bytes) : strncmpEq key (k++r) key.length=false := by
  by_contra hc
  rw [Bool.not_eq_false] at hc
  have hm := strncmpEq_mono (Nat.min_le_left key.length k.length) hc
  rw [strncmpEq_append_right _ _ _ (Nat.min_le_right _ _),h] at hm
  cases hm

end Strings

namespace Coder

open Doc

variable {mp : Msgpuck} (hmp : mp.Lawful)

include hmp

theorem decodeStr_encode {b : Bytes} (hb : b.length<2^32) (r : Bytes) :
    decodeStr mp (mp.encodeStr b++r)=some (some ⟨b++r,b.length⟩) := by
  simp [decodeStr,hmp.type_str hb,hmp.decode_str hb]

section Steps

variable {k : Bytes} {v : Doc} {entries : List (Bytes × Doc)} {r : Bytes}
  (hk : k.length<2^32)

include hk

theorem next_key : mp.next (encodeEntries mp ((k,v)::entries)++r)=
    some (encode mp v++(encodeEntries mp entries++r)) := by
  simp only [encodeEntries,List.append_assoc]
  exact hmp.next_str hk _

theorem decodeStr_key : decodeStr mp (encodeEntries mp ((k,v)::entries)++r)=
    some (some ⟨k++(encode mp v++(encodeEntries mp entries++r)),k.length⟩) := by
  simp only [encodeEntries,List.append_assoc]
  exact decodeStr_encode hmp hk _

variable {n : Nat}

/-- The lookup of a value stops at the first entry that starts with the key. -/
theorem getValueFromMapLoop_hit {key : Text}
    (h : strncmpEq key.ptr (k++(encode mp v++(encodeEntries mp entries++r))) key.len=true) :
    getValueFromMapLoop mp key (n+1) (encodeEntries mp ((k,v)::entries)++r)=
      some (some (encode mp v++(encodeEntries mp entries++r))) := by
  simp [getValueFromMapLoop,decodeStr_key hmp hk,next_key hmp hk,h]

theorem getValueFromMapLoop_miss {key : Text} (hv : Valid mp v)
    (h : strncmpEq key.ptr (k++(encode mp v++(encodeEntries mp entries++r))) key.len=false) :
    getValueFromMapLoop mp key (n+1) (encodeEntries mp ((k,v)::entries)++r)=
      getValueFromMapLoop mp key n (encodeEntries mp entries++r) := by
  simp [getValueFromMapLoop,decodeStr_key hmp hk,next_key hmp hk,h,hv.isValue hmp _]

theorem decodeCheckedFromMapLoop_hit {γ : Type} {decode : Bytes → Option (Option γ)} {key : Bytes}
    (h : strncmpEq k key k.length=true) :
    decodeCheckedFromMapLoop mp decode key (n+1) (encodeEntries mp ((k,v)::entries)++r)=
      decode (encode mp v++(encodeEntries mp entries++r)) := by
  simp [decodeCheckedFromMapLoop,decodeStr_key hmp hk,next_key hmp hk,
    strncmpEq_append_left _ _ _ (Nat.le_refl k.length),h]

theorem decodeCheckedFromMapLoop_miss {γ : Type} {decode : Bytes → Option (Option γ)} {key : Bytes}
    (hv : Valid mp v) (h : strncmpEq k key k.length=false) :
    decodeCheckedFromMapLoop mp decode key (n+1) (encodeEntries mp ((k,v)::entries)++r)=
      decodeCheckedFromMapLoop mp decode key n (encodeEntries mp entries++r) := by
  simp [decodeCheckedFromMapLoop,decodeStr_key hmp hk,next_key hmp hk,
    strncmpEq_append_left _ _ _ (Nat.le_refl k.length),h,hv.isValue hmp _]

theorem decodeFromMapLoop_hit {γ : Type} {decode : Bytes → Option γ} {key : Bytes} {x : γ}
    (h : strncmpEq k key k.length=true)
    (hx : decode (encode mp v++(encodeEntries mp entries++r))=some x) :
    decodeFromMapLoop mp decode key (n+1) (encodeEntries mp ((k,v)::entries)++r)=
      some (some x) := by
  simp [decodeFromMapLoop,decodeStr_key hmp hk,next_key hmp hk,
    strncmpEq_append_left _ _ _ (Nat.le_refl k.length),h,hx]

theorem decodeFromMapLoop_miss {γ : Type} {decode : Bytes → Option γ} {key : Bytes}
    (hv : Valid mp v) (h : strncmpEq k key k.length=false) :
    decodeFromMapLoop mp decode key (n+1) (encodeEntries mp ((k,v)::entries)++r)=
      decodeFromMapLoop mp decode key n (encodeEntries mp entries++r) := by
  simp [decodeFromMapLoop,decodeStr_key hmp hk,next_key hmp hk,
    strncmpEq_append_left _ _ _ (Nat.le_refl k.length),h,hv.isValue hmp _]

theorem hasKeyLoop_hit {key : Bytes} (h : strncmpEq k key k.length=true) :
    hasKeyLoop mp key (n+1) (encodeEntries mp ((k,v)::entries)++r)=some true := by
  simp [hasKeyLoop,decodeStr_key hmp hk,next_key hmp hk,
    strncmpEq_append_left _ _ _ (Nat.le_refl k.length),h]

theorem hasKeyLoop_miss {key : Bytes} (hv : Valid mp v) (h : strncmpEq k key k.length=false) :
    hasKeyLoop mp key (n+1) (encodeEntries mp ((k,v)::entries)++r)=
      hasKeyLoop mp key n (encodeEntries mp entries++r) := by
  simp [hasKeyLoop,decodeStr_key hmp hk,next_key hmp hk,
    strncmpEq_append_left _ _ _ (Nat.le_refl k.length),h,hv.isValue hmp _]

end Steps

section Maps

variable {n : Nat} {entries : List (Bytes × Doc)} (hd : Valid mp (.map n entries)) (r : Bytes)

include hd

theorem getValueFromMapN_map (key : Text) :
    getValueFromMapN mp (encode mp (.map n entries)++r) key=
      getValueFromMapLoop mp key entries.length (encodeEntries mp entries++r) := by
  obtain ⟨rfl,hn,-⟩ := (valid_map _ _).mp hd
  simp [getValueFromMapN,encode,hmp.type_map hn,hmp.decode_map hn]

theorem decodeCheckedFromMap_map {γ : Type} (decode : Bytes → Option (Option γ)) (key : Bytes) :
    decodeCheckedFromMap mp decode (encode mp (.map n entries)++r) key=
      decodeCheckedFromMapLoop mp decode key entries.length (encodeEntries mp entries++r) := by
  obtain ⟨rfl,hn,-⟩ := (valid_map _ _).mp hd
  simp [decodeCheckedFromMap,encode,hmp.type_map hn,hmp.decode_map hn]

theorem decodeFromMap_map {γ : Type} (decode : Bytes → Option γ) (key : Bytes) :
    decodeFromMap mp decode (encode mp (.map n entries)++r) key=
      decodeFromMapLoop mp decode key entries.length (encodeEntries mp entries++r) := by
  obtain ⟨rfl,hn,-⟩ := (valid_map _ _).mp hd
  simp [decodeFromMap,encode,hmp.type_map hn,hmp.decode_map hn]

theorem hasKey_map (key : Bytes) :
    hasKey mp (encode mp (.map n entries)++r) key=
      hasKeyLoop mp key entries.length (encodeEntries mp entries++r) := by
  obtain ⟨rfl,hn,-⟩ := (valid_map _ _).mp hd
  simp [hasKey,encode,hmp.type_map hn,hmp.decode_map hn]

end Maps

omit hmp in
/-- A loop over a map passes the entries whose keys it does not want. -/
theorem loop_pass {β : Type} {L : Nat → Bytes → β} {P : Bytes → Prop}
    (hstep : ∀ {k v entries n r}, P k → k.length<2^32 → Valid mp v →
      L (n+1) (encodeEntries mp ((k,v)::entries)++r)=L n (encodeEntries mp entries++r))
    (i : Nat) {entries : List (Bytes × Doc)} {e : Bytes × Doc} (hvalid : EntriesValid mp entries)
    (hi : entries[i]?=some e) (hmiss : ∀ k ∈ (entries.take i).map Prod.fst, P k) (r : Bytes) :
    e.1.length<2^32 ∧ Valid mp e.2 ∧ ∃ n, L entries.length (encodeEntries mp entries++r)=
      L (n+1) (encodeEntries mp (e::entries.drop (i+1))++r) := by
  induction i generalizing entries with
  | zero =>
    cases entries with
    | nil => simp at hi
    | cons e' entries =>
      obtain rfl : e'=e := by simpa using hi
      obtain ⟨hk,hv,-⟩ := (entriesValid_cons _ _).mp hvalid
      exact ⟨hk,hv,entries.length,rfl⟩
  | succ i ih =>
    cases entries with
    | nil => simp at hi
    | cons e' entries =>
      obtain ⟨k,v⟩ := e'
      obtain ⟨hk,hv,hrest⟩ := (entriesValid_cons _ _).mp hvalid
      have htail : ∀ k ∈ (entries.take i).map Prod.fst, P k := by
        intro k' hk'
        exact hmiss k' (by simp only [List.take_succ_cons,List.map_cons]; exact .tail _ hk')
      rw [List.length_cons,hstep (hmiss k (by simp)) hk hv]
      exact ih hrest (by simpa using hi) htail

section Found

variable (i : Nat) {n : Nat} {entries : List (Bytes × Doc)} {keys : List Bytes} {key : Bytes}
  {value : Doc} (hd : Valid mp (.map n entries)) (hkeys : entries.map Prod.fst=keys)
  (hi : entries[i]?=some (key,value)) (r : Bytes)

include hd hkeys hi

/-- The value under a key that no earlier key starts with, or starts. -/
theorem getValueFromMap_at (hmiss : ∀ k ∈ keys.take i,
      strncmpEq key k (min key.length k.length)=false) :
    getValueFromMap mp (encode mp (.map n entries)++r) key=
      some (some (encode mp value++(encodeEntries mp (entries.drop (i+1))++r))) := by
  rw [getValueFromMap,getValueFromMapN_map hmp hd]
  obtain ⟨hk,-,m,hm⟩ := loop_pass (L := getValueFromMapLoop mp (.ofString key))
    (fun hP hk hv => getValueFromMapLoop_miss hmp hk hv (strncmpEq_miss hP _))
    i ((valid_map _ _).mp hd).2.2 hi (by rwa [List.map_take,hkeys]) r
  rw [hm]
  apply getValueFromMapLoop_hit hmp hk
  rw [Text.ofString,strncmpEq_append_right _ _ _ (Nat.le_refl key.length)]
  exact strncmpEq_self _ _

theorem decodeStringFromMap_at {b : Bytes} (hv : value=.raw (mp.encodeStr b)) (hb : b.length<2^32)
    (hmiss : ∀ k ∈ keys.take i, strncmpEq k key k.length=false) :
    decodeStringFromMap mp (encode mp (.map n entries)++r) key=
      some (some ⟨b++(encodeEntries mp (entries.drop (i+1))++r),b.length⟩) := by
  rw [decodeStringFromMap,decodeCheckedFromMap_map hmp hd]
  obtain ⟨hk,-,m,hm⟩ := loop_pass
    (fun hP hk hv => decodeCheckedFromMapLoop_miss hmp hk hv hP)
    i ((valid_map _ _).mp hd).2.2 hi (by rwa [List.map_take,hkeys]) r
  rw [hm,decodeCheckedFromMapLoop_hit hmp hk (strncmpEq_self _ _),hv,encode]
  exact decodeStr_encode hmp hb _

theorem decodeUintFromMap_at {x : UInt32} (hv : value=.raw (mp.encodeUint x))
    (hmiss : ∀ k ∈ keys.take i, strncmpEq k key k.length=false) :
    decodeUintFromMap mp (encode mp (.map n entries)++r) key=some (some x) := by
  rw [decodeUintFromMap,decodeFromMap_map hmp hd]
  obtain ⟨hk,-,m,hm⟩ := loop_pass
    (fun hP hk hv => decodeFromMapLoop_miss hmp hk hv hP)
    i ((valid_map _ _).mp hd).2.2 hi (by rwa [List.map_take,hkeys]) r
  rw [hm]
  apply decodeFromMapLoop_hit hmp hk (strncmpEq_self _ _)
  rw [hv,encode]
  exact hmp.decode_uint x _

end Found

section Arrays

variable {n : Nat} {items : List Doc} (hd : Valid mp (.array n items)) (r : Bytes)

include hd

theorem skip_items {i : Nat} {d : Doc} (hi : items[i]?=some d) :
    skip mp i (encodeItems mp items++r)=
      some (encode mp d++(encodeItems mp (items.drop (i+1))++r)) := by
  have hvalid := ((valid_array _ _).mp hd).2.2
  clear hd
  induction i generalizing items with
  | zero =>
    cases items with
    | nil => simp at hi
    | cons d' items =>
      obtain rfl : d'=d := by simpa using hi
      simp [skip,encodeItems]
  | succ i ih =>
    cases items with
    | nil => simp at hi
    | cons d' items =>
      obtain ⟨hv,hrest⟩ := (itemsValid_cons _ _).mp hvalid
      simp only [skip,encodeItems,List.append_assoc,hv.isValue hmp _,Option.bind_eq_bind,
        Option.bind_some,List.drop_succ_cons]
      exact ih (by simpa using hi) hrest

theorem getValueFromArray_at {i : Nat} {d : Doc} (hi : items[i]?=some d) :
    getValueFromArray mp (encode mp (.array n items)++r) i=
      some (some (encode mp d++(encodeItems mp (items.drop (i+1))++r))) := by
  have hskip := skip_items hmp hd r hi
  obtain ⟨rfl,hn,-⟩ := (valid_array _ _).mp hd
  obtain ⟨hlt,-⟩ := List.getElem?_eq_some_iff.mp hi
  simp [getValueFromArray,encode,hmp.decode_array hn,hlt,hskip]

theorem decodeStringFromArray_at {i : Nat} {b : Bytes}
    (hi : items[i]?=some (.raw (mp.encodeStr b))) (hb : b.length<2^32) :
    decodeStringFromArray mp (encode mp (.array n items)++r) i=
      some (some ⟨b++(encodeItems mp (items.drop (i+1))++r),b.length⟩) := by
  have hskip := skip_items hmp hd r hi
  obtain ⟨rfl,hn,-⟩ := (valid_array _ _).mp hd
  obtain ⟨hlt,-⟩ := List.getElem?_eq_some_iff.mp hi
  rw [encode] at hskip
  simp [decodeStringFromArray,encode,hmp.decode_array hn,hlt,hskip,decodeStr_encode hmp hb]

theorem getSizeOfArray_eq : getSizeOfArray mp (encode mp (.array n items)++r)=some n := by
  obtain ⟨rfl,hn,-⟩ := (valid_array _ _).mp hd
  simp [getSizeOfArray,encode,hmp.decode_array hn]

end Arrays

omit hmp in
theorem getSizeOfValue_eq {b : Bytes} (hb : mp.IsValue b) (r : Bytes) :
    getSizeOfValue mp (b++r)=some b.length := by
  simp [getSizeOfValue,hb r]

end Coder

end CalvinConstrained
