import CalvinConstrained.Runtime.MapLookup

namespace CalvinConstrained

/-- The text starts with the key. -/
def Text.startsWith (key : Bytes) (t : Text) : Bool := key.isPrefixOf t.content

/-- The text is the key for a C program: nothing or a NUL follows the key in it. -/
def Text.endsWith (key : Bytes) (t : Text) : Bool :=
  decide (t.content=key) || (key++[0]).isPrefixOf t.content

section Comparisons

variable {key : Bytes} {t : Text}

theorem cstr_prefix (b : Bytes) : cstr b <+: b := List.takeWhile_prefix _

theorem cstr_prefix_zero {b : Bytes} (h : 0 ∈ b) : cstr b++[0] <+: b := by
  induction b with
  | nil => cases h
  | cons c b ih =>
    by_cases hc : c=0
    · simp [cstr,hc]
    · obtain h | h := List.mem_cons.mp h
      · exact absurd h.symm hc
      · simpa [cstr,hc] using ih h

theorem startsWith_of_endsWith (h : t.endsWith key=true) : t.startsWith key=true := by
  rw [Text.endsWith,Bool.or_eq_true,decide_eq_true_eq,List.isPrefixOf_iff_prefix] at h
  rw [Text.startsWith,List.isPrefixOf_iff_prefix]
  obtain h | h := h
  · exact h ▸ List.prefix_rfl
  · exact (List.prefix_append key [0]).trans h

variable (hkey : 0 ∉ key) (ht : t.len ≤ t.ptr.length) (hproper : t.content <+: key → t.content=key)

include hkey

omit hkey in
theorem take_of_cstr_eq {b : Bytes} {n : Nat} (h : cstr (b.take n)=key) (hn : n=key.length) :
    b.take n=key := by
  have hpre : key <+: b.take n := h ▸ cstr_prefix _
  have hlen : (b.take n).length ≤ key.length := by
    rw [List.length_take,← hn]
    exact Nat.min_le_left n b.length
  exact (hpre.eq_of_length_le hlen).symm

theorem cstr_zero (rest : Bytes) : cstr (key++0::rest)=key := by
  rw [cstr,List.takeWhile_append_of_pos fun c hc => by
    have hne : c ≠ 0 := fun h0 => hkey (h0 ▸ hc)
    simpa using hne]
  simp

theorem cstr_key : cstr (key.take key.length)=key := by
  rw [List.take_length,cstr_of_not_mem hkey]

include ht hproper

/-- A comparison over the requested key finds the keys that start with it. -/
theorem strncmpEq_requested : strncmpEq key t.ptr key.length=t.startsWith key := by
  rw [Bool.eq_iff_iff,Text.startsWith,List.isPrefixOf_iff_prefix,strncmpEq,decide_eq_true_eq,
    cstr_key hkey]
  constructor
  · intro h
    have htake := take_of_cstr_eq h.symm rfl
    by_cases hlen : key.length ≤ t.len
    · rw [← htake]
      exact List.take_prefix_take_left hlen
    · have hstart : t.content <+: t.ptr.take key.length := List.take_prefix_take_left (by omega)
      rw [htake] at hstart
      rw [hproper hstart]
  · rintro ⟨rest,hrest⟩
    have hle : key.length ≤ t.len := by
      have hlen := congrArg List.length hrest
      rw [List.length_append,Text.content,List.length_take] at hlen
      omega
    have htake : t.ptr.take key.length=key := by
      have h := congrArg (List.take key.length) hrest
      rw [List.take_left,Text.content,List.take_take,Nat.min_eq_left hle] at h
      exact h.symm
    rw [htake,cstr_of_not_mem hkey]

omit hproper in
/-- A comparison over the length of the text: it may end early, or go on behind a NUL. -/
theorem strncmpEq_text : strncmpEq t.ptr key t.len=true ↔
    t.content <+: key ∨ key++[0] <+: t.content := by
  have hlen : t.content.length=t.len := by
    rw [Text.content,List.length_take]
    exact Nat.min_eq_left ht
  rw [strncmpEq,decide_eq_true_eq,cstr_of_not_mem (not_mem_take hkey t.len)]
  change cstr t.content=key.take t.len ↔ _
  constructor
  · intro h
    by_cases h0 : 0 ∈ t.content
    · have hpre := cstr_prefix_zero h0
      have hle := hpre.length_le
      rw [List.length_append,h,List.length_take,List.length_singleton,hlen] at hle
      rw [h,List.take_of_length_le (by omega)] at hpre
      exact .inr hpre
    · rw [cstr_of_not_mem h0] at h
      exact .inl (h ▸ List.take_prefix _ _)
  · rintro (h | ⟨rest,hrest⟩)
    · have h0 : 0 ∉ t.content := fun hm => hkey (h.subset hm)
      rw [cstr_of_not_mem h0,← hlen]
      exact List.prefix_iff_eq_take.mp h
    · have hle := congrArg List.length hrest
      rw [List.append_assoc,List.length_append,hlen] at hle
      rw [← hrest,List.append_assoc,List.singleton_append,cstr_zero hkey,
        List.take_of_length_le (by omega)]

/-- A comparison over the key of the map finds the keys that end the requested one. -/
theorem strncmpEq_received : strncmpEq t.ptr key t.len=t.endsWith key := by
  rw [Bool.eq_iff_iff,Text.endsWith,Bool.or_eq_true,decide_eq_true_eq,List.isPrefixOf_iff_prefix,
    strncmpEq_text hkey ht]
  constructor
  · rintro (h | h)
    · exact .inl (hproper h)
    · exact .inr h
  · rintro (h | h)
    · exact .inl (h ▸ List.prefix_rfl)
    · exact .inr h

end Comparisons

namespace Coder

/-- The types of values that have lookups of their own. -/
inductive Kind
  | string
  | bin
  | uint
  | bool
  | double
  | float
  deriving DecidableEq

namespace Kind

def Value : Kind → Type
  | .string => Text
  | .bin => Text
  | .uint => UInt32
  | .bool => Bool
  | .double => UInt64
  | .float => UInt32

instance : (k : Kind) → DecidableEq k.Value
  | .string => inferInstanceAs (DecidableEq Text)
  | .bin => inferInstanceAs (DecidableEq Text)
  | .uint => inferInstanceAs (DecidableEq UInt32)
  | .bool => inferInstanceAs (DecidableEq Bool)
  | .double => inferInstanceAs (DecidableEq UInt64)
  | .float => inferInstanceAs (DecidableEq UInt32)

def type : Kind → CoderType
  | .string => .str
  | .bin => .bin
  | .uint => .uint
  | .bool => .bool
  | .double => .double
  | .float => .float

/-- The types that the decoder of a value accepts. -/
def accepted : Kind → List CoderType
  | .uint => [.uint,.float,.double]
  | k => [k.type]

/-- The lookup leaves the value it finds to the decoder, which checks its type. -/
def checked : Kind → Bool
  | .string => true
  | .bin => true
  | _ => false

variable (mp : MsgpuckScalars) (ofFloat : Bytes → UInt32)

/-- `cc_coder_decode_string_from_map` to `cc_coder_decode_float_from_map`. -/
def decodeFromMap (buffer key : Bytes) : (k : Kind) → Option (Option k.Value)
  | .string => decodeStringFromMap mp.toMsgpuck buffer key
  | .bin => decodeBinFromMap mp buffer key
  | .uint => decodeUintFromMap mp.toMsgpuck buffer key
  | .bool => decodeBoolFromMap mp.toMsgpuck buffer key
  | .double => decodeDoubleFromMap mp buffer key
  | .float => decodeFloatFromMap mp buffer key

/-- `cc_coder_decode_str` to `cc_coder_decode_float`. -/
def decode (value : Bytes) : (k : Kind) → Option (Option k.Value)
  | .string => decodeStr mp.toMsgpuck value
  | .bin => decodeBin mp value
  | .uint => Encode.decodeUint mp.toMsgpuck ofFloat value
  | .bool => decodeBool mp.toMsgpuck value
  | .double => decodeDouble mp value
  | .float => decodeFloat mp value

/-- What a lookup does with the value it finds. -/
def found (value : Bytes) : (k : Kind) → Option (Option k.Value)
  | .string => decodeStr mp.toMsgpuck value
  | .bin => decodeBin mp value
  | .uint => (mp.decodeUint value).map some
  | .bool => (mp.decodeBool value).map some
  | .double => (mp.decodeDouble value).map some
  | .float => (mp.decodeFloat value).map some

/-- `cc_coder_get_value_from_map`, then the decoder on the value found. -/
def getAndDecode (buffer key : Bytes) (k : Kind) : Option (Option k.Value) := do
  match ← getValueFromMap mp.toMsgpuck buffer key with
  | some value => k.decode mp ofFloat value
  | none => return none

/-- Where a key starts with the requested one, the first that does so is the requested one and
its value has the right type, or only its type is checked. Where something else follows in the
first, no value that it has is decoded, or the same as under the first that is the requested
one. -/
def Agrees (key : Bytes) (pairs : List (Option Text × Bytes)) (k : Kind) : Prop :=
  ∀ p ∈ pairs.find? fun p => p.1.any (Text.startsWith key),
    (p.1.any (Text.endsWith key)=true ∧ (k.checked=true ∨ mp.typeOf p.2=some k.type)) ∨
    (p.1.any (Text.endsWith key)=false ∧
      (pairs.find? fun q => q.1.any (Text.endsWith key)).elim
        (∀ type ∈ k.accepted, mp.typeOf p.2 ≠ some type)
        fun q => k.found mp q.2=k.decode mp ofFloat p.2)

end Kind

/-- All keys are strings, and none is a proper start of the requested one. -/
structure StringKeys (key : Bytes) (pairs : List (Option Text × Bytes)) : Prop where
  strings : ∀ p ∈ pairs, p.1.isSome=true
  starts : ∀ p ∈ pairs, ∀ t ∈ p.1, t.content <+: key → t.content=key

section Values

variable {mp : MsgpuckScalars} (hmp : mp.Readable) {ofFloat : Bytes → UInt32}

include hmp

omit hmp in
theorem decodeTyped_eq_fail {α : Type} {type : CoderType} {decode : Bytes → Option α} {value : Bytes}
    (htyped : ∃ type, mp.typeOf value=some type)
    (hdecode : (decode value).isSome ↔ mp.typeOf value=some type) :
    some none=decodeTyped mp type decode value ↔ mp.typeOf value ≠ some type := by
  obtain ⟨type',htype⟩ := htyped
  by_cases heq : type'=type
  · obtain ⟨x,hx⟩ := Option.isSome_iff_exists.mp (hdecode.mpr (heq ▸ htype))
    simp [decodeTyped,htype,heq,hx]
  · simp [decodeTyped,htype,heq]

omit hmp in
theorem raw_eq_decodeTyped {α : Type} {type : CoderType} {decode : Bytes → Option α} {value : Bytes}
    (htyped : ∃ type, mp.typeOf value=some type)
    (hdecode : (decode value).isSome ↔ mp.typeOf value=some type) :
    (decode value).map some=decodeTyped mp type decode value ↔ mp.typeOf value=some type := by
  obtain ⟨type',htype⟩ := htyped
  by_cases heq : type'=type
  · obtain ⟨x,hx⟩ := Option.isSome_iff_exists.mp (hdecode.mpr (heq ▸ htype))
    simp [decodeTyped,htype,heq,hx]
  · have hnone : decode value=none := by
      rw [← Option.not_isSome_iff_eq_none,hdecode,htype]
      simpa using heq
    simp [decodeTyped,htype,heq,hnone]

theorem decodeUint_eq_fail {value rest : Bytes} (h : mp.next value=some rest) :
    some none=Encode.decodeUint mp.toMsgpuck ofFloat value ↔
      ∀ type ∈ Kind.uint.accepted, mp.typeOf value ≠ some type := by
  obtain ⟨type,htype⟩ := hmp.typed h
  have huint := hmp.uint h
  by_cases heq : type=.uint
  · obtain ⟨x,hx⟩ := Option.isSome_iff_exists.mp (huint.mpr (heq ▸ htype))
    simp [Encode.decodeUint,htype,heq,hx,Kind.accepted]
  · cases type <;> simp_all [Encode.decodeUint,Kind.accepted]

theorem raw_eq_decodeUint {value rest : Bytes} (h : mp.next value=some rest) :
    (mp.decodeUint value).map some=Encode.decodeUint mp.toMsgpuck ofFloat value ↔
      mp.typeOf value=some .uint := by
  obtain ⟨type,htype⟩ := hmp.typed h
  have huint := hmp.uint h
  by_cases heq : type=.uint
  · obtain ⟨x,hx⟩ := Option.isSome_iff_exists.mp (huint.mpr (heq ▸ htype))
    simp [Encode.decodeUint,htype,heq,hx]
  · have hnone : mp.decodeUint value=none := by
      rw [← Option.not_isSome_iff_eq_none,huint,htype]
      simpa using heq
    cases type <;> simp_all [Encode.decodeUint]

theorem Kind.decode_eq_fail {value rest : Bytes} (h : mp.next value=some rest) (k : Kind) :
    some none=k.decode mp ofFloat value ↔ ∀ type ∈ k.accepted, mp.typeOf value ≠ some type := by
  have htyped := hmp.typed h
  cases k with
  | uint => exact decodeUint_eq_fail hmp h
  | string => exact (decodeTyped_eq_fail htyped (hmp.str h)).trans (by simp [accepted,type])
  | bin => exact (decodeTyped_eq_fail htyped (hmp.bin h)).trans (by simp [accepted,type])
  | bool => exact (decodeTyped_eq_fail htyped (hmp.bool h)).trans (by simp [accepted,type])
  | double => exact (decodeTyped_eq_fail htyped (hmp.double h)).trans (by simp [accepted,type])
  | float => exact (decodeTyped_eq_fail htyped (hmp.float h)).trans (by simp [accepted,type])

/-- A lookup treats the value it finds like the decoder when the value has its type. -/
theorem Kind.found_eq_decode {value rest : Bytes} (h : mp.next value=some rest) (k : Kind) :
    k.found mp value=k.decode mp ofFloat value ↔ k.checked=true ∨ mp.typeOf value=some k.type := by
  have htyped := hmp.typed h
  cases k with
  | uint => exact (raw_eq_decodeUint hmp h).trans (by simp [checked,type])
  | string => exact iff_of_true rfl (.inl rfl)
  | bin => exact iff_of_true rfl (.inl rfl)
  | bool => exact (raw_eq_decodeTyped htyped (hmp.bool h)).trans (by simp [checked,type])
  | double => exact (raw_eq_decodeTyped htyped (hmp.double h)).trans (by simp [checked,type])
  | float => exact (raw_eq_decodeTyped htyped (hmp.float h)).trans (by simp [checked,type])

end Values

section Maps

variable {mp : MsgpuckScalars} {key : Bytes}

/-- Where all keys are strings, the lookups with a checked decoder find the same value as those
without. -/
theorem locate_pairs {n : Nat} {r : Bytes} {pairs : List (Option Text × Bytes)}
    (h : mapPairs mp.toMsgpuck n r=some pairs) (hstrings : ∀ p ∈ pairs, p.1.isSome=true) :
    locate mp.toMsgpuck key n r=some (rawValue key pairs) := by
  induction n generalizing r pairs with
  | zero =>
    cases h
    rfl
  | succ n ih =>
    obtain ⟨k,v,u,tail,hk,hv,hu,htail,rfl⟩ := mapPairs_succ h
    obtain ⟨t,rfl⟩ := Option.isSome_iff_exists.mp (hstrings (k,v) List.mem_cons_self)
    cases hhit : strncmpEq t.ptr key t.len with
    | true => simp [locate_hit hk hv hhit,rawValue,hhit]
    | false =>
      rw [locate_miss hk hv hu hhit,ih htail fun p hp => hstrings p (List.mem_cons_of_mem _ hp)]
      simp [rawValue,hhit]

/-- Every pair of a map stands at some place of it. -/
theorem mapPairs_mem {n : Nat} {r : Bytes} {pairs : List (Option Text × Bytes)}
    (h : mapPairs mp.toMsgpuck n r=some pairs) : ∀ p ∈ pairs, ∃ b u,
      decodeStr mp.toMsgpuck b=some p.1 ∧ mp.next b=some p.2 ∧ mp.next p.2=some u := by
  induction n generalizing r pairs with
  | zero =>
    cases h
    simp
  | succ n ih =>
    obtain ⟨k,v,u,tail,hk,hv,hu,htail,rfl⟩ := mapPairs_succ h
    intro p hp
    obtain rfl | hp := List.mem_cons.mp hp
    · exact ⟨r,u,hk,hv,hu⟩
    · exact ih htail p hp

theorem decodeStr_eq_text {b : Bytes} {t : Text} (h : decodeStr mp.toMsgpuck b=some (some t)) :
    mp.decodeStr b=some t := by
  obtain ⟨type,-,h⟩ := Option.bind_eq_some_iff.mp h
  split at h
  · obtain ⟨t',ht,h⟩ := Option.bind_eq_some_iff.mp h
    cases h
    exact ht
  · cases h

section Requested

variable (hkey : 0 ∉ key) {pairs : List (Option Text × Bytes)} (hkeys : StringKeys key pairs)
  (htext : ∀ p ∈ pairs, ∀ t ∈ p.1, t.len ≤ t.ptr.length)

include hkey hkeys htext

/-- The value that `cc_coder_get_value_from_map` finds. -/
theorem startValue_eq : startValue key pairs=
    (pairs.find? fun p => p.1.any (Text.startsWith key)).map Prod.snd := by
  induction pairs with
  | nil => rfl
  | cons p pairs ih =>
    obtain ⟨k,v⟩ := p
    obtain ⟨t,rfl⟩ := Option.isSome_iff_exists.mp (hkeys.strings (k,v) List.mem_cons_self)
    have hhit := strncmpEq_requested hkey (htext (some t,v) List.mem_cons_self t rfl)
      (hkeys.starts (some t,v) List.mem_cons_self t rfl)
    have hrest := ih ⟨fun p hp => hkeys.strings p (List.mem_cons_of_mem _ hp),
      fun p hp => hkeys.starts p (List.mem_cons_of_mem _ hp)⟩
      fun p hp => htext p (List.mem_cons_of_mem _ hp)
    cases hstarts : t.startsWith key with
    | true => simp [startValue,hhit,hstarts]
    | false => simp [startValue,hhit,hstarts,hrest]

/-- The value that the typed lookups find. -/
theorem rawValue_eq : rawValue key pairs=
    (pairs.find? fun p => p.1.any (Text.endsWith key)).map Prod.snd := by
  induction pairs with
  | nil => rfl
  | cons p pairs ih =>
    obtain ⟨k,v⟩ := p
    obtain ⟨t,rfl⟩ := Option.isSome_iff_exists.mp (hkeys.strings (k,v) List.mem_cons_self)
    have hhit := strncmpEq_received hkey (htext (some t,v) List.mem_cons_self t rfl)
      (hkeys.starts (some t,v) List.mem_cons_self t rfl)
    have hrest := ih ⟨fun p hp => hkeys.strings p (List.mem_cons_of_mem _ hp),
      fun p hp => hkeys.starts p (List.mem_cons_of_mem _ hp)⟩
      fun p hp => htext p (List.mem_cons_of_mem _ hp)
    cases hends : t.endsWith key with
    | true => simp [rawValue,hhit,hends]
    | false => simp [rawValue,hhit,hends,hrest]

end Requested

section Lookups

variable {buffer r : Bytes} {n : Nat} {pairs : List (Option Text × Bytes)}
  (h : IsMap mp.toMsgpuck buffer n r pairs)

include h

theorem Kind.decodeFromMap_pairs (hstrings : ∀ p ∈ pairs, p.1.isSome=true) (k : Kind) :
    k.decodeFromMap mp buffer key=(rawValue key pairs).elim (some none) fun v => k.found mp v := by
  have hlocate : locate mp.toMsgpuck key n r=some (rawValue key pairs) :=
    locate_pairs h.pairs hstrings
  have hchecked : ∀ {α : Type} (decode : Bytes → Option (Option α)),
      decodeCheckedFromMap mp.toMsgpuck decode buffer key=
        (rawValue key pairs).elim (some none) decode := by
    intro α decode
    rw [decodeCheckedFromMap_locate h,hlocate]
    rfl
  cases k with
  | string => exact hchecked _
  | bin => exact hchecked _
  | uint => exact Coder.decodeFromMap_pairs h _
  | bool => exact Coder.decodeFromMap_pairs h _
  | double => exact Coder.decodeFromMap_pairs h _
  | float => exact Coder.decodeFromMap_pairs h _

theorem Kind.getAndDecode_pairs (ofFloat : Bytes → UInt32) (k : Kind) :
    k.getAndDecode mp ofFloat buffer key=
      (startValue key pairs).elim (some none) fun v => k.decode mp ofFloat v := by
  rw [getAndDecode,getValueFromMap_pairs h]
  cases startValue key pairs with
  | none => rfl
  | some v => rfl

end Lookups

/-- A pair that is found by the weaker test and passes the stronger one is found by both. -/
theorem find?_eq_of_imp {α : Type} {p q : α → Bool} {l : List α} {a : α}
    (himp : ∀ a, q a=true → p a=true) (hp : l.find? p=some a) (hq : q a=true) :
    l.find? q=some a := by
  obtain ⟨-,as,bs,rfl,has⟩ := List.find?_eq_some_iff_append.mp hp
  refine List.find?_eq_some_iff_append.mpr ⟨hq,as,bs,rfl,fun b hb => ?_⟩
  have hpb := has b hb
  cases hqb : q b with
  | false => rfl
  | true =>
    rw [himp b hqb] at hpb
    cases hpb

theorem any_endsWith {k : Option Text} (h : k.any (Text.endsWith key)=true) :
    k.any (Text.startsWith key)=true := by
  cases k with
  | none => cases h
  | some t => exact startsWith_of_endsWith h

/-- A typed lookup and a lookup of the value that is then decoded agree in these cases only. -/
theorem typed_lookup_agrees_iff (hmp : mp.Readable) (ofFloat : Bytes → UInt32) {buffer r : Bytes}
    {n : Nat} {pairs : List (Option Text × Bytes)} (h : IsMap mp.toMsgpuck buffer n r pairs)
    (hkey : 0 ∉ key) (hkeys : StringKeys key pairs) (k : Kind) :
    k.decodeFromMap mp buffer key=k.getAndDecode mp ofFloat buffer key ↔
      k.Agrees mp ofFloat key pairs := by
  have htext : ∀ p ∈ pairs, ∀ t ∈ p.1, t.len ≤ t.ptr.length := by
    intro p hp t ht
    obtain ⟨b,u,hk,hv,-⟩ := mapPairs_mem h.pairs p hp
    rw [ht] at hk
    exact hmp.text hv (decodeStr_eq_text hk)
  rw [Kind.decodeFromMap_pairs h hkeys.strings,Kind.getAndDecode_pairs h,
    startValue_eq hkey hkeys htext,rawValue_eq hkey hkeys htext]
  unfold Kind.Agrees
  cases hstart : pairs.find? fun p => p.1.any (Text.startsWith key) with
  | none =>
    have hend : (pairs.find? fun p => p.1.any (Text.endsWith key))=none := by
      rw [List.find?_eq_none] at hstart ⊢
      exact fun p hp hends => hstart p hp (any_endsWith hends)
    simp [hend]
  | some p =>
    obtain ⟨-,u,-,-,hu⟩ := mapPairs_mem h.pairs p (List.mem_of_find?_eq_some hstart)
    simp only [Option.map_some,Option.elim_some,Option.mem_some_iff,forall_eq']
    cases hends : p.1.any (Text.endsWith key) with
    | true =>
      have hend : (pairs.find? fun p => p.1.any (Text.endsWith key))=some p :=
        find?_eq_of_imp (fun _ => any_endsWith) hstart hends
      simp only [hend,Option.map_some,Option.elim_some,true_and,Bool.true_eq_false,false_and,or_false]
      exact Kind.found_eq_decode hmp hu k
    | false =>
      simp only [Bool.false_eq_true,false_and,false_or,true_and]
      cases hend : pairs.find? fun p => p.1.any (Text.endsWith key) with
      | none => exact Kind.decode_eq_fail hmp hu k
      | some q => rfl

end Maps

/-- A map with `it`, `id` and `ids` as keys, where `id` alone has a number. -/
def numberMap : Bytes := [0x83,0xa2,105,116,0xc3,0xa2,105,100,7,0xa3,105,100,115,0xc3]

def numberPairs : List (Option Text × Bytes) :=
  [(some ⟨numberMap.drop 2,2⟩,numberMap.drop 4),(some ⟨numberMap.drop 6,2⟩,numberMap.drop 8),
    (some ⟨numberMap.drop 10,3⟩,numberMap.drop 13)]

theorem numberMap_isMap : IsMap msgpackScalars.toMsgpuck numberMap 3 (numberMap.drop 1) numberPairs :=
  ⟨by decide,by decide,by decide,by decide⟩

/-- The number under `id`, both ways. -/
theorem typed_lookup_agrees_number :
    decodeUintFromMap msgpackScalars.toMsgpuck numberMap (ascii "id")=some (some 7) ∧
    Kind.uint.decodeFromMap msgpackScalars numberMap (ascii "id")=
      Kind.uint.getAndDecode msgpackScalars (fun _ => 0) numberMap (ascii "id") := by
  refine ⟨by decide,(typed_lookup_agrees_iff msgpackScalars_readable _ numberMap_isMap (by decide)
    ⟨by decide,by decide⟩ _).mpr ?_⟩
  intro p hp
  have hfind : numberPairs.find? (fun p => p.1.any (Text.startsWith (ascii "id")))=
      some (some ⟨numberMap.drop 6,2⟩,numberMap.drop 8) := by decide
  rw [hfind] at hp
  cases hp
  exact .inl ⟨by decide,.inr (by decide)⟩

/-- A boolean is decoded as a number, which the library leaves undefined, and a key that goes on
behind the requested one is found in two steps only. -/
theorem typed_lookup_differs :
    IsMap msgpackScalars.toMsgpuck [0x81,0xa2,105,100,0xc3] 1 [0xa2,105,100,0xc3]
      [(some ⟨[105,100,0xc3],2⟩,[0xc3])] ∧
    Kind.uint.decodeFromMap msgpackScalars [0x81,0xa2,105,100,0xc3] (ascii "id")=none ∧
    Kind.uint.getAndDecode msgpackScalars (fun _ => 0) [0x81,0xa2,105,100,0xc3] (ascii "id")=
      some none ∧
    IsMap msgpackScalars.toMsgpuck [0x81,0xa2,105,100,7] 1 [0xa2,105,100,7]
      [(some ⟨[105,100,7],2⟩,[7])] ∧
    Kind.uint.decodeFromMap msgpackScalars [0x81,0xa2,105,100,7] (ascii "i")=some none ∧
    Kind.uint.getAndDecode msgpackScalars (fun _ => 0) [0x81,0xa2,105,100,7] (ascii "i") ≠
      some none := by
  exact ⟨⟨by decide,by decide,by decide,by decide⟩,by decide,by decide,
    ⟨by decide,by decide,by decide,by decide⟩,by decide,by decide⟩

end Coder

end CalvinConstrained
