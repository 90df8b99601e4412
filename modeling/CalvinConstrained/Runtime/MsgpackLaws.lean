import CalvinConstrained.Runtime.Msgpack

namespace CalvinConstrained

/-- What the repository relies on in the MessagePack library. Sizes and lengths are 32 bit
numbers there. -/
structure Msgpuck.Lawful (mp : Msgpuck) : Prop where
  next_length : ∀ {b r}, mp.next b=some r → r.length<b.length
  next_map : ∀ {n}, n<2^32 → ∀ b, mp.next (mp.encodeMap n++b)=Coder.skip mp (2*n) b
  next_array : ∀ {n}, n<2^32 → ∀ b, mp.next (mp.encodeArray n++b)=Coder.skip mp n b
  next_str : ∀ {b : Bytes}, b.length<2^32 → ∀ r, mp.next (mp.encodeStr b++r)=some r
  next_uint : ∀ x r, mp.next (mp.encodeUint x++r)=some r
  next_bool : ∀ x r, mp.next (mp.encodeBool x++r)=some r
  next_nil : ∀ r, mp.next (mp.encodeNil++r)=some r
  length_str : ∀ b : Bytes, b.length<(mp.encodeStr b).length
  type_map : ∀ {n}, n<2^32 → ∀ r, mp.typeOf (mp.encodeMap n++r)=some .map
  type_array : ∀ {n}, n<2^32 → ∀ r, mp.typeOf (mp.encodeArray n++r)=some .array
  type_str : ∀ {b : Bytes}, b.length<2^32 → ∀ r, mp.typeOf (mp.encodeStr b++r)=some .str
  type_nil : ∀ r, mp.typeOf (mp.encodeNil++r)=some .nil
  decode_map : ∀ {n}, n<2^32 → ∀ r, mp.decodeMap (mp.encodeMap n++r)=some (n,r)
  decode_array : ∀ {n}, n<2^32 → ∀ r, mp.decodeArray (mp.encodeArray n++r)=some (n,r)
  decode_str : ∀ {b : Bytes}, b.length<2^32 → ∀ r,
    mp.decodeStr (mp.encodeStr b++r)=some ⟨b++r,b.length⟩
  decode_uint : ∀ x r, mp.decodeUint (mp.encodeUint x++r)=some x
  encode_fixint : ∀ x : UInt32, x<128 → mp.encodeUint x=[UInt8.ofNat x.toNat]

namespace Msgpack

theorem littleDigits_length (n x : Nat) : (littleDigits n x).length=n := by
  induction n generalizing x with
  | zero => rfl
  | succ n ih => simp [littleDigits,ih]

theorem toBigEndian_length (n x : Nat) : (toBigEndian n x).length=n := by
  simp [toBigEndian,littleDigits_length]

theorem littleDigits_value (n x : Nat) (hx : x<256^n) :
    (littleDigits n x).foldr (fun d acc => acc*256+d.toNat) 0=x := by
  induction n generalizing x with
  | zero =>
    have hx0 : x=0 := by simpa using hx
    simp [littleDigits,hx0]
  | succ n ih =>
    have hq : x/256<256^n := by
      rw [pow_succ] at hx
      exact Nat.div_lt_of_lt_mul (by omega)
    have hd : (UInt8.ofNat (x%256)).toNat=x%256 := by
      simp
    simp only [littleDigits,List.foldr_cons,ih _ hq,hd]
    omega

theorem bigEndian_toBigEndian (n x : Nat) (hx : x<256^n) (r : Bytes) :
    bigEndian n (toBigEndian n x++r)=some (x,r) := by
  have hlen := toBigEndian_length n x
  have hval : (toBigEndian n x).foldl (fun acc d => acc*256+d.toNat) 0=x := by
    rw [toBigEndian,List.foldl_reverse]
    exact littleDigits_value n x hx
  simp [bigEndian,hlen,hval]

theorem head_map {n : Nat} (hn : n<2^32) (r : Bytes) :
    head (msgpack.encodeMap n++r)=some (⟨.map,2*n,0,n⟩,r) := by
  simp only [msgpack]
  split_ifs with h1 h2
  · interval_cases n <;> rfl
  · rw [List.cons_append]
    simp [head,bigEndian_toBigEndian 2 n (by omega)]
  · rw [List.cons_append]
    simp [head,bigEndian_toBigEndian 4 n (by omega)]

theorem head_array {n : Nat} (hn : n<2^32) (r : Bytes) :
    head (msgpack.encodeArray n++r)=some (⟨.array,n,0,n⟩,r) := by
  simp only [msgpack]
  split_ifs with h1 h2
  · interval_cases n <;> rfl
  · rw [List.cons_append]
    simp [head,bigEndian_toBigEndian 2 n (by omega)]
  · rw [List.cons_append]
    simp [head,bigEndian_toBigEndian 4 n (by omega)]

theorem head_str {b : Bytes} (hb : b.length<2^32) (r : Bytes) :
    head (msgpack.encodeStr b++r)=some (⟨.str,0,b.length,0⟩,b++r) := by
  simp only [msgpack]
  generalize b.length=n at hb
  rw [List.append_assoc]
  split_ifs with h1 h2 h3
  · interval_cases n <;> rfl
  · rw [List.cons_append]
    simp [head,bigEndian_toBigEndian 1 n (by omega)]
  · rw [List.cons_append]
    simp [head,bigEndian_toBigEndian 2 n (by omega)]
  · rw [List.cons_append]
    simp [head,bigEndian_toBigEndian 4 n (by omega)]

theorem head_fixint {n : Nat} (hn : n<128) (r : Bytes) :
    head (UInt8.ofNat n::r)=some (⟨.uint,0,0,n⟩,r) := by
  have hc : UInt8.ofNat n<0x80 := by
    rw [UInt8.lt_iff_toNat_lt,UInt8.toNat_ofNat_of_lt' (by simp [UInt8.size]; omega)]
    exact hn
  have hv : (UInt8.ofNat n).toNat=n := UInt8.toNat_ofNat_of_lt' (by simp [UInt8.size]; omega)
  simp only [head,hc,if_true,hv]

theorem head_uint (x : UInt32) (r : Bytes) :
    head (msgpack.encodeUint x++r)=some (⟨.uint,0,0,x.toNat⟩,r) := by
  have hx := x.toNat_lt
  simp only [msgpack]
  split_ifs with h1 h2 h3
  · rw [UInt32.lt_iff_toNat_lt] at h1
    exact head_fixint h1 r
  · rw [UInt32.lt_iff_toNat_lt] at h2
    rw [List.cons_append]
    simp [head,bigEndian_toBigEndian 1 x.toNat (by simpa using h2)]
  · rw [UInt32.lt_iff_toNat_lt] at h3
    rw [List.cons_append]
    simp [head,bigEndian_toBigEndian 2 x.toNat (by simpa using h3)]
  · rw [List.cons_append]
    simp [head,bigEndian_toBigEndian 4 x.toNat (by simpa using hx)]

theorem head_bool (x : Bool) (r : Bytes) :
    head (msgpack.encodeBool x++r)=some (⟨.bool,0,0,x.toNat⟩,r) := by
  cases x <;> rfl

theorem head_nil (r : Bytes) : head (msgpack.encodeNil++r)=some (⟨.nil,0,0,0⟩,r) := rfl

theorem bigEndian_rest {n v : Nat} {b r : Bytes} (h : bigEndian n b=some (v,r)) :
    r.length ≤ b.length := by
  unfold bigEndian at h
  split_ifs at h
  obtain ⟨-,rfl⟩ := by simpa using h
  simp

/-- A way to read a head that takes nothing in front of `b`. -/
def Reads (b : Bytes) (x : Option (Head × Bytes)) : Prop :=
  ∀ h r, x=some (h,r) → r.length ≤ b.length

theorem reads_here (b : Bytes) (h : Head) : Reads b (some (h,b)) := by
  intro h' r heq
  obtain ⟨-,rfl⟩ := Prod.mk.inj (Option.some.inj heq)
  exact le_rfl

theorem reads_sized (b : Bytes) (n : Nat) (f : Nat × Bytes → Head × Bytes)
    (hf : ∀ v, (f v).2=v.2) : Reads b ((bigEndian n b).map f) := by
  intro h r heq
  obtain ⟨v,hv,hp⟩ := Option.map_eq_some_iff.mp heq
  have hr : v.2=r := by rw [← hf v,hp]
  exact hr ▸ bigEndian_rest hv

theorem reads_ite {b : Bytes} {c : Prop} [Decidable c] {x y : Option (Head × Bytes)}
    (hx : Reads b x) (hy : Reads b y) : Reads b (if c then x else y) := by
  split_ifs
  · exact hx
  · exact hy

/-- What follows the head of a value is shorter than the message. -/
theorem head_rest {b r : Bytes} {h : Head} (hh : head b=some (h,r)) : r.length<b.length := by
  cases b with
  | nil => simp [head] at hh
  | cons c b =>
    have hread : Reads b (head (c::b)) := by
      unfold head
      repeat' apply reads_ite
      all_goals first
        | exact reads_here b _
        | exact reads_sized b _ _ fun _ => rfl
        | exact fun _ _ h => nomatch h
    have hle := hread h r hh
    simp only [List.length_cons]
    omega

theorem skipValues_zero (fuel : Nat) (b : Bytes) : skipValues fuel 0 b=some b := by
  cases fuel <;> rfl

/-- Fuel beyond the length of the message makes no difference. -/
theorem skipValues_fuel {f count : Nat} {b : Bytes} (hf : b.length ≤ f) :
    skipValues f count b=skipValues b.length count b := by
  suffices h : ∀ f g, b.length ≤ f → b.length ≤ g →
      skipValues f count b=skipValues g count b from h _ _ hf le_rfl
  intro f
  induction f generalizing count b with
  | zero =>
    intro g hb hg
    obtain rfl : b=[] := List.eq_nil_of_length_eq_zero (by omega)
    cases count with
    | zero => simp [skipValues_zero]
    | succ count => cases g <;> simp [skipValues,head]
  | succ f ih =>
    intro g hb hg
    cases count with
    | zero => simp [skipValues_zero]
    | succ count =>
      cases g with
      | zero =>
        obtain rfl : b=[] := List.eq_nil_of_length_eq_zero (by omega)
        simp [skipValues,head]
      | succ g =>
        simp only [skipValues]
        cases hh : head b with
        | none => rfl
        | some v =>
          obtain ⟨h,r⟩ := v
          have hr := head_rest hh
          simp only [Option.bind_eq_bind,Option.bind_some]
          split_ifs with hp
          · apply ih (by simp; omega) g (by simp; omega) (by simp; omega)
          · rfl

theorem skipValues_length {fuel count : Nat} {b r : Bytes}
    (h : skipValues fuel count b=some r) : r.length+count ≤ b.length := by
  induction fuel generalizing count b with
  | zero =>
    cases count with
    | zero =>
      obtain rfl : b=r := by simpa [skipValues] using h
      simp
    | succ count => simp [skipValues] at h
  | succ fuel ih =>
    cases count with
    | zero =>
      obtain rfl : b=r := by simpa [skipValues] using h
      simp
    | succ count =>
      simp only [skipValues] at h
      cases hh : head b with
      | none => simp [hh] at h
      | some v =>
        obtain ⟨hd,r'⟩ := v
        have hr := head_rest hh
        simp only [hh,Option.bind_eq_bind,Option.bind_some] at h
        split_ifs at h with hp
        have hi := ih h
        simp only [List.length_drop] at hi
        omega

theorem skipValues_add {fuel m n : Nat} {b : Bytes} (hf : b.length ≤ fuel) :
    skipValues fuel (m+n) b=(skipValues fuel m b).bind (skipValues fuel n) := by
  induction fuel generalizing m b with
  | zero =>
    obtain rfl : b=[] := List.eq_nil_of_length_eq_zero (by omega)
    cases m with
    | zero => simp [skipValues_zero]
    | succ m => simp [skipValues,show m+1+n=m+n+1 by omega]
  | succ fuel ih =>
    cases m with
    | zero => simp [skipValues_zero]
    | succ m =>
      rw [show m+1+n=m+n+1 by omega]
      simp only [skipValues]
      cases hh : head b with
      | none => rfl
      | some v =>
        obtain ⟨h,r⟩ := v
        have hr := head_rest hh
        simp only [Option.bind_eq_bind,Option.bind_some]
        split_ifs with hp
        · have hlen : (r.drop h.payload).length ≤ fuel := by
            simp only [List.length_drop]
            omega
          rw [show m+n+h.children=m+h.children+n by omega,ih hlen]
          cases hs : skipValues fuel (m+h.children) (r.drop h.payload) with
          | none => rfl
          | some u =>
            have hu := skipValues_length hs
            simp only [List.length_drop] at hu
            simp only [Option.bind_some]
            rw [skipValues_fuel (f := fuel) (by omega),skipValues_fuel (f := fuel+1) (by omega)]
        · rfl

/-- Values skipped one after the other are skipped at once. -/
theorem skip_eq (n : Nat) (b : Bytes) : Coder.skip msgpack n b=skipValues b.length n b := by
  induction n generalizing b with
  | zero => simp [Coder.skip,skipValues_zero]
  | succ n ih =>
    rw [Coder.skip,show n+1=1+n by omega,skipValues_add le_rfl]
    change (skipValues b.length 1 b).bind (Coder.skip msgpack n)=_
    cases hs : skipValues b.length 1 b with
    | none => rfl
    | some r =>
      have hr := skipValues_length hs
      simp only [Option.bind_some]
      rw [ih,skipValues_fuel (f := b.length) (by omega)]

/-- A message is skipped with its head, its text and the values inside. -/
theorem next_eq {b r : Bytes} {h : Head} (hh : head b=some (h,r)) (hp : h.payload ≤ r.length) :
    msgpack.next b=Coder.skip msgpack h.children (r.drop h.payload) := by
  have hr := head_rest hh
  change skipValues b.length 1 b=_
  obtain ⟨f,hf⟩ : ∃ f, b.length=f+1 := ⟨b.length-1,by omega⟩
  rw [hf]
  simp only [skipValues,hh,Option.bind_eq_bind,Option.bind_some,if_pos hp,Nat.zero_add]
  rw [skip_eq,skipValues_fuel]
  simp only [List.length_drop]
  omega

theorem typed_of_head {b r : Bytes} {h : Head} (hh : head b=some (h,r)) :
    typed h.type b=some (h,r) := by
  simp [typed,hh]

end Msgpack

open Msgpack in
theorem msgpack_lawful : msgpack.Lawful where
  next_length h := by
    have hs := skipValues_length h
    omega
  next_map hn b := by
    rw [next_eq (head_map hn b) (by simp)]
    rfl
  next_array hn b := by
    rw [next_eq (head_array hn b) (by simp)]
    rfl
  next_str hb r := by
    rw [next_eq (head_str hb r) (by simp)]
    simp [Coder.skip]
  next_uint x r := by
    rw [next_eq (head_uint x r) (by simp)]
    rfl
  next_bool x r := by
    rw [next_eq (head_bool x r) (by simp)]
    rfl
  next_nil r := by
    rw [next_eq (head_nil r) (by simp)]
    rfl
  length_str b := by
    simp only [msgpack]
    split_ifs <;> simp [toBigEndian_length]
  type_map hn r := by
    change (head _).map _=_
    rw [head_map hn r]
    rfl
  type_array hn r := by
    change (head _).map _=_
    rw [head_array hn r]
    rfl
  type_str hb r := by
    change (head _).map _=_
    rw [head_str hb r]
    rfl
  type_nil r := rfl
  decode_map hn r := by
    change (typed .map _).map _=_
    rw [typed_of_head (head_map hn r)]
    rfl
  decode_array hn r := by
    change (typed .array _).map _=_
    rw [typed_of_head (head_array hn r)]
    rfl
  decode_str hb r := by
    change (typed .str _).map _=_
    rw [typed_of_head (head_str hb r)]
    rfl
  decode_uint x r := by
    change (typed .uint _).map _=_
    rw [typed_of_head (head_uint x r)]
    simp
  encode_fixint x hx := by
    simp [msgpack,hx]

/-- The bytes are one value: exactly they are skipped, whatever follows. -/
def Msgpuck.IsValue (mp : Msgpuck) (b : Bytes) : Prop := ∀ r, mp.next (b++r)=some r

/-- A value is read from its own bytes alone. -/
structure Msgpuck.Local (mp : Msgpuck) : Prop extends Msgpuck.Lawful mp where
  next_local : ∀ {b r}, mp.next b=some r → ∃ p, b=p++r ∧ mp.IsValue p

namespace Msgpack

/-- What is read depends on the bytes that are taken alone. -/
def ReadsLocal (read : Bytes → Option (Head × Bytes)) : Prop :=
  ∀ b h r, read b=some (h,r) → ∃ p, b=p++r ∧ ∀ r', read (p++r')=some (h,r')

theorem readsLocal_here (h : Head) : ReadsLocal fun b => some (h,b) := by
  intro b h' r heq
  obtain ⟨rfl,rfl⟩ := Prod.mk.inj (Option.some.inj heq)
  exact ⟨[],rfl,fun _ => rfl⟩

theorem readsLocal_none : ReadsLocal fun _ => none := by
  intro b h r heq
  cases heq

theorem readsLocal_sized (n : Nat) (f : Nat × Bytes → Head × Bytes)
    (hf : ∀ v r, f (v,r)=((f (v,[])).1,r)) : ReadsLocal fun b => (bigEndian n b).map f := by
  intro b h r heq
  obtain ⟨v,hv,he⟩ := Option.map_eq_some_iff.mp heq
  unfold bigEndian at hv
  split_ifs at hv with hn
  obtain rfl := Option.some.inj hv
  rw [hf] at he
  obtain ⟨rfl,rfl⟩ := Prod.mk.inj he
  refine ⟨b.take n,(List.take_append_drop n b).symm,fun r' => ?_⟩
  have hlen : (b.take n).length=n := List.length_take_of_le hn
  have htake : (b.take n++r').take n=b.take n := List.take_left' hlen
  have hdrop : (b.take n++r').drop n=r' := List.drop_left' hlen
  have hle : n ≤ (b.take n++r').length := by
    rw [List.length_append,hlen]
    exact Nat.le_add_right _ _
  simp only [bigEndian,if_pos hle,htake,hdrop,Option.map_some]
  rw [hf]

theorem readsLocal_ite {c : Prop} [Decidable c] {x y : Bytes → Option (Head × Bytes)}
    (hx : ReadsLocal x) (hy : ReadsLocal y) : ReadsLocal fun b => if c then x b else y b := by
  split_ifs
  · exact hx
  · exact hy

theorem head_local (b : Bytes) {h : Head} {r : Bytes} (hh : head b=some (h,r)) :
    ∃ p, b=p++r ∧ ∀ r', head (p++r')=some (h,r') := by
  cases b with
  | nil => cases hh
  | cons c b =>
    have hread : ReadsLocal fun b => head (c::b) := by
      unfold head
      dsimp only
      repeat' apply readsLocal_ite
      all_goals first
        | exact readsLocal_here _
        | exact readsLocal_sized _ _ fun _ _ => rfl
        | exact readsLocal_none
    obtain ⟨p,rfl,hp⟩ := hread b h r hh
    exact ⟨c::p,rfl,hp⟩

/-- With more fuel and another rest the same values are skipped. -/
theorem skipValues_local {fuel count : Nat} {b r : Bytes} (h : skipValues fuel count b=some r) :
    ∃ p, b=p++r ∧ ∀ g r', fuel ≤ g → skipValues g count (p++r')=some r' := by
  induction fuel generalizing count b with
  | zero =>
    cases count with
    | zero =>
      cases h
      exact ⟨[],rfl,fun g r' _ => skipValues_zero g r'⟩
    | succ count => cases h
  | succ fuel ih =>
    cases count with
    | zero =>
      cases h
      exact ⟨[],rfl,fun g r' _ => skipValues_zero g r'⟩
    | succ count =>
      obtain ⟨⟨v,rest⟩,hv,hrun⟩ := Option.bind_eq_some_iff.mp h
      dsimp only at hrun
      split_ifs at hrun with hp
      obtain ⟨p,rfl,hread⟩ := head_local b hv
      obtain ⟨q,hq,hskip⟩ := ih hrun
      have hlen : (rest.take v.payload).length=v.payload := List.length_take_of_le hp
      have hrest : rest=rest.take v.payload++(q++r) := by
        rw [← hq,List.take_append_drop]
      refine ⟨p++(rest.take v.payload++q),?_,fun g r' hg => ?_⟩
      · rw [List.append_assoc,List.append_assoc,← hrest]
      · obtain ⟨g,rfl⟩ : ∃ k, g=k+1 := ⟨g-1,by omega⟩
        have hdrop : (rest.take v.payload++(q++r')).drop v.payload=q++r' := List.drop_left' hlen
        simp only [skipValues,List.append_assoc,hread,Option.bind_eq_bind,Option.bind_some,hdrop]
        rw [if_pos (by rw [List.length_append,hlen]; exact Nat.le_add_right _ _)]
        exact hskip g r' (by omega)

end Msgpack

open Msgpack in
theorem msgpack_local : msgpack.Local where
  toLawful := msgpack_lawful
  next_local {b r} h := by
    obtain ⟨p,rfl,hp⟩ := skipValues_local h
    have hown := hp _ [] le_rfl
    rw [List.append_nil,skipValues_fuel (by rw [List.length_append]; exact Nat.le_add_right _ _)]
      at hown
    obtain ⟨q,hq,hskip⟩ := skipValues_local hown
    rw [List.append_nil] at hq
    subst hq
    exact ⟨p,rfl,fun r' => hskip _ r' (by rw [List.length_append]; exact Nat.le_add_right _ _)⟩

/-- What the checked decoders of single values rely on as well. -/
structure Msgpuck.LawfulTypes (mp : Msgpuck) : Prop extends Msgpuck.Lawful mp where
  type_uint : ∀ x r, mp.typeOf (mp.encodeUint x++r)=some .uint
  type_bool : ∀ x r, mp.typeOf (mp.encodeBool x++r)=some .bool
  decode_bool : ∀ x r, mp.decodeBool (mp.encodeBool x++r)=some x

open Msgpack in
theorem msgpack_lawfulTypes : msgpack.LawfulTypes where
  toLawful := msgpack_lawful
  type_uint x r := by
    change (head _).map _=_
    rw [head_uint x r]
    rfl
  type_bool x r := by
    change (head _).map _=_
    rw [head_bool x r]
    rfl
  decode_bool x r := by
    change (typed .bool _).map _=_
    rw [typed_of_head (head_bool x r)]
    cases x <;> rfl

/-- One value, unless it is too long for a 32 bit length. -/
def Msgpuck.IsStored (mp : Msgpuck) (b : Bytes) : Prop := b.length<2^32 → mp.IsValue b

namespace Msgpuck.Lawful

variable {mp : Msgpuck} (hmp : mp.Lawful)

include hmp

theorem isValue_str {b : Bytes} (hb : b.length<2^32) : mp.IsValue (mp.encodeStr b) :=
  hmp.next_str hb

theorem isValue_uint (x : UInt32) : mp.IsValue (mp.encodeUint x) := hmp.next_uint x

theorem isValue_bool (x : Bool) : mp.IsValue (mp.encodeBool x) := hmp.next_bool x

theorem isValue_nil : mp.IsValue mp.encodeNil := hmp.next_nil

theorem isStored_str (b : Bytes) : mp.IsStored (mp.encodeStr b) := by
  intro hlen
  have hb := hmp.length_str b
  exact hmp.isValue_str (by omega)

theorem isValue_pos {b : Bytes} (hb : mp.IsValue b) : 0<b.length := by
  have h := hb []
  rw [List.append_nil] at h
  exact hmp.next_length h

end Msgpuck.Lawful

theorem Msgpuck.IsValue.next {mp : Msgpuck} {b : Bytes} (hb : mp.IsValue b) :
    mp.next b=some [] := by
  have h := hb []
  rwa [List.append_nil] at h

theorem Coder.skip_add (mp : Msgpuck) (m n : Nat) (b : Bytes) :
    Coder.skip mp (m+n) b=(Coder.skip mp m b).bind (Coder.skip mp n) := by
  induction m generalizing b with
  | zero => simp [Coder.skip]
  | succ m ih =>
    rw [show m+1+n=m+n+1 by omega]
    simp only [Coder.skip]
    cases mp.next b with
    | none => rfl
    | some r => exact ih r

end CalvinConstrained
