import Mathlib

namespace CalvinConstrained

/-- `CC_UUID_BUFFER_SIZE`. -/
def uuidBufferSize : Nat := 50

/-- Identifier held in a `CC_UUID_BUFFER_SIZE` buffer: a C string without its
terminator. -/
@[ext] structure Uuid where
  bytes : List UInt8
  length_lt : bytes.length<uuidBufferSize
  noNul : 0 ∉ bytes
  deriving DecidableEq,Repr

namespace Uuid

def length (u : Uuid) : Nat := u.bytes.length

/-- The buffer up to and including the terminator. -/
def buffer (u : Uuid) : List UInt8 := u.bytes++[0]

end Uuid

/-- The characters of "0123456789abcdef". -/
def hexDigits : List UInt8 := [48,49,50,51,52,53,54,55,56,57,97,98,99,100,101,102]

/-- `cc_gen_uuid`: `rand i` is the outcome of the call to `rand` for position `i`. -/
def genUuid (rand : Nat → Nat) (pre : List UInt8) : List UInt8 :=
  pre++(List.range 36).map fun i =>
    if i ∈ [8,13,18,23] then 45 else (hexDigits[rand i%16]?).getD 0

theorem hexDigits_ne_zero (n : Nat) : (hexDigits[n%16]?).getD 0 ≠ 0 := by
  have h : ∀ k : Fin 16, (hexDigits[k.val]?).getD 0 ≠ 0 := by decide
  exact h ⟨n%16,Nat.mod_lt _ (by decide)⟩

/-- The id `cc_gen_uuid` gives a tunnel. -/
def Uuid.gen (rand : Nat → Nat) : Uuid where
  bytes := genUuid rand []
  length_lt := by simp [genUuid,uuidBufferSize]
  noNul := by
    simp only [genUuid,List.nil_append,List.mem_map,not_exists,not_and]
    intro i _
    split
    · decide
    · exact hexDigits_ne_zero _

/-- Value of a `char`, whose signedness is up to the platform. -/
def charValue (signed : Bool) (c : UInt8) : Int := if signed then c.toInt8.toInt else c.toNat

theorem charValue_inj (signed : Bool) {a b : UInt8} (h : charValue signed a=charValue signed b) :
    a=b := by
  cases signed
  · simp only [charValue,Bool.false_eq_true,if_false,Int.ofNat_inj] at h
    exact UInt8.toNat_inj.mp h
  · simp only [charValue,if_true] at h
    simpa using congrArg Int8.toUInt8 (Int8.toInt_inj.mp h)

/-- The loop of `cc_uuid_is_higher`, from index `i` downwards. -/
def higherFrom (signed : Bool) (id1 id2 : List UInt8) : Nat → Bool
  | 0 => decide (charValue signed (id2.getD 0 0)<charValue signed (id1.getD 0 0))
  | i+1 =>
      if charValue signed (id2.getD (i+1) 0)<charValue signed (id1.getD (i+1) 0) then true
      else higherFrom signed id1 id2 i

/-- `cc_uuid_is_higher`. The loop starts at `len1`, one byte behind each id. -/
def uuidIsHigher (signed : Bool) (id1 : List UInt8) (len1 : Nat) (id2 : List UInt8)
    (len2 : Nat) : Bool :=
  if len2<len1 then true
  else if len1<len2 then false
  else higherFrom signed id1 id2 len1

theorem higherFrom_iff (signed : Bool) (id1 id2 : List UInt8) (n : Nat) :
    higherFrom signed id1 id2 n=true ↔
      ∃ i ≤ n, charValue signed (id2.getD i 0)<charValue signed (id1.getD i 0) := by
  induction n with
  | zero => simp [higherFrom]
  | succ n ih =>
    unfold higherFrom
    split_ifs with h
    · simpa using ⟨n+1,Nat.le_refl _,h⟩
    · rw [ih]
      constructor
      · rintro ⟨i,hi,hlt⟩
        exact ⟨i,Nat.le_succ_of_le hi,hlt⟩
      · rintro ⟨i,hi,hlt⟩
        rcases Nat.lt_or_eq_of_le hi with hi | rfl
        · exact ⟨i,Nat.le_of_lt_succ hi,hlt⟩
        · exact absurd hlt h

/-- The id of a TUNNEL_NEW request as the receiver reads it: the key `type` follows
in the message, so the byte behind the id is its header. -/
def requestBuffer (id : Uuid) : List UInt8 := id.bytes++[0xa4]

/-- The comparison made by `cc_tunnel_handle_tunnel_new_request` between a requested
id and the id of the tunnel already there. -/
def requestIsHigher (signed : Bool) (requested own : Uuid) : Bool :=
  uuidIsHigher signed (requestBuffer requested) requested.length own.buffer own.length

private theorem getD_request (u : Uuid) (b : UInt8) (i : Nat) (hi : i<u.length) :
    (u.bytes++[b]).getD i 0=u.bytes[i] := by
  simp [List.getD,List.getElem?_append_left hi,List.getElem?_eq_getElem hi]

theorem requestIsHigher_of_unsigned {x y : Uuid} (h : x.length=y.length) :
    requestIsHigher false x y=true := by
  rw [requestIsHigher,uuidIsHigher,if_neg (by omega),if_neg (by omega),higherFrom_iff]
  refine ⟨x.length,Nat.le_refl _,?_⟩
  have hx : (requestBuffer x).getD x.length 0=0xa4 := by simp [requestBuffer,Uuid.length]
  have hy : y.buffer.getD x.length 0=0 := by
    rw [h]
    simp [Uuid.buffer,Uuid.length]
  rw [hx,hy]
  decide

/-- Two different ids are never both left in place: at least one end renames. -/
theorem eq_of_not_requestIsHigher {s t : Bool} {x y : Uuid}
    (hxy : requestIsHigher s x y=false) (hyx : requestIsHigher t y x=false) : x=y := by
  have hlen : x.length=y.length := by
    simp only [requestIsHigher,uuidIsHigher] at hxy hyx
    split_ifs at hxy hyx
    all_goals omega
  have hs : s=true := by
    cases s with
    | true => rfl
    | false => rw [requestIsHigher_of_unsigned hlen] at hxy; cases hxy
  have ht : t=true := by
    cases t with
    | true => rfl
    | false => rw [requestIsHigher_of_unsigned hlen.symm] at hyx; cases hyx
  subst s t
  rw [requestIsHigher,uuidIsHigher,if_neg (by omega),if_neg (by omega),
    ← Bool.not_eq_true,higherFrom_iff] at hxy hyx
  apply Uuid.ext
  apply List.ext_getElem hlen
  intro i hx hy
  apply charValue_inj true
  apply Int.le_antisymm
  · apply Int.not_lt.mp
    intro hlt
    refine hxy ⟨i,Nat.le_of_lt hx,?_⟩
    rwa [requestBuffer,getD_request x _ i hx,Uuid.buffer,getD_request y _ i hy]
  · apply Int.not_lt.mp
    intro hlt
    refine hyx ⟨i,Nat.le_of_lt hy,?_⟩
    rwa [requestBuffer,getD_request y _ i hy,Uuid.buffer,getD_request x _ i hx]

end CalvinConstrained
