import CalvinConstrained.Runtime.Uuid

namespace CalvinConstrained

/-- `int i = len1`: where the loop of `cc_uuid_is_higher` starts, unless the length turns negative. -/
def scanStart (len : Nat) : Option Nat := if len%2^32<2^31 then some (len%2^32) else none

/-- `cc_uuid_is_higher` on ids of any length; `x` and `y` stand behind the ids in memory. -/
def idIsHigher (signed : Bool) (a : List UInt8) (x : UInt8) (b : List UInt8) (y : UInt8) : Bool :=
  if b.length<a.length then true
  else if a.length<b.length then false
  else (scanStart a.length).elim false (higherFrom signed (a++[x]) (b++[y]))

/-- The byte of the first id at place `i` is greater than that of the second. -/
def ByteAbove (signed : Bool) (a : List UInt8) (x : UInt8) (b : List UInt8) (y : UInt8) (i : Nat) :
    Prop :=
  charValue signed ((b++[y]).getD i 0)<charValue signed ((a++[x]).getD i 0)

/-- What is expected of `cc_uuid_is_higher` on three ids. -/
structure OrdersIds (signed : Bool) (a b c : List UInt8) (x y z : UInt8) : Prop where
  irrefl : idIsHigher signed a x a x=false
  asymm : ¬(idIsHigher signed a x b y=true ∧ idIsHigher signed b y a x=true)
  trans : idIsHigher signed a x b y=true → idIsHigher signed b y c z=true →
    idIsHigher signed a x c z=true
  total : a.length=b.length → a ≠ b →
    Xor (idIsHigher signed a x b y=true) (idIsHigher signed b y a x=true)
  behind : ∀ x' y', idIsHigher signed a x' b y'=idIsHigher signed a x b y

/-- The two ids are told apart by their lengths, or all bytes that are compared agree on their
order. -/
def AgreeOnOrder (signed : Bool) (a : List UInt8) (x : UInt8) (b : List UInt8) (y : UInt8) : Prop :=
  a.length ≠ b.length ∨
    if a.length<2^31 then
      (∃ i<a.length, ByteAbove signed a x b y i) ∧ ∀ i ≤ a.length, ¬ByteAbove signed b y a x i
    else a=b ∨ Xor (∃ i ≤ a.length%2^32, a.length%2^32<2^31 ∧ ByteAbove signed a x b y i)
      (∃ i ≤ a.length%2^32, a.length%2^32<2^31 ∧ ByteAbove signed b y a x i)

section

variable {signed : Bool} {a b c : List UInt8} {x y z : UInt8}

theorem scanStart_of_lt {len : Nat} (h : len<2^31) : scanStart len=some len := by
  have hmod : len%2^32=len := Nat.mod_eq_of_lt (by omega)
  rw [scanStart,hmod,if_pos h]

/-- The loop runs over the places up to its start. -/
theorem idIsHigher_iff (h : a.length=b.length) :
    idIsHigher signed a x b y=true ↔
      ∃ i ≤ a.length%2^32, a.length%2^32<2^31 ∧ ByteAbove signed a x b y i := by
  rw [idIsHigher,if_neg (by omega),if_neg (by omega),scanStart]
  split
  · next hstart =>
    rw [Option.elim_some,higherFrom_iff]
    constructor
    · intro hi
      obtain ⟨i,hi,habove⟩ := hi
      exact ⟨i,hi,hstart,habove⟩
    · intro hi
      obtain ⟨i,hi,-,habove⟩ := hi
      exact ⟨i,hi,habove⟩
  · next hstart =>
    constructor
    · intro hfalse
      cases hfalse
    · intro hi
      obtain ⟨i,-,hlt,-⟩ := hi
      exact absurd hlt hstart

theorem idIsHigher_short_iff (h : a.length=b.length) (hlt : a.length<2^31) :
    idIsHigher signed a x b y=true ↔ ∃ i ≤ a.length, ByteAbove signed a x b y i := by
  have hmod : a.length%2^32=a.length := Nat.mod_eq_of_lt (by omega)
  rw [idIsHigher_iff h,hmod]
  refine exists_congr fun i => and_congr_right fun _ => ?_
  exact and_iff_right hlt

theorem idIsHigher_eq (h : a.length<2^31) :
    idIsHigher signed a x b y=uuidIsHigher signed (a++[x]) a.length (b++[y]) b.length := by
  rw [idIsHigher,uuidIsHigher,scanStart_of_lt h]
  rfl

theorem idIsHigher_of_longer (h : b.length<a.length) : idIsHigher signed a x b y=true := by
  rw [idIsHigher,if_pos h]

theorem idIsHigher_of_shorter (h : a.length<b.length) : idIsHigher signed a x b y=false := by
  rw [idIsHigher,if_neg (by omega),if_pos h]

theorem length_le_of_idIsHigher (h : idIsHigher signed a x b y=true) : b.length ≤ a.length := by
  by_contra hlt
  rw [idIsHigher_of_shorter (by omega)] at h
  cases h

theorem idIsHigher_irrefl (signed : Bool) (a : List UInt8) (x : UInt8) :
    idIsHigher signed a x a x=false := by
  rw [← Bool.not_eq_true,idIsHigher_iff rfl]
  intro h
  obtain ⟨i,-,-,habove⟩ := h
  exact lt_irrefl _ habove

/-- Within an id, the byte behind it plays no part. -/
theorem byteAbove_inside (hlen : a.length=b.length) {i : Nat} (hi : i<a.length) (x' y' : UInt8) :
    ByteAbove signed a x' b y' i ↔ ByteAbove signed a x b y i := by
  have ha : ∀ v : UInt8, (a++[v]).getD i 0=a.getD i 0 := by
    intro v
    simp only [List.getD,List.getElem?_append_left hi]
  have hb : ∀ v : UInt8, (b++[v]).getD i 0=b.getD i 0 := by
    intro v
    simp only [List.getD,List.getElem?_append_left (hlen ▸ hi)]
  rw [ByteAbove,ByteAbove,ha,ha,hb,hb]

theorem byteAbove_behind (hlen : a.length=b.length) :
    ByteAbove signed a x b y a.length ↔ charValue signed y<charValue signed x := by
  have hb : (b++[y]).getD a.length 0=y := by
    rw [hlen]
    simp
  rw [ByteAbove,hb]
  simp

/-- Where not both ids are higher than each other, being higher is transitive. -/
theorem idIsHigher_trans (h : ¬(idIsHigher signed a x b y=true ∧ idIsHigher signed b y a x=true))
    (hab : idIsHigher signed a x b y=true) (hbc : idIsHigher signed b y c z=true) :
    idIsHigher signed a x c z=true := by
  have hba : ¬idIsHigher signed b y a x=true := fun hba => h ⟨hab,hba⟩
  have hle := length_le_of_idIsHigher hab
  have hle' := length_le_of_idIsHigher hbc
  by_cases hlt : c.length<a.length
  · exact idIsHigher_of_longer hlt
  have hlen : a.length=b.length := by omega
  have hlen' : b.length=c.length := by omega
  rw [idIsHigher_iff hlen.symm,← hlen] at hba
  rw [idIsHigher_iff hlen',← hlen] at hbc
  obtain ⟨i,hi,hstart,hbc⟩ := hbc
  rw [idIsHigher_iff (hlen.trans hlen')]
  refine ⟨i,hi,hstart,lt_of_lt_of_le hbc ?_⟩
  by_contra habove
  exact hba ⟨i,hi,hstart,not_le.mp habove⟩

/-- Whether the byte behind an id decides: it does unless a byte before it has. -/
theorem behind_iff (hlen : a.length=b.length) (hlt : a.length<2^31) :
    (∀ x' y', idIsHigher signed a x' b y'=idIsHigher signed a x b y) ↔
      ∃ i<a.length, ByteAbove signed a x b y i := by
  have hhigher : ∀ u v, (idIsHigher signed a u b v=true ↔
      ∃ i ≤ a.length, ByteAbove signed a u b v i) := fun u v => idIsHigher_short_iff hlen hlt
  constructor
  · intro h
    have hbig : idIsHigher signed a 1 b 0=true := by
      rw [hhigher]
      refine ⟨a.length,le_rfl,?_⟩
      rw [byteAbove_behind hlen]
      cases signed <;> decide
    have hequal : idIsHigher signed a 0 b 0=true := (h 0 0).trans ((h 1 0).symm.trans hbig)
    obtain ⟨i,hi,habove⟩ := (hhigher 0 0).mp hequal
    obtain hi | rfl := Nat.lt_or_eq_of_le hi
    · exact ⟨i,hi,(byteAbove_inside hlen hi 0 0).mp habove⟩
    · rw [byteAbove_behind hlen] at habove
      exact absurd habove (lt_irrefl _)
  · intro h x' y'
    obtain ⟨i,hi,habove⟩ := h
    rw [(hhigher x y).mpr ⟨i,Nat.le_of_lt hi,habove⟩,
      (hhigher x' y').mpr ⟨i,Nat.le_of_lt hi,(byteAbove_inside hlen hi x' y').mpr habove⟩]

/-- The order of ids of one length, where the bytes behind them are compared as well. -/
theorem orders_short_iff (hlen : a.length=b.length) (hlt : a.length<2^31) :
    OrdersIds signed a b c x y z ↔
      (∃ i<a.length, ByteAbove signed a x b y i) ∧ ∀ i ≤ a.length, ¬ByteAbove signed b y a x i := by
  have hlower : idIsHigher signed b y a x=true ↔ ∃ i ≤ a.length, ByteAbove signed b y a x i := by
    rw [idIsHigher_short_iff hlen.symm (hlen ▸ hlt),hlen]
  constructor
  · intro h
    obtain ⟨i,hi,habove⟩ := (behind_iff hlen hlt).mp h.behind
    have hhigher : idIsHigher signed a x b y=true := by
      rw [idIsHigher_short_iff hlen hlt]
      exact ⟨i,Nat.le_of_lt hi,habove⟩
    refine ⟨⟨i,hi,habove⟩,fun j hj hbelow => ?_⟩
    exact h.asymm ⟨hhigher,hlower.mpr ⟨j,hj,hbelow⟩⟩
  · intro h
    obtain ⟨⟨i,hi,habove⟩,hbelow⟩ := h
    have hhigher : idIsHigher signed a x b y=true := by
      rw [idIsHigher_short_iff hlen hlt]
      exact ⟨i,Nat.le_of_lt hi,habove⟩
    have hnot : ¬idIsHigher signed b y a x=true := by
      rw [hlower]
      intro hj
      obtain ⟨j,hj,hbelow'⟩ := hj
      exact hbelow j hj hbelow'
    have hasymm : ¬(idIsHigher signed a x b y=true ∧ idIsHigher signed b y a x=true) :=
      fun hboth => hnot hboth.2
    exact ⟨idIsHigher_irrefl signed a x,hasymm,idIsHigher_trans hasymm,
      fun _ _ => .inl ⟨hhigher,hnot⟩,(behind_iff hlen hlt).mpr ⟨i,hi,habove⟩⟩

/-- On ids of 2 GiB and more the loop ends before the bytes behind them. -/
theorem orders_long_iff (hlen : a.length=b.length) (hlong : ¬a.length<2^31) :
    OrdersIds signed a b c x y z ↔
      a=b ∨ Xor (idIsHigher signed a x b y=true) (idIsHigher signed b y a x=true) := by
  have hbehind : ∀ x' y', idIsHigher signed a x' b y'=idIsHigher signed a x b y := by
    intro x' y'
    rw [Bool.eq_iff_iff,idIsHigher_iff hlen,idIsHigher_iff hlen]
    refine exists_congr fun i => and_congr_right fun hi => and_congr_right fun hstart => ?_
    exact byteAbove_inside hlen (by omega) x' y'
  constructor
  · intro h
    by_cases hab : a=b
    · exact .inl hab
    · exact .inr (h.total hlen hab)
  · intro h
    have hasymm : ¬(idIsHigher signed a x b y=true ∧ idIsHigher signed b y a x=true) := by
      obtain rfl | hxor := h
      · intro hboth
        obtain ⟨hab,-⟩ := hboth
        rw [← hbehind x x,idIsHigher_irrefl] at hab
        cases hab
      · intro hboth
        obtain ⟨-,hnot⟩ | ⟨-,hnot⟩ := hxor
        · exact hnot hboth.2
        · exact hnot hboth.1
    refine ⟨idIsHigher_irrefl signed a x,hasymm,idIsHigher_trans hasymm,fun _ hne => ?_,hbehind⟩
    exact h.resolve_left hne

end

/-- `cc_uuid_is_higher` orders ids that differ in length or whose bytes all agree on the order. -/
theorem orders_ids_iff (signed : Bool) (a b c : List UInt8) (x y z : UInt8) :
    OrdersIds signed a b c x y z ↔ AgreeOnOrder signed a x b y := by
  by_cases hlen : a.length=b.length
  · rw [AgreeOnOrder]
    simp only [ne_eq,hlen,not_true_eq_false,false_or]
    split
    · next hlt =>
      rw [orders_short_iff hlen (hlen ▸ hlt),hlen]
    · next hlong =>
      rw [orders_long_iff hlen (hlen ▸ hlong),idIsHigher_iff hlen,idIsHigher_iff hlen.symm,hlen]
  · have hasymm : ¬(idIsHigher signed a x b y=true ∧ idIsHigher signed b y a x=true) := by
      intro hboth
      have hle := length_le_of_idIsHigher hboth.1
      have hle' := length_le_of_idIsHigher hboth.2
      omega
    refine iff_of_true ⟨idIsHigher_irrefl signed a x,hasymm,idIsHigher_trans hasymm,
      fun h => absurd h hlen,fun x' y' => ?_⟩ (.inl hlen)
    obtain hlt | hlt := Nat.lt_or_gt_of_ne hlen
    · rw [idIsHigher_of_shorter hlt,idIsHigher_of_shorter hlt]
    · rw [idIsHigher_of_longer hlt,idIsHigher_of_longer hlt]

/-- Each of "ab" and "ba" is higher than the other, and "a" is higher than itself where the byte
behind it differs. -/
theorem ids_both_higher :
    ¬∀ (signed : Bool) (a b c : List UInt8) (x y z : UInt8), OrdersIds signed a b c x y z := by
  intro h
  have hboth := (h true [97,98] [98,97] [] 0 0 0).asymm
  revert hboth
  decide

end CalvinConstrained
