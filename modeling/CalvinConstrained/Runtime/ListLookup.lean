import CalvinConstrained.Runtime.Lookup
import CalvinConstrained.Runtime.Node

namespace CalvinConstrained

/-- A terminated string, without its terminator. -/
@[ext] structure CString where
  bytes : Bytes
  noNul : 0 ∉ bytes
  deriving DecidableEq

namespace CString

def length (id : CString) : Nat := id.bytes.length

/-- `strncpy` of `len` bytes and a terminator. -/
def ofBytes (b : Bytes) (len : Nat) : CString where
  bytes := cstr (b.take len)
  noNul h := by simpa using List.mem_takeWhile_imp h

end CString

/-- `cc_list_t`. The length field is narrower than the length of a string. -/
structure ListItem (β : Type) where
  id : CString
  idLen : UInt32
  data : β
  idLen_eq : idLen=UInt32.ofNat id.length

namespace ListItem

variable {β : Type}

/-- `cc_list_add`; without memory nothing is added. -/
def add (alloc : Bool) (head : List (ListItem β)) (id : CString) (data : β) : List (ListItem β) :=
  if alloc then head++[⟨id,UInt32.ofNat id.length,data,rfl⟩] else head

/-- `cc_list_get_n`: the place of the item. -/
def getN (l : List (ListItem β)) (id : Bytes) (idLen : UInt32) : Option Nat :=
  l.findIdx? fun item => listIdMatches item.id.bytes ⟨id,idLen.toNat⟩

/-- `cc_list_get`. -/
def get (l : List (ListItem β)) (id : CString) : Option Nat :=
  l.findIdx? fun item =>
    decide (strnlen item.id.bytes uuidBufferSize=strnlen id.bytes uuidBufferSize) &&
      strncmpEq item.id.bytes id.bytes item.idLen.toNat

/-- `cc_list_remove`. -/
def remove (l : List (ListItem β)) (id : CString) : List (ListItem β) :=
  Atom.removeById (fun item => item.id.bytes) id.bytes l

/-- The three functions act on the first item that has the id. -/
structure ActAlike (l : List (ListItem β)) (id : CString) : Prop where
  getN : getN l id.bytes (UInt32.ofNat id.length)=l.findIdx? fun item => item.id=id
  get : get l id=l.findIdx? fun item => item.id=id
  remove : remove l id=l.eraseP fun item => item.id=id

/-- The items in front of the first that has the id. -/
def before (l : List (ListItem β)) (id : CString) : List (ListItem β) :=
  l.takeWhile fun item => item.id ≠ id

/-- The first `n` bytes of both ids are the same. -/
def SameStart (n : Nat) (id id' : CString) : Prop := id.bytes.take n=id'.bytes.take n

/-- No id in front of the one looked for is a part of it, or taken for it because of a length
that is cut off at 50 or at 32 bits; and an id that is there is not longer than 50. -/
structure Distinct (l : List (ListItem β)) (id : CString) : Prop where
  part : ∀ item ∈ before l id, ¬item.id.bytes <+: id.bytes
  stored : ∀ item ∈ before l id, ¬(min item.id.length 50=min id.length 50 ∧
    SameStart (item.id.length%2^32) item.id id)
  given : ∀ item ∈ before l id, ¬(min item.id.length 50=id.length%2^32 ∧
    SameStart (id.length%2^32) item.id id)
  length : (∃ item ∈ l, item.id=id) → min id.length 50=id.length%2^32

section Tests

variable {id id' : CString}

theorem strnlen_bytes (id : CString) : strnlen id.bytes uuidBufferSize=min id.length 50 := by
  rw [strnlen,cstr_of_not_mem (not_mem_take id.noNul _),List.length_take,Nat.min_comm]
  rfl

theorem strncmpEq_bytes (n : Nat) :
    strncmpEq id.bytes id'.bytes n=true ↔ SameStart n id id' := by
  rw [strncmpEq,cstr_of_not_mem (not_mem_take id.noNul n),
    cstr_of_not_mem (not_mem_take id'.noNul n),decide_eq_true_iff]
  rfl

theorem listRemoveMatches_iff :
    listRemoveMatches id.bytes id'.bytes=true ↔ id.bytes <+: id'.bytes := by
  rw [listRemoveMatches,strncmpEq_bytes,SameStart,List.take_length,List.prefix_iff_eq_take]

theorem getN_test_iff :
    listIdMatches id.bytes ⟨id'.bytes,(UInt32.ofNat id'.length).toNat⟩=true ↔
      min id.length 50=id'.length%2^32 ∧ SameStart (id'.length%2^32) id id' := by
  rw [listIdMatches,Bool.and_eq_true,decide_eq_true_iff,strnlen_bytes,strncmpEq_bytes,
    UInt32.toNat_ofNat']

theorem get_test_iff {item : ListItem β} :
    (decide (strnlen item.id.bytes uuidBufferSize=strnlen id.bytes uuidBufferSize) &&
      strncmpEq item.id.bytes id.bytes item.idLen.toNat)=true ↔
      min item.id.length 50=min id.length 50 ∧
        SameStart (item.id.length%2^32) item.id id := by
  rw [Bool.and_eq_true,decide_eq_true_iff,strnlen_bytes,strnlen_bytes,strncmpEq_bytes,
    item.idLen_eq,UInt32.toNat_ofNat']

end Tests

section Lists

variable {l : List (ListItem β)} {id : CString}

/-- A search with another test finds the first item with the id when the test fails on all items
in front of it and passes on it. -/
theorem findIdx?_iff {test : ListItem β → Bool} {c : Prop}
    (htest : ∀ item : ListItem β, item.id=id → (test item=true ↔ c)) :
    l.findIdx? test=(l.findIdx? fun item => item.id=id) ↔
      (∀ item ∈ before l id, ¬test item=true) ∧ ((∃ item ∈ l, item.id=id) → c) := by
  induction l with
  | nil => simp [before]
  | cons item l ih =>
    rw [List.findIdx?_cons,List.findIdx?_cons]
    by_cases hid : item.id=id
    · have hc := htest item hid
      by_cases hpass : test item=true
      · simp [before,hid,hpass,hc.mp hpass]
      · have hnot : ¬c := fun h => hpass (hc.mpr h)
        cases hfind : l.findIdx? test <;> simp [before,hid,hpass,hnot]
    · have hbefore : before (item::l) id=item::before l id := by simp [before,hid]
      have hex : (∃ item' ∈ item::l, item'.id=id) ↔ ∃ item' ∈ l, item'.id=id := by simp [hid]
      rw [hbefore,hex]
      by_cases hpass : test item=true
      · cases hfind : l.findIdx? fun item => decide (item.id=id) <;> simp [hid,hpass]
      · have hmap : ∀ a b : Option Nat, a.map (· + 1)=b.map (· + 1) ↔ a=b := fun a b =>
          (Option.map_injective (fun m n h => Nat.succ.inj h)).eq_iff
        rw [if_neg hpass,if_neg (by simpa using hid),hmap,ih]
        simp [hpass]

theorem remove_cons (item : ListItem β) (l : List (ListItem β)) :
    remove (item::l) id=if item.id.bytes <+: id.bytes then l else item::remove l id := by
  rw [remove,Atom.removeById]
  simp only [listRemoveMatches_iff]
  rfl

/-- Without the id there are fewer items that have it. -/
theorem countP_eraseP (h : ∃ item ∈ l, item.id=id) :
    (l.eraseP fun item => item.id=id).countP (fun item => item.id=id)<
      l.countP (fun item => item.id=id) := by
  induction l with
  | nil => simp at h
  | cons item l ih =>
    by_cases hid : item.id=id
    · simp [hid]
    · have hl : ∃ item ∈ l, item.id=id := by simpa [hid] using h
      simpa [hid] using ih hl

theorem cons_eraseP_ne {item : ListItem β} (hid : item.id ≠ id) :
    l ≠ item::l.eraseP fun item => item.id=id := by
  intro h
  by_cases hex : ∃ item ∈ l, item.id=id
  · have hless := countP_eraseP hex
    have hcount := congrArg (List.countP fun item => decide (item.id=id)) h
    simp only [List.countP_cons,hid,decide_false,Bool.false_eq_true,if_false] at hcount
    omega
  · push Not at hex
    have hsame : l.eraseP (fun item => item.id=id)=l :=
      List.eraseP_of_forall_not fun item hmem => by simpa using hex item hmem
    rw [hsame] at h
    have hlen := congrArg List.length h
    simp at hlen

theorem remove_iff :
    remove l id=(l.eraseP fun item => item.id=id) ↔
      ∀ item ∈ before l id, ¬item.id.bytes <+: id.bytes := by
  induction l with
  | nil => simp [remove,Atom.removeById,before]
  | cons item l ih =>
    rw [remove_cons]
    by_cases hid : item.id=id
    · simp [before,hid]
    · have hbefore : before (item::l) id=item::before l id := by simp [before,hid]
      rw [hbefore,List.eraseP_cons_of_neg (by simpa using hid)]
      split
      · next hpart =>
        constructor
        · exact fun h => absurd h (cons_eraseP_ne hid)
        · exact fun h => absurd hpart (h item List.mem_cons_self)
      · next hpart =>
        simp [hpart,ih]

/-- The lookups and the removal agree exactly when no id is taken for another. -/
theorem actAlike_iff (l : List (ListItem β)) (id : CString) : ActAlike l id ↔ Distinct l id := by
  have hgetN : getN l id.bytes (UInt32.ofNat id.length)=(l.findIdx? fun item => item.id=id) ↔ _ :=
    findIdx?_iff (c := min id.length 50=id.length%2^32) fun item hid => by
      rw [getN_test_iff,hid]
      exact and_iff_left rfl
  have hget : get l id=(l.findIdx? fun item => item.id=id) ↔ _ :=
    findIdx?_iff (c := True) fun item hid => by
      rw [get_test_iff,hid]
      simp [SameStart]
  simp only [getN_test_iff] at hgetN
  simp only [get_test_iff] at hget
  constructor
  · intro h
    obtain ⟨hgiven,hlength⟩ := hgetN.mp h.getN
    exact ⟨remove_iff.mp h.remove,(hget.mp h.get).1,hgiven,hlength⟩
  · intro h
    exact ⟨hgetN.mpr ⟨h.given,h.length⟩,hget.mpr ⟨h.stored,fun _ => trivial⟩,
      remove_iff.mpr h.part⟩

/-- For ids of less than 4 GiB only a length of 50 is cut off. -/
theorem distinct_iff_of_short (hid : id.length<2^32) (hl : ∀ item ∈ l, item.id.length<2^32) :
    Distinct l id ↔ (∀ item ∈ before l id, ¬item.id.bytes <+: id.bytes ∧
      ¬(id.length=50 ∧ id.bytes <+: item.id.bytes)) ∧ ((∃ item ∈ l, item.id=id) → id.length ≤ 50) := by
  have hmod : id.length%2^32=id.length := Nat.mod_eq_of_lt hid
  have hextends : ∀ item : ListItem β, SameStart id.length item.id id ↔
      id.bytes <+: item.id.bytes := by
    intro item
    rw [SameStart,CString.length,List.take_length,List.prefix_iff_eq_take]
    exact eq_comm
  have hpart : ∀ item ∈ before l id, SameStart (item.id.length%2^32) item.id id →
      item.id.bytes <+: id.bytes := by
    intro item hmem hsame
    have hshort := hl item ((List.takeWhile_prefix _).mem hmem)
    rw [Nat.mod_eq_of_lt hshort,SameStart,CString.length,List.take_length] at hsame
    rw [hsame]
    exact List.take_prefix _ _
  constructor
  · intro h
    refine ⟨fun item hmem => ⟨h.part item hmem,fun hlong => ?_⟩,fun hex => ?_⟩
    · obtain ⟨hlen,hbegins⟩ := hlong
      have hle : id.length ≤ item.id.length := hbegins.length_le
      refine h.given item hmem ⟨?_,?_⟩
      · rw [hmod]
        omega
      · rw [hmod]
        exact (hextends item).mpr hbegins
    · have hlen := h.length hex
      rw [hmod] at hlen
      omega
  · intro h
    obtain ⟨hbefore,hfound⟩ := h
    refine ⟨fun item hmem => (hbefore item hmem).1,fun item hmem hstored => ?_,
      fun item hmem hgiven => ?_,fun hex => ?_⟩
    · exact (hbefore item hmem).1 (hpart item hmem hstored.2)
    · obtain ⟨hlen,hsame⟩ := hgiven
      rw [hmod] at hlen hsame
      have hbegins := (hextends item).mp hsame
      have hle : id.length ≤ item.id.length := hbegins.length_le
      by_cases h50 : id.length=50
      · exact (hbefore item hmem).2 ⟨h50,hbegins⟩
      · have heq : item.id.length=id.length := by omega
        have hsame' : item.id.bytes=id.bytes := (hbegins.eq_of_length heq.symm).symm
        exact (hbefore item hmem).1 (hsame' ▸ List.prefix_rfl)
    · have hle := hfound hex
      rw [hmod]
      omega

end Lists

/-- Removing "ab" removes the item "a" in front of it. -/
theorem actAlike_fails : ¬∀ (l : List (ListItem Unit)) (id : CString), ActAlike l id := by
  intro h
  let a : CString := ⟨[97],by decide⟩
  let ab : CString := ⟨[97,98],by decide⟩
  have hact := (actAlike_iff _ _).mp (h (add true (add true [] a ()) ab ()) ab)
  refine hact.part ⟨a,1,(),rfl⟩ ?_ ⟨[98],rfl⟩
  simp [before,add,a,ab]
  rfl

end ListItem

end CalvinConstrained
