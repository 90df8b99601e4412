import Mathlib

namespace CalvinConstrained

abbrev Ref := Nat

instance decidableForallSome {α : Type*} {o : Option α} {p : α → Prop}
    [∀ x, Decidable (p x)] : Decidable (∀ x, o=some x → p x) :=
  match o with
  | none => isTrue fun _ h => (by cases h)
  | some x => if h : p x then isTrue (by rintro _ ⟨⟩; exact h) else isFalse fun k => h (k x rfl)

/-- Objects by reference. A freed object leaves an empty cell behind, and a reference
is never given out twice. -/
@[ext] structure Heap (α : Type*) where
  cells : List (Option α)
  deriving DecidableEq

namespace Heap

variable {α : Type*}

def empty : Heap α := ⟨[]⟩

def get (h : Heap α) (r : Ref) : Option α := (h.cells[r]?).join

/-- The reference the next allocation gives out. -/
def next (h : Heap α) : Ref := h.cells.length

def alloc (h : Heap α) (a : α) : Heap α := ⟨h.cells++[some a]⟩

def set (h : Heap α) (r : Ref) (a : α) : Heap α := ⟨h.cells.set r (some a)⟩

def free (h : Heap α) (r : Ref) : Heap α := ⟨h.cells.set r none⟩

@[simp] theorem get_empty (r : Ref) : (empty : Heap α).get r=none := rfl

theorem lt_next {h : Heap α} {r : Ref} {a : α} (hr : h.get r=some a) : r<h.next := by
  by_contra hn
  have hnone : h.cells[r]?=none := List.getElem?_eq_none (Nat.le_of_not_lt hn)
  simp [get,hnone] at hr

instance decidableForallGet {h : Heap α} {p : Ref → α → Prop} [∀ r a, Decidable (p r a)] :
    Decidable (∀ r a, h.get r=some a → p r a) :=
  decidable_of_iff (∀ r<h.next, ∀ a, h.get r=some a → p r a)
    ⟨fun k r a hr => k r (lt_next hr) a hr,fun k r _ a => k r a⟩

theorem cell_of_get {h : Heap α} {r : Ref} {a : α} (hr : h.get r=some a) :
    h.cells[r]?=some (some a) := by
  rw [get] at hr
  exact Option.join_eq_some_iff.mp hr

@[simp] theorem get_next (h : Heap α) : h.get h.next=none := by simp [get,next]

theorem get_alloc (h : Heap α) (a : α) (r : Ref) :
    (h.alloc a).get r=if r=h.next then some a else h.get r := by
  unfold get alloc next
  rcases Nat.lt_trichotomy r h.cells.length with hlt | heq | hgt
  · rw [if_neg (Nat.ne_of_lt hlt),List.getElem?_append_left hlt]
  · subst r
    simp
  · rw [if_neg (Nat.ne_of_gt hgt),List.getElem?_eq_none (by simpa using Nat.succ_le_of_lt hgt),
      List.getElem?_eq_none (Nat.le_of_lt hgt)]

theorem get_set {h : Heap α} {r : Ref} {b : α} (hr : h.get r=some b) (a : α) (q : Ref) :
    (h.set r a).get q=if q=r then some a else h.get q := by
  have hlt : r<h.cells.length := lt_next hr
  unfold get set
  by_cases hq : q=r
  · subst q
    simp [hlt]
  · rw [if_neg hq,List.getElem?_set_ne (Ne.symm hq)]

theorem get_set_self {h : Heap α} {r : Ref} {b : α} (hr : h.get r=some b) (a : α) :
    (h.set r a).get r=some a := by rw [get_set hr,if_pos rfl]

theorem set_set (h : Heap α) (r : Ref) (a b : α) : (h.set r a).set r b=h.set r b :=
  congrArg mk (List.set_set _)

theorem set_self {h : Heap α} {r : Ref} {a : α} (hr : h.get r=some a) : h.set r a=h := by
  obtain ⟨hlt,hcell⟩ := List.getElem?_eq_some_iff.mp (cell_of_get hr)
  unfold set
  rw [← hcell,List.set_getElem_self]

theorem set_alloc (h : Heap α) (a b : α) : (h.alloc a).set h.next b=h.alloc b := by
  unfold set alloc next
  simp

theorem get_free (h : Heap α) (r q : Ref) :
    (h.free r).get q=if q=r then none else h.get q := by
  unfold get free
  by_cases hq : q=r
  · subst q
    by_cases hlt : r<h.cells.length
    · simp [hlt]
    · rw [if_pos rfl,List.getElem?_eq_none (by simpa using Nat.le_of_not_lt hlt)]
      rfl
  · rw [if_neg hq,List.getElem?_set_ne (Ne.symm hq)]

@[simp] theorem next_alloc (h : Heap α) (a : α) : (h.alloc a).next=h.next+1 := by
  simp [next,alloc]

@[simp] theorem next_set (h : Heap α) (r : Ref) (a : α) : (h.set r a).next=h.next := by
  simp [next,set]

@[simp] theorem next_free (h : Heap α) (r : Ref) : (h.free r).next=h.next := by
  simp [next,free]

private theorem countP_set {β : Type*} (p : β → Bool) (l : List β) (i : Nat) (old new : β)
    (hi : l[i]?=some old) :
    (l.set i new).countP p+(if p old then 1 else 0)=l.countP p+(if p new then 1 else 0) := by
  induction l generalizing i with
  | nil => simp at hi
  | cons x l ih =>
    cases i with
    | zero =>
      simp only [List.getElem?_cons_zero,Option.some.injEq] at hi
      subst x
      simp only [List.set_cons_zero,List.countP_cons]
      omega
    | succ i =>
      simp only [List.getElem?_cons_succ] at hi
      have := ih i hi
      simp only [List.set_cons_succ,List.countP_cons]
      omega

end Heap

end CalvinConstrained
