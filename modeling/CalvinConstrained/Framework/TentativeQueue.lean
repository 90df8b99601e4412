import CalvinConstrained.Framework.Run

namespace CalvinConstrained

/-- Bounded queue with tentative reads: `items` are held until released, oldest
first, and the first `peeked` of them have been handed out. `released` counts the
items already gone, so item `i` of the queue has the number `released+i`. -/
@[ext] structure TentativeQueue (α : Type*) where
  cap : Nat
  released : Nat
  items : List α
  peeked : Nat
  peeked_le : peeked ≤ items.length
  length_le : items.length ≤ cap

namespace TentativeQueue

variable {α : Type*}

def empty (cap : Nat) : TentativeQueue α := ⟨cap,0,[],0,Nat.le_refl _,Nat.zero_le _⟩

/-- Everything ever accepted, released or not. -/
def total (q : TentativeQueue α) : Nat := q.released+q.items.length

def write (q : TentativeQueue α) (a : α) : Bool × TentativeQueue α :=
  if h : q.items.length<q.cap then
    (true,⟨q.cap,q.released,q.items++[a],q.peeked,
      by simpa using Nat.le_succ_of_le q.peeked_le,by simpa using Nat.succ_le_of_lt h⟩)
  else (false,q)

/-- The oldest item not handed out yet; the caller checks that there is one. -/
def peek (q : TentativeQueue α) : Option α × TentativeQueue α :=
  if h : q.peeked<q.items.length then
    (some q.items[q.peeked],⟨q.cap,q.released,q.items,q.peeked+1,h,q.length_le⟩)
  else (none,q)

/-- Release the oldest item, provided it was handed out. -/
def commit (q : TentativeQueue α) : TentativeQueue α :=
  if h : 0<q.peeked then
    ⟨q.cap,q.released+1,q.items.tail,q.peeked-1,
      by rw [List.length_tail]; have := q.peeked_le; omega,
      by rw [List.length_tail]; have := q.length_le; omega⟩
  else q

/-- Take back everything handed out. -/
def rewind (q : TentativeQueue α) : TentativeQueue α :=
  ⟨q.cap,q.released,q.items,0,Nat.zero_le _,q.length_le⟩

def freeSlots (q : TentativeQueue α) : Nat := q.cap-q.items.length

def unpeeked (q : TentativeQueue α) : Nat := q.items.length-q.peeked

theorem total_write (q : TentativeQueue α) (a : α) : q.total ≤ (q.write a).2.total := by
  unfold write total
  split
  · simp only [List.length_append]
    omega
  · exact Nat.le_refl _

theorem total_peek (q : TentativeQueue α) : q.peek.2.total=q.total := by
  unfold peek total
  split <;> rfl

theorem total_commit (q : TentativeQueue α) : q.commit.total=q.total := by
  have hp := q.peeked_le
  unfold commit total
  split
  · simp only [List.length_tail]
    omega
  · rfl

end TentativeQueue

end CalvinConstrained
