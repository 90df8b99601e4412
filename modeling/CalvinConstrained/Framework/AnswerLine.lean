import CalvinConstrained.Framework.Run

namespace CalvinConstrained

/-- What is on its way back to the sender of numbered items: the receipt for one of them, or the
wish to have them again from one on. -/
inductive Notice
  | receipt (n : Nat)
  | again (n : Nat)
  deriving DecidableEq

/-- Read in order, the notices settle every number from `r` up to `t`. Receipts count in the order
of the numbers, and a wish settles all numbers from its own on. -/
def Settles : List Notice → Nat → Nat → Prop
  | [],r,t => t ≤ r
  | .receipt n::l,r,t => Settles l (if n=r then r+1 else r) t
  | .again n::l,r,t => Settles l r (min t n)

namespace Settles

variable {l l' : List Notice} {r t n k : Nat}

/-- Where nothing waits there is nothing to answer. -/
theorem of_le (h : t ≤ r) : Settles l r t := by
  induction l generalizing r t with
  | nil => exact h
  | cons x l ih =>
    cases x with
    | receipt n =>
      have hr : r ≤ if n=r then r+1 else r := by split <;> omega
      exact ih (h.trans hr)
    | again n => exact ih ((Nat.min_le_left t n).trans h)

theorem mono (hk : k ≤ t) (h : Settles l r t) : Settles l r k := by
  induction l generalizing r t k with
  | nil => exact hk.trans h
  | cons x l ih =>
    cases x with
    | receipt n => exact ih hk h
    | again n =>
      have hmin : min k n ≤ min t n := by omega
      exact ih hmin h

theorem append (l' : List Notice) (h : Settles l r t) : Settles (l++l') r t := by
  induction l generalizing r t with
  | nil => exact of_le h
  | cons x l ih =>
    cases x with
    | receipt n => exact ih h
    | again n => exact ih h

/-- An item that is sent will be answered. -/
theorem send (h : Settles l r t) : Settles (l++[.receipt t]) r (t+1) := by
  induction l generalizing r t with
  | nil =>
    have ht : t ≤ r := h
    change t+1 ≤ if t=r then r+1 else r
    split <;> omega
  | cons x l ih =>
    cases x with
    | receipt n => exact ih h
    | again n =>
      have h : Settles l r (min t n) := h
      change Settles (l++[.receipt t]) r (min (t+1) n)
      by_cases hn : n ≤ t
      · rw [Nat.min_eq_right (by omega)]
        rw [Nat.min_eq_right hn] at h
        exact h.append _
      · rw [Nat.min_eq_left (by omega)]
        rw [Nat.min_eq_left (by omega)] at h
        exact ih h

/-- The answer may turn out to be a refusal. -/
theorem refuse (h : Settles (l++.receipt n::l') r t) : Settles (l++.again n::l') r t := by
  induction l generalizing r t with
  | nil =>
    have h : Settles l' (if n=r then r+1 else r) t := h
    change Settles l' r (min t n)
    by_cases hn : n=r
    · exact of_le (by omega)
    · rw [if_neg hn] at h
      exact h.mono (Nat.min_le_left t n)
  | cons x l ih =>
    cases x with
    | receipt m => exact ih h
    | again m => exact ih h

/-- A receipt for what is no longer sent out changes nothing. -/
theorem late (hn : t ≤ n) (h : Settles (.receipt n::l) r t) : Settles l r t := by
  by_cases hr : n=r
  · exact of_le (by omega)
  · have h : Settles l (if n=r then r+1 else r) t := h
    rwa [if_neg hr] at h

theorem back (hn : n ≤ t) (h : Settles (.again n::l) r t) : Settles l r n := by
  have h : Settles l r (min t n) := h
  rwa [Nat.min_eq_right hn] at h

/-- Each number that waits has its receipt on the way, or a wish for it or an earlier one. -/
theorem waiting (h : Settles l r t) (hr : r ≤ k) (hk : k<t) :
    .receipt k ∈ l ∨ ∃ n ≤ k, .again n ∈ l := by
  induction l generalizing r t with
  | nil =>
    have ht : t ≤ r := h
    omega
  | cons x l ih =>
    cases x with
    | receipt n =>
      have h : Settles l (if n=r then r+1 else r) t := h
      by_cases hkn : k=n
      · exact .inl (hkn ▸ List.mem_cons_self)
      · have hnext : (if n=r then r+1 else r) ≤ k := by split <;> omega
        rcases ih h hnext hk with hmem | ⟨m,hm,hmem⟩
        · exact .inl (List.mem_cons_of_mem _ hmem)
        · exact .inr ⟨m,hm,List.mem_cons_of_mem _ hmem⟩
    | again n =>
      have h : Settles l r (min t n) := h
      by_cases hkn : k<n
      · rcases ih h hr (by omega) with hmem | ⟨m,hm,hmem⟩
        · exact .inl (List.mem_cons_of_mem _ hmem)
        · exact .inr ⟨m,hm,List.mem_cons_of_mem _ hmem⟩
      · exact .inr ⟨n,by omega,List.mem_cons_self⟩

end Settles

end CalvinConstrained
